import Mathlib.Data.List.Perm.Basic
import Mathlib.Logic.Function.Basic
import Sponge.Lib.Machine
import Sponge.Util.Socket

/-!
# Datagrams between UDP sockets

Any number of programs, each with a UDP socket bound to an address of its own, send and receive in
any order. The network between them holds the packets in flight: it may lose a packet, duplicate it,
and hand out those for one socket in any order. What `sendmsg` answers is left open as far as the
source does: it may fail, or take a part of the payload only, and then that part is the packet.

* `State`, `step` — the sockets and the packets in flight;
* `Sent.Sound`, `Delivery.Sound` — what a call of `sendto`, `send` or `recv` comes to;
* `datagrams_exact` — what is received was sent, whole, and no packet is received more often than
  there are copies of it.
-/

namespace Sponge.Datagrams

open Lib FileDescriptor UDPSocket

/-- The address of a socket, small enough to be stored. -/
abbrev BoundAddress : Type := {a : Address // a.bytes.length ≤ Address.storageSize}

structure Packet where
  source : BoundAddress
  destination : Address
  payload : List UInt8
  deriving DecidableEq

/-- A socket: its descriptor, and the address that it is connected to. -/
structure Endpoint where
  internalFd : FDWrapper
  peer : Option Address
  deriving DecidableEq

/-- The sockets of all programs, and the packets in flight. -/
structure State (ι : Type) where
  sockets : ι → Endpoint
  inFlight : List Packet

inductive Input (ι : Type) where
  | connect (i : ι) (address : Address) (answer : ZeroAnswer)
  | sendto (i : ι) (network : Network) (destination : Address) (payload : BufferViewList)
  | send (i : ι) (network : Network) (payload : BufferViewList)
  /-- the network loses the packet at a position -/
  | lose (k : ℕ)
  | duplicate (k : ℕ)
  /-- a socket receives the packet at a position -/
  | recv (i : ι) (mtu : Mtu) (k : ℕ)
  /-- a socket calls `recv`, whose `recvfrom` fails -/
  | recvFails (i : ι) (mtu : Mtu) (errno : {n : ℕ // n ≠ 0})

/-- What comes of a move: the result of a call, with the packet that it has sent or received. -/
inductive Output where
  | none
  | connected (r : Except Exn Unit)
  | sent (r : Except Exn Unit) (packet : Option Packet)
  | lost (packet : Packet)
  | duplicated (packet : Packet)
  | received (r : Except Exn ReceivedDatagram) (packet : Packet)
  | unanswered (r : Except Exn ReceivedDatagram)

def connect (answer : ZeroAnswer) : Except Exn Unit :=
  match systemCall "connect" answer.returnValue answer.errno 0 with
  | .error e => .error e
  | .ok _ => .ok ()

/-- The packet that `sendmsg` sends: as much of the buffers as it says. -/
def launch (source : BoundAddress) (destination : Address) (iovecs : List (List UInt8))
    (returnValue : ℤ) : Option Packet :=
  if returnValue = -1 then none
  else some ⟨source, destination, iovecs.flatten.take returnValue.toNat⟩

/-- What `recvfrom` answers with a packet. -/
def Packet.recvfrom (p : Packet) (h : p.payload.length < 2 ^ 31) : Recvfrom where
  datagram := p.payload
  sourceAddress := p.source.1.bytes
  answer := ⟨p.payload.length, 0, .inr ⟨rfl, by exact_mod_cast h⟩⟩

/-- What `recvfrom` answers when it fails. -/
def failedRecvfrom (errno : {n : ℕ // n ≠ 0}) : Recvfrom := ⟨[], [], ⟨-1, errno, .inl ⟨rfl, errno.2⟩⟩⟩

section Step

variable {ι : Type} [DecidableEq ι] (addr : ι → BoundAddress)

/-- The sockets, after a call on the descriptor of one. -/
def State.setFd (st : State ι) (i : ι) (w : FDWrapper) : ι → Endpoint :=
  Function.update st.sockets i { st.sockets i with internalFd := w }

/-- One move. An answer that the system does not give, such as a packet for somebody else, or one
taken from a socket that is not connected, changes nothing. -/
def step (st : State ι) : Input ι → Output × State ι
  | .connect i address answer =>
    (.connected (connect answer),
      if answer.returnValue = 0 then
        { st with sockets := Function.update st.sockets i { st.sockets i with peer := some address } }
      else st)
  | .sendto i network destination payload =>
    let r := sendto (st.sockets i).internalFd network destination payload
    let packet := launch (addr i) destination payload.asIovecs
      (network (some destination) payload.asIovecs).returnValue
    (.sent r.1 packet, ⟨st.setFd i r.2, st.inFlight ++ packet.toList⟩)
  | .send i network payload =>
    let r := send (st.sockets i).internalFd network payload
    match (st.sockets i).peer with
    | none =>
      if (network none payload.asIovecs).returnValue = -1 then
        (.sent r.1 none, ⟨st.setFd i r.2, st.inFlight⟩)
      else (.none, st)
    | some peer =>
      let packet := launch (addr i) peer payload.asIovecs
        (network none payload.asIovecs).returnValue
      (.sent r.1 packet, ⟨st.setFd i r.2, st.inFlight ++ packet.toList⟩)
  | .lose k =>
    match st.inFlight[k]? with
    | none => (.none, st)
    | some p => (.lost p, { st with inFlight := st.inFlight.eraseIdx k })
  | .duplicate k =>
    match st.inFlight[k]? with
    | none => (.none, st)
    | some p => (.duplicated p, { st with inFlight := st.inFlight ++ [p] })
  | .recv i mtu k =>
    match st.inFlight[k]? with
    | none => (.none, st)
    | some p =>
      if h : p.destination = (addr i).1 ∧ p.payload.length < 2 ^ 31 then
        let r := recv (st.sockets i).internalFd mtu (p.recvfrom h.2)
        (.received r.1 p, ⟨st.setFd i r.2, st.inFlight.eraseIdx k⟩)
      else (.none, st)
  | .recvFails i mtu errno =>
    let r := recv (st.sockets i).internalFd mtu (failedRecvfrom errno)
    (.unanswered r.1, ⟨st.setFd i r.2, st.inFlight⟩)

def machine : Machine (State ι) (Input ι) Output := ⟨step addr⟩

@[simp] lemma machine_step (st : State ι) (i : Input ι) : (machine addr).step st i = step addr st i :=
  rfl

def init (fd : ι → ℕ) : State ι := ⟨fun i => ⟨{ fd := fd i }, none⟩, []⟩

end Step

/-! ### Calls -/

/-- A call of `sendto` or `send`: the socket, the destination, the payload, what the call has come to,
and the packet that it has sent. -/
structure Sent (ι : Type) where
  socket : ι
  destination : Address
  given : BufferViewList
  result : Except Exn Unit
  packet : Option Packet

/-- A packet says who sent it and goes where it was sent. It carries a prefix of the payload, and all
of it if the call has returned. -/
structure Sent.Sound {ι : Type} (addr : ι → BoundAddress) (s : Sent ι) : Prop where
  source : ∀ p, s.packet = some p → p.source = addr s.socket
  destination : ∀ p, s.packet = some p → p.destination = s.destination
  isPrefix : ∀ p, s.packet = some p → p.payload <+: s.given.bytes
  returns : s.result = .ok () → s.given.bytes.length < 2 ^ 64 →
    s.packet = some ⟨addr s.socket, s.destination, s.given.bytes⟩

/-- A call of `recv` that was answered with a packet. -/
structure Delivery (ι : Type) where
  socket : ι
  mtu : Mtu
  packet : Packet
  result : Except Exn ReceivedDatagram

/-- The packet was for the socket. If it is no longer than `mtu` it is returned as it is, with the
address of its sender, and else the call throws. -/
structure Delivery.Sound {ι : Type} (addr : ι → BoundAddress) (d : Delivery ι) : Prop where
  destination : d.packet.destination = (addr d.socket).1
  fits : d.packet.payload.length ≤ d.mtu → d.result = .ok ⟨d.packet.source.1, d.packet.payload⟩
  oversized : ¬ d.packet.payload.length ≤ d.mtu →
    d.result = .error (.runtimeError "recvfrom (oversized datagram)")

lemma recv_datagram (w : FDWrapper) (mtu : Mtu) (r : Recvfrom) {source : Address}
    (hr : r.answer.returnValue = r.datagram.length) (hlt : r.datagram.length < 2 ^ 31)
    (hsource : Address.ofSockaddr r.sourceAddress = .ok source) :
    recv w mtu r =
      if r.datagram.length ≤ mtu then (.ok ⟨source, r.datagram⟩, registerRead w)
      else (.error (.runtimeError "recvfrom (oversized datagram)"), w) := by
  have hmtu : toSSizeT mtu = (mtu : ℕ) := toSSizeT_of_lt mtu.2
  have hcall : systemCall "recvfrom" r.answer.returnValue r.answer.errno 0 =
      .ok ((r.datagram.length : ℕ) : ℤ) := by
    rw [hr]
    exact systemCall_of_lt hlt
  by_cases hle : r.datagram.length ≤ mtu
  · have hshort : ¬ ((r.datagram.length : ℕ) : ℤ) > (mtu : ℕ) := by omega
    have hsize : toSizeT ((r.datagram.length : ℕ) : ℤ) = r.datagram.length :=
      toSizeT_of_lt (by omega)
    simp only [recv, recvInto, hcall, hmtu, if_neg hshort, hsource, hsize,
      List.take_of_length_le hle, resize_append, if_pos hle]
  · have hlong : ((r.datagram.length : ℕ) : ℤ) > (mtu : ℕ) := by omega
    simp only [recv, recvInto, hcall, hmtu, if_pos hlong, if_neg hle]

lemma recv_packet (w : FDWrapper) (mtu : Mtu) (p : Packet) (h : p.payload.length < 2 ^ 31) :
    recv w mtu (p.recvfrom h) =
      if p.payload.length ≤ mtu then (.ok ⟨p.source.1, p.payload⟩, registerRead w)
      else (.error (.runtimeError "recvfrom (oversized datagram)"), w) :=
  recv_datagram w mtu (p.recvfrom h) rfl h (if_neg (Nat.not_lt.2 p.source.2))

lemma recv_failed (w : FDWrapper) (mtu : Mtu) (errno : {n : ℕ // n ≠ 0}) :
    (recv w mtu (failedRecvfrom errno)).1 = .error (.unixError "recvfrom" errno) := by
  simp only [recv, recvInto, failedRecvfrom, systemCall_of_fail errno.2]

/-- `sendmsg_helper`, and the packet that its system call sends. -/
lemma sent_sound {ι : Type} (addr : ι → BoundAddress) (i : ι) (network : Network)
    (name : Option Address) (destination : Address) (payload : BufferViewList) :
    Sent.Sound addr ⟨i, destination, payload, sendmsgHelper network name payload,
      launch (addr i) destination payload.asIovecs
        (network name payload.asIovecs).returnValue⟩ := by
  have hbytes : payload.asIovecs.flatten = payload.bytes := by
    rw [BufferViewList.asIovecs_eq, BufferViewList.bytes]
  have hcases := sendmsgHelper_cases network name payload
  have hanswer := (network name payload.asIovecs).fails_or_returns
  unfold SendsAll at hcases
  generalize (network name payload.asIovecs).returnValue = v at hcases hanswer
  generalize sendmsgHelper network name payload = r at hcases
  have hpacket : ∀ p, launch (addr i) destination payload.asIovecs v = some p →
      p = ⟨addr i, destination, payload.bytes.take v.toNat⟩ := by
    intro p hp
    rw [launch, hbytes] at hp
    split_ifs at hp
    exact (Option.some.inj hp).symm
  refine ⟨?_, ?_, ?_, ?_⟩
  · intro p hp
    rw [hpacket p hp]
  · intro p hp
    rw [hpacket p hp]
  · intro p hp
    rw [hpacket p hp]
    exact List.take_prefix _ _
  · rintro rfl hlen
    replace hlen : payload.bytes.length < 2 ^ 64 := hlen
    rcases hcases with ⟨-, e, herr⟩ | ⟨hpos, hall, -⟩ | ⟨-, -, e, herr⟩
    · cases herr
    · have hsize := hall hpos
      rw [BufferViewList.size_eq, Nat.mod_eq_of_lt hlen] at hsize
      unfold toSizeT at hsize
      have hlt : v < 2 ^ 31 := by
        rcases hanswer with ⟨hfail, -⟩ | ⟨-, -, hlt⟩
        · omega
        · exact hlt
      have hv : v.toNat = payload.bytes.length := by omega
      have hne : v ≠ -1 := by omega
      simp only [launch, if_neg hne, hbytes, hv, List.take_length]
    · cases herr

lemma sendto_fst (w : FDWrapper) (network : Network) (destination : Address)
    (payload : BufferViewList) :
    (sendto w network destination payload).1 = sendmsgHelper network (some destination) payload := by
  unfold sendto
  split <;> simp [*]

lemma send_fst (w : FDWrapper) (network : Network) (payload : BufferViewList) :
    (send w network payload).1 = sendmsgHelper network none payload := by
  unfold send
  split <;> simp [*]

/-! ### What a run has sent, lost and delivered -/

section Runs

variable {ι : Type}

/-- The call that has sent something in a move, or tried to. -/
def sentBy (m : Move (State ι) (Input ι) Output) : Option (Sent ι) :=
  match m.input, m.output with
  | .sendto i _ destination payload, .sent r packet => some ⟨i, destination, payload, r, packet⟩
  | .send i _ payload, .sent r packet =>
    (m.before.sockets i).peer.map fun peer => ⟨i, peer, payload, r, packet⟩
  | _, _ => none

/-- The call of `recv` that was answered with a packet in a move. -/
def deliveredBy (m : Move (State ι) (Input ι) Output) : Option (Delivery ι) :=
  match m.input, m.output with
  | .recv i mtu _, .received r packet => some ⟨i, mtu, packet, r⟩
  | _, _ => none

/-- What a call of `recv` has come to in a move that was not answered with a packet. -/
def unansweredBy (m : Move (State ι) (Input ι) Output) : Option (Except Exn ReceivedDatagram) :=
  match m.output with
  | .unanswered r => some r
  | _ => none

def lostBy (m : Move (State ι) (Input ι) Output) : Option Packet :=
  match m.output with
  | .lost p => some p
  | _ => none

def duplicatedBy (m : Move (State ι) (Input ι) Output) : Option Packet :=
  match m.output with
  | .duplicated p => some p
  | _ => none

def launched (tr : List (Move (State ι) (Input ι) Output)) : List Packet :=
  (tr.filterMap sentBy).filterMap Sent.packet

/-- The packets that have been taken from the network by calls of `recv`. -/
def taken (tr : List (Move (State ι) (Input ι) Output)) : List Packet :=
  (tr.filterMap deliveredBy).map Delivery.packet

/-- What one move does to the packets in flight, and what its call comes to. -/
structure Moves (addr : ι → BoundAddress) (m : Move (State ι) (Input ι) Output) : Prop where
  sent : ∀ s, sentBy m = some s → s.Sound addr
  delivered : ∀ d, deliveredBy m = some d → d.Sound addr ∧ d.packet ∈ m.before.inFlight
  unanswered : ∀ r, unansweredBy m = some r → ∃ e, r = .error e
  duplicated : ∀ p, duplicatedBy m = some p → p ∈ m.before.inFlight
  conserved : (m.before.inFlight ++ (launched [m] ++ (duplicatedBy m).toList)).Perm
    (m.after.inFlight ++ ((lostBy m).toList ++ taken [m]))

variable {addr : ι → BoundAddress}

lemma perm_eraseIdx {l : List Packet} {k : ℕ} {p : Packet} (h : l[k]? = some p) :
    l.Perm (l.eraseIdx k ++ [p]) := by
  obtain ⟨hk, rfl⟩ := List.getElem?_eq_some_iff.1 h
  exact (List.getElem_cons_eraseIdx_perm hk).symm.trans (List.perm_append_singleton _ _).symm

lemma Moves.quiet {m : Move (State ι) (Input ι) Output} (hsent : sentBy m = none)
    (hdelivered : deliveredBy m = none) (hunanswered : unansweredBy m = none)
    (hduplicated : duplicatedBy m = none) (hlost : lostBy m = none)
    (hsame : m.after.inFlight = m.before.inFlight) : Moves addr m := by
  refine ⟨?_, ?_, fun r hr => (by rw [hunanswered] at hr; cases hr), ?_, ?_⟩
  · intro s hs
    rw [hsent] at hs
    cases hs
  · intro d hd
    rw [hdelivered] at hd
    cases hd
  · intro p hp
    rw [hduplicated] at hp
    cases hp
  · simp [launched, taken, hsent, hdelivered, hduplicated, hlost, hsame]

lemma Moves.sending {m : Move (State ι) (Input ι) Output} {s : Sent ι} (hsent : sentBy m = some s)
    (hsound : s.Sound addr) (hdelivered : deliveredBy m = none)
    (hunanswered : unansweredBy m = none) (hduplicated : duplicatedBy m = none)
    (hlost : lostBy m = none)
    (hafter : m.after.inFlight = m.before.inFlight ++ s.packet.toList) : Moves addr m := by
  refine ⟨?_, ?_, fun r hr => (by rw [hunanswered] at hr; cases hr), ?_, ?_⟩
  · intro s' hs'
    rw [hsent] at hs'
    cases hs'
    exact hsound
  · intro d hd
    rw [hdelivered] at hd
    cases hd
  · intro p hp
    rw [hduplicated] at hp
    cases hp
  · have hpacket : launched [m] = s.packet.toList := by
      cases h : s.packet <;> simp [launched, hsent, h]
    simp [taken, hpacket, hdelivered, hduplicated, hlost, hafter]

section Step

variable [DecidableEq ι]

lemma Moves.idle {st : State ι} {i : Input ι} (h : step addr st i = (.none, st)) :
    Moves addr ((machine addr).move st i) := by
  rw [(machine addr).move_eq ((machine_step addr st i).trans h)]
  refine .quiet ?_ ?_ rfl rfl rfl rfl
  · cases i <;> rfl
  · cases i <;> rfl

lemma moves_send (st : State ι) (i : ι) (network : Network) (payload : BufferViewList) :
    Moves addr ((machine addr).move st (.send i network payload)) := by
  cases hpeer : (st.sockets i).peer with
  | none =>
    by_cases hfail : (network none payload.asIovecs).returnValue = -1
    · have hstep : step addr st (.send i network payload) =
          (.sent (send (st.sockets i).internalFd network payload).1 none,
            ⟨st.setFd i (send (st.sockets i).internalFd network payload).2, st.inFlight⟩) := by
        rw [step, hpeer]
        exact if_pos hfail
      rw [(machine addr).move_eq ((machine_step addr st _).trans hstep)]
      refine .quiet ?_ rfl rfl rfl rfl rfl
      simp [sentBy, hpeer]
    · have hstep : step addr st (.send i network payload) = (.none, st) := by
        rw [step, hpeer]
        exact if_neg hfail
      exact .idle hstep
  | some peer =>
    have hstep : step addr st (.send i network payload) =
        (.sent (send (st.sockets i).internalFd network payload).1
          (launch (addr i) peer payload.asIovecs (network none payload.asIovecs).returnValue),
          ⟨st.setFd i (send (st.sockets i).internalFd network payload).2, st.inFlight ++
            (launch (addr i) peer payload.asIovecs
              (network none payload.asIovecs).returnValue).toList⟩) := by
      rw [step, hpeer]
    rw [(machine addr).move_eq ((machine_step addr st _).trans hstep)]
    refine .sending (s := ⟨i, peer, payload, _, _⟩) ?_
      (sent_sound addr i network none peer payload) rfl rfl rfl rfl rfl
    simp [sentBy, hpeer, send_fst]

lemma moves_recv (st : State ι) (i : ι) (mtu : Mtu) (k : ℕ) :
    Moves addr ((machine addr).move st (.recv i mtu k)) := by
  cases hk : st.inFlight[k]? with
  | none => exact .idle (by rw [step, hk])
  | some p =>
    by_cases h : p.destination = (addr i).1 ∧ p.payload.length < 2 ^ 31
    · have hstep : step addr st (.recv i mtu k) =
          (.received (recv (st.sockets i).internalFd mtu (p.recvfrom h.2)).1 p,
            ⟨st.setFd i (recv (st.sockets i).internalFd mtu (p.recvfrom h.2)).2,
              st.inFlight.eraseIdx k⟩) := by
        simp only [step, hk]
        exact dif_pos h
      rw [(machine addr).move_eq ((machine_step addr st _).trans hstep)]
      refine ⟨nofun, ?_, nofun, nofun, ?_⟩
      · intro d hd
        cases hd
        refine ⟨⟨h.1, ?_, ?_⟩, List.mem_of_getElem? hk⟩
        · intro hfits
          rw [recv_packet, if_pos hfits]
        · intro hlong
          rw [recv_packet, if_neg hlong]
      · show (st.inFlight ++ []).Perm (st.inFlight.eraseIdx k ++ [p])
        simpa using perm_eraseIdx hk
    · have hstep : step addr st (.recv i mtu k) = (.none, st) := by
        simp only [step, hk]
        exact dif_neg h
      exact .idle hstep

/-- **One move.** -/
theorem moves (st : State ι) (i : Input ι) : Moves addr ((machine addr).move st i) := by
  cases i with
  | connect i address answer =>
    refine .quiet rfl rfl rfl rfl rfl ?_
    show (if answer.returnValue = 0 then _ else st : State ι).inFlight = st.inFlight
    split <;> rfl
  | sendto i network destination payload =>
    refine .sending rfl ?_ rfl rfl rfl rfl rfl
    rw [sendto_fst]
    exact sent_sound addr i network (some destination) destination payload
  | send i network payload => exact moves_send st i network payload
  | lose k =>
    cases hk : st.inFlight[k]? with
    | none => exact .idle (by rw [step, hk])
    | some p =>
      have hstep : step addr st (.lose k) =
          (.lost p, { st with inFlight := st.inFlight.eraseIdx k }) := by
        rw [step, hk]
      rw [(machine addr).move_eq ((machine_step addr st _).trans hstep)]
      refine ⟨nofun, nofun, nofun, nofun, ?_⟩
      show (st.inFlight ++ []).Perm (st.inFlight.eraseIdx k ++ ([p] ++ []))
      simpa using perm_eraseIdx hk
  | duplicate k =>
    cases hk : st.inFlight[k]? with
    | none => exact .idle (by rw [step, hk])
    | some p =>
      have hstep : step addr st (.duplicate k) =
          (.duplicated p, { st with inFlight := st.inFlight ++ [p] }) := by
        rw [step, hk]
      rw [(machine addr).move_eq ((machine_step addr st _).trans hstep)]
      refine ⟨nofun, nofun, nofun, ?_, ?_⟩
      · intro p' hp'
        cases hp'
        exact List.mem_of_getElem? hk
      · show (st.inFlight ++ [p]).Perm ((st.inFlight ++ [p]) ++ [])
        simp
  | recv i mtu k => exact moves_recv st i mtu k
  | recvFails i mtu errno =>
    have hstep : step addr st (.recvFails i mtu errno) =
        (.unanswered (recv (st.sockets i).internalFd mtu (failedRecvfrom errno)).1,
          ⟨st.setFd i (recv (st.sockets i).internalFd mtu (failedRecvfrom errno)).2,
            st.inFlight⟩) := rfl
    rw [(machine addr).move_eq ((machine_step addr st _).trans hstep)]
    refine ⟨nofun, nofun, fun r hr => ?_, nofun, ?_⟩
    · obtain rfl := Option.some.inj hr
      exact ⟨_, recv_failed _ mtu errno⟩
    · exact List.Perm.refl (st.inFlight ++ [])

end Step

/-- **The account** of a trace and the state it leads to. -/
structure Account (addr : ι → BoundAddress) (tr : List (Move (State ι) (Input ι) Output))
    (st : State ι) : Prop where
  sent : ∀ s ∈ tr.filterMap sentBy, s.Sound addr
  delivered : ∀ d ∈ tr.filterMap deliveredBy, d.Sound addr ∧ d.packet ∈ launched tr
  /-- Without a packet, a `recv` throws. -/
  unanswered : ∀ r ∈ tr.filterMap unansweredBy, ∃ e, r = .error e
  /-- What was sent, and the copies, are in flight, lost or taken. -/
  conserved : (launched tr ++ tr.filterMap duplicatedBy).Perm
    (st.inFlight ++ (tr.filterMap lostBy ++ taken tr))
  genuine : ∀ p ∈ st.inFlight, p ∈ launched tr

lemma launched_append (tr tr' : List (Move (State ι) (Input ι) Output)) :
    launched (tr ++ tr') = launched tr ++ launched tr' := by
  simp [launched]

lemma taken_append (tr tr' : List (Move (State ι) (Input ι) Output)) :
    taken (tr ++ tr') = taken tr ++ taken tr' := by
  simp [taken]

theorem Account.step {addr : ι → BoundAddress} {tr : List (Move (State ι) (Input ι) Output)}
    {m : Move (State ι) (Input ι) Output} (h : Account addr tr m.before) (hm : Moves addr m) :
    Account addr (tr ++ [m]) m.after := by
  have hgenuine : ∀ p, p ∈ m.before.inFlight ++ (launched [m] ++ (duplicatedBy m).toList) →
      p ∈ launched (tr ++ [m]) := by
    intro p hp
    rw [launched_append, List.mem_append]
    rcases List.mem_append.1 hp with hp | hp
    · exact .inl (h.genuine p hp)
    rcases List.mem_append.1 hp with hp | hp
    · exact .inr hp
    · exact .inl (h.genuine p (hm.duplicated p (Option.mem_toList.1 hp)))
  refine ⟨?_, ?_, ?_, ?_, ?_⟩
  · intro s hs
    rw [filterMap_snoc, List.mem_append, Option.mem_toList] at hs
    exact hs.elim (h.sent s) (hm.sent s)
  · intro d hd
    rw [filterMap_snoc, List.mem_append, Option.mem_toList] at hd
    rcases hd with hd | hd
    · obtain ⟨hsound, hmem⟩ := h.delivered d hd
      rw [launched_append]
      exact ⟨hsound, List.mem_append_left _ hmem⟩
    · obtain ⟨hsound, hmem⟩ := hm.delivered d hd
      exact ⟨hsound, hgenuine _ (List.mem_append_left _ hmem)⟩
  · intro r hr
    rw [filterMap_snoc, List.mem_append, Option.mem_toList] at hr
    exact hr.elim (h.unanswered r) (hm.unanswered r)
  · rw [launched_append, taken_append, filterMap_snoc, filterMap_snoc]
    -- both accounts, packet by packet
    rw [List.perm_iff_count]
    intro p
    have hold := h.conserved.count_eq p
    have hnew := hm.conserved.count_eq p
    simp only [List.count_append] at hold hnew ⊢
    omega
  · intro p hp
    exact hgenuine p (hm.conserved.mem_iff.2 (List.mem_append_left _ hp))

variable [DecidableEq ι]

/-- **Datagrams arrive whole or not at all.** Whatever the programs do and the network loses, copies
and reorders: a datagram that `recv` returns is the whole of a packet that was sent to this socket,
with the address of the socket that sent it, and the whole of its payload, if that call of `sendto` or
`send` returned; a packet longer than `mtu` is never returned cut off, and without a packet `recv`
throws. No packet is received more often than it was sent and copied. -/
theorem datagrams_exact (addr : ι → BoundAddress) (fd : ι → ℕ) (is : List (Input ι)) :
    Account addr ((machine addr).trace (init fd) is) ((machine addr).run (init fd) is) :=
  (machine addr).history (J := fun tr st => Account addr tr st)
    ⟨by simp, by simp, by simp, by simp [launched, taken, init], by simp [init]⟩
    (fun tr st i h => Account.step (m := (machine addr).move st i) h (moves st i)) is

end Runs

end Sponge.Datagrams
