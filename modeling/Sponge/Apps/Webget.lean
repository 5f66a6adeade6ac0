import Sponge.Util.Address
import Sponge.Util.Handles

/-!
# `get_URL` of `webget`

The program over a network that answers in any way: `getURL` follows the source statement by
statement and keeps a list of what it did on the socket and on the standard output, in order.

* `Network`, `Event` — what the program asks, and what it does;
* `readLoop`, `body`, `getURL` — the loop until the end of the file, the statements that use the
  socket, the function with the destructor of the socket at its end;
* `readLoop_spec` — the loop ends at the first read that brings nothing;
* `get_URL_exact` — both directions, byte for byte.
-/

namespace Sponge.Webget

open Lib FileDescriptor Socket Address

/-! ### The program -/

/-- What the outside answers: each of `read`, `writev` and `close` by the number of the call. -/
structure Network where
  resolver : Resolver
  socket : SysAnswer fun v => 0 ≤ v ∧ v < 2 ^ 31
  connect : Address → ZeroAnswer
  writev : Kernel
  shutdown : ZeroAnswer
  read : ℕ → ReadAnswer (sizeToRead noLimit)
  close : ℕ → ZeroAnswer

/-- What the program does: the bytes that the socket took in a call of `write`, a call of
`shutdown`, a read with the bytes it brought, a read that failed, and an output. -/
inductive Event where
  | sent (bytes : List UInt8)
  | shutdown (how : ℤ)
  | read (data : List UInt8)
  | readFails
  | cout (bytes : List UInt8)
  deriving DecidableEq, Repr

/-- `Address(host, "http")`. -/
def Network.address (net : Network) (host : List UInt8) : Except Thrown Address :=
  ofHostname net.resolver (host.map fun b => Char.ofNat b.toNat) "http".toList

def request (host path : List UInt8) : List UInt8 :=
  ascii "GET " ++ path ++ ascii " HTTP/1.1\r\nHost: " ++ host ++ ascii "\r\n\r\n"

/-- The socket, what was done, the number of reads made, and the calls of `::close`. -/
structure State where
  socket : FDWrapper
  events : List Event
  reads : ℕ
  closes : List ZeroAnswer

/-- `while (!socket.eof())`; `none` if the fuel runs out. -/
def readLoop (net : Network) : ℕ → State → Option (Except Exn Unit × State)
  | 0, _ => none
  | fuel + 1, s =>
    if s.socket.eof then some (.ok (), s)
    else
      match FileDescriptor.read s.socket noLimit (net.read s.reads) with
      | (.error e, socket) =>
        some (.error e, { s with socket, events := s.events ++ [.readFails], reads := s.reads + 1 })
      | (.ok res, socket) =>
        readLoop net fuel
          { s with socket, events := s.events ++ [.read res, .cout res], reads := s.reads + 1 }

def closeSocket (net : Network) (s : State) : Except Exn Unit × State :=
  let (result, socket, closes) := s.socket.close s.closes (net.close s.closes.length)
  (result, { s with socket, closes })

/-- The statements from `socket.connect(addr)` on. -/
def body (net : Network) (fuel : ℕ) (addr : Address) (host path : List UInt8) (s : State) :
    Option (Except Exn Unit × State) :=
  match systemCall "connect" (net.connect addr).returnValue (net.connect addr).errno 0 with
  | .error e => some (.error e, s)
  | .ok _ =>
    match write net.writev fuel s.socket ⟨[], 0⟩ (BufferViewList.ofView (request host path)) true with
    | none => none
    | some (.error e, socket, sink) =>
      some (.error e, { s with socket, events := s.events ++ [.sent sink.accepted] })
    | some (.ok _, socket, sink) =>
      match Socket.shutdown socket SHUT_WR net.shutdown with
      | (.error e, socket) =>
        some (.error e,
          { s with socket, events := s.events ++ [.sent sink.accepted, .shutdown SHUT_WR] })
      | (.ok (), socket) =>
        match readLoop net fuel
            { s with socket, events := s.events ++ [.sent sink.accepted, .shutdown SHUT_WR] } with
        | none => none
        | some (.error e, s) => some (.error e, s)
        | some (.ok (), s) => some (closeSocket net s)

/-- What a call of `get_URL` leaves: what it returns or throws, what it did, the calls of `::close`,
and the exception that the destructor of `socket` has caught. -/
structure Ended where
  result : Except Thrown Unit
  events : List Event
  closes : List ZeroAnswer
  caught : Option Exn

/-- The end of `get_URL`, where `socket` is destroyed. -/
def endOf (net : Network) (r : Except Exn Unit) (s : State) : Ended where
  result := r.mapError Thrown.exn
  events := s.events
  closes := (s.socket.destruct s.closes (net.close s.closes.length)).2
  caught := (s.socket.destruct s.closes (net.close s.closes.length)).1

/-- `get_URL(host, path)`. -/
def getURL (net : Network) (fuel : ℕ) (host path : List UInt8) : Option Ended :=
  match net.address host with
  | .error e => some ⟨.error e, [], [], none⟩
  | .ok addr =>
    match systemCall "socket" net.socket.returnValue net.socket.errno 0 with
    | .error e => some ⟨.error (.exn e), [], [], none⟩
    | .ok fd =>
      (body net fuel addr host path ⟨{ fd := fd.toNat }, [], 0, []⟩).map fun r => endOf net r.1 r.2

/-! ### The loop -/

/-- The answers under which the program comes to write: the host is resolved, there is a socket, it
is connected, and shutting down its write side succeeds. -/
structure Connects (net : Network) (host : List UInt8) : Prop where
  resolves : ∃ addr, net.address host = .ok addr
  opens : 0 ≤ net.socket.returnValue
  connects : ∀ addr, (net.connect addr).returnValue = 0
  shutsDown : net.shutdown.returnValue = 0

/-- The first `n` reads bring some bytes each, and the next one brings none or fails. -/
structure Reads (net : Network) (n : ℕ) : Prop where
  brings : ∀ i < n, 0 < (net.read i).answer.returnValue
  last : (net.read n).answer.returnValue ≤ 0

def chunks (net : Network) (i k : ℕ) : List (List UInt8) :=
  (List.range' i k).map fun j => (net.read j).data

def turns (xs : List (List UInt8)) : List Event := xs.flatMap fun x => [.read x, .cout x]

lemma turns_cons (x : List UInt8) (xs : List (List UInt8)) :
    turns (x :: xs) = [.read x, .cout x] ++ turns xs := rfl

lemma read_of_pos {w : FDWrapper} {r : ReadAnswer (sizeToRead noLimit)}
    (h : 0 < r.answer.returnValue) :
    FileDescriptor.read w noLimit r = (.ok r.data, registerRead w) := by
  rcases read_cases w noLimit r with ⟨hfail, -⟩ | ⟨hok, heq⟩
  · omega
  · have hdata : ¬ (noLimit > 0 ∧ r.data = []) := by
      rintro ⟨-, hnil⟩
      have hlen := List.length_eq_zero_iff.2 hnil
      omega
    rw [heq, if_neg hdata]

lemma read_of_zero {w : FDWrapper} {r : ReadAnswer (sizeToRead noLimit)}
    (h : r.answer.returnValue = 0) :
    FileDescriptor.read w noLimit r = (.ok [], registerRead { w with eof := true }) := by
  rcases read_cases w noLimit r with ⟨hfail, -⟩ | ⟨hok, heq⟩
  · omega
  · have hdata : r.data = [] := by
      rw [← List.length_eq_zero_iff]
      omega
    rw [heq, hdata, if_pos ⟨by decide, rfl⟩]

lemma read_of_fail {w : FDWrapper} {r : ReadAnswer (sizeToRead noLimit)}
    (h : r.answer.returnValue = -1) :
    FileDescriptor.read w noLimit r = (.error (.unixError "read" r.answer.errno), w) := by
  rcases read_cases w noLimit r with ⟨-, heq⟩ | ⟨hok, -⟩
  · exact heq
  · omega

def State.put (s : State) (socket : FDWrapper) (res : List UInt8) : State :=
  { s with socket, events := s.events ++ [.read res, .cout res], reads := s.reads + 1 }

lemma readLoop_of_fail {net : Network} {s : State} (heof : s.socket.eof = false)
    (h : (net.read s.reads).answer.returnValue = -1) :
    ∀ fuel > 0, readLoop net fuel s =
      some (.error (.unixError "read" (net.read s.reads).answer.errno),
        { s with events := s.events ++ [.readFails], reads := s.reads + 1 }) := by
  intro fuel hfuel
  obtain ⟨fuel, rfl⟩ := Nat.exists_eq_add_one.2 hfuel
  rw [readLoop, heof, read_of_fail h]
  rfl

lemma readLoop_of_pos {net : Network} {s : State} (heof : s.socket.eof = false)
    (h : 0 < (net.read s.reads).answer.returnValue) (fuel : ℕ) :
    readLoop net (fuel + 1) s =
      readLoop net fuel (s.put (registerRead s.socket) (net.read s.reads).data) := by
  rw [readLoop, heof, read_of_pos h]
  rfl

/-- After a read of nothing the loop looks at the flag once more, and ends. -/
lemma readLoop_of_zero {net : Network} {s : State} (heof : s.socket.eof = false)
    (h : (net.read s.reads).answer.returnValue = 0) :
    ∀ fuel > 1, readLoop net fuel s =
      some (.ok (), s.put (registerRead { s.socket with eof := true }) []) := by
  intro fuel hfuel
  obtain ⟨fuel, rfl⟩ := Nat.exists_eq_add_of_le' hfuel
  rw [readLoop, heof, read_of_zero h]
  rfl

/-- How the loop ends: with the exception of a read that failed, or at the end of the file. -/
def LoopEnds (net : Network) (n : ℕ) (r : Except Exn Unit) (events : List Event) : Prop :=
  ((net.read n).answer.returnValue = -1 ∧
    r = .error (.unixError "read" (net.read n).answer.errno) ∧ events = [.readFails]) ∨
  ((net.read n).answer.returnValue = 0 ∧ r = .ok () ∧ events = [.read [], .cout []])

/-- **The loop ends at the first read that brings nothing**: it puts out the `k` chunks left, and
makes no read after that one. -/
theorem readLoop_spec {net : Network} {n : ℕ} (h : Reads net n) (k : ℕ) :
    ∀ s : State, s.reads + k = n → s.socket.eof = false →
      ∃ r s' events, (∀ fuel > k + 1, readLoop net fuel s = some (r, s')) ∧
        s'.events = s.events ++ turns (chunks net s.reads k) ++ events ∧ LoopEnds net n r events ∧
        s'.reads = n + 1 := by
  induction k with
  | zero =>
    intro s hn heof
    obtain rfl : s.reads = n := hn
    have hturns : s.events ++ turns (chunks net s.reads 0) = s.events := List.append_nil _
    rw [hturns]
    rcases (net.read s.reads).answer.fails_or_returns with ⟨hfail, -⟩ | hok
    · have hrun := readLoop_of_fail heof hfail
      exact ⟨_, _, _, fun fuel hfuel => hrun fuel (by omega), rfl, .inl ⟨hfail, rfl, rfl⟩, rfl⟩
    · have hend : (net.read s.reads).answer.returnValue = 0 := by
        have := h.last
        omega
      have hrun := readLoop_of_zero heof hend
      exact ⟨_, _, _, hrun, rfl, .inr ⟨hend, rfl, rfl⟩, rfl⟩
  | succ k ih =>
    intro s hn heof
    have hpos := h.brings s.reads (by omega)
    obtain ⟨r, s', events, hrun, hevents, hends, hreads⟩ :=
      ih (s.put (registerRead s.socket) (net.read s.reads).data)
        (show s.reads + 1 + k = n by omega) heof
    refine ⟨r, s', events, ?_, ?_, hends, hreads⟩
    · intro fuel hfuel
      obtain ⟨fuel, rfl⟩ := Nat.exists_eq_add_one.2 (Nat.zero_lt_of_lt hfuel)
      rw [readLoop_of_pos heof hpos]
      exact hrun fuel (by omega)
    · have hchunks : chunks net s.reads (k + 1) =
          (net.read s.reads).data :: chunks net (s.reads + 1) k := rfl
      rw [hevents, hchunks, turns_cons]
      simp only [State.put, List.append_assoc]

/-! ### Both directions -/

def output : List Event → List UInt8
  | [] => []
  | .cout bytes :: events => bytes ++ output events
  | _ :: events => output events

/-- The bytes that the socket took before its write side was shut, and those after it. -/
def handed : List Event → List UInt8 × List UInt8
  | [] => ([], [])
  | .sent bytes :: events => (bytes ++ (handed events).1, (handed events).2)
  | .shutdown _ :: events => ([], (handed events).1 ++ (handed events).2)
  | _ :: events => handed events

lemma output_turns (xs : List (List UInt8)) (events : List Event) :
    output (turns xs ++ events) = xs.flatten ++ output events := by
  induction xs with
  | nil => rfl
  | cons x xs ih =>
    have hcons : output (turns (x :: xs) ++ events) = x ++ output (turns xs ++ events) := rfl
    rw [hcons, ih, List.flatten_cons, List.append_assoc]

lemma handed_turns (xs : List (List UInt8)) (events : List Event) :
    handed (turns xs ++ events) = handed events := by
  induction xs with
  | nil => rfl
  | cons x xs ih => exact ih

/-- What the program does up to the last read: the whole request is sent, the write side is shut,
and `n` reads are put out one by one; then, by `last`, a read fails or brings nothing. -/
def conversation (net : Network) (host path : List UInt8) (n : ℕ) (last : List Event) :
    List Event :=
  .sent (request host path) :: .shutdown SHUT_WR :: (turns (chunks net 0 n) ++ last)

/-- If the last read neither sends nor puts out anything, the conversation is exact both ways. -/
lemma conversation_exact (net : Network) (host path : List UInt8) (n : ℕ) {last : List Event}
    (hhanded : handed last = ([], [])) (hout : output last = []) :
    handed (conversation net host path n last) = (request host path, []) ∧
      output (conversation net host path n last) = (chunks net 0 n).flatten := by
  constructor
  · have hcons : handed (conversation net host path n last) = (request host path ++ [],
        (handed (turns (chunks net 0 n) ++ last)).1 ++
          (handed (turns (chunks net 0 n) ++ last)).2) := rfl
    rw [hcons, handed_turns, hhanded, List.append_nil]
    rfl
  · have hcons : output (conversation net host path n last) =
        output (turns (chunks net 0 n) ++ last) := rfl
    rw [hcons, output_turns, hout, List.append_nil]

/-- How `get_URL` ends, and all that it has done by then. -/
inductive Transfer (net : Network) (host path : List UInt8) (n : ℕ) :
    Except Exn Unit → List Event → Prop
  | writeFails (sent : List UInt8) (e : Exn) : sent <+: request host path → WriteError e →
      Transfer net host path n (.error e) [.sent sent]
  | readFails : (net.read n).answer.returnValue = -1 →
      Transfer net host path n (.error (.unixError "read" (net.read n).answer.errno))
        (conversation net host path n [.readFails])
  | ends (r : Except Exn Unit) : (net.read n).answer.returnValue = 0 →
      (r = .ok () ∨ ∃ errno, r = .error (.unixError "close" errno)) →
      Transfer net host path n r (conversation net host path n [.read [], .cout []])

lemma closeSocket_fst (net : Network) (s : State) :
    (closeSocket net s).1 = .ok () ∨
      ∃ errno, (closeSocket net s).1 = .error (.unixError "close" errno) := by
  rcases (net.close s.closes.length).systemCall_cases "close" (by rintro v rfl; decide) with
    ⟨heq, -⟩ | ⟨n, heq, -⟩
  · right
    simp only [closeSocket, FDWrapper.close, heq]
    exact ⟨_, rfl⟩
  · left
    simp only [closeSocket, FDWrapper.close, heq]

/-- The statements from `connect` on: the three ways in which they end. -/
lemma body_spec {net : Network} {host path : List UInt8} {n : ℕ} (hnet : Connects net host)
    (hreads : Reads net n) (hlen : (request host path).length < 2 ^ 63) (addr : Address) (fd : ℕ) :
    ∃ r s, (∀ fuel > (request host path).length + n + 1,
        body net fuel addr host path ⟨{ fd }, [], 0, []⟩ = some (r, s)) ∧
      Transfer net host path n r s.events ∧
      ((∀ calls iovecs, 0 < totalLength iovecs → 0 < (net.writev calls iovecs).returnValue) →
        ∃ last, s.events = conversation net host path n last) := by
  have hconnect : systemCall "connect" (net.connect addr).returnValue (net.connect addr).errno 0 =
      .ok 0 := by
    rw [hnet.connects addr]
    rfl
  set v := BufferViewList.ofView (request host path) with hv
  have hbytes : v.bytes = request host path := List.append_nil _
  have hsize : v.size = (request host path).length := by
    rw [BufferViewList.size_eq, hbytes, Nat.mod_eq_of_lt (by omega)]
  obtain ⟨r, ws, x, hrun, -, hdel, hall⟩ :=
    writeLoop_all net.writev v.size (Progress.start v { fd } ⟨[], 0⟩) le_rfl
  have hwrite : ∀ fuel > (request host path).length, write net.writev fuel { fd } ⟨[], 0⟩ v true =
      some (r, ws.internalFd, ws.sink) := by
    intro fuel hfuel
    exact write_of_loop (hrun fuel (by omega))
  have hacc : ws.sink.accepted = x := hdel.accepted
  have heof : ws.internalFd.eof = false :=
    writeLoop_keeps (P := fun w => w.eof = false) (fun _ h => h) (hrun _ (Nat.lt_succ_self _)) rfl
  cases r with
  | error e =>
    refine ⟨.error e, ⟨ws.internalFd, [.sent x], 0, []⟩, fun fuel hfuel => ?_, ?_, fun hpos => ?_⟩
    · rw [body, hconnect, ← hv]
      simp only [hwrite fuel (by omega), hacc]
      rfl
    · exact .writeFails x e (hbytes ▸ hdel.isPrefix) (hdel.throws e rfl)
    · obtain ⟨m, hm⟩ := writeLoop_of_accepts hpos (hrun _ (Nat.lt_succ_self _))
        (by rw [hbytes]; exact List.cons_ne_nil _ _) (by rw [hbytes]; exact hlen)
      cases hm
  | ok m =>
    have hx : x = request host path := by
      rw [← hbytes]
      exact hdel.eq_bytes (hall m rfl) (by rw [hbytes]; omega)
    have hshut : Socket.shutdown ws.internalFd SHUT_WR net.shutdown =
        (.ok (), registerWrite ws.internalFd) := shutdown_of_ok hnet.shutsDown
    obtain ⟨r, s, events, hloop, hevents, hends, -⟩ := readLoop_spec hreads n
      ⟨registerWrite ws.internalFd, [.sent x, .shutdown SHUT_WR], 0, []⟩ (Nat.zero_add n) heof
    have hconv : s.events = conversation net host path n events := by
      rw [hevents, hx]
      rfl
    have hbody : ∀ fuel > (request host path).length + n + 1,
        body net fuel addr host path ⟨{ fd }, [], 0, []⟩ =
          match (some (r, s) : Option (Except Exn Unit × State)) with
          | none => none
          | some (.error e, s) => some (.error e, s)
          | some (.ok (), s) => some (closeSocket net s) := by
      intro fuel hfuel
      rw [body, hconnect, ← hv]
      simp only [hwrite fuel (by omega), hacc, hshut]
      rw [← hloop fuel (by omega)]
      rfl
    rcases hends with ⟨hfail, rfl, rfl⟩ | ⟨hend, rfl, rfl⟩
    · refine ⟨_, s, hbody, ?_, fun _ => ⟨_, hconv⟩⟩
      rw [hconv]
      exact .readFails hfail
    · refine ⟨(closeSocket net s).1, (closeSocket net s).2, hbody, ?_, fun _ => ⟨_, hconv⟩⟩
      have hkeep : (closeSocket net s).2.events = s.events := rfl
      rw [hkeep, hconv]
      exact .ends _ hend (closeSocket_fst net s)

/-- **`get_URL` transfers both directions exactly.** If the connection comes about, and `n` reads
bring some bytes before one brings none or fails, it ends in one of three ways: a write fails, and a
part of the request was sent and nothing put out; or the last read fails; or it brings nothing. If
`writev` always accepts something, then the bytes handed to the socket are the request, all of them
before its write side is shut, and those put out are the chunks read before the last read. -/
theorem get_URL_exact (net : Network) (host path : List UInt8) (n : ℕ) (hnet : Connects net host)
    (hreads : Reads net n) (hlen : (request host path).length < 2 ^ 63) :
    ∃ r out, (∀ fuel > (request host path).length + n + 1,
        getURL net fuel host path = some out) ∧
      out.result = r.mapError Thrown.exn ∧ Transfer net host path n r out.events ∧
      ((∀ calls iovecs, 0 < totalLength iovecs → 0 < (net.writev calls iovecs).returnValue) →
        handed out.events = (request host path, []) ∧
          output out.events = (chunks net 0 n).flatten) := by
  obtain ⟨addr, haddr⟩ := hnet.resolves
  rcases net.socket.systemCall_cases "socket" (fun _ h => h) with ⟨-, hfail⟩ | ⟨fd, hfd, -⟩
  · have := hnet.opens
    omega
  obtain ⟨r, s, hbody, htransfer, hsent⟩ := body_spec hnet hreads hlen addr fd
  refine ⟨r, endOf net r s, ?_, rfl, htransfer, ?_⟩
  · intro fuel hfuel
    rw [getURL, haddr, hfd]
    simp only [Int.toNat_natCast, hbody fuel hfuel, Option.map_some]
  · intro hpos
    obtain ⟨last, hlast⟩ := hsent hpos
    show handed s.events = _ ∧ output s.events = _
    generalize s.events = events at htransfer hlast ⊢
    cases htransfer with
    | writeFails sent e hprefix he => cases hlast
    | readFails hfail => exact conversation_exact net host path n rfl rfl
    | ends r hend hclose => exact conversation_exact net host path n rfl rfl

/-- A network whose `writev` takes one byte at a time and whose reads bring three bytes and then
none. -/
def slow : Network where
  resolver := { loopback with
    getaddrinfo := fun _ _ _ => (0, [(inet .little 0x7f000001 80 zeros).bytes]) }
  socket := ⟨3, 0, .inr (by decide)⟩
  connect _ := Handles.succeeded
  writev _ iovecs := ⟨if totalLength iovecs = 0 then 0 else 1, 0, .inr (by split <;> omega)⟩
  shutdown := Handles.succeeded
  read i := if i = 0 then ⟨[1, 2, 3], ⟨3, 0, .inr rfl⟩, by decide⟩
    else ⟨[], ⟨0, 0, .inr rfl⟩, Nat.zero_le _⟩
  close _ := Handles.succeeded

/-- The path `/` of the host `h`. -/
theorem get_URL_exact_slow :
    ∃ out, getURL slow 40 [104] [47] = some out ∧
      handed out.events = (request [104] [47], []) ∧ output out.events = [1, 2, 3] := by
  have hreads : Reads slow 1 := by
    refine ⟨fun i hi => ?_, Int.le_refl 0⟩
    obtain rfl : i = 0 := by omega
    decide
  obtain ⟨r, out, hrun, -, -, hexact⟩ := get_URL_exact slow [104] [47] 1
    ⟨⟨_, rfl⟩, by decide, fun _ => rfl, rfl⟩ hreads (by decide)
  refine ⟨out, hrun 40 (by decide), hexact fun calls iovecs h => ?_⟩
  show (0 : ℤ) < if totalLength iovecs = 0 then 0 else 1
  rw [if_neg (by omega)]
  decide

end Sponge.Webget
