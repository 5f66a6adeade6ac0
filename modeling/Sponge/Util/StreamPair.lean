import Mathlib.Data.List.Flatten
import Mathlib.Logic.Function.Basic
import Sponge.Lib.Machine
import Sponge.Util.Socket

/-!
# The two ends of a stream

Two programs at the ends of a pair of connected stream sockets, each with its own descriptor: they
write, read and shut down in any order, and a call of `write` goes on turn by turn while the other
side moves. Between them is the kernel, which for each direction holds the bytes it has accepted and
not yet given out, takes a part of what is offered or fails, and gives a reader a prefix of what it
holds — nothing only when nothing is left and one of the ends is shut.

* `State`, `step` — the two descriptors with the calls of `write` under way, and the two channels;
* `Account` — what the finished calls of `write` have delivered, and the one under way so far;
* `stream_exact` — what is received and what is in flight is what was accepted, in order;
* `end_of_file_final` — after the flag for the end of the file, there is nothing more to come.
-/

namespace Sponge.StreamPair

open Lib FileDescriptor

inductive Side where
  | left
  | right
  deriving DecidableEq, Repr

def Side.peer : Side → Side
  | .left => .right
  | .right => .left

@[simp] lemma Side.peer_peer (s : Side) : s.peer.peer = s := by cases s <;> rfl

lemma Side.peer_ne (s : Side) : s.peer ≠ s := by cases s <;> decide

/-- A call of `write` under way: the buffer it was given, what is left of it, and the total. -/
structure Call where
  given : BufferViewList
  writeAll : Bool
  buffer : BufferViewList
  totalBytesWritten : ℕ
  deriving DecidableEq

/-- The descriptor of a side, with all that the kernel has accepted from it. -/
structure Endpoint where
  internalFd : FDWrapper
  sink : Sink
  call : Option Call
  deriving DecidableEq

/-- One direction: the bytes in flight, and which of its ends are shut. -/
structure Channel where
  queue : List UInt8
  writeShut : Bool
  readShut : Bool
  deriving DecidableEq

/-- The two descriptors, and for each side the direction that it writes to. -/
structure State where
  ends : Side → Endpoint
  out : Side → Channel

def init (fd : Side → ℕ) : State :=
  ⟨fun s => ⟨{ fd := fd s }, ⟨[], 0⟩, none⟩, fun _ => ⟨[], false, false⟩⟩

/-- What `writev` answers in a turn, by the buffers it is given. -/
abbrev Answer : Type := (iovecs : List (List UInt8)) → WritevAnswer (totalLength iovecs)

inductive Input where
  /-- a side calls `write` -/
  | write (s : Side) (buffer : BufferViewList) (writeAll : Bool)
  /-- its call takes a turn -/
  | turn (s : Side) (answer : Answer)
  | read (s : Side) (limit : ℕ) (answer : ReadAnswer (sizeToRead limit))
  | shutdown (s : Side) (how : ℤ) (answer : ZeroAnswer)

inductive Output where
  | none
  | started
  | wrote (r : Except Exn ℕ)
  | got (r : Except Exn (List UInt8))
  | shut (r : Except Exn Unit)
  deriving DecidableEq

def State.setEnd (st : State) (s : Side) (e : Endpoint) : State :=
  { st with ends := Function.update st.ends s e }

def State.setOut (st : State) (s : Side) (c : Channel) : State :=
  { st with out := Function.update st.out s c }

/-- What the kernel may give to a reader that has room for `size` bytes. -/
def Channel.Gives (c : Channel) (size : ℕ) (data : List UInt8) : Prop :=
  data = c.queue.take data.length ∧
    (data = [] → size = 0 ∨ (c.queue = [] ∧ (c.writeShut = true ∨ c.readShut = true)))

instance (c : Channel) (size : ℕ) (data : List UInt8) : Decidable (c.Gives size data) :=
  inferInstanceAs (Decidable (_ ∧ _))

/-- The bytes that the kernel accepts in a turn. -/
def Call.accepts (c : Call) (answer : Answer) : List UInt8 :=
  c.buffer.asIovecs.flatten.take (answer c.buffer.asIovecs).returnValue.toNat

/-- A turn of the call of `write`. -/
def turn (st : State) (s : Side) (c : Call) (answer : Answer) : Output × State :=
  let e := st.ends s
  let st := st.setOut s { st.out s with queue := (st.out s).queue ++ c.accepts answer }
  match writeTurn (fun _ => answer) ⟨e.internalFd, e.sink, c.buffer, c.totalBytesWritten⟩ with
  | (.error ex, t) => (.wrote (.error ex), st.setEnd s ⟨t.internalFd, t.sink, none⟩)
  | (.ok (), t) =>
    if c.writeAll ∧ t.buffer.size ≠ 0 then
      (.none, st.setEnd s ⟨t.internalFd, t.sink,
        some { c with buffer := t.buffer, totalBytesWritten := t.totalBytesWritten }⟩)
    else (.wrote (.ok t.totalBytesWritten), st.setEnd s ⟨t.internalFd, t.sink, none⟩)

/-- What a `shutdown` that succeeds does to the channels. -/
def State.shut (st : State) (s : Side) (how : ℤ) : State :=
  let st := if how = Socket.SHUT_WR ∨ how = Socket.SHUT_RDWR then
    st.setOut s { st.out s with writeShut := true } else st
  if how = Socket.SHUT_RD ∨ how = Socket.SHUT_RDWR then
    st.setOut s.peer { st.out s.peer with readShut := true } else st

/-- One move. A side whose call of `write` is under way makes no other call; and an answer that the
kernel does not give, as no byte may be written to a channel shut for writing, changes nothing. -/
def step (st : State) : Input → Output × State
  | .write s buffer writeAll =>
    match (st.ends s).call with
    | some _ => (.none, st)
    | none =>
      (.started, st.setEnd s { st.ends s with call := some ⟨buffer, writeAll, buffer, 0⟩ })
  | .turn s answer =>
    match (st.ends s).call with
    | none => (.none, st)
    | some c =>
      if (st.out s).writeShut ∧ 0 < (answer c.buffer.asIovecs).returnValue then (.none, st)
      else turn st s c answer
  | .read s limit answer =>
    if (st.ends s).call.isSome then (.none, st)
    else
      let c := st.out s.peer
      let r := FileDescriptor.read (st.ends s).internalFd limit answer
      let st' := st.setEnd s { st.ends s with internalFd := r.2 }
      if answer.answer.returnValue = -1 then (.got r.1, st')
      else if c.Gives (sizeToRead limit) answer.data then
        (.got r.1, st'.setOut s.peer { c with queue := c.queue.drop answer.data.length })
      else (.none, st)
  | .shutdown s how answer =>
    if (st.ends s).call.isSome then (.none, st)
    else
      let r := Socket.shutdown (st.ends s).internalFd how answer
      let st' := st.setEnd s { st.ends s with internalFd := r.2 }
      if answer.returnValue = 0 then (.shut r.1, st'.shut s how) else (.shut r.1, st')

def machine : Machine State Input Output := ⟨step⟩

@[simp] lemma machine_step (st : State) (i : Input) : machine.step st i = step st i := rfl

/-! ### What a run has handed over -/

/-- The bytes that a side has received in a move. -/
def gotBy (s : Side) (m : Move State Input Output) : List UInt8 :=
  match m.input, m.output with
  | .read s' _ _, .got (.ok data) => if s' = s then data else []
  | _, _ => []

/-- The call of `write` that a side has begun in a move, with its buffer. -/
def begunBy (s : Side) (m : Move State Input Output) : Option (BufferViewList × Bool) :=
  match m.input, m.output with
  | .write s' buffer writeAll, .started => if s' = s then some (buffer, writeAll) else none
  | _, _ => none

/-- What the call of `write` of a side has come to, if it has ended in a move. -/
def endedBy (s : Side) (m : Move State Input Output) : Option (Except Exn ℕ) :=
  match m.input, m.output with
  | .turn s' _, .wrote r => if s' = s then some r else none
  | _, _ => none

/-- A call of `write` that has ended, and the part of its buffer that the kernel has accepted. -/
structure Done where
  given : BufferViewList
  writeAll : Bool
  result : Except Exn ℕ
  part : List UInt8

/-- The part is a prefix of the buffer; a call that returns tells its length; and with `write_all` it
is the whole buffer, if a `size_t` can hold its length. -/
structure Done.Sound (d : Done) : Prop where
  isPrefix : d.part <+: d.given.bytes
  returns : ∀ n, d.result = .ok n → n = d.part.length
  all : ∀ n, d.result = .ok n → d.writeAll = true → d.given.bytes.length < 2 ^ 64 →
    d.part = d.given.bytes

/-! ### The account of a side -/

/-- What a side has handed over: the calls of `write` that are done, and of the one under way the part
that the kernel has accepted so far. -/
structure Account (e : Endpoint) (begun : List (BufferViewList × Bool)) (ended : List (Except Exn ℕ))
    (done : List Done) (sofar : List UInt8) : Prop where
  begun : begun = done.map (fun d => (d.given, d.writeAll)) ++
    (e.call.map fun c => (c.given, c.writeAll)).toList
  ended : ended = done.map Done.result
  sound : ∀ d ∈ done, d.Sound
  accepted : e.sink.accepted = done.flatMap Done.part ++ sofar
  idle : e.call = none → sofar = []
  underWay : ∀ c, e.call = some c → ∃ start : Sink, start.accepted = done.flatMap Done.part ∧
    Progress c.given start sofar ⟨e.internalFd, e.sink, c.buffer, c.totalBytesWritten⟩

namespace Account

variable {e : Endpoint} {begun : List (BufferViewList × Bool)} {ended : List (Except Exn ℕ)}
  {done : List Done} {sofar : List UInt8}

lemma new (fd : ℕ) : Account ⟨{ fd := fd }, ⟨[], 0⟩, none⟩ [] [] [] [] :=
  ⟨rfl, rfl, fun _ h => absurd h List.not_mem_nil, rfl, fun _ => rfl, fun _ h => by cases h⟩

lemma internalFd (h : Account e begun ended done sofar) (hcall : e.call = none) (w : FDWrapper) :
    Account { e with internalFd := w } begun ended done sofar :=
  ⟨h.begun, h.ended, h.sound, h.accepted, h.idle, fun c hc => by
    rw [show e.call = some c from hc] at hcall
    cases hcall⟩

lemma start (h : Account e begun ended done sofar) (hcall : e.call = none)
    (buffer : BufferViewList) (writeAll : Bool) :
    Account { e with call := some ⟨buffer, writeAll, buffer, 0⟩ } (begun ++ [(buffer, writeAll)])
      ended done [] := by
  obtain rfl := h.idle hcall
  have hbegun := h.begun
  rw [hcall] at hbegun
  refine ⟨?_, h.ended, h.sound, h.accepted, fun hc => (by cases hc), ?_⟩
  · rw [hbegun]
    simp
  · rintro c ⟨⟩
    refine ⟨e.sink, ?_, Progress.start buffer e.internalFd e.sink⟩
    rw [h.accepted, List.append_nil]

lemma finish (h : Account e begun ended done sofar) {c : Call} (hcall : e.call = some c)
    {r : Except Exn ℕ} {part : List UInt8} {w : FDWrapper} {sink : Sink}
    (hd : Done.Sound ⟨c.given, c.writeAll, r, part⟩)
    (hacc : sink.accepted = done.flatMap Done.part ++ part) :
    Account ⟨w, sink, none⟩ begun (ended ++ [r]) (done ++ [⟨c.given, c.writeAll, r, part⟩]) [] := by
  have hbegun := h.begun
  rw [hcall] at hbegun
  refine ⟨?_, ?_, ?_, ?_, fun _ => rfl, fun c hc => by cases hc⟩
  · rw [hbegun]
    simp
  · rw [h.ended, List.map_append]
    rfl
  · exact List.forall_mem_append.2 ⟨h.sound, List.forall_mem_singleton.2 hd⟩
  · rw [List.flatMap_append, List.flatMap_singleton, List.append_nil, hacc]

lemma goOn (h : Account e begun ended done sofar) {c : Call} (hcall : e.call = some c) {start : Sink}
    (hstart : start.accepted = done.flatMap Done.part) {y : List UInt8} {t : WriteState}
    (hprog : Progress c.given start y t) :
    Account ⟨t.internalFd, t.sink,
        some { c with buffer := t.buffer, totalBytesWritten := t.totalBytesWritten }⟩
      begun ended done y := by
  have hbegun := h.begun
  rw [hcall] at hbegun
  refine ⟨hbegun, h.ended, h.sound, ?_, fun hc => (by cases hc), ?_⟩
  · rw [hprog.accepted, hstart]
  · rintro c' ⟨⟩
    exact ⟨start, hstart, hprog⟩

end Account

lemma writeTurn_sink (kernel : Kernel) (t : WriteState) :
    (writeTurn kernel t).2.sink =
      t.sink.writev t.buffer.asIovecs (kernel t.sink.calls t.buffer.asIovecs).returnValue := by
  unfold writeTurn
  simp only
  split
  · rfl
  · split
    · rfl
    · split
      · rfl
      · split <;> rfl

/-- A call that returns has delivered what it counts, all of the buffer with `write_all`. -/
lemma sound_of_returns {v : BufferViewList} {writeAll : Bool} {start : Sink} {y : List UInt8}
    {t : WriteState} (h : Progress v start y t) (hlast : ¬ (writeAll = true ∧ t.buffer.size ≠ 0)) :
    Done.Sound ⟨v, writeAll, .ok t.totalBytesWritten, y⟩ := by
  have hdel := h.delivered
  refine ⟨hdel.isPrefix, hdel.returns, fun n hn hall hlen => ?_⟩
  obtain rfl := Except.ok.inj hn
  have hsize : t.buffer.size = 0 := by
    by_contra hne
    exact hlast ⟨hall, hne⟩
  refine hdel.eq_bytes ?_ hlen
  have := h.size
  rw [h.total]
  omega

/-! ### What a move does to a direction -/

lemma Side.eq_or_peer (s t : Side) : t = s ∨ t = s.peer := by
  cases s <;> cases t <;> simp [Side.peer]

section

variable {st : State} {s : Side} {e : Endpoint} {c : Channel}

@[simp] lemma setEnd_out : (st.setEnd s e).out = st.out := rfl
@[simp] lemma setOut_ends : (st.setOut s c).ends = st.ends := rfl

@[simp] lemma setEnd_self : (st.setEnd s e).ends s = e := Function.update_self ..

@[simp] lemma setEnd_peer : (st.setEnd s e).ends s.peer = st.ends s.peer :=
  Function.update_of_ne s.peer_ne ..

@[simp] lemma setEnd_of_peer : (st.setEnd s.peer e).ends s = st.ends s :=
  Function.update_of_ne s.peer_ne.symm ..

@[simp] lemma setOut_self : (st.setOut s c).out s = c := Function.update_self ..

@[simp] lemma setOut_peer : (st.setOut s c).out s.peer = st.out s.peer :=
  Function.update_of_ne s.peer_ne ..

@[simp] lemma setOut_of_peer : (st.setOut s.peer c).out s = st.out s :=
  Function.update_of_ne s.peer_ne.symm ..

end

/-- All that a move does to the direction from the side `s` to its peer. -/
structure Moves (s : Side) (m : Move State Input Output) : Prop where
  account : ∀ {begun ended done sofar}, Account (m.before.ends s) begun ended done sofar →
    ∃ done' sofar', Account (m.after.ends s) (begun ++ (begunBy s m).toList)
      (ended ++ (endedBy s m).toList) done' sofar'
  flow : ∃ x, (m.after.ends s).sink.accepted = (m.before.ends s).sink.accepted ++ x ∧
    gotBy s.peer m ++ (m.after.out s).queue = (m.before.out s).queue ++ x ∧
    ((m.before.out s).writeShut = true → x = [])
  writeShut : (m.before.out s).writeShut = true → (m.after.out s).writeShut = true
  readShut : (m.before.out s).readShut = true → (m.after.out s).readShut = true
  eof : (m.after.ends s.peer).internalFd.eof = true →
    (m.before.ends s.peer).internalFd.eof = true ∨ ((m.before.out s).queue = [] ∧
      ((m.before.out s).writeShut = true ∨ (m.before.out s).readShut = true))

/-- A move that leaves the direction alone, apart from the descriptor at its beginning. -/
lemma Moves.quiet {s : Side} {m : Move State Input Output}
    (hends : (m.after.ends s) = (m.before.ends s) ∨ ((m.before.ends s).call = none ∧
      ∃ w, m.after.ends s = { m.before.ends s with internalFd := w }))
    (hout : (m.after.out s).queue = (m.before.out s).queue)
    (hwrite : (m.before.out s).writeShut = true → (m.after.out s).writeShut = true)
    (hread : (m.before.out s).readShut = true → (m.after.out s).readShut = true)
    (heof : (m.after.ends s.peer).internalFd.eof = (m.before.ends s.peer).internalFd.eof)
    (hbegun : begunBy s m = none) (hended : endedBy s m = none) (hgot : gotBy s.peer m = []) :
    Moves s m := by
  refine ⟨fun {begun ended done sofar} h => ⟨done, sofar, ?_⟩, ⟨[], ?_, ?_, fun _ => rfl⟩, hwrite,
    hread, fun he => .inl (heof ▸ he)⟩
  · simp only [hbegun, hended, Option.toList_none, List.append_nil]
    rcases hends with heq | ⟨hcall, w, heq⟩
    · rwa [heq]
    · rw [heq]
      exact h.internalFd hcall w
  · rw [List.append_nil]
    rcases hends with heq | ⟨-, w, heq⟩
    · rw [heq]
    · rw [heq]
  · rw [hgot, hout, List.nil_append, List.append_nil]

lemma moves_of_idle {st : State} {i : Input} (h : step st i = (.none, st)) (s : Side) :
    Moves s (machine.move st i) := by
  rw [machine.move_eq ((machine_step st i).trans h)]
  refine .quiet (.inl rfl) rfl (fun hw => hw) (fun hr => hr) rfl ?_ ?_ ?_
  · cases i <;> rfl
  · cases i <;> rfl
  · cases i <;> rfl

lemma moves_write (st : State) (s' : Side) (buffer : BufferViewList) (writeAll : Bool) (s : Side) :
    Moves s (machine.move st (.write s' buffer writeAll)) := by
  cases hcall : (st.ends s').call with
  | some c =>
    refine moves_of_idle ?_ s
    simp only [step, hcall]
  | none =>
    rw [machine.move_eq (by simp only [machine_step, step, hcall]; rfl)]
    rcases Side.eq_or_peer s s' with rfl | rfl
    · refine ⟨fun {begun ended done sofar} h => ⟨done, [], ?_⟩, ⟨[], ?_, ?_, fun _ => rfl⟩,
        fun hw => hw, fun hr => hr, fun he => .inl ?_⟩
      · have hstart := h.start hcall buffer writeAll
        simpa [begunBy, endedBy] using hstart
      · simp
      · simp [gotBy]
      · simpa using he
    · refine .quiet (.inl (by simp)) rfl (fun hw => hw) (fun hr => hr) (by simp) ?_ rfl rfl
      simp [begunBy, Side.peer_ne]

/-- What a turn leaves, however the call goes on: the queue of the direction has grown by what was
accepted, and of the side only the descriptor, the kernel's side and the call have changed. -/
lemma turn_cases (st : State) (s : Side) (c : Call) (answer : Answer) :
    ∃ t call o, turn st s c answer =
      (o, (st.setOut s { st.out s with queue := (st.out s).queue ++ c.accepts answer }).setEnd s
        ⟨t.internalFd, t.sink, call⟩) ∧
      t.internalFd.eof = (st.ends s).internalFd.eof ∧
      t.sink.accepted = (st.ends s).sink.accepted ++ c.accepts answer ∧
      ((∃ ex, writeTurn (fun _ => answer)
          ⟨(st.ends s).internalFd, (st.ends s).sink, c.buffer, c.totalBytesWritten⟩ =
          (.error ex, t) ∧ o = .wrote (.error ex) ∧ call = none) ∨
        (writeTurn (fun _ => answer)
          ⟨(st.ends s).internalFd, (st.ends s).sink, c.buffer, c.totalBytesWritten⟩ =
          (.ok (), t) ∧
        ((o = .none ∧ call = some
          { c with buffer := t.buffer, totalBytesWritten := t.totalBytesWritten }) ∨
        (¬ (c.writeAll = true ∧ t.buffer.size ≠ 0) ∧ o = .wrote (.ok t.totalBytesWritten) ∧
          call = none)))) := by
  have hsink := writeTurn_sink (fun _ => answer)
    ⟨(st.ends s).internalFd, (st.ends s).sink, c.buffer, c.totalBytesWritten⟩
  have hfd := writeTurn_internalFd (fun _ => answer)
    ⟨(st.ends s).internalFd, (st.ends s).sink, c.buffer, c.totalBytesWritten⟩
  unfold turn
  simp only
  generalize writeTurn (fun _ => answer)
    ⟨(st.ends s).internalFd, (st.ends s).sink, c.buffer, c.totalBytesWritten⟩ = r at hsink hfd ⊢
  obtain ⟨result, t⟩ := r
  simp only at hsink hfd
  have heof : t.internalFd.eof = (st.ends s).internalFd.eof := by
    rcases hfd with heq | heq <;> rw [heq]
    rfl
  have hacc := congrArg Sink.accepted hsink
  cases result with
  | error ex => exact ⟨t, none, _, rfl, heof, hacc, .inl ⟨ex, rfl, rfl, rfl⟩⟩
  | ok u =>
    simp only
    split
    · exact ⟨t, _, _, rfl, heof, hacc, .inr ⟨rfl, .inl ⟨rfl, rfl⟩⟩⟩
    · rename_i hlast
      exact ⟨t, none, _, rfl, heof, hacc, .inr ⟨rfl, .inr ⟨hlast, rfl, rfl⟩⟩⟩

/-- A turn of a call of `write`, seen from the direction it writes to and from the other one. -/
lemma moves_turn (st : State) (s' : Side) (answer : Answer) (s : Side) :
    Moves s (machine.move st (.turn s' answer)) := by
  cases hcall : (st.ends s').call with
  | none =>
    refine moves_of_idle ?_ s
    simp only [step, hcall]
  | some c =>
    by_cases hshut : (st.out s').writeShut ∧ 0 < (answer c.buffer.asIovecs).returnValue
    · refine moves_of_idle ?_ s
      simp only [step, hcall, if_pos hshut]
    have hstep : step st (.turn s' answer) = turn st s' c answer := by
      simp only [step, hcall, if_neg hshut]
    obtain ⟨t, call, o, hturn, heof, hacc, hcases⟩ := turn_cases st s' c answer
    rw [machine.move_eq ((machine_step st _).trans (hstep.trans hturn))]
    rcases Side.eq_or_peer s s' with rfl | rfl
    · refine ⟨fun {begun ended done sofar} h => ?_, ⟨c.accepts answer, ?_, ?_, ?_⟩, ?_, ?_,
        fun he => .inl ?_⟩
      · obtain ⟨start, hstart, hprog⟩ := h.underWay c hcall
        obtain ⟨t', y, -, ⟨ex, heq, hdel⟩ | ⟨heq, hprog', -⟩⟩ := hprog.writeTurn (fun _ => answer)
        · rcases hcases with ⟨ex', heq', rfl, rfl⟩ | ⟨heq', -⟩
          · obtain ⟨hex, rfl⟩ := Prod.mk.inj (heq.symm.trans heq')
            obtain rfl := Except.error.inj hex
            have hd : Done.Sound ⟨c.given, c.writeAll, .error ex, y⟩ :=
              ⟨hdel.isPrefix, fun n hn => (by cases hn), fun n hn => by cases hn⟩
            have hfinish := h.finish hcall (w := t'.internalFd) hd (by rw [hdel.accepted, hstart])
            exact ⟨_, _, by simpa [begunBy, endedBy] using hfinish⟩
          · rw [heq] at heq'
            cases heq'
        · rcases hcases with ⟨ex', heq', -⟩ | ⟨heq', hgo⟩
          · rw [heq] at heq'
            cases heq'
          · obtain ⟨-, rfl⟩ := Prod.mk.inj (heq.symm.trans heq')
            rcases hgo with ⟨rfl, rfl⟩ | ⟨hlast, rfl, rfl⟩
            · have hgo := h.goOn hcall hstart hprog'
              exact ⟨_, _, by simpa [begunBy, endedBy] using hgo⟩
            · have hfinish := h.finish hcall (w := t'.internalFd) (sound_of_returns hprog' hlast)
                (by rw [hprog'.accepted, hstart])
              exact ⟨_, _, by simpa [begunBy, endedBy] using hfinish⟩
      · simpa using hacc
      · simp [gotBy]
      · intro hw
        have hnone : (answer c.buffer.asIovecs).returnValue ≤ 0 :=
          Int.not_lt.1 fun hpos => hshut ⟨hw, hpos⟩
        unfold Call.accepts
        rw [Int.toNat_of_nonpos hnone, List.take_zero]
      · simp
      · simp
      · simpa using he
    · refine .quiet (.inl (by simp)) (by simp) (by simp) (by simp) (by simpa using heof) rfl ?_ rfl
      cases o <;> simp [endedBy, Side.peer_ne]

/-- The side `s'` reads: what it gets was at the head of the direction that its peer writes to. -/
lemma moves_read (st : State) (s' : Side) (limit : ℕ) (answer : ReadAnswer (sizeToRead limit))
    (s : Side) : Moves s (machine.move st (.read s' limit answer)) := by
  by_cases hcall : (st.ends s').call.isSome
  · refine moves_of_idle ?_ s
    simp only [step, if_pos hcall]
  have hnone : (st.ends s').call = none := by
    rwa [Bool.not_eq_true, Option.isSome_eq_false_iff, Option.isNone_iff_eq_none] at hcall
  rcases read_cases (st.ends s').internalFd limit answer with ⟨hfail, hread⟩ | ⟨hok, hread⟩
  · rw [machine.move_eq (by rw [machine_step, step, if_neg hcall, if_pos hfail, hread])]
    rcases Side.eq_or_peer s s' with rfl | rfl
    · exact .quiet (.inr ⟨hnone, _, setEnd_self⟩) rfl (fun hw => hw)
        (fun hr => hr) (by simp) rfl rfl rfl
    · exact .quiet (.inl (by simp)) rfl (fun hw => hw) (fun hr => hr) (by simp) rfl rfl rfl
  · have hne : answer.answer.returnValue ≠ -1 := by omega
    by_cases hgives : (st.out s'.peer).Gives (sizeToRead limit) answer.data
    · rw [machine.move_eq (by rw [machine_step, step, if_neg hcall, if_neg hne, if_pos hgives, hread])]
      obtain ⟨hdata, hend⟩ := hgives
      rcases Side.eq_or_peer s s' with rfl | rfl
      · refine .quiet (.inr ⟨hnone, _, setEnd_self⟩) ?_ ?_ ?_ (by simp) rfl rfl ?_
        · simp
        · simp
        · simp
        · exact if_neg s'.peer_ne.symm
      · simp only [Side.peer_peer] at hdata hend ⊢
        refine ⟨fun {begun ended done sofar} h => ⟨done, sofar, ?_⟩, ⟨[], ?_, ?_, fun _ => rfl⟩,
          by simp, by simp, fun he => ?_⟩
        · simpa [begunBy, endedBy] using h
        · simp
        · simp only [gotBy, if_true, setOut_self]
          rw [List.append_nil]
          nth_rewrite 1 [hdata]
          exact List.take_append_drop _ _
        · simp only [setOut_ends, setEnd_self] at he
          by_cases hnil : limit > 0 ∧ answer.data = []
          · refine .inr ?_
            rcases hend hnil.2 with hzero | hshut
            · -- nothing was asked for
              unfold sizeToRead readBufferSize at hzero
              omega
            · exact hshut
          · rw [if_neg hnil] at he
            exact .inl he
    · refine moves_of_idle ?_ s
      rw [step, if_neg hcall, if_neg hne, if_neg hgives]

lemma shutdown_eof (w : FDWrapper) (how : ℤ) (answer : ZeroAnswer) :
    (Socket.shutdown w how answer).2.eof = w.eof := by
  unfold Socket.shutdown
  split
  · rfl
  · split
    · rfl
    · split
      · rfl
      · split <;> rfl

section

variable {st : State} {s : Side} {how : ℤ}

@[simp] lemma shut_ends (t : Side) : (st.shut t how).ends = st.ends := by
  unfold State.shut
  split <;> split <;> rfl

lemma shut_out (st : State) (t : Side) : ((st.shut t how).out s).queue = (st.out s).queue ∧
    ((st.out s).writeShut = true → ((st.shut t how).out s).writeShut = true) ∧
    ((st.out s).readShut = true → ((st.shut t how).out s).readShut = true) := by
  unfold State.shut
  rcases Side.eq_or_peer s t with rfl | rfl
  · split <;> split <;> simp
  · split <;> split <;> simp

end

lemma moves_shutdown (st : State) (s' : Side) (how : ℤ) (answer : ZeroAnswer) (s : Side) :
    Moves s (machine.move st (.shutdown s' how answer)) := by
  by_cases hcall : (st.ends s').call.isSome
  · refine moves_of_idle ?_ s
    simp only [step, if_pos hcall]
  have hnone : (st.ends s').call = none := by
    rwa [Bool.not_eq_true, Option.isSome_eq_false_iff, Option.isNone_iff_eq_none] at hcall
  have heof := shutdown_eof (st.ends s').internalFd how answer
  by_cases h0 : answer.returnValue = 0
  · rw [machine.move_eq (by rw [machine_step, step, if_neg hcall, if_pos h0])]
    obtain ⟨hqueue, hwrite, hread⟩ := shut_out (s := s) (st.setEnd s'
      { st.ends s' with internalFd := (Socket.shutdown (st.ends s').internalFd how answer).2 }) s'
    rcases Side.eq_or_peer s s' with rfl | rfl
    · exact .quiet (.inr ⟨hnone, _, by rw [shut_ends]; exact setEnd_self⟩) hqueue hwrite hread
        (by simp) rfl rfl rfl
    · exact .quiet (.inl (by simp)) hqueue hwrite hread (by simpa using heof) rfl rfl rfl
  · rw [machine.move_eq (by rw [machine_step, step, if_neg hcall, if_neg h0])]
    rcases Side.eq_or_peer s s' with rfl | rfl
    · exact .quiet (.inr ⟨hnone, _, setEnd_self⟩) rfl (fun hw => hw) (fun hr => hr) (by simp) rfl
        rfl rfl
    · exact .quiet (.inl (by simp)) rfl (fun hw => hw) (fun hr => hr) (by simpa using heof) rfl rfl
        rfl

/-- **All that a move does to a direction.** -/
theorem moves (st : State) (i : Input) (s : Side) : Moves s (machine.move st i) := by
  cases i with
  | write s' buffer writeAll => exact moves_write st s' buffer writeAll s
  | turn s' answer => exact moves_turn st s' answer s
  | read s' limit answer => exact moves_read st s' limit answer s
  | shutdown s' how answer => exact moves_shutdown st s' how answer s

/-! ### Runs -/

def received (s : Side) (tr : List (Move State Input Output)) : List UInt8 := tr.flatMap (gotBy s)

/-- **The invariant** of the direction from `s` to its peer. -/
structure Flows (s : Side) (tr : List (Move State Input Output)) (st : State) : Prop where
  account : ∃ done sofar, Account (st.ends s) (tr.filterMap (begunBy s)) (tr.filterMap (endedBy s))
    done sofar
  flow : received s.peer tr ++ (st.out s).queue = (st.ends s).sink.accepted
  eof : (st.ends s.peer).internalFd.eof = true →
    (st.out s).readShut = true ∨ ((st.out s).writeShut = true ∧ (st.out s).queue = [])

lemma flows_init (fd : Side → ℕ) (s : Side) : Flows s [] (init fd) :=
  ⟨⟨[], [], .new _⟩, rfl, fun he => by cases he⟩

/-- A channel that is shut for writing, and empty, stays so, and nobody receives from it. -/
lemma Moves.drained {s : Side} {m : Move State Input Output} (h : Moves s m)
    (hshut : (m.before.out s).writeShut = true) (hempty : (m.before.out s).queue = []) :
    (m.after.out s).writeShut = true ∧ (m.after.out s).queue = [] ∧ gotBy s.peer m = [] ∧
      (m.after.ends s).sink.accepted = (m.before.ends s).sink.accepted := by
  obtain ⟨x, hacc, hflow, hx⟩ := h.flow
  rw [hx hshut, List.append_nil] at hacc hflow
  rw [hempty, List.append_eq_nil_iff] at hflow
  exact ⟨h.writeShut hshut, hflow.2, hflow.1, hacc⟩

theorem Flows.step {s : Side} {tr : List (Move State Input Output)} {st : State}
    (h : Flows s tr st) (i : Input) : Flows s (tr ++ [machine.move st i]) (machine.step st i).2 := by
  have hm := moves st i s
  refine ⟨?_, ?_, fun he => ?_⟩
  · obtain ⟨done, sofar, hacc⟩ := h.account
    rw [filterMap_snoc, filterMap_snoc]
    exact hm.account hacc
  · obtain ⟨x, hacc, hflow, -⟩ := hm.flow
    have hold := h.flow
    unfold received at hold ⊢
    rw [List.flatMap_append, List.flatMap_singleton, List.append_assoc]
    calc tr.flatMap (gotBy s.peer) ++
          (gotBy s.peer (machine.move st i) ++ ((machine.step st i).2.out s).queue)
        = tr.flatMap (gotBy s.peer) ++ ((st.out s).queue ++ x) := congrArg _ hflow
      _ = (st.ends s).sink.accepted ++ x := by rw [← List.append_assoc, hold]
      _ = ((machine.step st i).2.ends s).sink.accepted := hacc.symm
  · rcases hm.eof he with heof | ⟨hempty, hshut | hread⟩
    · rcases h.eof heof with hread | ⟨hshut, hempty⟩
      · exact .inl (hm.readShut hread)
      · obtain ⟨hshut', hempty', -⟩ := hm.drained hshut hempty
        exact .inr ⟨hshut', hempty'⟩
    · obtain ⟨hshut', hempty', -⟩ := hm.drained hshut hempty
      exact .inr ⟨hshut', hempty'⟩
    · exact .inl (hm.readShut hread)

lemma flows_run (fd : Side → ℕ) (is : List Input) (s : Side) :
    Flows s (machine.trace (init fd) is) (machine.run (init fd) is) :=
  machine.history (J := fun tr st => Flows s tr st) (flows_init fd s)
    (fun _ _ i h => h.step i) is

/-- What the direction from `s` to its peer has carried: the calls of `write` that are done, each with
the part of its buffer that was accepted, and of the one under way the part so far. -/
structure Carries (s : Side) (tr : List (Move State Input Output)) (st : State) (done : List Done)
    (sofar : List UInt8) : Prop where
  begun : tr.filterMap (begunBy s) = done.map (fun d => (d.given, d.writeAll)) ++
    ((st.ends s).call.map fun c => (c.given, c.writeAll)).toList
  ended : tr.filterMap (endedBy s) = done.map Done.result
  sound : ∀ d ∈ done, d.Sound
  idle : (st.ends s).call = none → sofar = []
  underWay : ∀ c, (st.ends s).call = some c → sofar ++ c.buffer.bytes = c.given.bytes
  /-- Received, in flight, and accepted. -/
  conserved : received s.peer tr ++ (st.out s).queue = done.flatMap Done.part ++ sofar
  /-- A read finds the end of the file when nothing is in flight and one of the ends is shut. -/
  found : ∀ m ∈ tr, (m.before.ends s.peer).internalFd.eof = false →
    (m.after.ends s.peer).internalFd.eof = true → (m.before.out s).queue = [] ∧
      ((m.before.out s).writeShut = true ∨ (m.before.out s).readShut = true)
  /-- Unless the reader has shut its own reading, nothing comes after it. -/
  endOfFile : (st.ends s.peer).internalFd.eof = true →
    (st.out s).readShut = true ∨ ((st.out s).writeShut = true ∧ (st.out s).queue = [])

/-- **A stream loses, repeats and reorders nothing.** Whatever the two sides do, and wherever their
calls interleave: in each direction what was received, followed by what is in flight, is what the
kernel has accepted of the buffers given to `write`, call by call and in their order; of each buffer
this is a prefix, as long as the call tells, and all of it if a call with `write_all` returns. A side
finds the end of the file only when nothing is in flight, and behind it there is nothing, unless the
side has shut its own reading. -/
theorem stream_exact (fd : Side → ℕ) (is : List Input) (s : Side) :
    ∃ done sofar, Carries s (machine.trace (init fd) is) (machine.run (init fd) is) done sofar := by
  obtain ⟨⟨done, sofar, hacc⟩, hflow, heof⟩ := flows_run fd is s
  refine ⟨done, sofar, hacc.begun, hacc.ended, hacc.sound, hacc.idle, fun c hc => ?_, ?_,
    fun m hm hbefore hafter => ?_, heof⟩
  · obtain ⟨start, -, hprog⟩ := hacc.underWay c hc
    exact hprog.split
  · rw [hflow, hacc.accepted]
  · obtain ⟨js, i, ks, -, rfl⟩ := machine.mem_trace.1 hm
    exact ((moves _ i s).eof hafter).resolve_left fun heq => by rw [hbefore] at heq; cases heq

/-- **The end of the file is final.** Once a side has found it, without having shut its own reading,
it has received all that is ever accepted from its peer. -/
theorem end_of_file_final (fd : Side → ℕ) (is is' : List Input) (s : Side)
    (heof : ((machine.run (init fd) is).ends s.peer).internalFd.eof = true)
    (hread : ((machine.run (init fd) is).out s).readShut = false) :
    received s.peer (machine.trace (init fd) (is ++ is')) =
        received s.peer (machine.trace (init fd) is) ∧
      received s.peer (machine.trace (init fd) is) =
        ((machine.run (init fd) (is ++ is')).ends s).sink.accepted := by
  have hflows := flows_run fd is s
  have hflow := hflows.flow
  rcases hflows.eof heof with hr | ⟨hshut, hempty⟩
  · rw [hread] at hr
    cases hr
  rw [hempty, List.append_nil] at hflow
  rw [machine.trace_append, machine.run_append, hflow]
  generalize machine.run (init fd) is = st at hshut hempty hflow
  unfold received at hflow ⊢
  rw [List.flatMap_append, hflow]
  -- an empty channel that is shut stays so, move by move
  have key : ∀ st : State, (st.out s).writeShut = true → (st.out s).queue = [] →
      (machine.trace st is').flatMap (gotBy s.peer) = [] ∧
        ((machine.run st is').ends s).sink.accepted = (st.ends s).sink.accepted := by
    induction is' with
    | nil => exact fun _ _ _ => ⟨rfl, rfl⟩
    | cons i is' ih =>
      intro st hshut hempty
      obtain ⟨hshut', hempty', hgot, hacc⟩ := (moves st i s).drained hshut hempty
      obtain ⟨htail, hrun⟩ := ih _ hshut' hempty'
      rw [machine.trace_cons, List.flatMap_cons, hgot, List.nil_append]
      exact ⟨htail, hrun.trans hacc⟩
  obtain ⟨hgot, hacc⟩ := key st hshut hempty
  rw [hgot, List.append_nil, hacc]
  exact ⟨rfl, rfl⟩

/-- An answer of `writev` that accepts one byte, if there is one. -/
def oneByte : Answer := fun iovecs =>
  ⟨(min 1 (totalLength iovecs) : ℕ), 0, .inr ⟨by omega, by omega, by omega⟩⟩

/-- An answer of `read` that gives out the data, at the default limit. -/
def gives (data : List UInt8) (h : data.length ≤ 1024 * 1024) : ReadAnswer (sizeToRead noLimit) :=
  ⟨data, ⟨data.length, 0, .inr rfl⟩, h⟩

/-- The left side writes two bytes, one a turn, and shuts down; the right side reads them between. -/
theorem end_of_file_final_two_bytes :
    let is : List Input := [.write .left ⟨[[1, 2]]⟩ true, .turn .left oneByte,
      .read .right noLimit (gives [1] (by decide)), .turn .left oneByte,
      .shutdown .left Socket.SHUT_WR ⟨0, 0, .inr rfl⟩,
      .read .right noLimit (gives [2] (by decide)), .read .right noLimit (gives [] (by decide))]
    let is' : List Input := [.write .left ⟨[[3]]⟩ true, .turn .left oneByte,
      .read .right noLimit (gives [] (by decide))]
    received .right (machine.trace (init fun _ => 3) (is ++ is')) =
        received .right (machine.trace (init fun _ => 3) is) ∧
      received .right (machine.trace (init fun _ => 3) is) =
        ((machine.run (init fun _ => 3) (is ++ is')).ends .left).sink.accepted :=
  end_of_file_final (fun _ => 3) _ _ .left (by decide) (by decide)

end Sponge.StreamPair
