import Sponge.ByteStream.Refines

/-!
# The writer and the reader are independent

The calls of a writer and of a reader, interleaved in any way in which no call is clipped. What the
reader's calls answer is then read off one tape, the bytes in the buffer followed by all those that
the writer ever offers, and does not depend on how far the writer has come (`foretold`). So any two
such schedules of the same calls agree (`schedules_agree`). A schedule between the two may well clip
a call, which is why they are compared with the tape and not with each other.
-/

namespace Sponge.ByteStream

open Lib

/-- A call of the side that writes; the others are of the side that reads. -/
def Op.isWriter : Op → Bool
  | .write _ | .endInput | .setError => true
  | .read _ | .popOutput _ | .peekOutput _ => false

def Op.isReader (op : Op) : Bool := !op.isWriter

/-- The calls `is` are those of a writer, `ws`, and of a reader, `rs`, interleaved. -/
structure Interleaves (ws rs is : List Op) : Prop where
  writer : is.filter Op.isWriter = ws
  reader : is.filter Op.isReader = rs

/-- A write has room for all it offers; a read, pop or peek asks for no more than there is. -/
def Unclipped (m : Move ByteStream Op Ret) : Prop :=
  match m.input with
  | .write data => data.length ≤ m.before.remainingCapacity
  | .read len | .popOutput len | .peekOutput len => len ≤ m.before.bufferSize
  | .endInput | .setError => True

instance (m : Move ByteStream Op Ret) : Decidable (Unclipped m) := by
  unfold Unclipped
  split <;> infer_instance

/-- The results of the calls of one side, in order. -/
def results (side : Op → Bool) (tr : List (Move ByteStream Op Ret)) : List Ret :=
  (tr.filter fun m => side m.input).map Move.output

/-! ### What the calls answer if none is clipped -/

def writerAnswers : List Op → List Ret
  | [] => []
  | .write data :: ops => .count data.length :: writerAnswers ops
  | .endInput :: ops => .void :: writerAnswers ops
  | .setError :: ops => .void :: writerAnswers ops
  | .read _ :: ops | .popOutput _ :: ops | .peekOutput _ :: ops => writerAnswers ops

/-- The answers to the reader among some calls, who has the tape before him. -/
def readerAnswers : List UInt8 → List Op → List Ret
  | _, [] => []
  | tape, .read len :: ops => .bytes (tape.take len) :: readerAnswers (tape.drop len) ops
  | tape, .popOutput len :: ops => .void :: readerAnswers (tape.drop len) ops
  | tape, .peekOutput len :: ops => .bytes (tape.take len) :: readerAnswers tape ops
  | tape, .write _ :: ops | tape, .endInput :: ops | tape, .setError :: ops =>
    readerAnswers tape ops

/-- How much the reader among some calls takes out. -/
def taken : List Op → ℕ
  | [] => 0
  | .read len :: ops | .popOutput len :: ops => len + taken ops
  | .write _ :: ops | .peekOutput _ :: ops | .endInput :: ops | .setError :: ops => taken ops

lemma writerAnswers_filter (ops : List Op) :
    writerAnswers (ops.filter Op.isWriter) = writerAnswers ops := by
  induction ops with
  | nil => rfl
  | cons op ops ih => cases op <;> simp [List.filter_cons, Op.isWriter, writerAnswers, ih]

lemma readerAnswers_filter (tape : List UInt8) (ops : List Op) :
    readerAnswers tape (ops.filter Op.isReader) = readerAnswers tape ops := by
  induction ops generalizing tape with
  | nil => rfl
  | cons op ops ih => cases op <;> simp [Op.isReader, Op.isWriter, readerAnswers, ih]

lemma taken_filter (ops : List Op) : taken (ops.filter Op.isReader) = taken ops := by
  induction ops with
  | nil => rfl
  | cons op ops ih => cases op <;> simp [Op.isReader, Op.isWriter, taken, ih]

lemma offered_filter (ops : List Op) : offered (ops.filter Op.isWriter) = offered ops := by
  induction ops with
  | nil => rfl
  | cons op ops ih =>
    unfold offered at ih ⊢
    cases op <;> simp [List.filter_cons, Op.isWriter, ih]

namespace Interleaves

variable {ws rs is : List Op} (hi : Interleaves ws rs is)
include hi

lemma writerAnswers_eq : writerAnswers is = writerAnswers ws := by
  rw [← hi.writer, writerAnswers_filter]

lemma readerAnswers_eq (tape : List UInt8) : readerAnswers tape is = readerAnswers tape rs := by
  rw [← hi.reader, readerAnswers_filter]

lemma offered_eq : offered is = offered ws := by rw [← hi.writer, offered_filter]

lemma taken_eq : taken is = taken rs := by rw [← hi.reader, taken_filter]

lemma mem_iff {op : Op} (hop : op.isWriter = true) : op ∈ is ↔ op ∈ ws := by
  rw [← hi.writer, List.mem_filter, and_iff_left hop]

end Interleaves

variable {c : UInt64} {f : Fifo UInt8 c.toNat} {s : ByteStream} {is : List Op}

/-- From the FIFO `f`, the calls `is` lead to `g` by a trace that is as foretold. -/
structure Foretold (f : Fifo UInt8 c.toNat) (is : List Op) (tr : List (Move ByteStream Op Ret))
    (g : Fifo UInt8 c.toNat) : Prop where
  writer : results Op.isWriter tr = writerAnswers is
  reader : results Op.isReader tr = readerAnswers (f.contents ++ offered is) is
  accepted : g.accepted = f.accepted ++ offered is
  removed : g.removed = f.removed + taken is

lemma closed_foldl_iff (f : Fifo UInt8 c.toNat) (ops : List Op) :
    (ops.foldl applyOp f).closed = true ↔ f.closed = true ∨ .endInput ∈ ops := by
  induction ops generalizing f with
  | nil => simp
  | cons op ops ih =>
    rw [List.foldl_cons, ih, closed_applyOp_iff, List.mem_cons, or_assoc, eq_comm (a := op)]

lemma Shows.peekOutput_of_le (h : Shows f s) {len : ℕ} (hle : len ≤ f.contents.length)
    (d : List UInt8) : s.peekOutput len = (f.contents ++ d).take len := by
  rw [peekOutput_eq, h.bufferSize_eq, Nat.min_eq_left hle, h.buffer,
    List.take_append_of_le_length hle]

/-- **One call** that is not clipped, in front of calls that go on as foretold. -/
lemma Foretold.cons {op : Op} {tr : List (Move ByteStream Op Ret)} {g : Fifo UInt8 c.toNat}
    (h : Shows f s) (hop : Unclipped (machine.move s op)) (hrest : Foretold (applyOp f op) is tr g) :
    Foretold f (op :: is) (machine.move s op :: tr) g := by
  obtain ⟨hwriter, hreader, haccepted, hremoved⟩ := hrest
  cases op with
  | write data =>
    have hle : data.length ≤ f.room := h.remainingCapacity_eq ▸ hop
    have hcount : (s.write data).1 = data.length := by
      rw [write_count, h.remainingCapacity_eq, Nat.min_eq_left hle]
    refine ⟨?_, ?_, ?_, hremoved⟩
    · exact congrArg₂ List.cons (congrArg Ret.count hcount) hwriter
    · -- what is written moves from the rest of the tape into the buffer
      refine hreader.trans ?_
      show readerAnswers ((f.write data).contents ++ offered is) is =
        readerAnswers (f.contents ++ (data ++ offered is)) is
      rw [Fifo.contents_write_of_le hle, List.append_assoc]
    · refine haccepted.trans ?_
      show (f.write data).accepted ++ offered is = f.accepted ++ (data ++ offered is)
      rw [Fifo.accepted_write_of_le hle, List.append_assoc]
  | read len =>
    have hle : len ≤ f.contents.length := h.bufferSize_eq ▸ hop
    refine ⟨hwriter, ?_, haccepted, ?_⟩
    · refine congrArg₂ List.cons (congrArg Ret.bytes (h.peekOutput_of_le hle _)) ?_
      rw [← Fifo.contents_pop_append hle]
      exact hreader
    · exact hremoved.trans (Fifo.removed_pop_add hle _)
  | popOutput len =>
    have hle : len ≤ f.contents.length := h.bufferSize_eq ▸ hop
    refine ⟨hwriter, ?_, haccepted, ?_⟩
    · refine congrArg (List.cons Ret.void) ?_
      rw [← Fifo.contents_pop_append hle]
      exact hreader
    · exact hremoved.trans (Fifo.removed_pop_add hle _)
  | peekOutput len =>
    have hle : len ≤ f.contents.length := h.bufferSize_eq ▸ hop
    refine ⟨hwriter, ?_, haccepted, hremoved⟩
    exact congrArg₂ List.cons (congrArg Ret.bytes (h.peekOutput_of_le hle _)) hreader
  | endInput => exact ⟨congrArg (List.cons Ret.void) hwriter, hreader, haccepted, hremoved⟩
  | setError => exact ⟨congrArg (List.cons Ret.void) hwriter, hreader, haccepted, hremoved⟩

/-- **No call is clipped**: the answers and the FIFO are as foretold, by induction on the calls. -/
theorem foretold (h : Shows f s) (hclip : ∀ m ∈ machine.trace s is, Unclipped m) :
    Foretold f is (machine.trace s is) (is.foldl applyOp f) := by
  induction is generalizing f s with
  | nil => exact ⟨rfl, rfl, (List.append_nil _).symm, rfl⟩
  | cons op is ih =>
    rw [machine.trace_cons, List.forall_mem_cons] at hclip
    obtain ⟨hop, hrest⟩ := hclip
    exact Foretold.cons h hop (ih (h.step op) hrest)

/-- **Writer and reader are independent.** In every reachable state, any two schedules of the same
calls of a writer and of a reader that clip none of them give every call the same result, and lead
to the same state. -/
theorem schedules_agree (c : UInt64) (ops : List Op) {ws rs is js : List Op}
    (hi : Interleaves ws rs is) (hj : Interleaves ws rs js)
    (huis : ∀ m ∈ machine.trace (machine.run (new c) ops) is, Unclipped m)
    (hujs : ∀ m ∈ machine.trace (machine.run (new c) ops) js, Unclipped m) :
    results Op.isWriter (machine.trace (machine.run (new c) ops) is) =
        results Op.isWriter (machine.trace (machine.run (new c) ops) js) ∧
      results Op.isReader (machine.trace (machine.run (new c) ops) is) =
        results Op.isReader (machine.trace (machine.run (new c) ops) js) ∧
      machine.run (machine.run (new c) ops) is = machine.run (machine.run (new c) ops) js := by
  obtain ⟨f, h, -⟩ := shows_run c ops
  generalize machine.run (new c) ops = s at h huis hujs ⊢
  have hfis := foretold h huis
  have hfjs := foretold h hujs
  refine ⟨?_, ?_, ?_⟩
  · rw [hfis.writer, hfjs.writer, hi.writerAnswers_eq, hj.writerAnswers_eq]
  · rw [hfis.reader, hfjs.reader, hi.readerAnswers_eq, hj.readerAnswers_eq, hi.offered_eq,
      hj.offered_eq]
  · have hfifo : is.foldl applyOp f = js.foldl applyOp f := by
      ext1
      · rw [hfis.accepted, hfjs.accepted, hi.offered_eq, hj.offered_eq]
      · rw [hfis.removed, hfjs.removed, hi.taken_eq, hj.taken_eq]
      · rw [Bool.eq_iff_iff, closed_foldl_iff, closed_foldl_iff, hi.mem_iff rfl, hj.mem_iff rfl]
    refine (h.run is).unique (hfifo ▸ h.run js) ?_
    rw [Bool.eq_iff_iff, error_run_iff, error_run_iff, hi.mem_iff rfl, hj.mem_iff rfl]

/-- The reader comes in between two writes, or after both. -/
theorem schedules_agree_late_read :
    machine.run (new 2) [.write [1], .read 1, .write [2], .endInput] =
      machine.run (new 2) [.write [1], .write [2], .read 1, .endInput] :=
  (@schedules_agree 2 [] [.write [1], .write [2], .endInput] [.read 1]
    [.write [1], .read 1, .write [2], .endInput] [.write [1], .write [2], .read 1, .endInput]
    ⟨rfl, rfl⟩ ⟨rfl, rfl⟩ (by decide) (by decide)).2.2

end Sponge.ByteStream
