import Sponge.Lib.Fifo
import Sponge.ByteStream.Basic

/-!
# `ByteStream` is a bounded FIFO

* `Shows f s` — the stream `s` shows the abstract FIFO `f`: same contents, the counters are its two
  lengths modulo `2 ^ 64`;
* `Shows.step` — every method takes a shown FIFO to a shown FIFO, with the answers of the FIFO;
* `refines_fifo` — hence, over whole runs, the stream is determined by what the trace accepted and
  removed.
-/

namespace Sponge.ByteStream

open Lib

variable {c : UInt64}

/-- The stream `s` shows the FIFO `f`. -/
structure Shows (f : Fifo UInt8 c.toNat) (s : ByteStream) : Prop where
  capacity : s.capacity = c
  buffer : s.buffer = f.contents
  written : s.writeCount = UInt64.ofNat f.accepted.length
  read : s.readCount = UInt64.ofNat f.removed
  ended : s.isInputEnded = f.closed

/-- What a call does to the FIFO. -/
def applyOp (f : Fifo UInt8 c.toNat) : Op → Fifo UInt8 c.toNat
  | .write data => f.write data
  | .read len => f.pop len
  | .popOutput len => f.pop len
  | .peekOutput _ => f
  | .endInput => f.close
  | .setError => f

lemma closed_applyOp_iff (f : Fifo UInt8 c.toNat) (op : Op) :
    (applyOp f op).closed = true ↔ f.closed = true ∨ op = .endInput := by
  cases op <;> simp [applyOp, Fifo.write, Fifo.pop, Fifo.close]

theorem shows_new (c : UInt64) : Shows (Fifo.empty UInt8 c.toNat) (new c) :=
  ⟨rfl, rfl, rfl, rfl, rfl⟩

namespace Shows

variable {f : Fifo UInt8 c.toNat} {s : ByteStream} (h : Shows f s)
include h

lemma bufferSize_eq : s.bufferSize = f.contents.length := by rw [bufferSize, h.buffer]

lemma bufferSize_le : s.bufferSize ≤ s.capacity.toNat := by
  rw [h.bufferSize_eq, h.capacity]
  exact f.length_contents_le

/-- The subtraction `_capacity - _buffer.size()` does not wrap: it is the room of the FIFO. -/
lemma remainingCapacity_eq : s.remainingCapacity = f.room := by
  have hle := f.length_contents_le
  have hn : (UInt64.ofNat f.contents.length).toNat = f.contents.length :=
    UInt64.toNat_ofNat_of_lt' (Nat.lt_of_le_of_lt hle c.toNat_lt_size)
  unfold remainingCapacity Fifo.room
  rw [h.bufferSize_eq, h.capacity,
    UInt64.toNat_sub_of_le _ _ (by rw [UInt64.le_iff_toNat_le, hn]; exact hle), hn]

lemma bufferSize_add_remainingCapacity : s.bufferSize + s.remainingCapacity = c.toNat := by
  rw [h.bufferSize_eq, h.remainingCapacity_eq]
  exact f.length_add_room

lemma write (data : List UInt8) : Shows (f.write data) (s.write data).2 := by
  have hcount : (s.write data).1 = (data.take f.room).length := by
    rw [write_count, h.remainingCapacity_eq, List.length_take, Nat.min_comm]
  rw [write_state]
  refine ⟨h.capacity, ?_, ?_, h.read, h.ended⟩
  · simp only [h.buffer, h.remainingCapacity_eq, Fifo.contents_write]
  · simp only [Fifo.write, h.written, hcount, List.length_append, UInt64.ofNat_add]

lemma popOutput (len : ℕ) : Shows (f.pop len) (s.popOutput len) := by
  rw [popOutput_eq]
  refine ⟨h.capacity, ?_, h.written, ?_, h.ended⟩
  · simp only [h.buffer, Fifo.contents_pop]
  · simp only [Fifo.pop, h.read, h.bufferSize_eq, UInt64.ofNat_add]

/-- **One call.** A method takes the FIFO a stream shows to the FIFO it shows afterwards. -/
theorem step (op : Op) : Shows (applyOp f op) (s.step op).2 := by
  cases op with
  | write data => exact h.write data
  | read len => exact h.popOutput len
  | popOutput len => exact h.popOutput len
  | peekOutput len => exact h
  | endInput => exact ⟨h.capacity, h.buffer, h.written, h.read, rfl⟩
  | setError => exact ⟨h.capacity, h.buffer, h.written, h.read, h.ended⟩

/-- **Calls in sequence.** -/
theorem run (ops : List Op) : Shows (ops.foldl applyOp f) (machine.run s ops) := by
  induction ops generalizing f s with
  | nil => exact h
  | cons op ops ih => exact ih (h.step op)

/-- A FIFO tells everything about a stream but its error flag. -/
lemma unique {t : ByteStream} (ht : Shows f t) (herror : s.error = t.error) : s = t := by
  obtain ⟨buffer, capacity, readCount, writeCount, isInputEnded, error⟩ := s
  obtain ⟨hcapacity, hbuffer, hwritten, hread, hended⟩ := h
  cases t
  simp only [ByteStream.mk.injEq]
  exact ⟨hbuffer.trans ht.buffer.symm, hcapacity.trans ht.capacity.symm, hread.trans ht.read.symm,
    hwritten.trans ht.written.symm, hended.trans ht.ended.symm, herror⟩

lemma eof_iff : s.eof = true ↔ f.closed = true ∧ f.removed = f.accepted.length := by
  rw [eof, Bool.and_eq_true, bufferEmpty_iff, inputEnded, h.ended, h.buffer,
    Fifo.contents_eq_nil_iff]

end Shows

lemma error_step_iff (s : ByteStream) (op : Op) :
    (s.step op).2.error = true ↔ s.error = true ∨ op = .setError := by
  cases op with
  | write data => simp [step, write]
  | read len => simp [step, read, popOutput_eq]
  | popOutput len => simp [step, popOutput_eq]
  | peekOutput len => simp [step]
  | endInput => simp [step, endInput]
  | setError => simp [step, setError]

lemma error_run_iff (s : ByteStream) (ops : List Op) :
    (machine.run s ops).error = true ↔ s.error = true ∨ .setError ∈ ops := by
  induction ops generalizing s with
  | nil => simp
  | cons op ops ih =>
    rw [machine.run_cons, ih, machine_step, error_step_iff, List.mem_cons, or_assoc,
      eq_comm (a := op)]

/-! ### What a trace accepted and removed -/

/-- The bytes a move accepted: as many of the string written as the call said. -/
def acceptedBy (m : Move ByteStream Op Ret) : List UInt8 :=
  match m.input, m.output with
  | .write data, .count n => data.take n
  | _, _ => []

/-- The number of bytes a move took out of the buffer. -/
def removedBy (m : Move ByteStream Op Ret) : ℕ :=
  match m.input with
  | .read _ => m.before.bufferSize - m.after.bufferSize
  | .popOutput _ => m.before.bufferSize - m.after.bufferSize
  | _ => 0

def accepted (tr : List (Move ByteStream Op Ret)) : List UInt8 := tr.flatMap acceptedBy

def removed (tr : List (Move ByteStream Op Ret)) : ℕ := (tr.map removedBy).sum

/-- The FIFO has the history of the trace. -/
structure HasHistory (f : Fifo UInt8 c.toNat) (tr : List (Move ByteStream Op Ret)) : Prop where
  accepted : f.accepted = accepted tr
  removed : f.removed = removed tr
  closed : f.closed = true ↔ Op.endInput ∈ tr.map Move.input

lemma Shows.popOutput_size {f : Fifo UInt8 c.toNat} {s : ByteStream} (h : Shows f s) (len : ℕ) :
    s.bufferSize - (s.popOutput len).bufferSize = min len f.contents.length := by
  rw [h.bufferSize_eq, (h.popOutput len).bufferSize_eq, Fifo.contents_pop, List.length_drop]
  omega

lemma HasHistory.step {f : Fifo UInt8 c.toNat} {s : ByteStream} {tr : List (Move ByteStream Op Ret)}
    (hf : HasHistory f tr) (h : Shows f s) (op : Op) :
    HasHistory (applyOp f op) (tr ++ [machine.move s op]) := by
  obtain ⟨ha, hr, hc⟩ := hf
  have hacc : ByteStream.accepted (tr ++ [machine.move s op]) =
      f.accepted ++ acceptedBy (machine.move s op) := by
    simp [ByteStream.accepted, ha]
  have hrem : ByteStream.removed (tr ++ [machine.move s op]) =
      f.removed + removedBy (machine.move s op) := by
    simp [ByteStream.removed, hr]
  have hend : Op.endInput ∈ (tr ++ [machine.move s op]).map Move.input ↔
      f.closed = true ∨ op = .endInput := by
    rw [List.map_append, List.mem_append, ← hc, List.map_singleton, List.mem_singleton,
      Machine.move_input]
    exact or_congr_right eq_comm
  refine ⟨?_, ?_, ?_⟩
  · rw [hacc]
    cases op with
    | write data =>
      show f.accepted ++ data.take f.room = f.accepted ++ data.take (s.write data).1
      rw [write_count, h.remainingCapacity_eq, Nat.min_comm, ← List.take_eq_take_min]
    | read len => exact (List.append_nil _).symm
    | popOutput len => exact (List.append_nil _).symm
    | peekOutput len => exact (List.append_nil _).symm
    | endInput => exact (List.append_nil _).symm
    | setError => exact (List.append_nil _).symm
  · rw [hrem]
    cases op with
    | write data => rfl
    | read len => exact congrArg (f.removed + ·) (h.popOutput_size len).symm
    | popOutput len => exact congrArg (f.removed + ·) (h.popOutput_size len).symm
    | peekOutput len => rfl
    | endInput => rfl
    | setError => rfl
  · exact (closed_applyOp_iff f op).trans hend.symm

/-- **Whole runs.** A fresh stream shows, after any calls, a FIFO with the history of the run. -/
theorem shows_run (c : UInt64) (ops : List Op) :
    ∃ f : Fifo UInt8 c.toNat, Shows f (machine.run (new c) ops) ∧
      HasHistory f (machine.trace (new c) ops) := by
  refine Machine.history (J := fun tr s => ∃ f : Fifo UInt8 c.toNat, Shows f s ∧ HasHistory f tr)
    ⟨Fifo.empty UInt8 c.toNat, shows_new c, ⟨rfl, rfl, by simp [Fifo.empty]⟩⟩ ?_ ops
  rintro tr s op ⟨f, h, hf⟩
  exact ⟨applyOp f op, h.step op, hf.step h op⟩

/-- The bytes that the writes among some calls offer, in order. -/
def offered (ops : List Op) : List UInt8 :=
  ops.flatMap fun
    | .write data => data
    | _ => []

/-! ### The FIFO, read off the trace -/

/-- What the methods of `s` do and answer, when the calls `ops` on a fresh stream of capacity `c`
led to `s`, accepted the bytes `A` and removed `r` bytes. -/
structure RefinesFifo (c : UInt64) (ops : List Op) (A : List UInt8) (r : ℕ) (s : ByteStream) :
    Prop where
  removed_le : r ≤ A.length
  buffer : s.buffer = A.drop r
  write_count : ∀ data, (s.write data).1 = min data.length (c.toNat - s.bufferSize)
  write_prefix : ∀ data, (s.write data).2.buffer = s.buffer ++ data.take (s.write data).1
  peek : ∀ len, s.peekOutput len = (A.drop r).take (min len s.bufferSize)
  read : ∀ len, (s.read len).1 = (A.drop r).take (min len s.bufferSize)
  peek_frame : ∀ len, (machine.step s (.peekOutput len)).2 = s
  bytesWritten : s.bytesWritten.toNat = A.length % 2 ^ 64
  bytesRead : s.bytesRead.toNat = r % 2 ^ 64
  no_underflow : s.bufferSize ≤ s.capacity.toNat
  capacity : s.bufferSize + s.remainingCapacity = c.toNat
  eof : s.eof = true ↔ Op.endInput ∈ ops ∧ r = A.length

/-- **A `ByteStream` is a bounded FIFO**, over every run of a fresh stream. -/
theorem refines_fifo (c : UInt64) (ops : List Op) :
    RefinesFifo c ops (accepted (machine.trace (new c) ops)) (removed (machine.trace (new c) ops))
      (machine.run (new c) ops) := by
  obtain ⟨f, h, ha, hr, hc⟩ := shows_run c ops
  rw [machine.map_input_trace] at hc
  rw [← ha, ← hr]
  generalize machine.run (new c) ops = s at h
  have hroom : s.remainingCapacity = c.toNat - s.bufferSize := by
    have := h.bufferSize_add_remainingCapacity
    omega
  have hpeek : ∀ len, s.peekOutput len = (f.accepted.drop f.removed).take (min len s.bufferSize) := by
    intro len
    rw [peekOutput_eq, h.buffer, Fifo.contents]
  refine ⟨f.removed_le, h.buffer, ?_, ?_, hpeek, hpeek, fun _ => rfl, ?_, ?_, h.bufferSize_le,
    h.bufferSize_add_remainingCapacity, ?_⟩
  · intro data
    rw [ByteStream.write_count, hroom]
  · intro data
    rw [write_state, ByteStream.write_count, Nat.min_comm, ← List.take_eq_take_min]
  · rw [ByteStream.bytesWritten, h.written, UInt64.toNat_ofNat']
  · rw [ByteStream.bytesRead, h.read, UInt64.toNat_ofNat']
  · rw [h.eof_iff, hc]

end Sponge.ByteStream
