import Sponge.ByteStream.Basic

/-!
# After `end_input`

`write` does not look at the flag that `end_input` sets, so a stream whose input has ended still
takes in bytes when it has room for them. `closed_iff` says on which continuations the end of the
input is final nevertheless.
-/

namespace Sponge.ByteStream

open Lib

/-- On the continuation `ops` the stream `s` is closed for good: no write gets anything in, the
count of bytes written is frozen, and an `eof` that was seen is seen from then on. -/
structure ClosedForGood (s : ByteStream) (ops : List Op) : Prop where
  write : ∀ m ∈ machine.trace s ops, ∀ data, m.input = .write data →
    m.output = .count 0 ∧ m.after.buffer = m.before.buffer ∧
      m.after.bytesWritten = m.before.bytesWritten
  frozen : ∀ js ks, ops = js ++ ks → (machine.run s js).bytesWritten = s.bytesWritten
  eof : ∀ js ks ls, ops = js ++ ks ++ ls → (machine.run s js).eof = true →
    (machine.run s (js ++ ks)).eof = true

/-- The move is not a write of something into a stream with room. -/
def NoRoom (m : Move ByteStream Op Ret) : Prop :=
  ∀ data, m.input = .write data → data = [] ∨ m.before.remainingCapacity = 0

lemma write_eq_zero_iff (s : ByteStream) (data : List UInt8) :
    (s.write data).1 = 0 ↔ data = [] ∨ s.remainingCapacity = 0 := by
  rw [write_count, ← List.length_eq_zero_iff]
  omega

lemma write_eq_self {s : ByteStream} {data : List UInt8} (h : (s.write data).1 = 0) :
    (s.write data).2 = s := by
  have ht : data.take s.remainingCapacity = [] := by
    rcases (write_eq_zero_iff s data).1 h with rfl | h
    · exact List.take_nil
    · rw [h, List.take_zero]
  rw [write_state, h, ht]
  simp

lemma bytesWritten_popOutput (s : ByteStream) (len : ℕ) :
    (s.popOutput len).bytesWritten = s.bytesWritten := by
  rw [popOutput_eq]
  rfl

/-- A move that is no write into room leaves the count of bytes written alone. -/
lemma bytesWritten_step {s : ByteStream} {op : Op} (h : NoRoom (machine.move s op)) :
    (s.step op).2.bytesWritten = s.bytesWritten := by
  cases op with
  | write data =>
    show (s.write data).2.bytesWritten = _
    rw [write_eq_self ((write_eq_zero_iff s data).2 (h data rfl))]
  | read len => exact bytesWritten_popOutput s len
  | popOutput len => exact bytesWritten_popOutput s len
  | peekOutput len => rfl
  | endInput => rfl
  | setError => rfl

lemma eof_popOutput {s : ByteStream} (len : ℕ) (h : s.eof = true) :
    (s.popOutput len).eof = true := by
  have hb : s.bufferEmpty = true := (Bool.and_eq_true_iff.1 h).2
  unfold popOutput
  rwa [if_pos hb]

lemma eof_step {s : ByteStream} {op : Op} (h : NoRoom (machine.move s op)) (he : s.eof = true) :
    (s.step op).2.eof = true := by
  cases op with
  | write data =>
    show (s.write data).2.eof = true
    rwa [write_eq_self ((write_eq_zero_iff s data).2 (h data rfl))]
  | read len => exact eof_popOutput len he
  | popOutput len => exact eof_popOutput len he
  | peekOutput len => exact he
  | endInput => exact (Bool.and_eq_true_iff.2 ⟨rfl, (Bool.and_eq_true_iff.1 he).2⟩)
  | setError => exact he

/-- **When the end of the input is final.** On a stream whose input has ended, a continuation finds
it closed for good exactly when each of its writes is empty or comes when the buffer is full. -/
theorem closed_iff (c : UInt64) (pre mid ops : List Op) :
    ClosedForGood (machine.run (new c) (pre ++ .endInput :: mid)) ops ↔
      ∀ m ∈ machine.trace (machine.run (new c) (pre ++ .endInput :: mid)) ops, NoRoom m := by
  generalize machine.run (new c) (pre ++ .endInput :: mid) = s
  constructor
  · intro h m hm data hd
    obtain ⟨hout, -, -⟩ := h.write m hm data hd
    obtain ⟨js, op, ks, -, rfl⟩ := machine.mem_trace.1 hm
    obtain rfl : op = .write data := hd
    exact (write_eq_zero_iff _ data).1 (Ret.count.inj hout)
  · intro h
    refine ⟨?_, ?_, ?_⟩
    · intro m hm data hd
      have hm' := h m hm data hd
      obtain ⟨js, op, ks, -, rfl⟩ := machine.mem_trace.1 hm
      obtain rfl : op = .write data := hd
      have h0 := (write_eq_zero_iff _ data).2 hm'
      refine ⟨congrArg Ret.count h0, ?_, ?_⟩
      · exact congrArg buffer (write_eq_self h0)
      · exact congrArg writeCount (write_eq_self h0)
    · rintro js ks rfl
      rw [machine.trace_append] at h
      exact machine.invariant_of (I := fun t => t.bytesWritten = s.bytesWritten) rfl
        (fun t op ht he => (bytesWritten_step ht).trans he)
        (fun m hm => h m (List.mem_append_left _ hm))
    · rintro js ks ls rfl he
      rw [machine.trace_append, machine.trace_append] at h
      rw [machine.run_append]
      exact machine.invariant_of (I := fun t => t.eof = true) he (fun t op ht => eof_step ht)
        (fun m hm => h m (List.mem_append_left _ (List.mem_append_right _ hm)))

/-- A stream of capacity 1 whose input has ended, with `eof` true, accepts a byte. -/
theorem not_closed_for_good : ¬ ∀ (c : UInt64) (pre mid ops : List Op),
    ClosedForGood (machine.run (new c) (pre ++ .endInput :: mid)) ops := by
  intro h
  have h1 := (h 1 [] [] [.write [97]]).write _ (List.mem_singleton.2 rfl) [97] rfl
  exact absurd h1.1 (by decide)

end Sponge.ByteStream
