import Sponge.Util.Parser

/-!
# What becomes of a recorded error

After `set_error`, or after a token that did not fit, the calls of a `NetParser` return zeros and
take nothing from the buffer (`run_after_error`, `output_after_error`). The size check of
`_check_size` comes first in them, though, and writes its own code over the one recorded:
`first_error_kept_iff` says when the first error is the one reported.
-/

namespace Sponge.NetParser

open Lib

variable {p : NetParser}

/-- A call after the error of `p` was recorded: what it reads is zero, and both the buffer and the
error are those of `p` after it. -/
structure Kept (p : NetParser) (m : Move NetParser Call (Except Exn Ret)) : Prop where
  zero : m.output = .ok m.input.zero
  buffer : m.after.buffer = p.buffer
  error : m.after.getError = p.getError

/-- The first error is the one reported: all calls keep it. -/
def FirstErrorKept (p : NetParser) (cs : List Call) : Prop := ∀ m ∈ machine.trace p cs, Kept p m

lemma checkSize_buffer (p : NetParser) (size : ℕ) : (p.checkSize size).buffer = p.buffer := by
  unfold checkSize
  split <;> rfl

lemma checkSize_error (p : NetParser) (size : ℕ) :
    (p.checkSize size).error = if size > p.buffer.size then .packetTooShort else p.error := by
  unfold checkSize
  split <;> rfl

/-- The size check changes nothing if the size is there, or if that it is not is already known. -/
lemma checkSize_eq_self {size : ℕ} (h : p.error = .packetTooShort ∨ size ≤ p.buffer.size) :
    p.checkSize size = p := by
  rcases Nat.lt_or_ge p.buffer.size size with hlt | hle
  · rw [checkSize_of_gt hlt]
    rcases h with he | hle
    · obtain ⟨buffer, error⟩ := p
      obtain rfl : error = .packetTooShort := he
      rfl
    · omega
  · exact checkSize_of_le hle

/-- **After an error nothing is taken**: the buffer stays, and there is still an error, the recorded
one or `PacketTooShort`. -/
theorem run_after_error (he : p.error ≠ .noError) (cs : List Call) :
    (machine.run p cs).buffer = p.buffer ∧ (machine.run p cs).error ≠ .noError ∧
      ((machine.run p cs).error = p.error ∨ (machine.run p cs).error = .packetTooShort) := by
  refine Machine.invariant (I := fun q : NetParser => q.buffer = p.buffer ∧ q.error ≠ .noError ∧
    (q.error = p.error ∨ q.error = .packetTooShort)) ⟨rfl, he, .inl rfl⟩ ?_ cs
  rintro q c ⟨hbuffer, hq, herror⟩
  rw [machine_step, step_of_error c hq]
  refine ⟨(checkSize_buffer q _).trans hbuffer, ?_⟩
  simp only [checkSize_error]
  split
  · exact ⟨fun h => (by cases h), .inr rfl⟩
  · exact ⟨hq, herror⟩

/-- **After an error nothing is read**: every call returns zero. -/
theorem output_after_error (he : p.error ≠ .noError) (cs : List Call) :
    ∀ m ∈ machine.trace p cs, m.output = .ok m.input.zero := by
  intro m hm
  obtain ⟨js, c, ks, rfl, rfl⟩ := (Machine.mem_trace _).1 hm
  rw [Machine.move_output, machine_step, step_of_error c (run_after_error he js).2.1]
  rfl

/-- A call that asks for more than there is reports that, whatever error came before. -/
lemma error_of_short {c : Call} (hw : p.buffer.size < c.width) :
    (p.step c).2.error = .packetTooShort := by
  rw [step_of_short hw]
  rfl

/-- **When the first error is the one reported**: in every sequence of calls after an error was
recorded, the calls keep it exactly if it is `PacketTooShort` itself or none of them asks for more
bytes than are left. -/
theorem first_error_kept_iff (p : NetParser) (he : p.getError ≠ .noError) (cs : List Call) :
    FirstErrorKept p cs ↔
      p.getError = .packetTooShort ∨ ∀ c ∈ cs, c.width ≤ p.buffer.size := by
  constructor
  · intro h
    by_cases hshort : p.getError = .packetTooShort
    · exact .inl hshort
    refine .inr fun c hc => ?_
    by_contra hw
    obtain ⟨js, ks, rfl⟩ := List.append_of_mem hc
    have hm : machine.move (machine.run p js) c ∈ machine.trace p (js ++ c :: ks) :=
      (Machine.mem_trace _).2 ⟨js, c, ks, rfl, rfl⟩
    have hbuffer := (run_after_error he js).1
    have herror := (h _ hm).error
    rw [Machine.move_after, getError, machine_step, error_of_short (by rw [hbuffer]; omega)] at herror
    exact hshort herror.symm
  · intro h m hm
    have hstep : ∀ c ∈ cs, p.step c = (.ok c.zero, p) := by
      intro c hc
      rw [step_of_error c he, checkSize_eq_self (h.imp_right fun h => h c hc)]
    have hrun : ∀ js, (∀ c ∈ js, c ∈ cs) → machine.run p js = p := by
      intro js
      induction js with
      | nil => exact fun _ => rfl
      | cons c js ih =>
        intro hsub
        rw [List.forall_mem_cons] at hsub
        rw [Machine.run_cons, machine_step, hstep c hsub.1]
        exact ih hsub.2
    have hzero := output_after_error he cs m hm
    obtain ⟨js, c, ks, rfl, rfl⟩ := (Machine.mem_trace _).1 hm
    have hafter : (machine.move (machine.run p js) c).after = p := by
      have := hrun (js ++ [c]) (fun d hd => by simp at hd ⊢; tauto)
      rwa [Machine.run_append] at this
    refine ⟨hzero, ?_, ?_⟩
    · rw [hafter]
    · rw [hafter]

/-- A recorded `BadChecksum`, and calls that ask for no more than the two bytes left. -/
theorem first_error_kept_checksum :
    FirstErrorKept (setError (new (Buffer.ofString [1, 2])) .badChecksum)
      [.int .u16, .removePrefix 2, .int .u8] :=
  (first_error_kept_iff _ (by decide) _).2 (.inr (by decide))

/-- `u8()` on an empty buffer, after `set_error(BadChecksum)`. -/
theorem not_first_error_kept :
    ¬ FirstErrorKept (setError (new (Buffer.ofString [])) .badChecksum) [.int .u8] := by
  intro h
  have herror : ParseResult.packetTooShort = .badChecksum := (h _ (List.mem_singleton.2 rfl)).error
  cases herror

end Sponge.NetParser
