import Sponge.Util.Parser

/-!
# A `NetParser` is a cursor

On a fresh parser the calls read one after the other until the first that asks for more bytes than
are left; from then on nothing is read. `At` and `Latched` describe the parser on the two sides of
that call, and `step_of_fits`, `step_of_short`, `step_of_error` take it from one to the next.
-/

namespace Sponge.NetParser

open Lib

def consumed (cs : List Call) : ℕ := (cs.map Call.width).sum

@[simp] lemma consumed_nil : consumed [] = 0 := rfl

@[simp] lemma consumed_cons (c : Call) (cs : List Call) :
    consumed (c :: cs) = c.width + consumed cs := rfl

/-- The position of the first call that asks for more than is left, of `left` bytes. -/
def firstShort (left : ℕ) : List Call → ℕ
  | [] => 0
  | c :: cs => if c.width > left then 0 else firstShort (left - c.width) cs + 1

lemma firstShort_le (left : ℕ) (cs : List Call) : firstShort left cs ≤ cs.length := by
  induction cs generalizing left with
  | nil => exact Nat.le_refl _
  | cons c cs ih =>
    have := ih (left - c.width)
    rw [firstShort, List.length_cons]
    split <;> omega

lemma consumed_take_le {left : ℕ} {cs : List Call} {i : ℕ} (h : i ≤ firstShort left cs) :
    consumed (cs.take i) ≤ left := by
  induction cs generalizing left i with
  | nil => simp
  | cons c cs ih =>
    rw [firstShort] at h
    split at h
    · obtain rfl : i = 0 := by omega
      simp
    · cases i with
      | zero => simp
      | succ i =>
        have hrest : i ≤ firstShort (left - c.width) cs := by omega
        have := ih hrest
        rw [List.take_succ_cons, consumed_cons]
        omega

lemma lt_of_firstShort {left : ℕ} {cs : List Call} {c : Call}
    (h : cs[firstShort left cs]? = some c) :
    left < consumed (cs.take (firstShort left cs)) + c.width := by
  induction cs generalizing left with
  | nil => simp at h
  | cons d cs ih =>
    rw [firstShort] at h ⊢
    split at h
    · rename_i hd
      rw [if_pos hd]
      obtain rfl : d = c := Option.some.inj h
      simpa using hd
    · rename_i hd
      rw [if_neg hd]
      have := ih h
      rw [List.take_succ_cons, consumed_cons]
      omega

/-! ### The two sides of the call that does not fit -/

/-- The parser has read `off` bytes of `B` and met no error. -/
structure At (B : List UInt8) (off : ℕ) (p : NetParser) : Prop where
  error : p.error = .noError
  buffer : p.buffer.str = B.drop off

/-- The parser has read `off` bytes of `B` and then met a call that did not fit. -/
structure Latched (B : List UInt8) (off : ℕ) (p : NetParser) : Prop where
  error : p.error = .packetTooShort
  buffer : p.buffer.str = B.drop off

lemma at_new (B : List UInt8) : At B 0 (new (Buffer.ofString B)) := ⟨rfl, rfl⟩

variable {B : List UInt8} {off : ℕ} {p : NetParser} {c : Call}

lemma At.size_eq (h : At B off p) : p.buffer.size = B.length - off := by
  rw [Buffer.size, h.buffer, List.length_drop]

/-- A call that fits is answered from the bytes at the offset and moves the offset. -/
lemma At.step (h : At B off p) (hw : off + c.width ≤ B.length) :
    (p.step c).1 = .ok (c.value (B.drop off)) ∧ At B (off + c.width) (p.step c).2 := by
  have hle : c.width ≤ p.buffer.size := by rw [h.size_eq]; omega
  rw [step_of_fits h.error hle, h.buffer]
  refine ⟨rfl, h.error, ?_⟩
  rw [(Buffer.removePrefix_of_le hle).2, h.buffer, List.drop_drop]

/-- A call that does not fit latches the parser. -/
lemma At.step_short (h : At B off p) (hw : B.length < off + c.width) (hoff : off ≤ B.length) :
    (p.step c).1 = .ok c.zero ∧ Latched B off (p.step c).2 := by
  rw [step_of_short (by rw [h.size_eq]; omega)]
  exact ⟨rfl, rfl, h.buffer⟩

lemma Latched.step (h : Latched B off p) (c : Call) :
    (p.step c).1 = .ok c.zero ∧ Latched B off (p.step c).2 := by
  have he : p.error ≠ .noError := by rw [h.error]; exact fun h => by cases h
  rw [step_of_error c he]
  unfold checkSize
  split
  · exact ⟨rfl, rfl, h.buffer⟩
  · exact ⟨rfl, h.error, h.buffer⟩

lemma At.run (h : At B off p) {cs : List Call} (hw : off + consumed cs ≤ B.length) :
    At B (off + consumed cs) (machine.run p cs) := by
  induction cs generalizing off p with
  | nil => exact h
  | cons c cs ih =>
    rw [consumed_cons] at hw ⊢
    have := ih (h.step (c := c) (by omega)).2 (by omega)
    rwa [Nat.add_assoc] at this

lemma Latched.run (h : Latched B off p) (cs : List Call) : Latched B off (machine.run p cs) :=
  Machine.invariant h (fun _ c ht => (ht.step c).2) cs

/-! ### The whole run -/

/-- The parser after the first `i` of the calls `cs` on a fresh parser of `B`. -/
def after (B : List UInt8) (cs : List Call) (i : ℕ) : NetParser :=
  machine.run (new (Buffer.ofString B)) (cs.take i)

/-- What the `i`th of the calls `cs` on a fresh parser of `B` returns. -/
def answer (B : List UInt8) (cs : List Call) (i : ℕ) : Option (Except Exn Ret) :=
  ((machine.trace (new (Buffer.ofString B)) cs)[i]?).map Move.output

lemma answer_eq {cs : List Call} {i : ℕ} (h : cs[i]? = some c) :
    answer B cs i = some ((after B cs i).step c).1 := by
  obtain ⟨hi, rfl⟩ := List.getElem?_eq_some_iff.1 h
  unfold answer
  rw [machine.getElem_trace _ _ _ hi]
  rfl

/-- The calls `cs` on a fresh parser of `B` read up to the call `k` and no further. -/
structure CursorUpTo (B : List UInt8) (cs : List Call) (k : ℕ) : Prop where
  le : k ≤ cs.length
  fits : ∀ i c, cs[i]? = some c → i < k → consumed (cs.take i) + c.width ≤ B.length
  short : ∀ c, cs[k]? = some c → B.length < consumed (cs.take k) + c.width
  before : ∀ i, i ≤ k → (after B cs i).getError = .noError ∧
    (after B cs i).buffer.str = B.drop (consumed (cs.take i))
  later : ∀ i, k < i → i ≤ cs.length → (after B cs i).getError = .packetTooShort ∧
    (after B cs i).buffer.str = B.drop (consumed (cs.take k))
  value : ∀ i t, cs[i]? = some (.int t) → i < k → ∃ v : t.Val,
    answer B cs i = some (.ok (.int ⟨t, v⟩)) ∧
      v.toNat = bigEndian ((B.drop (consumed (cs.take i))).take t.sizeof)
  zero : ∀ i t, cs[i]? = some (.int t) → k ≤ i → answer B cs i = some (.ok (.int ⟨t, 0⟩))
  no_throw : ∀ i, i < cs.length → ∃ r, answer B cs i = some (.ok r)

lemma consumed_take_succ {cs : List Call} {i : ℕ} (h : cs[i]? = some c) :
    consumed (cs.take (i + 1)) = consumed (cs.take i) + c.width := by
  obtain ⟨hi, rfl⟩ := List.getElem?_eq_some_iff.1 h
  unfold consumed
  rw [List.take_succ_eq_append_getElem hi, List.map_append, List.sum_append]
  simp

lemma after_succ {cs : List Call} {i : ℕ} (h : cs[i]? = some c) :
    after B cs (i + 1) = ((after B cs i).step c).2 := by
  obtain ⟨hi, rfl⟩ := List.getElem?_eq_some_iff.1 h
  unfold after
  rw [List.take_succ_eq_append_getElem hi, machine.run_append]
  rfl

lemma toNat_ofNat_bigEndian (t : IntType) (bs : List UInt8) (h : bs.length = t.sizeof) :
    (BitVec.ofNat (8 * t.sizeof) (bigEndian bs)).toNat = bigEndian bs := by
  have hlt := bigEndian_lt bs
  rw [h, show 256 = 2 ^ 8 by rfl, ← Nat.pow_mul] at hlt
  rw [BitVec.toNat_ofNat, Nat.mod_eq_of_lt hlt]

/-- **Every run of a `NetParser` follows the cursor semantics**, and none of its calls throws. -/
theorem cursor (B : List UInt8) (cs : List Call) : ∃ k, CursorUpTo B cs k := by
  have hk := firstShort_le B.length cs
  have hshort := fun c => @lt_of_firstShort B.length cs c
  have hle := fun i => @consumed_take_le B.length cs i
  generalize firstShort B.length cs = k at hk hshort hle
  have hat : ∀ i, i ≤ k → At B (consumed (cs.take i)) (after B cs i) := by
    intro i hi
    have hw : 0 + consumed (cs.take i) ≤ B.length := by have := hle i hi; omega
    have := (at_new B).run hw
    rwa [Nat.zero_add] at this
  have hfits : ∀ i c, cs[i]? = some c → i < k → consumed (cs.take i) + c.width ≤ B.length := by
    intro i c hc hi
    rw [← consumed_take_succ hc]
    exact hle (i + 1) hi
  -- the parser latches at the call `k` and stays latched
  have hlatch : ∀ i, k < i → i ≤ cs.length → Latched B (consumed (cs.take k)) (after B cs i) := by
    intro i hki hi
    have hck := List.getElem?_eq_getElem (l := cs) (i := k) (by omega)
    have h1 := ((hat k (Nat.le_refl k)).step_short (hshort _ hck) (hle k (Nat.le_refl k))).2
    rw [← after_succ hck] at h1
    have h2 := h1.run ((cs.drop (k + 1)).take (i - (k + 1)))
    rwa [after, ← machine.run_append, ← List.take_add, Nat.add_sub_cancel' hki] at h2
  have hzero : ∀ i c, cs[i]? = some c → k ≤ i → answer B cs i = some (.ok c.zero) := by
    intro i c hc hi
    rw [answer_eq hc]
    rcases Nat.eq_or_lt_of_le hi with rfl | hlt
    · rw [((hat k hi).step_short (hshort c hc) (hle k hi)).1]
    · have := (List.getElem?_eq_some_iff.1 hc).1
      rw [((hlatch i hlt (by omega)).step c).1]
  have hvalue : ∀ i c, cs[i]? = some c → i < k →
      answer B cs i = some (.ok (c.value (B.drop (consumed (cs.take i))))) := by
    intro i c hc hi
    rw [answer_eq hc, ((hat i (by omega)).step (hfits i c hc hi)).1]
  refine ⟨k, hk, hfits, hshort, fun i hi => ⟨(hat i hi).error, (hat i hi).buffer⟩,
    fun i hi hi' => ⟨(hlatch i hi hi').error, (hlatch i hi hi').buffer⟩, ?_,
    fun i t hc hi => hzero i _ hc hi, ?_⟩
  · intro i t hc hi
    refine ⟨_, hvalue i _ hc hi, toNat_ofNat_bigEndian t _ ?_⟩
    have hf := hfits i _ hc hi
    simp only [Call.width] at hf
    rw [List.length_take, List.length_drop]
    omega
  · intro i hi
    have hc := List.getElem?_eq_getElem hi
    rcases Nat.lt_or_ge i k with h | h
    · exact ⟨_, hvalue i _ hc h⟩
    · exact ⟨_, hzero i _ hc h⟩

end Sponge.NetParser
