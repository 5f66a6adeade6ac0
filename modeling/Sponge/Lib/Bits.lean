import Mathlib.Data.Nat.Digits.Lemmas
import Mathlib.Data.Nat.ModEq
import Mathlib.Data.Nat.Prime.Basic
import Sponge.Lib.BigEndian

/-!
# Bits, most significant first

`ofBits` is the number with given bits, `bits` the bits of a byte string. Modulo `2 ^ k - 1` a shift
by any number of places can be undone, so two strings of bits that differ in a window of at most `k`
places have different numbers there (`eq_or_of_burst`), up to the two forms `0` and `2 ^ k - 1` of
zero.
-/

namespace Sponge.Lib

/-- The number with the given bits, the most significant first. -/
def ofBits (bs : List Bool) : ℕ := Nat.ofDigits 2 (bs.reverse.map Bool.toNat)

@[simp] lemma ofBits_nil : ofBits [] = 0 := rfl

lemma ofBits_append (as bs : List Bool) :
    ofBits (as ++ bs) = ofBits as * 2 ^ bs.length + ofBits bs := by
  unfold ofBits
  rw [List.reverse_append, List.map_append, Nat.ofDigits_append, List.length_map,
    List.length_reverse, Nat.mul_comm, Nat.add_comm]

lemma bit_lt {bs : List Bool} {d : ℕ} (h : d ∈ bs.reverse.map Bool.toNat) : d < 2 := by
  obtain ⟨b, -, rfl⟩ := List.mem_map.1 h
  exact b.toNat_lt

lemma ofBits_lt (bs : List Bool) : ofBits bs < 2 ^ bs.length := by
  have h := Nat.ofDigits_lt_base_pow_length (b := 2) (by decide) (fun _ => @bit_lt bs _)
  rwa [List.length_map, List.length_reverse] at h

lemma ofBits_inj {as bs : List Bool} (hlen : as.length = bs.length) (h : ofBits as = ofBits bs) :
    as = bs := by
  have hdig := Nat.ofDigits_inj_of_len_eq (b := 2) (by decide) (by simpa using hlen)
    (fun _ => bit_lt) (fun _ => bit_lt) h
  have hinj : Function.Injective Bool.toNat := fun a b => by cases a <;> cases b <;> decide
  exact List.reverse_inj.1 (List.map_injective_iff.2 hinj hdig)

lemma ofBits_replicate_false (n : ℕ) : ofBits (List.replicate n false) = 0 := by
  unfold ofBits
  rw [List.reverse_replicate, List.map_replicate]
  exact Nat.ofDigits_replicate_zero

lemma ofBits_replicate_true (n : ℕ) : ofBits (List.replicate n true) + 1 = 2 ^ n := by
  induction n with
  | zero => rfl
  | succ n ih =>
    have hone : ofBits [true] = 1 := rfl
    rw [List.replicate_succ', ofBits_append, hone, List.length_singleton, Nat.pow_succ]
    omega

lemma eq_replicate_false {bs : List Bool} (h : ofBits bs = 0) :
    bs = List.replicate bs.length false :=
  ofBits_inj (List.length_replicate).symm (by rw [h, ofBits_replicate_false])

lemma eq_replicate_true {bs : List Bool} (h : ofBits bs + 1 = 2 ^ bs.length) :
    bs = List.replicate bs.length true := by
  refine ofBits_inj (List.length_replicate).symm ?_
  have := ofBits_replicate_true bs.length
  omega

/-! ### The bits of bytes -/

def byteBits (b : UInt8) : List Bool := [7, 6, 5, 4, 3, 2, 1, 0].map b.toNat.testBit

def bits (bs : List UInt8) : List Bool := bs.flatMap byteBits

@[simp] lemma bits_nil : bits [] = [] := rfl

lemma bits_append (as bs : List UInt8) : bits (as ++ bs) = bits as ++ bits bs := List.flatMap_append

@[simp] lemma length_bits (bs : List UInt8) : (bits bs).length = 8 * bs.length := by
  induction bs with
  | nil => rfl
  | cons b bs ih =>
    rw [bits, List.flatMap_cons, List.length_append, List.length_cons]
    have hb : (byteBits b).length = 8 := rfl
    have hbs : (List.flatMap byteBits bs).length = 8 * bs.length := ih
    omega

lemma ofBits_byteBits (b : UInt8) : ofBits (byteBits b) = b.toNat := by
  have hb := b.toNat_lt
  simp only [ofBits, byteBits, List.map_cons, List.map_nil, List.reverse_cons, List.reverse_nil,
    List.nil_append, List.cons_append, Nat.ofDigits_cons, Nat.ofDigits_nil, Nat.toNat_testBit]
  omega

lemma ofBits_bits (bs : List UInt8) : ofBits (bits bs) = bigEndian bs := by
  induction bs using List.reverseRecOn with
  | nil => rfl
  | append_singleton bs b ih =>
    have hb : bits [b] = byteBits b := List.flatMap_singleton _ _
    have hlen : (byteBits b).length = 8 := rfl
    rw [bits_append, ofBits_append, ih, bigEndian_snoc, hb, ofBits_byteBits, hlen,
      show 2 ^ 8 = 256 by rfl]

lemma bits_inj {as bs : List UInt8} (hlen : as.length = bs.length) (h : bits as = bits bs) :
    as = bs := bigEndian_inj hlen (by rw [← ofBits_bits, ← ofBits_bits, h])

/-! ### Windows -/

lemma modEq_of_shift {k m x y : ℕ} (hk : 0 < k) (h : x * 2 ^ m ≡ y * 2 ^ m [MOD 2 ^ k - 1]) :
    x ≡ y [MOD 2 ^ k - 1] := by
  refine Nat.ModEq.cancel_right_of_coprime ?_ h
  refine Nat.Coprime.pow_right m (Nat.coprime_two_right.2 ?_)
  obtain ⟨j, rfl⟩ : ∃ j, k = j + 1 := ⟨k - 1, by omega⟩
  have := Nat.one_le_two_pow (n := j)
  exact ⟨2 ^ j - 1, by rw [Nat.pow_succ]; omega⟩

/-- Two numbers in `0 .. m` of one class modulo `m` are equal or the two ends. -/
lemma eq_or_ends {m x y : ℕ} (h : x ≡ y [MOD m]) (hx : x ≤ m) (hy : y ≤ m) :
    x = y ∨ (x = 0 ∧ y = m) ∨ (x = m ∧ y = 0) := by
  rcases Nat.lt_or_eq_of_le hx with hlt | rfl
  · rcases Nat.lt_or_eq_of_le hy with hlt' | rfl
    · exact .inl (h.eq_of_lt_of_lt hlt hlt')
    · refine .inr (.inl ⟨?_, rfl⟩)
      exact Nat.eq_zero_of_dvd_of_lt ((h.dvd_iff (dvd_refl y)).2 (dvd_refl y)) hlt
  · rcases Nat.lt_or_eq_of_le hy with hlt' | rfl
    · refine .inr (.inr ⟨rfl, ?_⟩)
      exact Nat.eq_zero_of_dvd_of_lt ((h.dvd_iff (dvd_refl x)).1 (dvd_refl x)) hlt'
    · exact .inl rfl

/-- Only a string of at least `k` bits has the number `2 ^ k - 1`. -/
lemma le_length_of_ones {k : ℕ} {bs : List Bool} (h : ofBits bs = 2 ^ k - 1) : k ≤ bs.length := by
  by_contra hlt
  have hbs := ofBits_lt bs
  have hpow : 2 ^ (bs.length + 1) ≤ 2 ^ k := Nat.pow_le_pow_right (by decide) (by omega)
  have := Nat.one_le_two_pow (n := bs.length)
  rw [Nat.pow_succ] at hpow
  omega

/-- **Bursts.** If two strings that differ at most in a window of at most `k` bits have the same
number modulo `2 ^ k - 1`, shifted or not, then they do not differ, or the window is of `k` bits,
all zeros in one of them and all ones in the other. -/
theorem eq_or_of_burst {k m : ℕ} {a w w' b : List Bool} (hk : 0 < k) (hlen : w.length = w'.length)
    (hw : w.length ≤ k)
    (h : ofBits (a ++ w ++ b) * 2 ^ m ≡ ofBits (a ++ w' ++ b) * 2 ^ m [MOD 2 ^ k - 1]) :
    w = w' ∨ (w.length = k ∧
      ((w = List.replicate k false ∧ w' = List.replicate k true) ∨
        (w = List.replicate k true ∧ w' = List.replicate k false))) := by
  have hmod : ofBits w ≡ ofBits w' [MOD 2 ^ k - 1] := by
    have hcancel := modEq_of_shift hk h
    rw [List.append_assoc, List.append_assoc, ofBits_append, ofBits_append a, List.length_append,
      List.length_append, hlen] at hcancel
    have hwindow := Nat.ModEq.add_left_cancel' _ hcancel
    rw [ofBits_append, ofBits_append] at hwindow
    exact modEq_of_shift hk (Nat.ModEq.add_right_cancel' _ hwindow)
  have hpow : 2 ^ w.length ≤ 2 ^ k := Nat.pow_le_pow_right (by decide) hw
  have hlt := ofBits_lt w
  have hlt' := ofBits_lt w'
  rw [← hlen] at hlt'
  have hone := Nat.one_le_two_pow (n := k)
  rcases eq_or_ends hmod (by omega) (by omega) with heq | ⟨h0, h1⟩ | ⟨h1, h0⟩
  · exact .inl (ofBits_inj hlen heq)
  · have hk' : w.length = k := Nat.le_antisymm hw (by rw [hlen]; exact le_length_of_ones h1)
    refine .inr ⟨hk', .inl ⟨?_, ?_⟩⟩
    · rw [← hk']
      exact eq_replicate_false h0
    · rw [← hk', hlen]
      exact eq_replicate_true (by rw [h1, ← hlen, hk']; omega)
  · have hk' : w.length = k := Nat.le_antisymm hw (le_length_of_ones h1)
    refine .inr ⟨hk', .inr ⟨?_, ?_⟩⟩
    · rw [← hk']
      exact eq_replicate_true (by rw [h1, hk']; omega)
    · rw [← hk', hlen]
      exact eq_replicate_false h0

end Sponge.Lib
