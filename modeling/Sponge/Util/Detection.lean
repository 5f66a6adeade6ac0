import Sponge.Lib.Bits
import Sponge.Util.Checksum

/-!
# What the checksum of a packet detects

For packets of at most 65535 bytes the sum does not wrap, and what `value` returns is a matter of
arithmetic modulo 65535. A checksum stored in the packet completes the sum to zero and nothing else
does (`stored_checksum`); a burst of at most 16 bits changes it, unless it turns 16 zeros into ones
or back (`burst_detected`).
-/

namespace Sponge.InternetChecksum

open Lib

/-- `value()` of a checksum that one call of `add` was made on. -/
def checksum (initialSum : UInt32) (data : List UInt8) : UInt16 :=
  ((new initialSum).add data).value

lemma checksum_eq {initialSum : UInt32} {data : List UInt8} (hinit : initialSum.toNat ≤ 2 ^ 31)
    (hlen : data.length ≤ 65535) :
    (checksum initialSum data).toNat =
      0xffff - residue 65535 (initialSum.toNat + (words data).sum) := by
  have htotal : total initialSum [data] = initialSum.toNat + (words data).sum := by
    rw [total, List.flatten_singleton]
  have hle := sum_words_le data
  rw [← htotal]
  exact @value_foldl_add initialSum [data] (by omega)

/-! ### A checksum in its place -/

/-- The bytes with `v` stored big-endian at `i`. -/
def store (data : List UInt8) (i : ℕ) (v : UInt16) : List UInt8 :=
  (data.set i (v >>> 8).toUInt8).set (i + 1) v.toUInt8

lemma length_store (data : List UInt8) (i : ℕ) (v : UInt16) :
    (store data i v).length = data.length := by
  rw [store, List.length_set, List.length_set]

lemma store_store (data : List UInt8) (i : ℕ) (u v : UInt16) :
    store (store data i u) i v = store data i v := by
  unfold store
  rw [List.set_comm (i := i + 1) (j := i) _ _ (by omega), List.set_set, List.set_set]

lemma bigEndian_store (v : UInt16) : bigEndian [(v >>> 8).toUInt8, v.toUInt8] = v.toNat := by
  have hv := v.toNat_lt
  rw [bigEndian_pair, UInt16.toNat_toUInt8, UInt16.toNat_toUInt8, UInt16.toNat_shiftRight,
    Nat.shiftRight_eq_div_pow]
  show v.toNat / 2 ^ 8 % 2 ^ 8 * 256 + v.toNat % 2 ^ 8 = v.toNat
  omega

lemma sum_words_store (data : List UInt8) (i : ℕ) (v : UInt16) (hi : i % 2 = 0)
    (hle : i + 2 ≤ data.length) :
    (words (store data i v)).sum = (words (store data i 0)).sum + v.toNat := by
  induction data using words.induct generalizing i with
  | case1 => simp at hle
  | case2 a => simp at hle
  | case3 a b rest ih =>
    obtain rfl | ⟨j, rfl⟩ : i = 0 ∨ ∃ j, i = j + 2 := by
      by_cases h0 : i = 0
      · exact .inl h0
      · exact .inr ⟨i - 2, by omega⟩
    · have hstore : ∀ v, words (store (a :: b :: rest) 0 v) = v.toNat :: words rest := by
        intro v
        rw [← bigEndian_store v]
        rfl
      rw [hstore, hstore, List.sum_cons, List.sum_cons, Nat.add_comm (UInt16.toNat 0)]
      exact Nat.add_comm _ _
    · have hstore : ∀ v, words (store (a :: b :: rest) (j + 2) v) =
          bigEndian [a, b] :: words (store rest j v) := fun _ => rfl
      rw [List.length_cons, List.length_cons] at hle
      rw [hstore, hstore, List.sum_cons, List.sum_cons, ih j (by omega) (by omega), Nat.add_assoc]

/-- **A stored checksum verifies, and essentially nothing else does**: with `v` in the place of the
checksum the value is zero exactly if `v` is the value over the packet with that place zeroed, or
`v` is the other form of the same zero. -/
theorem stored_checksum (data : List UInt8) (hlen : data.length ≤ 65535) (i : ℕ) (hi : i % 2 = 0)
    (hle : i + 2 ≤ data.length) (initialSum : UInt32) (hinit : initialSum.toNat ≤ 2 ^ 31) :
    ∀ v : UInt16, checksum initialSum (store (store data i 0) i v) = 0 ↔
      v = checksum initialSum (store data i 0) ∨
        (checksum initialSum (store data i 0) = 0 ∧ v = 0xffff) := by
  intro v
  have hv : v.toNat ≤ 65535 := by have := v.toNat_lt; omega
  have hmax : ∀ v, (store data i v).length ≤ 65535 := fun v => by rwa [length_store]
  have hc := checksum_eq hinit (hmax 0)
  have hcv := checksum_eq hinit (hmax v)
  rw [sum_words_store data i v hi hle, ← Nat.add_assoc] at hcv
  have hres := residue_le (m := 65535) (by decide) (initialSum.toNat + (words (store data i 0)).sum)
  have hres' := residue_le (m := 65535) (by decide)
    (initialSum.toNat + (words (store data i 0)).sum + v.toNat)
  rw [store_store, ← UInt16.toNat_inj, ← UInt16.toNat_inj, ← UInt16.toNat_inj, ← UInt16.toNat_inj,
    hc, hcv]
  have hkey := residue_add_eq_self_iff (T := initialSum.toNat + (words (store data i 0)).sum)
    (by decide) hv
  have h0 : UInt16.toNat 0 = 0 := rfl
  have h1 : UInt16.toNat 0xffff = 65535 := rfl
  rw [h0, h1]
  omega

/-- A packet of six bytes with its checksum at offset 2. -/
theorem stored_checksum_six :
    checksum 6 (store (store [0x45, 0, 0, 0, 0x12, 0x34] 2 0) 2
      (checksum 6 (store [0x45, 0, 0, 0, 0x12, 0x34] 2 0))) = 0 :=
  (stored_checksum _ (by decide) 2 (by decide) (by decide) 6 (by decide) _).2 (.inl rfl)

/-! ### Bursts -/

/-- Modulo `65535` the words of some data sum to the number of its bits, an odd last byte being the
upper half of its word. -/
lemma sum_words_modEq (data : List UInt8) :
    (words data).sum ≡ ofBits (bits data) * 2 ^ (8 * (data.length % 2)) [MOD 65535] := by
  induction data using words.induct with
  | case1 => rfl
  | case2 a =>
    have hsnoc : bigEndian [a, 0] = bigEndian [a] * 256 + 0 := bigEndian_snoc [a] 0
    have hpow : 8 * ([a].length % 2) = 8 := rfl
    have hword : (words [a]).sum = ofBits (bits [a]) * 2 ^ (8 * ([a].length % 2)) := by
      rw [ofBits_bits, words, List.sum_singleton, hsnoc, hpow]
      omega
    rw [hword]
  | case3 a b rest ih =>
    have hpar : (a :: b :: rest).length % 2 = rest.length % 2 := Nat.add_mod_right _ 2
    have hbits : bits (a :: b :: rest) = bits [a, b] ++ bits rest := bits_append [a, b] rest
    -- the word is shifted by a whole number of words
    have hshift : 2 ^ (8 * rest.length) * 2 ^ (8 * (rest.length % 2)) ≡ 1 [MOD 65535] := by
      obtain ⟨k, hk⟩ : ∃ k, 8 * rest.length + 8 * (rest.length % 2) = 16 * k :=
        ⟨(rest.length + rest.length % 2) / 2, by omega⟩
      rw [← Nat.pow_add, hk, Nat.pow_mul]
      have hone : 2 ^ 16 ≡ 1 [MOD 65535] := by decide
      simpa using hone.pow k
    rw [words, List.sum_cons, hpar, hbits, ofBits_append, length_bits, ofBits_bits, Nat.add_mul,
      Nat.mul_assoc]
    refine Nat.ModEq.add ?_ ih
    simpa using (hshift.mul_left (bigEndian [a, b])).symm

/-- One window of 16 zeros, the other of 16 ones. -/
def Opposite (w w' : List Bool) : Prop :=
  (w = List.replicate 16 false ∧ w' = List.replicate 16 true) ∨
    (w = List.replicate 16 true ∧ w' = List.replicate 16 false)

/-- Packets of one length with the same checksum have the same number modulo `65535`. -/
lemma bits_modEq_of_checksum {initialSum : UInt32} {P P' : List UInt8}
    (hinit : initialSum.toNat ≤ 2 ^ 31) (hlen : P.length = P'.length) (hmax : P.length ≤ 65535)
    (h : checksum initialSum P = checksum initialSum P') :
    ofBits (bits P) * 2 ^ (8 * (P.length % 2)) ≡
      ofBits (bits P') * 2 ^ (8 * (P.length % 2)) [MOD 65535] := by
  have hP := checksum_eq hinit hmax
  have hP' := checksum_eq hinit (hlen ▸ hmax)
  have hle := residue_le (m := 65535) (by decide) (initialSum.toNat + (words P).sum)
  have hle' := residue_le (m := 65535) (by decide) (initialSum.toNat + (words P').sum)
  have hres : residue 65535 (initialSum.toNat + (words P).sum) =
      residue 65535 (initialSum.toNat + (words P').sum) := by
    rw [h] at hP
    omega
  have hsum : (words P).sum ≡ (words P').sum [MOD 65535] := by
    have hmod := (residue_modEq 65535 (initialSum.toNat + (words P).sum)).symm
    rw [hres] at hmod
    exact Nat.ModEq.add_left_cancel' _ (hmod.trans (residue_modEq _ _))
  have h1 := sum_words_modEq P
  have h2 := sum_words_modEq P'
  rw [← hlen] at h2
  exact h1.symm.trans (hsum.trans h2)

/-- Two packets that differ in a window, with the same checksum, differ in 16 zeros and ones. -/
lemma opposite_of_checksum_eq {initialSum : UInt32} {P P' : List UInt8} {a w w' b : List Bool}
    (hinit : initialSum.toNat ≤ 2 ^ 31) (hlen : P.length = P'.length) (hmax : P.length ≤ 65535)
    (hP : bits P = a ++ w ++ b) (hP' : bits P' = a ++ w' ++ b) (hw : w.length ≤ 16) (hne : P ≠ P')
    (h : checksum initialSum P = checksum initialSum P') : Opposite w w' := by
  have hwlen : w.length = w'.length := by
    have h1 := length_bits P
    have h2 := length_bits P'
    rw [hP, List.length_append, List.length_append] at h1
    rw [hP', List.length_append, List.length_append] at h2
    omega
  have hmod := bits_modEq_of_checksum hinit hlen hmax h
  rw [hP, hP'] at hmod
  rcases eq_or_of_burst (k := 16) (by decide) hwlen hw hmod with rfl | ⟨-, hopp⟩
  · exact absurd (bits_inj hlen (hP.trans hP'.symm)) hne
  · exact hopp

/-- **The checksum detects every burst of at most 16 bits**, up to 16 zeros turned into ones or
back; in particular, every flip of a single bit in a packet that checks. -/
theorem burst_detected (initialSum : UInt32) (hinit : initialSum.toNat ≤ 2 ^ 31)
    (P P' : List UInt8) (hlen : P.length = P'.length) (hmax : P.length ≤ 65535) :
    (∀ a w w' b, bits P = a ++ w ++ b → bits P' = a ++ w' ++ b → w.length ≤ 16 → P ≠ P' →
      ¬ Opposite w w' → checksum initialSum P ≠ checksum initialSum P') ∧
    (∀ a x b, bits P = a ++ [x] ++ b → bits P' = a ++ [!x] ++ b → checksum initialSum P = 0 →
      checksum initialSum P' ≠ 0) := by
  refine ⟨?_, ?_⟩
  · intro a w w' b hP hP' hw hne hopp h
    exact hopp (opposite_of_checksum_eq hinit hlen hmax hP hP' hw hne h)
  · intro a x b hP hP' h0 h0'
    have hne : P ≠ P' := by
      rintro rfl
      have hbit := hP.symm.trans hP'
      rw [List.append_assoc, List.append_assoc] at hbit
      have hhead := List.append_inj_left (List.append_cancel_left hbit) rfl
      cases x <;> cases hhead
    have hopp := opposite_of_checksum_eq hinit hlen hmax hP hP' (by simp) hne (h0.trans h0'.symm)
    rcases hopp with ⟨hx, -⟩ | ⟨hx, -⟩
    · cases congrArg List.length hx
    · cases congrArg List.length hx

/-- A burst of three bits over the border of two words. -/
theorem burst_detected_border : checksum 0 [0x12, 0x34, 0x56] ≠ checksum 0 [0x12, 0x37, 0xd6] :=
  (burst_detected 0 (by decide) [0x12, 0x34, 0x56] [0x12, 0x37, 0xd6] rfl (by decide)).1
    [false, false, false, true, false, false, true, false, false, false, true, true, false, true]
    [false, false, false] [true, true, true] [true, false, true, false, true, true, false]
    (by decide) (by decide) (by decide) (by decide) (by unfold Opposite; decide)

end Sponge.InternetChecksum
