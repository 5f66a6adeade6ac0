import Mathlib.Data.Nat.ModEq

/-!
# Ones' complement sums

Arithmetic modulo `m` in which zero has two representations, `0` and `m`: `residue m T` is the
representative of `T` that a sum with end-around carry arrives at, `0` only for `T = 0`. Folding
the carry of a number in base `m + 1` back into it keeps the residue and makes the number smaller,
until it is its own residue.
-/

namespace Sponge.Lib

/-- The representative of `T` modulo `m` in `1 .. m`, or `0` for `T = 0`. -/
def residue (m T : ℕ) : ℕ := if T = 0 then 0 else (T - 1) % m + 1

@[simp] lemma residue_zero (m : ℕ) : residue m 0 = 0 := rfl

lemma residue_of_pos {m T : ℕ} (h : 0 < T) : residue m T = (T - 1) % m + 1 :=
  if_neg (Nat.pos_iff_ne_zero.1 h)

lemma residue_of_le {m T : ℕ} (h : T ≤ m) : residue m T = T := by
  rcases Nat.eq_zero_or_pos T with rfl | hT
  · rfl
  · rw [residue_of_pos hT, Nat.mod_eq_of_lt (by omega)]
    omega

lemma residue_le {m : ℕ} (hm : 0 < m) (T : ℕ) : residue m T ≤ m := by
  rcases Nat.eq_zero_or_pos T with rfl | hT
  · exact Nat.zero_le m
  · rw [residue_of_pos hT]
    exact Nat.mod_lt _ hm

lemma residue_modEq (m T : ℕ) : residue m T ≡ T [MOD m] := by
  rcases Nat.eq_zero_or_pos T with rfl | hT
  · rfl
  · rw [residue_of_pos hT]
    have h := (Nat.mod_modEq (T - 1) m).add_right 1
    rwa [Nat.sub_add_cancel hT] at h

/-- The second form of zero is the residue of the positive multiples of `m`. -/
lemma residue_eq_self_iff {m T : ℕ} (hm : 0 < m) : residue m T = m ↔ 0 < T ∧ m ∣ T := by
  constructor
  · intro h
    have hT : 0 < T := Nat.pos_of_ne_zero fun h0 => by rw [h0, residue_zero] at h; omega
    have hmod := residue_modEq m T
    rw [h] at hmod
    exact ⟨hT, (hmod.dvd_iff (dvd_refl m)).1 (dvd_refl m)⟩
  · rintro ⟨hT, k, rfl⟩
    obtain ⟨j, rfl⟩ : ∃ j, k = j + 1 := ⟨k - 1, by
      have := Nat.pos_of_mul_pos_left hT
      omega⟩
    have hpred : m * (j + 1) - 1 = m - 1 + m * j := by rw [Nat.mul_succ]; omega
    rw [residue_of_pos hT, hpred, Nat.add_mul_mod_self_left, Nat.mod_eq_of_lt (by omega)]
    omega

/-- The residue depends on the class modulo `m` and on whether the number is zero. -/
lemma residue_congr {m S T : ℕ} (h : S ≡ T [MOD m]) (h0 : S = 0 ↔ T = 0) :
    residue m S = residue m T := by
  rcases Nat.eq_zero_or_pos S with hS | hS
  · rw [hS, h0.1 hS]
  · have hT : 0 < T := Nat.pos_of_ne_zero fun hT => by omega
    have hpred : S - 1 ≡ T - 1 [MOD m] :=
      Nat.ModEq.add_right_cancel' 1 (by rwa [Nat.sub_add_cancel hS, Nat.sub_add_cancel hT])
    rw [residue_of_pos hS, residue_of_pos hT, hpred]

/-- **What completes a sum to the second form of zero**: the complement of its residue and, if that
is `0`, also `m` itself. -/
theorem residue_add_eq_self_iff {m T v : ℕ} (hm : 0 < m) (hv : v ≤ m) :
    residue m (T + v) = m ↔ v = m - residue m T ∨ (residue m T = m ∧ v = m) := by
  have hle := residue_le hm T
  rcases Nat.eq_zero_or_pos T with rfl | hT
  · rw [Nat.zero_add, residue_of_le hv, residue_zero]
    omega
  · have hpos : 0 < residue m T := by
      rw [residue_of_pos hT]
      omega
    have hdvd : m ∣ T + v ↔ m ∣ residue m T + v :=
      (((residue_modEq m T).add_right v).dvd_iff (dvd_refl m)).symm
    rw [residue_eq_self_iff hm, hdvd]
    generalize residue m T = r at *
    constructor
    · rintro ⟨-, k, hk⟩
      -- the sum lies in `1 .. 2 * m`, so it is `m` or `2 * m`
      match k with
      | 0 => omega
      | 1 => omega
      | 2 => omega
      | k + 3 => exact absurd hk (by rw [Nat.mul_add]; omega)
    · rintro (rfl | ⟨rfl, rfl⟩)
      · exact ⟨by omega, ⟨1, by omega⟩⟩
      · exact ⟨by omega, ⟨2, by omega⟩⟩

/-- One turn of the end-around carry, in base `b`. -/
def carry (b T : ℕ) : ℕ := T / b + T % b

lemma carry_modEq (m T : ℕ) : carry (m + 1) T ≡ T [MOD m] := by
  have h : T = T / (m + 1) * m + carry (m + 1) T := by
    have := Nat.div_add_mod' T (m + 1)
    unfold carry
    rw [Nat.mul_add, Nat.mul_one] at this
    omega
  conv_rhs => rw [h]
  exact (Nat.modEq_iff_dvd' (Nat.le_add_left _ _)).2 ⟨T / (m + 1), by rw [Nat.mul_comm m]; omega⟩

lemma carry_eq_zero_iff {b T : ℕ} : carry b T = 0 ↔ T = 0 := by
  unfold carry
  constructor
  · intro h
    obtain ⟨hdiv, hmod⟩ := Nat.add_eq_zero_iff.1 h
    rw [← Nat.div_add_mod' T b, hdiv, hmod, Nat.zero_mul]
  · rintro rfl
    simp

/-- **Folding the carry keeps the residue.** -/
theorem residue_carry (m T : ℕ) : residue m (carry (m + 1) T) = residue m T :=
  residue_congr (carry_modEq m T) carry_eq_zero_iff

lemma carry_lt {b T : ℕ} (hb : 1 < b) (h : b ≤ T) : carry b T < T := by
  have h1 := Nat.div_add_mod' T b
  have h2 : 0 < T / b := Nat.div_pos h (by omega)
  have h3 : T / b * 2 ≤ T / b * b := Nat.mul_le_mul_left _ hb
  unfold carry
  omega

end Sponge.Lib
