import Mathlib.Data.List.Basic
import Mathlib.Data.Nat.Digits.Defs

/-!
# Hexadecimal fields

`hexField w n` shows `n` in `w` hexadecimal digits, `ofHex` reads a number and `ofHexBytes` a byte
string, two digits each. What is shown can be read (`ofHex_hexField`, `ofHexBytes_flatMap`), and the
field of a number that fits is its usual notation with zeros in front (`leftpad_toDigits`).
-/

namespace Sponge.Lib

/-- The value of a hexadecimal digit, in lower case. -/
def hexValue (c : Char) : Option ℕ :=
  if '0' ≤ c ∧ c ≤ '9' then some (c.toNat - '0'.toNat)
  else if 'a' ≤ c ∧ c ≤ 'f' then some (c.toNat - 'a'.toNat + 10)
  else none

/-- The number that a string of hexadecimal digits stands for. -/
def ofHex (l : List Char) : Option ℕ := l.foldlM (fun n c => (hexValue c).map (16 * n + ·)) 0

/-- The bytes that a string of hexadecimal digits stands for. -/
def ofHexBytes : List Char → Option (List UInt8)
  | [] => some []
  | [_] => none
  | a :: b :: l => do
    let n ← ofHex [a, b]
    let bs ← ofHexBytes l
    return UInt8.ofNat n :: bs

/-- The last `w` hexadecimal digits of `n`. -/
def hexField : ℕ → ℕ → List Char
  | 0, _ => []
  | w + 1, n => hexField w (n / 16) ++ [(n % 16).digitChar]

lemma length_hexField (w n : ℕ) : (hexField w n).length = w := by
  induction w generalizing n with
  | zero => rfl
  | succ w ih => rw [hexField, List.length_append, ih, List.length_singleton]

lemma hexValue_digitChar : ∀ d < 16, hexValue d.digitChar = some d := by decide

lemma hexValue_of_mem {w n : ℕ} {c : Char} (h : c ∈ hexField w n) : (hexValue c).isSome := by
  induction w generalizing n with
  | zero => cases h
  | succ w ih =>
    rw [hexField, List.mem_append, List.mem_singleton] at h
    rcases h with h | rfl
    · exact ih h
    · rw [hexValue_digitChar _ (Nat.mod_lt _ (by decide))]
      rfl

lemma notMem_hexField {c : Char} (h : hexValue c = none) (w n : ℕ) : c ∉ hexField w n := by
  intro hmem
  have := hexValue_of_mem hmem
  rw [h] at this
  cases this

lemma hexField_zero (w : ℕ) : hexField w 0 = List.replicate w '0' := by
  induction w with
  | zero => rfl
  | succ w ih =>
    rw [hexField, Nat.zero_div, ih, List.replicate_succ']
    rfl

/-! ### Reading a field -/

lemma ofHex_append_digit (l : List Char) {d : ℕ} (h : d < 16) :
    ofHex (l ++ [d.digitChar]) = (ofHex l).map (16 * · + d) := by
  unfold ofHex
  rw [List.foldlM_append]
  cases l.foldlM (fun n c => (hexValue c).map (16 * n + ·)) 0 with
  | none => rfl
  | some n =>
    show (hexValue d.digitChar).map (16 * n + ·) >>= pure = some (16 * n + d)
    rw [hexValue_digitChar d h]
    rfl

theorem ofHex_hexField (w n : ℕ) : ofHex (hexField w n) = some (n % 16 ^ w) := by
  induction w generalizing n with
  | zero => exact congrArg some (Nat.mod_one n).symm
  | succ w ih =>
    rw [hexField, ofHex_append_digit _ (Nat.mod_lt _ (by decide)), ih, Option.map_some, pow_succ',
      Nat.mod_mul, Nat.add_comm]

lemma ofHexBytes_append_field (b : UInt8) (l : List Char) :
    ofHexBytes (hexField 2 b.toNat ++ l) = (ofHexBytes l).map (b :: ·) := by
  have hread : ofHex (hexField 2 b.toNat) = some b.toNat := by
    rw [ofHex_hexField]
    exact congrArg some (Nat.mod_eq_of_lt b.toNat_lt)
  show (do
    let n ← ofHex (hexField 2 b.toNat)
    let bs ← ofHexBytes l
    return UInt8.ofNat n :: bs) = _
  rw [hread]
  show (do
    let bs ← ofHexBytes l
    return UInt8.ofNat b.toNat :: bs) = _
  rw [UInt8.ofNat_toNat]
  cases ofHexBytes l <;> rfl

theorem ofHexBytes_flatMap (bs : List UInt8) :
    ofHexBytes (bs.flatMap fun b => hexField 2 b.toNat) = some bs := by
  induction bs with
  | nil => rfl
  | cons b bs ih => rw [List.flatMap_cons, ofHexBytes_append_field, ih, Option.map_some]

/-! ### Showing a number -/

lemma leftpad_append_singleton {α : Type*} (w : ℕ) (a b : α) (l : List α) :
    (l ++ [b]).leftpad (w + 1) a = l.leftpad w a ++ [b] := by
  unfold List.leftpad
  rw [List.length_append, List.length_singleton, Nat.add_sub_add_right, List.append_assoc]

theorem leftpad_toDigits {w n : ℕ} (hw : 0 < w) (h : n < 16 ^ w) :
    (Nat.toDigits 16 n).leftpad w '0' = hexField w n := by
  induction w generalizing n with
  | zero => cases hw
  | succ w ih =>
    by_cases hn : n < 16
    · rw [Nat.toDigits_of_lt_base hn, ← List.nil_append [n.digitChar], leftpad_append_singleton,
        hexField, Nat.div_eq_of_lt hn, Nat.mod_eq_of_lt hn, hexField_zero]
      simp [List.leftpad]
    · have hdiv : n / 16 < 16 ^ w := by
        rw [pow_succ] at h
        exact Nat.div_lt_of_lt_mul (by omega)
      have hpos : 0 < w := by
        rcases Nat.eq_zero_or_pos w with rfl | hpos
        · omega
        · exact hpos
      rw [Nat.toDigits_of_base_le (by decide) (by omega), leftpad_append_singleton, ih hpos hdiv,
        hexField]

end Sponge.Lib
