import Mathlib.Algebra.Ring.Int.Defs
import Mathlib.Algebra.Ring.Nat
import Mathlib.Data.Int.Basic
import Mathlib.Data.List.TakeWhile

/-!
# Decimal numbers in text

`strtol` in base 10 and `std::stoi`, as the C and C++ standards describe them for the C locale, and
that they read back what the usual notation of a number writes.
-/

namespace Sponge.Lib

def isSpace (c : Char) : Bool :=
  c = ' ' || c = '\t' || c = '\n' || c = '\x0b' || c = '\x0c' || c = '\r'

/-- The sign in front of a number, and what follows it. -/
def takeSign (s : List Char) : ℤ × List Char :=
  if s.head? = some '-' then (-1, s.tail) else if s.head? = some '+' then (1, s.tail) else (1, s)

/-- The number that `strtol` finds at the front of a text; none if there are no digits. -/
def strtol (s : List Char) : Option ℤ :=
  let signed := takeSign (s.dropWhile isSpace)
  let digits := signed.2.takeWhile Char.isDigit
  if digits = [] then none else some (signed.1 * Nat.ofDigitChars 10 digits 0)

/-- What `std::stoi` throws. -/
inductive StoiError where
  | invalidArgument
  | outOfRange
  deriving DecidableEq, Repr

def stoi (s : List Char) : Except StoiError ℤ :=
  match strtol s with
  | none => .error .invalidArgument
  | some n => if -2 ^ 31 ≤ n ∧ n < 2 ^ 31 then .ok n else .error .outOfRange

lemma isDigit_of_mem_toDigits {n : ℕ} {c : Char} (h : c ∈ Nat.toDigits 10 n) : c.isDigit = true :=
  Nat.isDigit_of_mem_toDigits (by decide) (by decide) h

lemma not_isSpace_of_isDigit {c : Char} (h : c.isDigit = true) :
    isSpace c = false ∧ c ≠ '-' ∧ c ≠ '+' := by
  refine ⟨?_, ?_, ?_⟩
  · by_contra hs
    simp only [isSpace, Bool.not_eq_false, Bool.or_eq_true, decide_eq_true_eq] at hs
    rcases hs with ((((rfl | rfl) | rfl) | rfl) | rfl) | rfl <;> simp at h
  · rintro rfl
    simp at h
  · rintro rfl
    simp at h

/-- The usual notation of a number is read back. -/
theorem strtol_toDigits (n : ℕ) : strtol (Nat.toDigits 10 n) = some (n : ℤ) := by
  obtain ⟨c, cs, hcs⟩ := List.exists_cons_of_ne_nil (Nat.toDigits_ne_nil (n := n) (b := 10))
  have hc : c.isDigit = true := isDigit_of_mem_toDigits (n := n) (by
    rw [hcs]; exact List.mem_cons_self)
  obtain ⟨hspace, hminus, hplus⟩ := not_isSpace_of_isDigit hc
  have hdrop : (Nat.toDigits 10 n).dropWhile isSpace = Nat.toDigits 10 n := by
    rw [hcs, List.dropWhile_cons_of_neg (by simp [hspace])]
  have hsign : takeSign (Nat.toDigits 10 n) = (1, Nat.toDigits 10 n) := by
    simp [takeSign, hcs, hminus, hplus]
  have htake : (Nat.toDigits 10 n).takeWhile Char.isDigit = Nat.toDigits 10 n :=
    List.takeWhile_eq_self_iff.2 fun _ => isDigit_of_mem_toDigits
  simp only [strtol, hdrop, hsign, htake, if_neg Nat.toDigits_ne_nil, Nat.ofDigitChars_ten_toDigits,
    Int.one_mul]

theorem stoi_toDigits {n : ℕ} (h : n < 2 ^ 31) : stoi (Nat.toDigits 10 n) = .ok (n : ℤ) := by
  rw [stoi, strtol_toDigits]
  exact if_pos ⟨by omega, by omega⟩

end Sponge.Lib
