import Mathlib.Algebra.Ring.Int.Defs
import Mathlib.Algebra.Ring.Nat
import Mathlib.Data.Int.Basic

/-!
# Exceptions and `SystemCall`

The exceptions the library throws, and the error-checking wrapper of `util.cc`. A function that may
throw returns an `Except`; where it also changes an object, the object is returned beside it, as it
is left behind by the throw.
-/

namespace Sponge

/-- The exceptions thrown by the library and by the standard containers it uses. -/
inductive Exn where
  | outOfRange (what : String)
  | runtimeError (what : String)
  | unixError (attempt : String) (errno : ℕ)
  deriving DecidableEq, Repr

/-- The conversion of a `ssize_t` to the `int` that `SystemCall` takes. -/
def toInt (x : ℤ) : ℤ := x.bmod (2 ^ 32)

/-- The conversion of a signed value to `size_t`. -/
def toSizeT (x : ℤ) : ℕ := (x % 2 ^ 64).toNat

def toSSizeT (n : ℕ) : ℤ := (n : ℤ).bmod (2 ^ 64)

/-- `SystemCall(attempt, return_value, errno_mask)`, where `errno` is the value the call left. -/
def systemCall (attempt : String) (returnValue : ℤ) (errno : ℕ) (errnoMask : ℕ) : Except Exn ℤ :=
  if toInt returnValue ≥ 0 ∨ errno = errnoMask then .ok (toInt returnValue)
  else .error (.unixError attempt errno)

/-- An answer of a system call: it fails with `-1` and a non-zero `errno`, or it returns a number that
`P` allows. -/
structure SysAnswer (P : ℤ → Prop) where
  returnValue : ℤ
  errno : ℕ
  fails_or_returns : (returnValue = -1 ∧ errno ≠ 0) ∨ P returnValue
  deriving DecidableEq

/-- An answer of a system call that returns `0`. -/
abbrev ZeroAnswer : Type := SysAnswer fun v => v = 0

lemma toInt_of_lt {n : ℕ} (h : n < 2 ^ 31) : toInt n = n := by
  unfold toInt
  exact Int.bmod_eq_of_le (by omega) (by omega)

lemma toSizeT_of_lt {n : ℕ} (h : n < 2 ^ 64) : toSizeT n = n := by
  unfold toSizeT
  omega

lemma toSSizeT_of_lt {n : ℕ} (h : n < 2 ^ 63) : toSSizeT n = n := by
  unfold toSSizeT
  exact Int.bmod_eq_of_le (by omega) (by omega)

lemma systemCall_of_fail {attempt : String} {errno : ℕ} (h : errno ≠ 0) :
    systemCall attempt (-1) errno 0 = .error (.unixError attempt errno) := by
  have hint : toInt (-1) = -1 := by decide
  unfold systemCall
  rw [hint, if_neg]
  rintro (hc | hc)
  · omega
  · exact h hc

lemma systemCall_of_lt {attempt : String} {n errno : ℕ} (h : n < 2 ^ 31) :
    systemCall attempt n errno 0 = .ok (n : ℤ) := by
  unfold systemCall
  rw [toInt_of_lt h, if_pos (.inl (by omega))]

/-- `SystemCall` on an answer: it throws if the call failed, and hands on what it returned. -/
lemma SysAnswer.systemCall_cases {P : ℤ → Prop} (a : SysAnswer P) (attempt : String)
    (hP : ∀ v, P v → 0 ≤ v ∧ v < 2 ^ 31) :
    (systemCall attempt a.returnValue a.errno 0 = .error (.unixError attempt a.errno) ∧
      a.returnValue = -1) ∨
    (∃ n : ℕ, systemCall attempt a.returnValue a.errno 0 = .ok (n : ℤ) ∧ a.returnValue = n ∧
      P a.returnValue) := by
  obtain ⟨rv, errno, ⟨rfl, he⟩ | hv⟩ := a
  · exact .inl ⟨systemCall_of_fail he, rfl⟩
  · obtain ⟨h0, hlt⟩ := hP rv hv
    obtain ⟨n, rfl⟩ := Int.eq_ofNat_of_zero_le h0
    exact .inr ⟨n, systemCall_of_lt (by omega), rfl, hv⟩

end Sponge
