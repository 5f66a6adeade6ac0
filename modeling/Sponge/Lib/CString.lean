import Mathlib.Data.List.TakeWhile

/-!
# Literals and C strings

A `std::string` is a list of bytes. Its `c_str()`, and the `what()` of an exception, is a C string:
whoever reads it stops at the first NUL.
-/

namespace Sponge.Lib

/-- The bytes of a string literal. -/
def ascii (s : String) : List UInt8 := s.toList.map fun c => UInt8.ofNat c.toNat

section CStr

variable {α : Type*} [BEq α]

/-- What a C function finds at `s.c_str()`. -/
def cStr (nul : α) (s : List α) : List α := s.takeWhile (· != nul)

variable [LawfulBEq α] {nul : α} {s : List α}

lemma ne_of_mem_cStr {c : α} (h : c ∈ cStr nul s) : c ≠ nul :=
  bne_iff_ne.1 (List.mem_takeWhile_imp (p := (· != nul)) h)

lemma cStr_eq (h : ∀ c ∈ s, c ≠ nul) : cStr nul s = s :=
  List.takeWhile_eq_self_iff.2 fun c hc => bne_iff_ne.2 (h c hc)

lemma cStr_append_nul (h : ∀ c ∈ s, c ≠ nul) (rest : List α) : cStr nul (s ++ nul :: rest) = s := by
  unfold cStr
  rw [List.takeWhile_append_of_pos fun c hc => bne_iff_ne.2 (h c hc), List.takeWhile_cons_of_neg,
    List.append_nil]
  simp

end CStr

end Sponge.Lib
