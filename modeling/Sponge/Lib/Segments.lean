import Mathlib.Algebra.Ring.Nat
import Mathlib.Data.List.Basic
import Mathlib.Data.List.TakeDrop

/-!
# Strings in segments

A string kept as a list of segments, and the removal of a prefix that walks over them: whole
segments go, the one the cut falls into is shortened. `flatten_dropSegs` says that this drops a
prefix of the string, whatever the segmentation.
-/

namespace Sponge.Lib

variable {α : Type*}

def totalLength (segs : List (List α)) : ℕ := (segs.map List.length).sum

@[simp] lemma totalLength_nil : totalLength ([] : List (List α)) = 0 := rfl

@[simp] lemma totalLength_cons (s : List α) (segs : List (List α)) :
    totalLength (s :: segs) = s.length + totalLength segs := rfl

lemma length_flatten (segs : List (List α)) : segs.flatten.length = totalLength segs :=
  List.length_flatten

lemma foldl_add_mod {β : Type*} (f : β → ℕ) (m : ℕ) (l : List β) (r : ℕ) :
    l.foldl (fun ret x => (ret + f x) % m) (r % m) = (r + (l.map f).sum) % m := by
  induction l generalizing r with
  | nil => rfl
  | cons x l ih =>
    rw [List.foldl_cons, Nat.mod_add_mod, ih, List.map_cons, List.sum_cons, Nat.add_assoc]

/-- Remove `n` elements from the front of a string in segments. -/
def dropSegs : List (List α) → ℕ → List (List α)
  | [], _ => []
  | s :: segs, n =>
    if n = 0 then s :: segs
    else if n < s.length then s.drop n :: segs
    else dropSegs segs (n - s.length)

@[simp] lemma dropSegs_nil (n : ℕ) : dropSegs ([] : List (List α)) n = [] := rfl

@[simp] lemma dropSegs_zero (segs : List (List α)) : dropSegs segs 0 = segs := by
  cases segs <;> rfl

lemma dropSegs_of_lt {s : List α} {segs : List (List α)} {n : ℕ} (h0 : n ≠ 0) (h : n < s.length) :
    dropSegs (s :: segs) n = s.drop n :: segs := by
  rw [dropSegs, if_neg h0, if_pos h]

lemma dropSegs_of_le {s : List α} {segs : List (List α)} {n : ℕ} (h0 : n ≠ 0) (h : s.length ≤ n) :
    dropSegs (s :: segs) n = dropSegs segs (n - s.length) := by
  rw [dropSegs, if_neg h0, if_neg (by omega)]

lemma dropSegs_of_totalLength_lt {segs : List (List α)} {n : ℕ} (h : totalLength segs < n) :
    dropSegs segs n = [] := by
  induction segs generalizing n with
  | nil => rfl
  | cons s segs ih =>
    rw [totalLength_cons] at h
    rw [dropSegs_of_le (by omega) (by omega)]
    exact ih (by omega)

/-- **Removing a prefix of the segments removes a prefix of the string.** -/
theorem flatten_dropSegs (segs : List (List α)) (n : ℕ) :
    (dropSegs segs n).flatten = segs.flatten.drop n := by
  induction segs generalizing n with
  | nil => simp
  | cons s segs ih =>
    rcases Nat.eq_zero_or_pos n with rfl | hn
    · simp
    rcases Nat.lt_or_ge n s.length with h | h
    · rw [dropSegs_of_lt (by omega) h, List.flatten_cons, List.flatten_cons,
        List.drop_append_of_le_length (by omega)]
    · rw [dropSegs_of_le (by omega) h, ih, List.flatten_cons, List.drop_append,
        List.drop_of_length_le h, List.nil_append]

end Sponge.Lib
