import Mathlib.Data.List.Basic

/-!
# Histories

Finite lists of events, with the two notions that say what an event was preceded by.

* `Always P` — `P` holds of every event and the history before it;
* `Since p stop` — an event with `p` has happened, and none with `stop` after it.
-/

namespace Sponge.Lib

variable {α : Type*}

/-- Every event satisfies `P` together with the history before it. -/
def Always (P : List α → α → Prop) (h : List α) : Prop :=
  ∀ before e after, h = before ++ e :: after → P before e

/-- An event with `p` has happened and no event with `stop` has happened since. -/
def Since (p stop : α → Prop) (h : List α) : Prop :=
  ∃ before e after, h = before ++ e :: after ∧ p e ∧ ∀ x ∈ after, ¬ stop x

/-- What never happens again once it has happened happens at most once. -/
lemma count_le_one [DecidableEq α] {h : List α} {e : α}
    (hlast : ∀ before after, h = before ++ e :: after → e ∉ after) : h.count e ≤ 1 := by
  by_cases he : e ∈ h
  · obtain ⟨before, after, rfl, hbefore⟩ := List.eq_append_cons_of_mem he
    have hcount : (before ++ e :: after).count e = 0 + (0 + 1) := by
      rw [List.count_append, List.count_cons_self, List.count_eq_zero_of_not_mem hbefore,
        List.count_eq_zero_of_not_mem (hlast before after rfl)]
    exact Nat.le_of_eq hcount
  · rw [List.count_eq_zero_of_not_mem he]
    exact Nat.zero_le _

namespace Always

variable {P : List α → α → Prop} {h es : List α} {e : α}

lemma nil (P : List α → α → Prop) : Always P [] := fun _ _ _ h => by simp at h

lemma snoc (ha : Always P h) (he : P h e) : Always P (h ++ [e]) := by
  intro before x after heq
  rcases List.eq_nil_or_concat after with rfl | ⟨after, y, rfl⟩
  · obtain ⟨rfl, hx⟩ := List.append_inj' heq rfl
    obtain rfl := List.singleton_inj.1 hx
    exact he
  · rw [List.concat_eq_append, ← List.cons_append, ← List.append_assoc] at heq
    exact ha before x after (List.append_inj' heq rfl).1

lemma append (ha : Always P h) (hes : ∀ e ∈ es, ∀ before, P before e) : Always P (h ++ es) := by
  induction es generalizing h with
  | nil => rwa [List.append_nil]
  | cons e es ih =>
    rw [List.forall_mem_cons] at hes
    rw [List.append_cons]
    exact ih (ha.snoc (hes.1 h)) hes.2

end Always

namespace Since

variable {p stop : α → Prop} {h es : List α} {e : α}

lemma append (hs : Since p stop h) (hes : ∀ x ∈ es, ¬ stop x) : Since p stop (h ++ es) := by
  obtain ⟨before, x, after, rfl, hx, hafter⟩ := hs
  refine ⟨before, x, after ++ es, by simp, hx, ?_⟩
  exact List.forall_mem_append.2 ⟨hafter, hes⟩

lemma snoc (h : List α) (he : p e) : Since p stop (h ++ [e]) :=
  ⟨h, e, [], rfl, he, fun _ hx => absurd hx List.not_mem_nil⟩

end Since

end Sponge.Lib
