import Mathlib.Data.List.Nodup
import Mathlib.Order.Defs.PartialOrder

/-!
# Walks over a linked list in step with an array

A linked list of distinct nodes is walked by an iterator — a node, or `none` at the end — while an
array of entries is filled, or read, beside it. Nodes may be erased under the iterator and appended
at the back.

* `next` — the node after a node; in a list that is in order, no node is passed over;
* `Filling` — the array has exactly the nodes before the iterator;
* `Reading` — from the iterator on, the nodes are the entries from an index on;
* `Onwards` — which nodes are still before the walk, whatever the array has.
-/

namespace Sponge.Lib

variable {α : Type*}

/-- The node after `a`. -/
def next [DecidableEq α] : List α → α → Option α
  | [], _ => none
  | x :: xs, a => if x = a then xs.head? else next xs a

/-- The nodes before the iterator are those of the entries. -/
def Filling (nodes entries : List α) (it : Option α) : Prop :=
  ∃ rest, nodes = entries ++ rest ∧ rest.head? = it

/-- The nodes from the iterator on are those of the entries from `idx` on. -/
def Reading (nodes entries : List α) (it : Option α) (idx : ℕ) : Prop :=
  ∃ past, nodes = past ++ entries.drop idx ∧ (entries.drop idx).head? = it

/-- `rest` are the nodes from the iterator on. -/
def Onwards (nodes : List α) (it : Option α) (rest : List α) : Prop :=
  ∃ past, nodes = past ++ rest ∧ rest.head? = it

variable {nodes entries rest : List α} {a c : α} {it : Option α} {idx : ℕ}

lemma notMem_of_nodup {past rest : List α} (hn : (past ++ a :: rest).Nodup) : a ∉ past :=
  fun ha => (List.nodup_append.1 hn).2.2 a ha a List.mem_cons_self rfl

section

variable [DecidableEq α]

lemma next_append {xs : List α} (h : a ∉ xs) (ys : List α) :
    next (xs ++ a :: ys) a = ys.head? := by
  induction xs with
  | nil => exact if_pos rfl
  | cons x xs ih =>
    rw [List.mem_cons, not_or] at h
    exact (if_neg (Ne.symm h.1)).trans (ih h.2)

lemma erase_append {xs : List α} (h : a ∉ xs) (ys : List α) :
    (xs ++ a :: ys).erase a = xs ++ ys := by
  rw [List.erase_append_right _ h, List.erase_cons_head]

lemma next_mem (h : c ∈ next nodes a) : c ∈ nodes := by
  induction nodes with
  | nil => cases h
  | cons x xs ih =>
    rw [next] at h
    split at h
    · exact List.mem_cons_of_mem _ (List.mem_of_mem_head? h)
    · exact List.mem_cons_of_mem _ (ih h)

end

section

variable [Preorder α]

lemma head_le (h : nodes.Pairwise (· < ·)) (hc : c ∈ nodes) : ∃ x ∈ nodes.head?, x ≤ c := by
  cases nodes with
  | nil => cases hc
  | cons x xs =>
    refine ⟨x, rfl, ?_⟩
    rcases List.mem_cons.1 hc with rfl | hc
    · exact le_refl _
    · exact le_of_lt (List.rel_of_pairwise_cons h hc)

/-- The node after `a` is the least of those above it. -/
lemma next_le [DecidableEq α] (h : nodes.Pairwise (· < ·)) (ha : a ∈ nodes) (hc : c ∈ nodes)
    (hac : a < c) : ∃ x ∈ next nodes a, x ≤ c := by
  obtain ⟨past, rest, rfl⟩ := List.append_of_mem ha
  obtain ⟨-, hcons, hlt⟩ := List.pairwise_append.1 h
  have hpast : ∀ b ∈ past, ¬ a < b := fun b hb hab =>
    lt_irrefl a (lt_trans hab (hlt b hb a List.mem_cons_self))
  rw [next_append fun hmem => lt_irrefl a (hlt a hmem a List.mem_cons_self)]
  rcases List.mem_append.1 hc with hc | hc
  · exact absurd hac (hpast c hc)
  · rcases List.mem_cons.1 hc with rfl | hc
    · exact absurd hac (lt_irrefl _)
    · exact head_le (List.pairwise_cons.1 hcons).2 hc

end

/-! ### Filling -/

namespace Filling

lemma begin (nodes : List α) : Filling nodes [] nodes.head? := ⟨nodes, rfl, rfl⟩

lemma split (h : Filling nodes entries (some a)) : ∃ rest, nodes = entries ++ a :: rest := by
  obtain ⟨rest, hnodes, hrest⟩ := h
  obtain ⟨t, rfl⟩ := List.head?_eq_some_iff.1 hrest
  exact ⟨t, hnodes⟩

lemma mem (h : Filling nodes entries (some a)) : a ∈ nodes := by
  obtain ⟨rest, rfl⟩ := h.split
  simp

lemma length_lt (h : Filling nodes entries (some a)) : entries.length < nodes.length := by
  obtain ⟨rest, rfl⟩ := h.split
  rw [List.length_append, List.length_cons]
  omega

lemma eq_of_end (h : Filling nodes entries none) : nodes = entries := by
  obtain ⟨rest, rfl, hrest⟩ := h
  rw [List.head?_eq_none_iff.1 hrest, List.append_nil]

lemma append (h : Filling nodes entries (some a)) (c : α) :
    Filling (nodes ++ [c]) entries (some a) := by
  obtain ⟨rest, rfl⟩ := h.split
  exact ⟨a :: (rest ++ [c]), by simp, rfl⟩

variable [DecidableEq α]

lemma push (h : Filling nodes entries (some a)) (hn : nodes.Nodup) :
    Filling nodes (entries ++ [a]) (next nodes a) := by
  obtain ⟨rest, rfl⟩ := h.split
  refine ⟨rest, ?_, (next_append (notMem_of_nodup hn) rest).symm⟩
  rw [List.append_assoc, List.singleton_append]

lemma erase (h : Filling nodes entries (some a)) (hn : nodes.Nodup) :
    Filling (nodes.erase a) entries (next nodes a) := by
  obtain ⟨rest, rfl⟩ := h.split
  have ha := notMem_of_nodup hn
  exact ⟨rest, erase_append ha rest, (next_append ha rest).symm⟩

lemma erase_other (h : Filling nodes entries (some a)) (hc : c ∉ entries) (hca : c ≠ a) :
    Filling (nodes.erase c) entries (some a) := by
  obtain ⟨rest, rfl⟩ := h.split
  refine ⟨a :: rest.erase c, ?_, rfl⟩
  rw [List.erase_append_right _ hc, List.erase_cons_tail (by simpa using Ne.symm hca)]

end Filling

/-! ### Reading -/

namespace Reading

lemma begin (nodes : List α) : Reading nodes nodes nodes.head? 0 := ⟨[], rfl, rfl⟩

lemma getElem (h : Reading nodes entries (some a) idx) : entries[idx]? = some a := by
  obtain ⟨past, -, hhead⟩ := h
  rwa [List.head?_drop] at hhead

lemma lt_length (h : Reading nodes entries (some a) idx) : idx < entries.length :=
  (List.getElem?_eq_some_iff.1 h.getElem).1

lemma split (h : Reading nodes entries (some a) idx) :
    ∃ past, nodes = past ++ a :: entries.drop (idx + 1) := by
  obtain ⟨hlt, ha⟩ := List.getElem?_eq_some_iff.1 h.getElem
  obtain ⟨past, rfl, -⟩ := h
  exact ⟨past, by rw [List.drop_eq_getElem_cons hlt, ha]⟩

lemma mem (h : Reading nodes entries (some a) idx) : a ∈ nodes := by
  obtain ⟨past, rfl⟩ := h.split
  simp

lemma append (h : Reading nodes entries (some a) idx) (c : α) :
    Reading (nodes ++ [c]) (entries ++ [c]) (some a) idx := by
  obtain ⟨hlt, -⟩ := List.getElem?_eq_some_iff.1 h.getElem
  obtain ⟨past, rfl, hhead⟩ := h
  have hdrop : (entries ++ [c]).drop idx = entries.drop idx ++ [c] :=
    List.drop_append_of_le_length (Nat.le_of_lt hlt)
  refine ⟨past, by rw [hdrop, List.append_assoc], ?_⟩
  rw [hdrop, List.head?_append, hhead, Option.some_or]

lemma le_of_end (h : Reading nodes entries none idx) : entries.length ≤ idx := by
  obtain ⟨past, -, hhead⟩ := h
  exact List.drop_eq_nil_iff.1 (List.head?_eq_none_iff.1 hhead)

variable [DecidableEq α]

lemma step (h : Reading nodes entries (some a) idx) (hn : nodes.Nodup) :
    Reading nodes entries (next nodes a) (idx + 1) := by
  obtain ⟨past, rfl⟩ := h.split
  refine ⟨past ++ [a], ?_, (next_append (notMem_of_nodup hn) _).symm⟩
  rw [List.append_assoc, List.singleton_append]

lemma erase (h : Reading nodes entries (some a) idx) (hn : nodes.Nodup) :
    Reading (nodes.erase a) entries (next nodes a) (idx + 1) := by
  obtain ⟨past, rfl⟩ := h.split
  have ha := notMem_of_nodup hn
  exact ⟨past, erase_append ha _, (next_append ha _).symm⟩

lemma erase_other (h : Reading nodes entries it idx) (hc : c ∉ entries.drop idx) :
    Reading (nodes.erase c) entries it idx := by
  obtain ⟨past, rfl, hhead⟩ := h
  refine ⟨past.erase c, ?_, hhead⟩
  by_cases hp : c ∈ past
  · rw [List.erase_append_left _ hp]
  · rw [List.erase_append_right _ hp, List.erase_of_not_mem hc, List.erase_of_not_mem hp]

end Reading

/-! ### What is before the walk -/

lemma prefix_drop_cons (ha : entries[idx]? = some a) :
    a :: rest <+: entries.drop idx ↔ rest <+: entries.drop (idx + 1) := by
  obtain ⟨hlt, ha⟩ := List.getElem?_eq_some_iff.1 ha
  rw [List.drop_eq_getElem_cons hlt, ha, List.prefix_cons_inj]

namespace Onwards

lemma begin (nodes : List α) : Onwards nodes nodes.head? nodes := ⟨[], rfl, rfl⟩

lemma eq_nil (h : Onwards nodes none rest) : rest = [] := by
  obtain ⟨past, -, hhead⟩ := h
  exact List.head?_eq_none_iff.1 hhead

lemma split (h : Onwards nodes (some a) rest) : ∃ past t, nodes = past ++ a :: t ∧ rest = a :: t := by
  obtain ⟨past, hnodes, hhead⟩ := h
  obtain ⟨t, rfl⟩ := List.head?_eq_some_iff.1 hhead
  exact ⟨past, t, hnodes, rfl⟩

lemma mem (h : Onwards nodes (some a) rest) : a ∈ nodes := by
  obtain ⟨past, t, rfl, -⟩ := h.split
  exact List.mem_append_right _ List.mem_cons_self

lemma append (h : Onwards nodes (some a) rest) (c : α) :
    Onwards (nodes ++ [c]) (some a) (rest ++ [c]) := by
  obtain ⟨past, t, rfl, rfl⟩ := h.split
  exact ⟨past, by rw [List.append_assoc], rfl⟩

/-- The entry of the node at the iterator, if there are entries for all nodes before the walk. -/
lemma getElem (h : Onwards nodes (some a) rest) (hrest : rest <+: entries.drop idx) :
    entries[idx]? = some a := by
  obtain ⟨past, t, -, rfl⟩ := h.split
  obtain ⟨s, hs⟩ := hrest
  rw [← List.head?_drop, ← hs]
  rfl

variable [DecidableEq α]

lemma of_mem (h : a ∈ nodes) : Onwards nodes (some a) (nodes.dropWhile (· ≠ a)) := by
  refine ⟨nodes.takeWhile (· ≠ a), List.takeWhile_append_dropWhile.symm, ?_⟩
  induction nodes with
  | nil => cases h
  | cons x xs ih =>
    by_cases hx : x = a
    · simp [hx]
    · rw [List.dropWhile_cons_of_pos (by simpa using hx)]
      exact ih ((List.mem_cons.1 h).resolve_left (Ne.symm hx))

lemma step (h : Onwards nodes (some a) (a :: rest)) (hn : nodes.Nodup) :
    Onwards nodes (next nodes a) rest := by
  obtain ⟨past, rfl, -⟩ := h
  refine ⟨past ++ [a], ?_, (next_append (notMem_of_nodup hn) _).symm⟩
  rw [List.append_assoc, List.singleton_append]

lemma erase (h : Onwards nodes (some a) (a :: rest)) (hn : nodes.Nodup) :
    Onwards (nodes.erase a) (next nodes a) rest := by
  obtain ⟨past, rfl, -⟩ := h
  have ha := notMem_of_nodup hn
  exact ⟨past, erase_append ha _, (next_append ha _).symm⟩

end Onwards

end Sponge.Lib
