import Mathlib.Data.List.Count
import Mathlib.Data.List.Perm.Basic
import Mathlib.Logic.Function.Basic

/-!
# Blocks with use counts

A heap whose blocks are never written to after they are made, each with the number of pointers to
it; the block goes with the last of them.

* `SharedHeap`, `alloc`, `acquire`, `release`, with `acquireAll` and `releaseAll` for lists;
* `Counts H refs` — every use count is the number of times the pointer occurs in `refs`, and the
  blocks no pointer of `refs` leads to are gone;
* `Extends` — blocks that survive keep their content, and the numbers of blocks are never reused;
* `Trades H refs H' refs'` — an owner that held `refs` holds `refs'` after a step without new
  blocks, whatever pointers the others hold; with the rules `refl`, `trans`, `frame`, `perm`.
-/

namespace Sponge.Lib

/-- A heap: the content and the use count of every block that lives, and the next number. -/
structure SharedHeap (α : Type*) where
  block : ℕ → Option (α × ℕ)
  next : ℕ

namespace SharedHeap

variable {α : Type*} {H H' H'' : SharedHeap α} {p q : ℕ} {refs refs' refs'' : List ℕ}

def empty : SharedHeap α := ⟨fun _ => none, 0⟩

def read (H : SharedHeap α) (p : ℕ) : Option α := (H.block p).map Prod.fst

/-- The use count of a block, zero once it is gone. -/
def useCount (H : SharedHeap α) (p : ℕ) : ℕ := ((H.block p).map Prod.snd).getD 0

/-- A new block, with one pointer to it: the number that was next. -/
def alloc (H : SharedHeap α) (x : α) : SharedHeap α :=
  ⟨Function.update H.block H.next (some (x, 1)), H.next + 1⟩

def acquire (H : SharedHeap α) (p : ℕ) : SharedHeap α :=
  { H with block := Function.update H.block p ((H.block p).map fun b => (b.1, b.2 + 1)) }

/-- One pointer less; the last one takes the block with it. -/
def release (H : SharedHeap α) (p : ℕ) : SharedHeap α :=
  ⟨Function.update H.block p
    ((H.block p).bind fun b => if b.2 ≤ 1 then none else some (b.1, b.2 - 1)), H.next⟩

def acquireAll (H : SharedHeap α) (ps : List ℕ) : SharedHeap α := ps.foldl acquire H

def releaseAll (H : SharedHeap α) (ps : List ℕ) : SharedHeap α := ps.foldl release H

@[simp] lemma acquireAll_nil : H.acquireAll [] = H := rfl
@[simp] lemma acquireAll_cons (ps : List ℕ) :
    H.acquireAll (p :: ps) = (H.acquire p).acquireAll ps := rfl
@[simp] lemma releaseAll_nil : H.releaseAll [] = H := rfl
@[simp] lemma releaseAll_cons (ps : List ℕ) :
    H.releaseAll (p :: ps) = (H.release p).releaseAll ps := rfl

@[simp] lemma alloc_next (x : α) : (H.alloc x).next = H.next + 1 := rfl
@[simp] lemma acquire_next : (H.acquire p).next = H.next := rfl
@[simp] lemma release_next : (H.release p).next = H.next := rfl

lemma alloc_block_self (x : α) : (H.alloc x).block H.next = some (x, 1) :=
  Function.update_self ..

lemma alloc_block_of_ne (x : α) (h : q ≠ H.next) : (H.alloc x).block q = H.block q :=
  Function.update_of_ne h ..

lemma acquire_block_self : (H.acquire p).block p = (H.block p).map fun b => (b.1, b.2 + 1) :=
  Function.update_self ..

lemma acquire_block_of_ne (h : q ≠ p) : (H.acquire p).block q = H.block q :=
  Function.update_of_ne h ..

lemma release_block_self : (H.release p).block p =
    (H.block p).bind fun b => if b.2 ≤ 1 then none else some (b.1, b.2 - 1) :=
  Function.update_self ..

lemma release_block_of_ne (h : q ≠ p) : (H.release p).block q = H.block q :=
  Function.update_of_ne h ..

@[simp] lemma read_alloc_next (x : α) : (H.alloc x).read H.next = some x := by
  unfold read
  rw [alloc_block_self]
  rfl

/-! ### Contents survive -/

/-- Blocks that survive keep their content, and the numbers of blocks are never reused. -/
structure Extends (H H' : SharedHeap α) : Prop where
  next_le : H.next ≤ H'.next
  read : ∀ p < H.next, ∀ x, H'.read p = some x → H.read p = some x

namespace Extends

lemma refl (H : SharedHeap α) : Extends H H := ⟨Nat.le_refl _, fun _ _ _ h => h⟩

lemma trans (h : Extends H H') (h' : Extends H' H'') : Extends H H'' where
  next_le := Nat.le_trans h.next_le h'.next_le
  read := fun p hp x hx => h.read p hp x (h'.read p (Nat.lt_of_lt_of_le hp h.next_le) x hx)

lemma alloc (H : SharedHeap α) (x : α) : Extends H (H.alloc x) where
  next_le := Nat.le_succ _
  read := by
    intro p hp y hy
    have hne : p ≠ H.next := by omega
    unfold SharedHeap.read at hy ⊢
    rwa [alloc_block_of_ne x hne] at hy

lemma acquire (H : SharedHeap α) (p : ℕ) : Extends H (H.acquire p) where
  next_le := Nat.le_refl _
  read := by
    intro q _ x hx
    unfold SharedHeap.read at hx ⊢
    by_cases hq : q = p
    · subst hq
      rw [acquire_block_self, Option.map_map] at hx
      exact hx
    · rwa [acquire_block_of_ne hq] at hx

lemma release (H : SharedHeap α) (p : ℕ) : Extends H (H.release p) where
  next_le := Nat.le_refl _
  read := by
    intro q _ x hx
    unfold SharedHeap.read at hx ⊢
    by_cases hq : q = p
    · subst hq
      rw [release_block_self] at hx
      cases hb : H.block q with
      | none => simp [hb] at hx
      | some b =>
        rw [hb, Option.bind_some] at hx
        split at hx
        · cases hx
        · exact hx
    · rwa [release_block_of_ne hq] at hx

end Extends

/-! ### Use counts -/

/-- Every use count is the number of times the pointer occurs in `refs`, and the blocks that no
pointer of `refs` leads to are gone. -/
structure Counts (H : SharedHeap α) (refs : List ℕ) : Prop where
  live : ∀ p ∈ refs, ∃ x, H.block p = some (x, refs.count p)
  freed : ∀ p ∉ refs, H.block p = none
  lt_next : ∀ p ∈ refs, p < H.next

namespace Counts

lemma empty : Counts (SharedHeap.empty : SharedHeap α) [] where
  live := by simp
  freed := fun _ _ => rfl
  lt_next := by simp

lemma perm (h : Counts H refs) (hp : refs.Perm refs') : Counts H refs' where
  live := by
    intro p hmem
    obtain ⟨x, hx⟩ := h.live p (hp.mem_iff.2 hmem)
    exact ⟨x, by rw [hx, hp.count_eq]⟩
  freed := fun p hmem => h.freed p (mt hp.mem_iff.1 hmem)
  lt_next := fun p hmem => h.lt_next p (hp.mem_iff.2 hmem)

lemma read_isSome (h : Counts H refs) (p : ℕ) : (H.read p).isSome ↔ p ∈ refs := by
  unfold read
  by_cases hp : p ∈ refs
  · obtain ⟨x, hx⟩ := h.live p hp
    simp [hx, hp]
  · simp [h.freed p hp, hp]

lemma useCount_eq (h : Counts H refs) (p : ℕ) : H.useCount p = refs.count p := by
  unfold useCount
  by_cases hp : p ∈ refs
  · obtain ⟨x, hx⟩ := h.live p hp
    simp [hx]
  · rw [h.freed p hp, List.count_eq_zero.2 hp]
    rfl

/-- A block that survives a step shows what it showed before. -/
lemma read_eq (h : Counts H refs) (hp : p ∈ refs) (he : Extends H H') (h' : Counts H' refs')
    (hp' : p ∈ refs') : H'.read p = H.read p := by
  obtain ⟨x, hx⟩ := Option.isSome_iff_exists.1 ((h'.read_isSome p).2 hp')
  rw [hx, he.read p (h.lt_next p hp) x hx]

lemma alloc (h : Counts H refs) (x : α) : Counts (H.alloc x) (H.next :: refs) := by
  have hnew : H.next ∉ refs := fun hmem => Nat.lt_irrefl _ (h.lt_next _ hmem)
  refine ⟨?_, ?_, ?_⟩
  · intro p hp
    rcases List.mem_cons.1 hp with rfl | hp
    · refine ⟨x, ?_⟩
      rw [alloc_block_self, List.count_cons_self, List.count_eq_zero.2 hnew]
    · have hne : p ≠ H.next := fun heq => hnew (heq ▸ hp)
      obtain ⟨y, hy⟩ := h.live p hp
      refine ⟨y, ?_⟩
      rw [alloc_block_of_ne x hne, hy, List.count_cons_of_ne (Ne.symm hne)]
  · intro p hp
    rw [List.mem_cons, not_or] at hp
    rw [alloc_block_of_ne x hp.1, h.freed p hp.2]
  · intro p hp
    rw [alloc_next]
    rcases List.mem_cons.1 hp with rfl | hp
    · omega
    · have := h.lt_next p hp
      omega

lemma acquire (h : Counts H refs) (hp : p ∈ refs) : Counts (H.acquire p) (p :: refs) := by
  refine ⟨?_, ?_, ?_⟩
  · intro q hq
    have hq' : q ∈ refs := by
      rcases List.mem_cons.1 hq with rfl | hq
      exacts [hp, hq]
    obtain ⟨x, hx⟩ := h.live q hq'
    refine ⟨x, ?_⟩
    by_cases hqp : q = p
    · subst hqp
      rw [acquire_block_self, hx, List.count_cons_self]
      rfl
    · rw [acquire_block_of_ne hqp, hx, List.count_cons_of_ne (Ne.symm hqp)]
  · intro q hq
    rw [List.mem_cons, not_or] at hq
    rw [acquire_block_of_ne hq.1, h.freed q hq.2]
  · intro q hq
    rcases List.mem_cons.1 hq with rfl | hq
    exacts [h.lt_next _ hp, h.lt_next _ hq]

lemma release (h : Counts H (p :: refs)) : Counts (H.release p) refs := by
  have hself : (H.release p).block p =
      if p ∈ refs then (H.block p).map (fun b => (b.1, refs.count p)) else none := by
    obtain ⟨x, hx⟩ := h.live p List.mem_cons_self
    rw [release_block_self, hx, Option.bind_some, List.count_cons_self]
    by_cases hp : p ∈ refs
    · have hpos := List.count_pos_iff.2 hp
      rw [if_neg (show ¬ refs.count p + 1 ≤ 1 by omega), if_pos hp]
      rfl
    · rw [if_pos (by simp [List.count_eq_zero.2 hp]), if_neg hp]
  refine ⟨?_, ?_, ?_⟩
  · intro q hq
    obtain ⟨x, hx⟩ := h.live q (List.mem_cons_of_mem _ hq)
    refine ⟨x, ?_⟩
    by_cases hqp : q = p
    · subst hqp
      rw [hself, if_pos hq, hx]
      rfl
    · rw [release_block_of_ne hqp, hx, List.count_cons_of_ne (Ne.symm hqp)]
  · intro q hq
    by_cases hqp : q = p
    · subst hqp
      rw [hself, if_neg hq]
    · rw [release_block_of_ne hqp]
      exact h.freed q (by simp [hqp, hq])
  · exact fun q hq => h.lt_next q (List.mem_cons_of_mem _ hq)

end Counts

/-! ### Steps of one owner -/

/-- An owner that held the pointers `refs` holds `refs'` after a step without new blocks, whatever
pointers the others hold. -/
structure Trades (H : SharedHeap α) (refs : List ℕ) (H' : SharedHeap α) (refs' : List ℕ) : Prop where
  counts : ∀ frame, Counts H (refs ++ frame) → Counts H' (refs' ++ frame)
  keeps : Extends H H'
  next : H'.next = H.next

namespace Trades

lemma refl (H : SharedHeap α) (refs : List ℕ) : Trades H refs H refs :=
  ⟨fun _ h => h, .refl H, rfl⟩

lemma trans (h : Trades H refs H' refs') (h' : Trades H' refs' H'' refs'') :
    Trades H refs H'' refs'' :=
  ⟨fun frame hc => h'.counts frame (h.counts frame hc), h.keeps.trans h'.keeps,
    h'.next.trans h.next⟩

lemma frame (h : Trades H refs H' refs') (kept : List ℕ) :
    Trades H (refs ++ kept) H' (refs' ++ kept) where
  counts := by
    intro frame hc
    rw [List.append_assoc] at hc ⊢
    exact h.counts _ hc
  keeps := h.keeps
  next := h.next

lemma perm (h : Trades H refs H' refs') {ps ps' : List ℕ} (hp : ps.Perm refs)
    (hp' : refs'.Perm ps') : Trades H ps H' ps' where
  counts := fun frame hc =>
    (h.counts frame (hc.perm (hp.append_right frame))).perm (hp'.append_right frame)
  keeps := h.keeps
  next := h.next

lemma acquire (hp : p ∈ refs) : Trades H refs (H.acquire p) (p :: refs) :=
  ⟨fun _ hc => hc.acquire (List.mem_append_left _ hp), .acquire H p, rfl⟩

lemma release (H : SharedHeap α) (p : ℕ) (refs : List ℕ) :
    Trades H (p :: refs) (H.release p) refs :=
  ⟨fun _ hc => hc.release, .release H p, rfl⟩

lemma acquireAll {ps : List ℕ} (hp : ∀ p ∈ ps, p ∈ refs) :
    Trades H refs (H.acquireAll ps) (ps ++ refs) := by
  induction ps generalizing H refs with
  | nil => exact refl H refs
  | cons p ps ih =>
    rw [List.forall_mem_cons] at hp
    have hrest := @ih (H.acquire p) (p :: refs) fun q hq => List.mem_cons_of_mem _ (hp.2 q hq)
    exact ((acquire hp.1).trans hrest).perm (.refl _) List.perm_middle

lemma releaseAll (H : SharedHeap α) (ps refs : List ℕ) :
    Trades H (ps ++ refs) (H.releaseAll ps) refs := by
  induction ps generalizing H with
  | nil => exact refl H refs
  | cons p ps ih => exact (release H p (ps ++ refs)).trans (ih _)

end Trades

end SharedHeap

end Sponge.Lib
