import Sponge.Util.Buffer

/-!
# `BufferList` is a byte string

A list that the constructors, `append` and `remove_prefix` lead to behaves as the string it
concatenates to, whatever its segmentation: every `Buffer` in it is one that the methods of `Buffer`
lead to (`BufferList.Reachable.buffers`), so that its offset lies within its storage.
-/

namespace Sponge

open Lib

/-- A `Buffer` that the constructors and `remove_prefix` lead to. -/
inductive Buffer.Reachable : Buffer → Prop
  | empty : Reachable Buffer.empty
  | ofString (s : List UInt8) : Reachable (Buffer.ofString s)
  | removePrefix {b : Buffer} (n : ℕ) : Reachable b → Reachable (b.removePrefix n).2

lemma Buffer.Reachable.wf {b : Buffer} (h : b.Reachable) : b.WF := by
  induction h with
  | empty => exact Buffer.wf_empty
  | ofString s => exact Buffer.wf_ofString s
  | removePrefix n _ ih => exact ih.removePrefix n

namespace BufferList

/-- A `BufferList` that the constructors, `append` and `remove_prefix` lead to. -/
inductive Reachable : BufferList → Prop
  | empty : Reachable BufferList.empty
  | ofBuffer {b : Buffer} : b.Reachable → Reachable (BufferList.ofBuffer b)
  | ofString (s : List UInt8) : Reachable (BufferList.ofString s)
  | append {l other : BufferList} : Reachable l → Reachable other → Reachable (l.append other)
  | removePrefix {l : BufferList} (n : ℕ) : Reachable l → Reachable (l.removePrefix n).2

lemma Reachable.buffers {l : BufferList} (h : l.Reachable) : ∀ b ∈ l.buffers, b.Reachable := by
  induction h with
  | empty => simp [BufferList.empty]
  | ofBuffer hb => exact List.forall_mem_singleton.2 hb
  | ofString s => exact List.forall_mem_singleton.2 (.ofString s)
  | append _ _ ih₁ ih₂ =>
    rw [append_buffers]
    exact List.forall_mem_append.2 ⟨ih₁, ih₂⟩
  | removePrefix n _ ih => exact forall_removePrefixLoop (fun _ n hb => hb.removePrefix n) ih n

lemma Reachable.toBuffer {l : BufferList} (h : l.Reachable) {b : Buffer} (hb : l.toBuffer = .ok b) :
    b.Reachable := by
  obtain ⟨buffers⟩ := l
  have hall := h.buffers
  unfold BufferList.toBuffer at hb
  split at hb
  · obtain rfl := Except.ok.inj hb
    exact .empty
  · rename_i buffer heq
    obtain rfl := Except.ok.inj hb
    exact hall _ (by rw [heq]; exact List.mem_singleton.2 rfl)
  · cases hb

lemma str_toBuffer {l : BufferList} {b : Buffer} (hb : l.toBuffer = .ok b) :
    b.str = l.concatenate := by
  obtain ⟨buffers⟩ := l
  rw [concatenate_eq, segs]
  unfold toBuffer at hb
  split at hb
  · rename_i heq
    obtain rfl := Except.ok.inj hb
    rw [heq]
    rfl
  · rename_i buffer heq
    obtain rfl := Except.ok.inj hb
    rw [heq, List.map_singleton, List.flatten_singleton]
  · cases hb

/-- What the methods of `l` answer and do, as methods of the string it concatenates to. -/
structure RefinesString (l : BufferList) : Prop where
  size : l.size = l.concatenate.length
  append : ∀ other, (l.append other).concatenate = l.concatenate ++ other.concatenate
  removePrefix_throws : ∀ n, (∃ what, (l.removePrefix n).1 = .error (.outOfRange what)) ↔ n > l.size
  removePrefix_drops : ∀ n, n ≤ l.size →
    (l.removePrefix n).1 = .ok () ∧ (l.removePrefix n).2.concatenate = l.concatenate.drop n
  removePrefix_add : ∀ m n, ((l.removePrefix m).2.removePrefix n).2.concatenate =
    (l.removePrefix (m + n)).2.concatenate
  offset_le : ∀ b ∈ l.buffers, ∀ storage, b.storage = some storage →
    b.startingOffset ≤ storage.length
  toBuffer : ∀ b, l.toBuffer = .ok b → b.Reachable ∧ b.str = l.concatenate

/-- **A `BufferList` is a byte string**: every reachable list whose length a `size_t` can hold. -/
theorem refines_string (l : BufferList) (h : l.Reachable) (hlen : l.concatenate.length < 2 ^ 64) :
    RefinesString l := by
  have htotal : totalLength l.segs = l.concatenate.length := by
    rw [concatenate_eq, length_flatten]
  have hsize : l.size = l.concatenate.length := by
    rw [size_eq, htotal, Nat.mod_eq_of_lt hlen]
  have hfst : ∀ n, (l.removePrefix n).1 = if n ≤ l.size then .ok ()
      else .error (.outOfRange "BufferList::remove_prefix") := by
    intro n
    rw [hsize, ← htotal]
    exact removePrefixLoop_fst _ _
  refine ⟨hsize, ?_, ?_, ?_, ?_, ?_, fun b hb => ⟨h.toBuffer hb, str_toBuffer hb⟩⟩
  · intro other
    rw [concatenate_eq, segs_append, List.flatten_append, concatenate_eq, concatenate_eq]
  · intro n
    rw [hfst]
    constructor
    · rintro ⟨what, hw⟩
      by_contra hn
      rw [if_pos (by omega)] at hw
      cases hw
    · intro hn
      exact ⟨_, if_neg (by omega)⟩
  · intro n hn
    rw [hfst, if_pos hn]
    exact ⟨rfl, concatenate_removePrefix l n⟩
  · intro m n
    rw [concatenate_removePrefix, concatenate_removePrefix, concatenate_removePrefix, List.drop_drop]
  · intro b hb
    exact (h.buffers b hb).wf

/-- Two segments, the first with its front byte already removed and an empty one between. -/
theorem refines_string_segments :
    RefinesString (((BufferList.ofBuffer ((Buffer.ofString [1, 2, 3]).removePrefix 1).2).append
      (BufferList.ofString [])).append (BufferList.ofString [4, 5])) :=
  refines_string _ (.append (.append (.ofBuffer (.removePrefix 1 (.ofString _))) (.ofString _))
    (.ofString _)) (by decide)

end BufferList

end Sponge
