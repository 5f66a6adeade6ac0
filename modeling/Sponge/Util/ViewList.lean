import Mathlib.Data.List.Forall2
import Sponge.Lib.Machine
import Sponge.Util.Buffer

/-!
# `BufferList` and `BufferViewList` side by side

Both lists have a `remove_prefix` of their own, over different representations of the segments, and
both loops walk over the segments as `dropSegs` does. So the views stay those of the buffers under
any sequence of calls (`BufferViewList.simulates`). A call that fails has popped every segment by
the time it finds out, which `Buffer::remove_prefix` does not (`remove_prefix_atomic_iff`).
-/

namespace Sponge

open Lib

/-! ### Calls of `remove_prefix` in sequence -/

def BufferList.machine : Machine BufferList ℕ (Except Exn Unit) := ⟨BufferList.removePrefix⟩

def BufferViewList.machine : Machine BufferViewList ℕ (Except Exn Unit) :=
  ⟨BufferViewList.removePrefix⟩

namespace BufferViewList

/-- Both calls return, or both throw `out_of_range`. -/
inductive Alike : Except Exn Unit → Except Exn Unit → Prop
  | returns : Alike (.ok ()) (.ok ())
  | throws (what what' : String) : Alike (.error (.outOfRange what)) (.error (.outOfRange what'))

/-- The views of `v` are those of the buffers of `l`, one for one. -/
structure Shows (v : BufferViewList) (l : BufferList) : Prop where
  segments : v.views.length = l.buffers.length
  view : ∀ i : ℕ, v.views[i]? = l.buffers[i]?.map Buffer.str
  size : v.size = l.size
  iovecs : v.asIovecs.flatten = l.concatenate

lemma shows_of_views {v : BufferViewList} {l : BufferList} (h : v.views = l.segs) : v.Shows l := by
  refine ⟨?_, ?_, ?_, ?_⟩
  · rw [h, BufferList.segs, List.length_map]
  · intro i
    rw [h, BufferList.segs, List.getElem?_map]
  · rw [size_eq, BufferList.size_eq, bytes, h, length_flatten]
  · rw [asIovecs_eq, h, BufferList.concatenate_eq]

lemma views_ofBufferList (l : BufferList) : (ofBufferList l).views = l.segs := by
  unfold ofBufferList BufferList.segs
  rw [List.map_eq_flatMap, List.flatMap_def, List.foldl_append_eq_append, List.nil_append]

/-- One call on each: the views stay those of the buffers, also if the calls throw. -/
lemma removePrefix_alike {v : BufferViewList} {l : BufferList} (h : v.views = l.segs) (n : ℕ) :
    Alike (l.removePrefix n).1 (v.removePrefix n).1 ∧
      (v.removePrefix n).2.views = (l.removePrefix n).2.segs := by
  have hl := BufferList.removePrefixLoop_fst l.buffers n
  have hv := removePrefixLoop_eq v.views n
  refine ⟨?_, ?_⟩
  · show Alike (BufferList.removePrefixLoop l.buffers n).1 (removePrefixLoop v.views n).1
    rw [hl, hv, h, BufferList.segs]
    by_cases hn : n ≤ totalLength (l.buffers.map Buffer.str)
    · simp only [if_pos hn]
      exact .returns
    · simp only [if_neg hn]
      exact .throws _ _
  · show (removePrefixLoop v.views n).2 = _
    rw [hv, h, BufferList.segs_removePrefix]

/-- **`BufferViewList` simulates `BufferList`**: under any sequence of calls of `remove_prefix` on a
list and on the views built from it, each pair of calls ends alike and leaves the views those of the
buffers, also where it throws and after it has thrown. -/
theorem simulates (l : BufferList) (ns : List ℕ) :
    (ofBufferList l).Shows l ∧
    List.Forall₂ (fun m m' => Alike m.output m'.output ∧ m'.after.Shows m.after)
      (BufferList.machine.trace l ns) (BufferViewList.machine.trace (ofBufferList l) ns) := by
  have hviews := views_ofBufferList l
  refine ⟨shows_of_views hviews, ?_⟩
  have hlock := Machine.forall₂_trace (M := BufferList.machine) (N := BufferViewList.machine)
    (R := fun l v => v.views = l.segs) (E := Alike) (fun _ _ n h => removePrefix_alike h n) hviews ns
  exact hlock.imp fun _ _ hpair => ⟨hpair.1, shows_of_views hpair.2⟩

end BufferViewList

/-! ### A call that fails -/

/-- The failure of `remove_prefix(n)` leaves the string as it was: it throws `out_of_range`, and
contents, size and segments are the same before and after. -/
structure FailsAtomically {σ : Type} (removePrefix : σ → ℕ → Except Exn Unit × σ)
    (contents : σ → List UInt8) (size : σ → ℕ) (segments : σ → List (List UInt8)) (s : σ) (n : ℕ) :
    Prop where
  throws : ∃ what, (removePrefix s n).1 = .error (.outOfRange what)
  contents : contents (removePrefix s n).2 = contents s
  size : size (removePrefix s n).2 = size s
  segments : segments (removePrefix s n).2 = segments s

def Buffer.FailsAtomically : Buffer → ℕ → Prop :=
  Sponge.FailsAtomically Buffer.removePrefix Buffer.str Buffer.size fun b => [b.str]

def BufferList.FailsAtomically : BufferList → ℕ → Prop :=
  Sponge.FailsAtomically BufferList.removePrefix BufferList.concatenate BufferList.size
    BufferList.segs

def BufferViewList.FailsAtomically : BufferViewList → ℕ → Prop :=
  Sponge.FailsAtomically BufferViewList.removePrefix BufferViewList.bytes BufferViewList.size
    BufferViewList.views

/-- A single `Buffer` checks the size before it cuts. -/
theorem Buffer.failsAtomically {b : Buffer} {n : ℕ} (h : b.size < n) : b.FailsAtomically n := by
  have hfail := Buffer.removePrefix_of_gt h
  exact ⟨⟨_, congrArg Prod.fst hfail⟩, by rw [hfail], by rw [hfail], by rw [hfail]⟩

section

variable {σ : Type} {removePrefix : σ → ℕ → Except Exn Unit × σ} {contents : σ → List UInt8}
  {size : σ → ℕ} {segments : σ → List (List UInt8)} {s : σ} {n : ℕ} {what : String}

/-- A list whose loop walks as `dropSegs` does is left empty by a call that throws. -/
lemma segments_of_throws
    (hfst : (removePrefix s n).1 =
      if n ≤ totalLength (segments s) then .ok () else .error (.outOfRange what))
    (hsnd : segments (removePrefix s n).2 = dropSegs (segments s) n)
    (hthrows : ∃ what, (removePrefix s n).1 = .error (.outOfRange what)) :
    segments (removePrefix s n).2 = [] := by
  obtain ⟨what', hwhat⟩ := hthrows
  by_cases hn : n ≤ totalLength (segments s)
  · rw [hfst, if_pos hn] at hwhat
    cases hwhat
  · rw [hsnd]
    exact dropSegs_of_totalLength_lt (by omega)

/-- Such a list is as it was after a call that fails only if it was empty. -/
lemma failsAtomically_iff
    (hfst : (removePrefix s n).1 =
      if n ≤ totalLength (segments s) then .ok () else .error (.outOfRange what))
    (hsnd : segments (removePrefix s n).2 = dropSegs (segments s) n)
    (hsegs : ∀ t, segments t = segments s → contents t = contents s ∧ size t = size s)
    (hn : 0 < n) :
    FailsAtomically removePrefix contents size segments s n ↔ segments s = [] := by
  constructor
  · intro h
    rw [← h.segments]
    exact segments_of_throws hfst hsnd h.throws
  · intro h
    have hkept : segments (removePrefix s n).2 = segments s := by rw [hsnd, h, dropSegs_nil]
    refine ⟨⟨what, ?_⟩, (hsegs _ hkept).1, (hsegs _ hkept).2, hkept⟩
    rw [hfst, h, totalLength_nil, if_neg (by omega)]

end

/-- **When a failed `remove_prefix` leaves the string as it was**: of a `BufferList` and of a
`BufferViewList`, exactly if there are no segments in it. -/
theorem remove_prefix_atomic_iff (l : BufferList) (v : BufferViewList) (m n : ℕ) (hm : l.size < m)
    (hn : v.size < n) :
    (l.FailsAtomically m ↔ l.buffers = []) ∧ (v.FailsAtomically n ↔ v.views = []) := by
  refine ⟨?_, ?_⟩
  · have hfst : (l.removePrefix m).1 = _ := BufferList.removePrefixLoop_fst l.buffers m
    rw [← List.map_eq_nil_iff (f := Buffer.str)]
    refine failsAtomically_iff hfst (BufferList.segs_removePrefix l m) ?_ (by omega)
    intro t ht
    rw [BufferList.concatenate_eq, BufferList.concatenate_eq, BufferList.size_eq, BufferList.size_eq,
      ht]
    exact ⟨rfl, rfl⟩
  · have heq := BufferViewList.removePrefixLoop_eq v.views n
    refine failsAtomically_iff (congrArg Prod.fst heq) (congrArg Prod.snd heq) ?_ (by omega)
    intro t ht
    rw [BufferViewList.bytes, BufferViewList.bytes, BufferViewList.size_eq, BufferViewList.size_eq,
      BufferViewList.bytes, BufferViewList.bytes, ht]
    exact ⟨rfl, rfl⟩

/-- An empty `BufferList`, and a `BufferViewList` of one view of one byte. -/
theorem remove_prefix_atomic_empty :
    BufferList.empty.FailsAtomically 1 ∧ ¬ (BufferViewList.ofView [65]).FailsAtomically 2 := by
  have h := remove_prefix_atomic_iff BufferList.empty (BufferViewList.ofView [65]) 1 2 (by decide)
    (by decide)
  exact ⟨h.1.2 rfl, fun hv => by cases h.2.1 hv⟩

/-- `remove_prefix(2)` of a single byte. -/
theorem not_remove_prefix_atomic :
    (BufferList.ofString [65]).size < 2 ∧ ¬ (BufferList.ofString [65]).FailsAtomically 2 ∧
    (BufferViewList.ofView [65]).size < 2 ∧ ¬ (BufferViewList.ofView [65]).FailsAtomically 2 := by
  refine ⟨by decide, fun h => ?_, by decide, fun h => ?_⟩
  · have hsize : (BufferList.removePrefix (BufferList.ofString [65]) 2).2.size = 1 := h.size
    exact absurd hsize (by decide)
  · have hsize : (BufferViewList.removePrefix (BufferViewList.ofView [65]) 2).2.size = 1 := h.size
    exact absurd hsize (by decide)

end Sponge
