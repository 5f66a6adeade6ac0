import Mathlib.Algebra.Ring.Nat
import Mathlib.Data.List.Basic
import Mathlib.Data.List.TakeDrop

/-!
# The bounded FIFO

A queue of capacity `c` seen from outside: everything it ever took in, in order, and how much of
that has gone out again. `contents` is what lies between the two. The two bounds are fields, so a
queue that holds more than its capacity, or lets out what it never took in, cannot be written down.

`write_flatten` and `pop_sum` say that neither side of the queue can tell how its calls are cut: the
clip of one call leaves for the next what a single call would have had. `Ahead` compares two queues,
possibly of different capacities, by what has gone out, what is left and what would still fit.
-/

namespace Sponge.Lib

/-- A FIFO of capacity `c`. -/
structure Fifo (α : Type*) (c : ℕ) where
  /-- Everything taken in so far. -/
  accepted : List α
  /-- How much of it has gone out. -/
  removed : ℕ
  /-- Whether the input has been declared over. -/
  closed : Bool
  removed_le : removed ≤ accepted.length
  bounded : accepted.length ≤ removed + c

namespace Fifo

variable {α : Type*} {c : ℕ}

def empty (α : Type*) (c : ℕ) : Fifo α c := ⟨[], 0, false, Nat.le_refl _, Nat.zero_le _⟩

variable (f : Fifo α c)

def contents : List α := f.accepted.drop f.removed

def room : ℕ := c - f.contents.length

lemma length_contents : f.contents.length = f.accepted.length - f.removed := by simp [contents]

lemma length_contents_le : f.contents.length ≤ c := by
  have := f.bounded
  rw [length_contents]; omega

lemma length_add_room : f.contents.length + f.room = c := by
  have := f.length_contents_le
  unfold room; omega

/-- What has gone out, followed by what is in the queue, is everything it took in. -/
lemma take_append_contents : f.accepted.take f.removed ++ f.contents = f.accepted :=
  List.take_append_drop _ _

lemma contents_eq_nil_iff : f.contents = [] ↔ f.removed = f.accepted.length := by
  have := f.removed_le
  rw [← List.length_eq_zero_iff, length_contents]; omega

/-- Take in as much of `d` as there is room for. -/
def write (d : List α) : Fifo α c where
  accepted := f.accepted ++ d.take f.room
  removed := f.removed
  closed := f.closed
  removed_le := by
    have := f.removed_le
    rw [List.length_append]; omega
  bounded := by
    have h1 := f.length_add_room
    have h2 := f.length_contents
    have h3 := f.removed_le
    rw [List.length_append, List.length_take]; omega

/-- Let out `n` elements, or all there are. -/
def pop (n : ℕ) : Fifo α c where
  accepted := f.accepted
  removed := f.removed + min n f.contents.length
  closed := f.closed
  removed_le := by
    have := f.removed_le
    rw [length_contents]; omega
  bounded := by
    have := f.bounded
    omega

def close : Fifo α c := { f with closed := true }

@[simp] lemma contents_empty : (empty α c).contents = [] := rfl
@[simp] lemma contents_close : f.close.contents = f.contents := rfl

@[simp] lemma contents_write (d : List α) :
    (f.write d).contents = f.contents ++ d.take f.room := by
  unfold contents write
  exact List.drop_append_of_le_length f.removed_le

@[simp] lemma contents_pop (n : ℕ) : (f.pop n).contents = f.contents.drop n := by
  rw [List.drop_eq_drop_min]
  exact List.drop_drop.symm

@[ext] lemma ext {f g : Fifo α c} (haccepted : f.accepted = g.accepted)
    (hremoved : f.removed = g.removed) (hclosed : f.closed = g.closed) : f = g := by
  obtain ⟨accepted, removed, closed, hle, hbounded⟩ := f
  cases g
  subst haccepted hremoved hclosed
  rfl

/-! ### Calls that are not clipped -/

variable {f} in
lemma accepted_write_of_le {d : List α} (h : d.length ≤ f.room) :
    (f.write d).accepted = f.accepted ++ d :=
  congrArg (f.accepted ++ ·) (List.take_of_length_le h)

variable {f} in
lemma contents_write_of_le {d : List α} (h : d.length ≤ f.room) :
    (f.write d).contents = f.contents ++ d := by
  rw [contents_write, List.take_of_length_le h]

variable {f} in
lemma removed_pop_add {n : ℕ} (h : n ≤ f.contents.length) (k : ℕ) :
    (f.pop n).removed + k = f.removed + (n + k) := by
  show f.removed + min n f.contents.length + k = f.removed + (n + k)
  rw [Nat.min_eq_left h, Nat.add_assoc]

variable {f} in
lemma contents_pop_append {n : ℕ} (h : n ≤ f.contents.length) (d : List α) :
    (f.pop n).contents ++ d = (f.contents ++ d).drop n := by
  rw [contents_pop, List.drop_append_of_le_length h]

/-! ### Calls in sequence -/

def out : List α := f.accepted.take f.removed

lemma out_pop (n : ℕ) : (f.pop n).out = f.out ++ f.contents.take n := by
  have hclip : f.contents.take (min n f.contents.length) = f.contents.take n :=
    List.take_eq_take_min.symm
  have htake : (f.pop n).out = f.out ++ f.contents.take (min n f.contents.length) := List.take_add
  rw [htake, hclip]

lemma room_write (d : List α) : (f.write d).room = f.room - d.length := by
  have hlen := f.length_add_room
  rw [room, contents_write, List.length_append, List.length_take]
  omega

lemma write_nil : f.write [] = f := by
  ext1
  · exact (congrArg _ List.take_nil).trans (List.append_nil _)
  · rfl
  · rfl

lemma write_append (d e : List α) : f.write (d ++ e) = (f.write d).write e := by
  ext1
  · show f.accepted ++ (d ++ e).take f.room = f.accepted ++ d.take f.room ++ e.take (f.write d).room
    rw [room_write, List.take_append, List.append_assoc]
  · rfl
  · rfl

lemma pop_zero : f.pop 0 = f := by
  ext1
  · rfl
  · show f.removed + min 0 f.contents.length = f.removed
    rw [Nat.zero_min, Nat.add_zero]
  · rfl

lemma pop_add (m n : ℕ) : f.pop (m + n) = (f.pop m).pop n := by
  ext1
  · rfl
  · show f.removed + min (m + n) f.contents.length =
      f.removed + min m f.contents.length + min n (f.pop m).contents.length
    rw [contents_pop, List.length_drop]
    omega
  · rfl

/-- **Writes in pieces.** -/
theorem write_flatten (ds : List (List α)) : ds.foldl write f = f.write ds.flatten := by
  induction ds generalizing f with
  | nil => exact f.write_nil.symm
  | cons d ds ih => rw [List.foldl_cons, ih, List.flatten_cons, write_append]

/-- **Pops in pieces.** -/
theorem pop_sum (ns : List ℕ) : ns.foldl pop f = f.pop ns.sum := by
  induction ns generalizing f with
  | nil => exact f.pop_zero.symm
  | cons n ns ih => rw [List.foldl_cons, ih, List.sum_cons, pop_add]

/-! ### Two queues -/

/-- The queue `g` is ahead of `f`: at least as much has gone out of it and lies in it, and yet it has
at least as much room left. -/
structure Ahead {β : Type*} {c c' : ℕ} (f : Fifo α c) (g : Fifo β c') : Prop where
  removed : f.removed ≤ g.removed
  contents : f.contents.length ≤ g.contents.length
  room : f.room ≤ g.room

lemma ahead_empty {c c' : ℕ} (h : c ≤ c') : Ahead (empty α c) (empty α c') :=
  ⟨Nat.le_refl _, Nat.le_refl _, h⟩

namespace Ahead

variable {c' : ℕ} {f : Fifo α c} {g : Fifo α c'} (h : Ahead f g)
include h

lemma accepted : f.accepted.length ≤ g.accepted.length := by
  obtain ⟨hremoved, hcontents, -⟩ := h
  have hf := f.removed_le
  have hg := g.removed_le
  rw [length_contents, length_contents] at hcontents
  omega

lemma write (d : List α) : Ahead (f.write d) (g.write d) := by
  obtain ⟨hremoved, hcontents, hroom⟩ := h
  refine ⟨hremoved, ?_, ?_⟩
  · rw [contents_write, contents_write, List.length_append, List.length_append, List.length_take,
      List.length_take]
    omega
  · rw [room_write, room_write]
    omega

lemma pop (n : ℕ) : Ahead (f.pop n) (g.pop n) := by
  obtain ⟨hremoved, hcontents, hroom⟩ := h
  refine ⟨?_, ?_, ?_⟩
  · show f.removed + min n f.contents.length ≤ g.removed + min n g.contents.length
    omega
  · rw [contents_pop, contents_pop, List.length_drop, List.length_drop]
    omega
  · have hf := f.length_add_room
    have hg := g.length_add_room
    rw [Fifo.room, Fifo.room, contents_pop, contents_pop, List.length_drop, List.length_drop]
    omega

lemma close : Ahead f.close g.close := ⟨h.removed, h.contents, h.room⟩

end Ahead

end Fifo

end Sponge.Lib
