import Mathlib.Data.List.Flatten
import Sponge.Lib.Machine
import Sponge.Lib.SharedHeap
import Sponge.Util.BufferList

/-!
# The storage that `Buffer`s share

`Buffer` holds its string through a `shared_ptr`: copies of a `Buffer`, and the `BufferList`s it is
appended to, point to one block. Here are the objects of both classes with their pointers, and the
operations as they act on the blocks and on the use counts.

* `Memory`, `Memory.step` — the objects made so far and the heap they point into;
* `Values`, `Values.step` — the same operations on objects that hold their strings by value;
* `Memory.Sound` — the invariant: the use counts are the numbers of pointers;
* `Memory.Shows.step` — an operation answers the same in both, and leads to the same values;
* `shows_values` — the same of whole runs: that storage is shared cannot be seen.
-/

namespace Sponge

open Lib

/-- A `Buffer` in memory: `_storage` is null or points to a block. -/
structure SharedBuffer where
  storage : Option ℕ
  startingOffset : ℕ
  deriving DecidableEq, Repr

namespace SharedBuffer

def refs (b : SharedBuffer) : List ℕ := b.storage.toList

def str (heap : SharedHeap (List UInt8)) (b : SharedBuffer) : List UInt8 :=
  match b.storage with
  | none => []
  | some p => ((heap.read p).getD []).drop b.startingOffset

def size (heap : SharedHeap (List UInt8)) (b : SharedBuffer) : ℕ := (b.str heap).length

def removePrefix (heap : SharedHeap (List UInt8)) (b : SharedBuffer) (n : ℕ) :
    Except Exn Unit × SharedBuffer × SharedHeap (List UInt8) :=
  if n > b.size heap then (.error (.outOfRange "Buffer::remove_prefix"), b, heap)
  else
    let offset := b.startingOffset + n
    match b.storage with
    | none => (.ok (), ⟨none, offset⟩, heap)
    | some p =>
      if offset = ((heap.read p).getD []).length then (.ok (), ⟨none, offset⟩, heap.release p)
      else (.ok (), ⟨some p, offset⟩, heap)

/-- The `Buffer` with the block it points to in place of the pointer. -/
def value (heap : SharedHeap (List UInt8)) (b : SharedBuffer) : Buffer :=
  ⟨b.storage.bind heap.read, b.startingOffset⟩

end SharedBuffer

/-- The loop of `BufferList::remove_prefix`, which destroys the `Buffer`s it pops. -/
def SharedBuffer.removePrefixLoop (heap : SharedHeap (List UInt8)) : List SharedBuffer → ℕ →
    Except Exn Unit × List SharedBuffer × SharedHeap (List UInt8)
  | [], n =>
    if n > 0 then (.error (.outOfRange "BufferList::remove_prefix"), [], heap) else (.ok (), [], heap)
  | front :: rest, n =>
    if n > 0 then
      if n < front.size heap then
        let r := front.removePrefix heap n
        (r.1, r.2.1 :: rest, r.2.2)
      else removePrefixLoop (heap.releaseAll front.refs) rest (n - front.size heap)
    else (.ok (), front :: rest, heap)

namespace Storage

/-- An object of one of the two classes, or one that is gone. -/
inductive Object where
  | destroyed
  | buffer (b : SharedBuffer)
  | list (buffers : List SharedBuffer)
  deriving DecidableEq, Repr

namespace Object

def buffers : Object → List SharedBuffer
  | .destroyed => []
  | .buffer b => [b]
  | .list buffers => buffers

def refs (o : Object) : List ℕ := o.buffers.flatMap SharedBuffer.refs

@[simp] lemma refs_buffer (b : SharedBuffer) : (buffer b).refs = b.refs := List.flatMap_singleton ..

end Object

/-- An object with its strings held by value. -/
inductive Value where
  | destroyed
  | buffer (b : Buffer)
  | list (l : BufferList)
  deriving DecidableEq

def Object.value (heap : SharedHeap (List UInt8)) : Object → Value
  | .destroyed => .destroyed
  | .buffer b => .buffer (b.value heap)
  | .list buffers => .list ⟨buffers.map (SharedBuffer.value heap)⟩

/-- The operations; an object is named by its number. -/
inductive Op where
  /-- `Buffer()`. -/
  | buffer
  /-- `Buffer(std::string &&str)`. -/
  | bufferOfString (str : List UInt8)
  /-- `BufferList()`. -/
  | list
  /-- `BufferList(std::string &&str)`. -/
  | listOfString (str : List UInt8)
  /-- `BufferList(Buffer buffer)`. -/
  | listOfBuffer (i : ℕ)
  /-- The copy constructor of either class. -/
  | copy (i : ℕ)
  /-- The move constructor of either class. -/
  | move (i : ℕ)
  /-- `i = j`, for two objects of one class. -/
  | assign (i j : ℕ)
  /-- `i = std::move(j)`, for two objects of one class. -/
  | moveAssign (i j : ℕ)
  | removePrefix (i n : ℕ)
  /-- `i.append(j)`. -/
  | append (i j : ℕ)
  /-- `BufferList::operator Buffer()`. -/
  | toBuffer (i : ℕ)
  | destroy (i : ℕ)
  deriving DecidableEq

/-! ### Pointers and blocks -/

/-- The objects made so far, and the heap they point into. -/
structure Memory where
  heap : SharedHeap (List UInt8)
  objects : List Object

namespace Memory

def empty : Memory := ⟨.empty, []⟩

def refs (m : Memory) : List ℕ := m.objects.flatMap Object.refs

def make (m : Memory) (heap : SharedHeap (List UInt8)) (o : Object) : Memory :=
  ⟨heap, m.objects ++ [o]⟩

def set (m : Memory) (i : ℕ) (heap : SharedHeap (List UInt8)) (o : Object) : Memory :=
  ⟨heap, m.objects.set i o⟩

/-- One operation, with what its temporaries acquire and release left out. A list that was moved from
is empty. An operation on objects that are not there or not of the class it is for, `append` of a
list to itself (which invalidates the iterators of its own loop), and the move of a list to itself
(which leaves nothing that one may rely on), are none that a program can make, and do nothing. -/
def step (m : Memory) : Op → Except Exn Unit × Memory
  | .buffer => (.ok (), m.make m.heap (.buffer ⟨none, 0⟩))
  | .bufferOfString str => (.ok (), m.make (m.heap.alloc str) (.buffer ⟨some m.heap.next, 0⟩))
  | .list => (.ok (), m.make m.heap (.list []))
  | .listOfString str => (.ok (), m.make (m.heap.alloc str) (.list [⟨some m.heap.next, 0⟩]))
  | .listOfBuffer i =>
    match m.objects[i]? with
    | some (.buffer b) => (.ok (), m.make (m.heap.acquireAll b.refs) (.list [b]))
    | _ => (.ok (), m)
  | .copy i =>
    match m.objects[i]? with
    | some (.buffer b) => (.ok (), m.make (m.heap.acquireAll b.refs) (.buffer b))
    | some (.list bs) => (.ok (), m.make (m.heap.acquireAll (Object.list bs).refs) (.list bs))
    | _ => (.ok (), m)
  | .move i =>
    match m.objects[i]? with
    | some (.buffer b) =>
      (.ok (), (m.set i m.heap (.buffer ⟨none, b.startingOffset⟩)).make m.heap (.buffer b))
    | some (.list bs) => (.ok (), (m.set i m.heap (.list [])).make m.heap (.list bs))
    | _ => (.ok (), m)
  | .assign i j =>
    match m.objects[i]?, m.objects[j]? with
    | some (.buffer b), some (.buffer b') =>
      (.ok (), m.set i ((m.heap.acquireAll b'.refs).releaseAll b.refs) (.buffer b'))
    | some (.list bs), some (.list bs') =>
      (.ok (), m.set i ((m.heap.acquireAll (Object.list bs').refs).releaseAll (Object.list bs).refs)
        (.list bs'))
    | _, _ => (.ok (), m)
  | .moveAssign i j =>
    match m.objects[i]?, m.objects[j]? with
    | some (.buffer b), some (.buffer b') =>
      if i = j then (.ok (), m)
      else (.ok (), (m.set j m.heap (.buffer ⟨none, b'.startingOffset⟩)).set i
        (m.heap.releaseAll b.refs) (.buffer b'))
    | some (.list bs), some (.list bs') =>
      if i = j then (.ok (), m)
      else (.ok (), (m.set j m.heap (.list [])).set i
        (m.heap.releaseAll (Object.list bs).refs) (.list bs'))
    | _, _ => (.ok (), m)
  | .removePrefix i n =>
    match m.objects[i]? with
    | some (.buffer b) =>
      let r := b.removePrefix m.heap n
      (r.1, m.set i r.2.2 (.buffer r.2.1))
    | some (.list bs) =>
      let r := SharedBuffer.removePrefixLoop m.heap bs n
      (r.1, m.set i r.2.2 (.list r.2.1))
    | _ => (.ok (), m)
  | .append i j =>
    match m.objects[i]?, m.objects[j]? with
    | some (.list bs), some (.list bs') =>
      if i = j then (.ok (), m)
      else (.ok (), m.set i (m.heap.acquireAll (Object.list bs').refs) (.list (bs ++ bs')))
    | _, _ => (.ok (), m)
  | .toBuffer i =>
    match m.objects[i]? with
    | some (.list []) => (.ok (), m.make m.heap (.buffer ⟨none, 0⟩))
    | some (.list [b]) => (.ok (), m.make (m.heap.acquireAll b.refs) (.buffer b))
    | some (.list _) => (.error (.runtimeError
        "BufferList: please use concatenate() to combine a multi-Buffer BufferList into one Buffer"), m)
    | _ => (.ok (), m)
  | .destroy i =>
    match m.objects[i]? with
    | some o => (.ok (), m.set i (m.heap.releaseAll o.refs) .destroyed)
    | none => (.ok (), m)

/-- The objects of both classes and the operations on them. -/
def machine : Machine Memory Op (Except Exn Unit) := ⟨step⟩

@[simp] lemma machine_step (m : Memory) (op : Op) : machine.step m op = m.step op := rfl

end Memory

/-! ### Objects that hold their strings by value -/

namespace Values

/-- One operation on objects that share nothing. -/
def step (vs : List Value) : Op → Except Exn Unit × List Value
  | .buffer => (.ok (), vs ++ [.buffer Buffer.empty])
  | .bufferOfString str => (.ok (), vs ++ [.buffer (Buffer.ofString str)])
  | .list => (.ok (), vs ++ [.list BufferList.empty])
  | .listOfString str => (.ok (), vs ++ [.list (BufferList.ofString str)])
  | .listOfBuffer i =>
    match vs[i]? with
    | some (.buffer b) => (.ok (), vs ++ [.list (BufferList.ofBuffer b)])
    | _ => (.ok (), vs)
  | .copy i =>
    match vs[i]? with
    | some (.buffer b) => (.ok (), vs ++ [.buffer b])
    | some (.list l) => (.ok (), vs ++ [.list l])
    | _ => (.ok (), vs)
  | .move i =>
    match vs[i]? with
    | some (.buffer b) => (.ok (), vs.set i (.buffer ⟨none, b.startingOffset⟩) ++ [.buffer b])
    | some (.list l) => (.ok (), vs.set i (.list BufferList.empty) ++ [.list l])
    | _ => (.ok (), vs)
  | .assign i j =>
    match vs[i]?, vs[j]? with
    | some (.buffer _), some (.buffer b) => (.ok (), vs.set i (.buffer b))
    | some (.list _), some (.list l) => (.ok (), vs.set i (.list l))
    | _, _ => (.ok (), vs)
  | .moveAssign i j =>
    match vs[i]?, vs[j]? with
    | some (.buffer _), some (.buffer b) =>
      if i = j then (.ok (), vs)
      else (.ok (), (vs.set j (.buffer ⟨none, b.startingOffset⟩)).set i (.buffer b))
    | some (.list _), some (.list l) =>
      if i = j then (.ok (), vs)
      else (.ok (), (vs.set j (.list BufferList.empty)).set i (.list l))
    | _, _ => (.ok (), vs)
  | .removePrefix i n =>
    match vs[i]? with
    | some (.buffer b) => ((b.removePrefix n).1, vs.set i (.buffer (b.removePrefix n).2))
    | some (.list l) => ((l.removePrefix n).1, vs.set i (.list (l.removePrefix n).2))
    | _ => (.ok (), vs)
  | .append i j =>
    match vs[i]?, vs[j]? with
    | some (.list l), some (.list other) =>
      if i = j then (.ok (), vs) else (.ok (), vs.set i (.list (l.append other)))
    | _, _ => (.ok (), vs)
  | .toBuffer i =>
    match vs[i]? with
    | some (.list l) =>
      match l.toBuffer with
      | .ok b => (.ok (), vs ++ [.buffer b])
      | .error e => (.error e, vs)
    | _ => (.ok (), vs)
  | .destroy i =>
    match vs[i]? with
    | some _ => (.ok (), vs.set i .destroyed)
    | none => (.ok (), vs)

def machine : Machine (List Value) Op (Except Exn Unit) := ⟨step⟩

@[simp] lemma machine_step (vs : List Value) (op : Op) : machine.step vs op = step vs op := rfl

end Values

/-! ### What an object shows -/

variable {H H' : SharedHeap (List UInt8)} {refs refs' : List ℕ}

lemma str_value (b : SharedBuffer) : (b.value H).str = b.str H := by
  obtain ⟨storage, offset⟩ := b
  cases storage with
  | none => rfl
  | some p =>
    show Buffer.str ⟨H.read p, offset⟩ = ((H.read p).getD []).drop offset
    cases H.read p with
    | none => exact List.drop_nil.symm
    | some s => rfl

lemma size_value (b : SharedBuffer) : (b.value H).size = b.size H :=
  congrArg List.length (str_value b)

/-- An object whose pointers survive a step shows what it showed before. -/
lemma buffer_value_eq (b : SharedBuffer) (h : H.Counts refs) (he : H.Extends H')
    (h' : H'.Counts refs') (hp : ∀ p ∈ b.refs, p ∈ refs) (hp' : ∀ p ∈ b.refs, p ∈ refs') :
    b.value H' = b.value H := by
  obtain ⟨storage, offset⟩ := b
  cases storage with
  | none => rfl
  | some p =>
    have hmem : p ∈ SharedBuffer.refs ⟨some p, offset⟩ := List.mem_singleton.2 rfl
    exact congrArg (Buffer.mk · offset) (h.read_eq (hp p hmem) he h' (hp' p hmem))

lemma buffers_value_eq (bs : List SharedBuffer) (h : H.Counts refs) (he : H.Extends H')
    (h' : H'.Counts refs') (hp : ∀ p ∈ bs.flatMap SharedBuffer.refs, p ∈ refs)
    (hp' : ∀ p ∈ bs.flatMap SharedBuffer.refs, p ∈ refs') :
    bs.map (SharedBuffer.value H') = bs.map (SharedBuffer.value H) := by
  refine List.map_congr_left fun b hb => buffer_value_eq b h he h' ?_ ?_
  · exact fun p hpb => hp p (List.mem_flatMap.2 ⟨b, hb, hpb⟩)
  · exact fun p hpb => hp' p (List.mem_flatMap.2 ⟨b, hb, hpb⟩)

lemma Object.value_eq (o : Object) (h : H.Counts refs) (he : H.Extends H')
    (h' : H'.Counts refs') (hp : ∀ p ∈ o.refs, p ∈ refs) (hp' : ∀ p ∈ o.refs, p ∈ refs') :
    o.value H' = o.value H := by
  have hbs := buffers_value_eq o.buffers h he h' hp hp'
  cases o with
  | destroyed => rfl
  | buffer b => exact congrArg Value.buffer (List.head_eq_of_cons_eq hbs)
  | list bs => exact congrArg (fun l => Value.list ⟨l⟩) hbs

/-! ### Removing a prefix -/

lemma removePrefix_spec (b : SharedBuffer) (n : ℕ) (hlive : ∀ p ∈ b.refs, (H.read p).isSome) :
    (b.removePrefix H n).1 = ((b.value H).removePrefix n).1 ∧
    (b.removePrefix H n).2.1.value (b.removePrefix H n).2.2 = ((b.value H).removePrefix n).2 ∧
    H.Trades b.refs (b.removePrefix H n).2.2 (b.removePrefix H n).2.1.refs := by
  unfold SharedBuffer.removePrefix Buffer.removePrefix
  rw [size_value]
  split
  · exact ⟨rfl, rfl, .refl H _⟩
  · obtain ⟨storage, offset⟩ := b
    cases storage with
    | none => exact ⟨rfl, rfl, .refl H _⟩
    | some p =>
      obtain ⟨s, hs⟩ := Option.isSome_iff_exists.1 (hlive p (List.mem_singleton.2 rfl))
      have hvalue : SharedBuffer.value H ⟨some p, offset⟩ = ⟨some s, offset⟩ :=
        congrArg (Buffer.mk · offset) hs
      simp only [hvalue, hs, Option.getD_some]
      split
      · exact ⟨rfl, rfl, .release H p []⟩
      · exact ⟨rfl, congrArg (Buffer.mk · (offset + n)) hs, .refl H _⟩

/-- The loop of `BufferList::remove_prefix`; the pointers of all others are `frame`. -/
lemma removePrefixLoop_spec (bs : List SharedBuffer) (n : ℕ) {frame : List ℕ}
    (h : H.Counts (bs.flatMap SharedBuffer.refs ++ frame)) :
    (SharedBuffer.removePrefixLoop H bs n).1 =
      (BufferList.removePrefixLoop (bs.map (SharedBuffer.value H)) n).1 ∧
    (SharedBuffer.removePrefixLoop H bs n).2.1.map
      (SharedBuffer.value (SharedBuffer.removePrefixLoop H bs n).2.2) =
      (BufferList.removePrefixLoop (bs.map (SharedBuffer.value H)) n).2 ∧
    H.Trades (bs.flatMap SharedBuffer.refs) (SharedBuffer.removePrefixLoop H bs n).2.2
      ((SharedBuffer.removePrefixLoop H bs n).2.1.flatMap SharedBuffer.refs) := by
  induction bs generalizing H n with
  | nil =>
    rw [List.map_nil]
    unfold SharedBuffer.removePrefixLoop BufferList.removePrefixLoop
    split <;> exact ⟨rfl, rfl, .refl H _⟩
  | cons front rest ih =>
    rw [List.flatMap_cons, List.append_assoc] at h
    have hrest : ∀ p ∈ rest.flatMap SharedBuffer.refs,
        p ∈ rest.flatMap SharedBuffer.refs ++ frame := fun p hp => List.mem_append_left _ hp
    unfold SharedBuffer.removePrefixLoop
    rw [List.map_cons, BufferList.removePrefixLoop, List.flatMap_cons, size_value]
    split
    · split
      · -- the front is cut, and what follows keeps its blocks
        have hlive : ∀ p ∈ front.refs, (H.read p).isSome := fun p hp =>
          (h.read_isSome p).2 (List.mem_append_left _ hp)
        obtain ⟨hfst, hvalue, htrades⟩ := removePrefix_spec front n hlive
        refine ⟨hfst, ?_, htrades.frame _⟩
        rw [List.map_cons, hvalue]
        congr 1
        exact buffers_value_eq rest h htrades.keeps (htrades.counts _ h)
          (fun p hp => List.mem_append_right _ (hrest p hp))
          (fun p hp => List.mem_append_right _ (hrest p hp))
      · -- the front is popped, and its pointer with it
        have htrades := SharedHeap.Trades.releaseAll H front.refs
          (rest.flatMap SharedBuffer.refs)
        have hcounts : (H.releaseAll front.refs).Counts
            (rest.flatMap SharedBuffer.refs ++ frame) := by
          refine htrades.counts frame ?_
          rw [List.append_assoc]
          exact h
        have hsame := buffers_value_eq rest h htrades.keeps hcounts
          (fun p hp => List.mem_append_right _ (hrest p hp)) hrest
        obtain ⟨hfst, hvalue, hloop⟩ := ih (n - front.size H) hcounts
        rw [hsame] at hfst hvalue
        exact ⟨hfst, hvalue, htrades.trans hloop⟩
    · exact ⟨rfl, rfl, .refl H _⟩

/-! ### The invariant and the refinement -/

namespace Memory

/-- The pointers of all objects but one. -/
def others (m : Memory) (i : ℕ) : List ℕ := (m.objects.eraseIdx i).flatMap Object.refs

variable {m : Memory} {vs : List Value} {heap : SharedHeap (List UInt8)} {o o' : Object} {i j : ℕ}

lemma refs_perm (hi : m.objects[i]? = some o) : m.refs.Perm (o.refs ++ m.others i) := by
  obtain ⟨hlt, rfl⟩ := List.getElem?_eq_some_iff.1 hi
  exact ((List.getElem_cons_eraseIdx_perm hlt).symm.flatMap_right Object.refs)

lemma refs_make : (m.make heap o).refs.Perm (o.refs ++ m.refs) := by
  unfold refs make
  rw [List.flatMap_append, List.flatMap_singleton]
  exact List.perm_append_comm

lemma refs_set (hi : m.objects[i]? = some o) :
    (m.set i heap o').refs.Perm (o'.refs ++ m.others i) := by
  obtain ⟨hlt, -⟩ := List.getElem?_eq_some_iff.1 hi
  have hperm := refs_perm (m := m.set i heap o') (List.getElem?_set_self hlt)
  unfold others at hperm ⊢
  rwa [show (m.set i heap o').objects.eraseIdx i = m.objects.eraseIdx i from
    List.eraseIdx_set_eq] at hperm

lemma mem_refs (hi : m.objects[i]? = some o) : ∀ p ∈ o.refs, p ∈ m.refs := fun _ hp =>
  List.mem_flatMap.2 ⟨o, List.mem_of_getElem? hi, hp⟩

lemma mem_others (hi : m.objects[i]? = some o) (h : i ≠ j) : ∀ p ∈ o.refs, p ∈ m.others j :=
  fun _ hp => List.mem_flatMap.2 ⟨o, List.mem_eraseIdx_iff_getElem?.2 ⟨i, h, hi⟩, hp⟩

/-- **The invariant.** The use counts are the numbers of pointers. -/
def Sound (m : Memory) : Prop := m.heap.Counts m.refs

/-- The memory is sound, and its objects show the values `vs`. -/
structure Shows (m : Memory) (vs : List Value) : Prop where
  sound : m.Sound
  values : m.objects.map (Object.value m.heap) = vs

lemma shows_empty : empty.Shows [] := ⟨.empty, rfl⟩

lemma Shows.getElem? (h : m.Shows vs) (i : ℕ) :
    vs[i]? = (m.objects[i]?).map (Object.value m.heap) := by
  rw [← h.values, List.getElem?_map]

lemma Shows.make (h : m.Shows vs) (hc : heap.Counts (o.refs ++ m.refs))
    (he : m.heap.Extends heap) {v : Value} (hv : o.value heap = v) :
    (m.make heap o).Shows (vs ++ [v]) := by
  refine ⟨hc.perm refs_make.symm, ?_⟩
  show (m.objects ++ [o]).map (Object.value heap) = vs ++ [v]
  rw [List.map_append, List.map_singleton, hv, ← h.values]
  congr 1
  refine List.map_congr_left fun o' ho' => ?_
  have hrefs : ∀ p ∈ o'.refs, p ∈ m.refs := fun p hp => List.mem_flatMap.2 ⟨o', ho', hp⟩
  exact o'.value_eq h.sound he hc hrefs fun p hp => List.mem_append_right _ (hrefs p hp)

lemma Shows.set (h : m.Shows vs) (hi : m.objects[i]? = some o)
    (hc : heap.Counts (o'.refs ++ m.others i)) (he : m.heap.Extends heap) {v : Value}
    (hv : o'.value heap = v) : (m.set i heap o').Shows (vs.set i v) := by
  refine ⟨hc.perm (refs_set hi).symm, ?_⟩
  show (m.objects.set i o').map (Object.value heap) = vs.set i v
  rw [List.map_set, hv, ← h.values]
  apply List.ext_getElem?
  intro k
  by_cases hk : i = k
  · subst hk
    simp only [List.getElem?_set_self', List.getElem?_map]
    cases m.objects[i]? <;> rfl
  · -- the pointers of the other objects are among those that are left
    rw [List.getElem?_set_ne hk, List.getElem?_set_ne hk, List.getElem?_map, List.getElem?_map]
    cases hok : m.objects[k]? with
    | none => rfl
    | some o'' =>
      have hothers := mem_others hok (Ne.symm hk)
      exact congrArg some (o''.value_eq h.sound he hc (mem_refs hok) fun p hp =>
        List.mem_append_right _ (hothers p hp))

lemma Shows.set_of_trades (h : m.Shows vs) (hi : m.objects[i]? = some o)
    (ht : m.heap.Trades o.refs heap o'.refs) {v : Value} (hv : o'.value heap = v) :
    (m.set i heap o').Shows (vs.set i v) :=
  h.set hi (ht.counts _ (h.sound.perm (refs_perm hi))) ht.keeps hv

lemma Shows.make_copy (h : m.Shows vs) (hi : m.objects[i]? = some o) {o' : Object} {ps : List ℕ}
    (ho' : o'.refs = ps) (hp : ∀ p ∈ ps, p ∈ o.refs) :
    (m.make (m.heap.acquireAll ps) o').Shows (vs ++ [o'.value m.heap]) := by
  subst ho'
  have hrefs : ∀ p ∈ o'.refs, p ∈ m.refs := fun p hpo => mem_refs hi p (hp p hpo)
  have ht := SharedHeap.Trades.acquireAll (H := m.heap) hrefs
  have hc := ht.counts [] (by rw [List.append_nil]; exact h.sound)
  rw [List.append_nil] at hc
  refine h.make hc ht.keeps ?_
  exact o'.value_eq h.sound ht.keeps hc hrefs fun p hpo => List.mem_append_left _ hpo

lemma Shows.make_alloc (h : m.Shows vs) (str : List UInt8) (ho : o.refs = [m.heap.next]) {v : Value}
    (hv : o.value (m.heap.alloc str) = v) : (m.make (m.heap.alloc str) o).Shows (vs ++ [v]) := by
  refine h.make ?_ (.alloc _ _) hv
  rw [ho]
  exact h.sound.alloc str

/-- Pointers copied from the object `j`, with the object `i` changed to hold them instead of its own
(`assign`) or after them (`append`). -/
lemma counts_acquire (h : m.Sound) (hi : m.objects[i]? = some o) (hj : m.objects[j]? = some o') :
    (m.heap.acquireAll o'.refs).Counts (o.refs ++ (o'.refs ++ m.others i)) ∧
      m.heap.Extends (m.heap.acquireAll o'.refs) := by
  have ht := SharedHeap.Trades.acquireAll (H := m.heap) (mem_refs hj)
  have hc := ht.counts [] (by rw [List.append_nil]; exact h)
  rw [List.append_nil] at hc
  refine ⟨hc.perm ?_, ht.keeps⟩
  refine ((refs_perm hi).append_left _).trans ?_
  rw [← List.append_assoc, ← List.append_assoc]
  exact List.perm_append_comm.append_right _

lemma Shows.assign (h : m.Shows vs) (hi : m.objects[i]? = some o) (hj : m.objects[j]? = some o')
    {ps ps' : List ℕ} (ho : o.refs = ps) (ho' : o'.refs = ps') :
    (m.set i ((m.heap.acquireAll ps').releaseAll ps) o').Shows
      (vs.set i (o'.value m.heap)) := by
  subst ho ho'
  obtain ⟨hc, he⟩ := counts_acquire h.sound hi hj
  have ht := SharedHeap.Trades.releaseAll (m.heap.acquireAll o'.refs) o.refs
    (o'.refs ++ m.others i)
  have hc' := ht.counts [] (by rw [List.append_nil]; exact hc)
  rw [List.append_nil] at hc'
  refine h.set hi hc' (he.trans ht.keeps) ?_
  exact o'.value_eq h.sound (he.trans ht.keeps) hc' (mem_refs hj)
    fun p hp => List.mem_append_left _ hp

lemma Shows.move (h : m.Shows vs) (hi : m.objects[i]? = some o) (left : Object)
    (hleft : left.refs = []) :
    ((m.set i m.heap left).make m.heap o).Shows
      (vs.set i (left.value m.heap) ++ [o.value m.heap]) := by
  refine ⟨(h.sound.perm (refs_perm hi)).perm ?_, ?_⟩
  · refine List.Perm.symm (refs_make.trans (List.Perm.append_left _ ?_))
    have hset : (m.set i m.heap left).refs.Perm (left.refs ++ m.others i) := refs_set hi
    rwa [hleft, List.nil_append] at hset
  · show (m.objects.set i left ++ [o]).map (Object.value m.heap) = _
    rw [List.map_append, List.map_set, h.values]
    rfl

lemma Shows.moveAssign (h : m.Shows vs) (hij : i ≠ j) (hi : m.objects[i]? = some o)
    (hj : m.objects[j]? = some o') (left : Object) (hleft : left.refs = []) {ps : List ℕ}
    (ho : o.refs = ps) :
    ((m.set j m.heap left).set i (m.heap.releaseAll ps) o').Shows
      ((vs.set j (left.value m.heap)).set i (o'.value m.heap)) := by
  subst ho
  -- what is left when the object `j` has given its pointers up
  have hi' : (m.set j m.heap left).objects[i]? = some o := by
    show (m.objects.set j left)[i]? = some o
    rw [List.getElem?_set_ne (Ne.symm hij), hi]
  have hset : (m.set j m.heap left).refs.Perm (left.refs ++ m.others j) := refs_set hj
  rw [hleft, List.nil_append] at hset
  have hothers : (m.others j).Perm (o.refs ++ (m.set j m.heap left).others i) :=
    hset.symm.trans (refs_perm hi')
  have hc : m.heap.Counts (o.refs ++ (o'.refs ++ (m.set j m.heap left).others i)) := by
    refine (h.sound.perm (refs_perm hj)).perm ((hothers.append_left _).trans ?_)
    rw [← List.append_assoc, ← List.append_assoc]
    exact List.perm_append_comm.append_right _
  have ht := SharedHeap.Trades.releaseAll m.heap o.refs
    (o'.refs ++ (m.set j m.heap left).others i)
  have hc' := ht.counts [] (by rw [List.append_nil]; exact hc)
  rw [List.append_nil] at hc'
  have hkeep (x : Object) (hx : ∀ p ∈ x.refs, p ∈ m.refs)
      (hx' : ∀ p ∈ x.refs, p ∈ o'.refs ++ (m.set j m.heap left).others i) :
      x.value (m.heap.releaseAll o.refs) = x.value m.heap := x.value_eq h.sound ht.keeps hc' hx hx'
  have hnone : ∀ p, p ∉ left.refs := fun p => by rw [hleft]; exact List.not_mem_nil
  refine ⟨hc'.perm (refs_set hi').symm, ?_⟩
  show ((m.objects.set j left).set i o').map (Object.value (m.heap.releaseAll o.refs)) = _
  rw [List.map_set, List.map_set, ← h.values,
    hkeep o' (mem_refs hj) fun p hp => List.mem_append_left _ hp,
    hkeep left (fun p hp => absurd hp (hnone p)) fun p hp => absurd hp (hnone p)]
  apply List.ext_getElem?
  intro k
  by_cases hik : i = k
  · subst hik
    simp only [List.getElem?_set_self', List.getElem?_set_ne (Ne.symm hij), List.getElem?_map, hi]
    rfl
  rw [List.getElem?_set_ne hik, List.getElem?_set_ne hik]
  by_cases hjk : j = k
  · subst hjk
    simp only [List.getElem?_set_self', List.getElem?_map, hj]
    rfl
  rw [List.getElem?_set_ne hjk, List.getElem?_set_ne hjk, List.getElem?_map, List.getElem?_map]
  cases hk : m.objects[k]? with
  | none => rfl
  | some x =>
    have hk' : (m.set j m.heap left).objects[k]? = some x := by
      show (m.objects.set j left)[k]? = some x
      rw [List.getElem?_set_ne hjk, hk]
    exact congrArg some (hkeep x (mem_refs hk) fun p hp =>
      List.mem_append_right _ (mem_others hk' (Ne.symm hik) p hp))

lemma Shows.append {bs bs' : List SharedBuffer} (h : m.Shows vs)
    (hi : m.objects[i]? = some (.list bs)) (hj : m.objects[j]? = some (.list bs')) :
    (m.set i (m.heap.acquireAll (Object.list bs').refs) (.list (bs ++ bs'))).Shows
      (vs.set i (.list ⟨(bs ++ bs').map (SharedBuffer.value m.heap)⟩)) := by
  obtain ⟨hc, he⟩ := counts_acquire h.sound hi hj
  have hrefs : (Object.list (bs ++ bs')).refs = (Object.list bs).refs ++ (Object.list bs').refs :=
    List.flatMap_append
  have hc' : (m.heap.acquireAll (Object.list bs').refs).Counts
      ((Object.list (bs ++ bs')).refs ++ m.others i) := by
    rw [hrefs, List.append_assoc]
    exact hc
  refine h.set hi hc' he ?_
  refine (Object.list (bs ++ bs')).value_eq h.sound he hc' (fun p hp => ?_)
    fun p hp => List.mem_append_left _ hp
  rw [hrefs, List.mem_append] at hp
  exact hp.elim (mem_refs hi p) (mem_refs hj p)

/-- **An operation answers the same, and shows the same**, whether strings are shared or not. -/
theorem Shows.step (h : m.Shows vs) (op : Op) :
    (m.step op).1 = (Values.step vs op).1 ∧ (m.step op).2.Shows (Values.step vs op).2 := by
  cases op with
  | buffer =>
    refine ⟨rfl, h.make (o := .buffer ⟨none, 0⟩) ?_ (.refl _) rfl⟩
    exact h.sound
  | bufferOfString str =>
    refine ⟨rfl, h.make_alloc str rfl ?_⟩
    exact congrArg (fun s => Value.buffer ⟨s, 0⟩) (SharedHeap.read_alloc_next str)
  | list =>
    refine ⟨rfl, h.make (o := .list []) ?_ (.refl _) rfl⟩
    exact h.sound
  | listOfString str =>
    refine ⟨rfl, h.make_alloc str rfl ?_⟩
    exact congrArg (fun s => Value.list ⟨[⟨s, 0⟩]⟩) (SharedHeap.read_alloc_next str)
  | listOfBuffer i =>
    simp only [Memory.step, Values.step]
    rw [h.getElem? i]
    rcases hi : m.objects[i]? with _ | _ | b | bs
    case buffer =>
      have hrefs : (Object.list [b]).refs = b.refs := List.flatMap_singleton ..
      refine ⟨rfl, h.make_copy hi hrefs fun p hp => ?_⟩
      rwa [Object.refs_buffer]
    all_goals exact ⟨rfl, h⟩
  | copy i =>
    simp only [Memory.step, Values.step]
    rw [h.getElem? i]
    rcases hi : m.objects[i]? with _ | _ | b | bs
    case buffer =>
      refine ⟨rfl, h.make_copy hi (Object.refs_buffer b) fun p hp => ?_⟩
      rwa [Object.refs_buffer]
    case list => exact ⟨rfl, h.make_copy hi rfl fun p hp => hp⟩
    all_goals exact ⟨rfl, h⟩
  | move i =>
    simp only [Memory.step, Values.step]
    rw [h.getElem? i]
    rcases hi : m.objects[i]? with _ | _ | b | bs
    case buffer => exact ⟨rfl, h.move hi (.buffer ⟨none, b.startingOffset⟩) rfl⟩
    case list => exact ⟨rfl, h.move hi (.list []) rfl⟩
    all_goals exact ⟨rfl, h⟩
  | assign i j =>
    simp only [Memory.step, Values.step]
    rw [h.getElem? i, h.getElem? j]
    rcases hi : m.objects[i]? with _ | _ | b | bs <;>
      rcases hj : m.objects[j]? with _ | _ | b' | bs'
    case assign.some.buffer.some.buffer =>
      exact ⟨rfl, h.assign hi hj (Object.refs_buffer b) (Object.refs_buffer b')⟩
    case assign.some.list.some.list => exact ⟨rfl, h.assign hi hj rfl rfl⟩
    all_goals exact ⟨rfl, h⟩
  | moveAssign i j =>
    simp only [Memory.step, Values.step]
    rw [h.getElem? i, h.getElem? j]
    rcases hi : m.objects[i]? with _ | _ | b | bs <;>
      rcases hj : m.objects[j]? with _ | _ | b' | bs'
    case moveAssign.some.buffer.some.buffer =>
      simp only [Option.map_some, Object.value]
      split
      · exact ⟨rfl, h⟩
      · rename_i hij
        exact ⟨rfl, h.moveAssign hij hi hj (.buffer ⟨none, b'.startingOffset⟩) rfl
          (Object.refs_buffer b)⟩
    case moveAssign.some.list.some.list =>
      simp only [Option.map_some, Object.value]
      split
      · exact ⟨rfl, h⟩
      · rename_i hij
        exact ⟨rfl, h.moveAssign hij hi hj (.list []) rfl rfl⟩
    all_goals exact ⟨rfl, h⟩
  | removePrefix i n =>
    simp only [Memory.step, Values.step]
    rw [h.getElem? i]
    rcases hi : m.objects[i]? with _ | _ | b | bs
    case buffer =>
      have hlive : ∀ p ∈ b.refs, (m.heap.read p).isSome := fun p hp =>
        (h.sound.read_isSome p).2 (mem_refs hi p (by rwa [Object.refs_buffer]))
      obtain ⟨hfst, hvalue, htrades⟩ := removePrefix_spec b n hlive
      rw [← Object.refs_buffer, ← Object.refs_buffer] at htrades
      exact ⟨hfst, h.set_of_trades hi htrades (congrArg Value.buffer hvalue)⟩
    case list =>
      obtain ⟨hfst, hvalue, htrades⟩ := removePrefixLoop_spec bs n (h.sound.perm (refs_perm hi))
      have htrades' : m.heap.Trades (Object.list bs).refs
          (SharedBuffer.removePrefixLoop m.heap bs n).2.2
          (Object.list (SharedBuffer.removePrefixLoop m.heap bs n).2.1).refs := htrades
      exact ⟨hfst, h.set_of_trades hi htrades' (congrArg (fun l => Value.list ⟨l⟩) hvalue)⟩
    all_goals exact ⟨rfl, h⟩
  | append i j =>
    simp only [Memory.step, Values.step]
    rw [h.getElem? i, h.getElem? j]
    rcases hi : m.objects[i]? with _ | _ | b | bs <;>
      rcases hj : m.objects[j]? with _ | _ | b' | bs'
    case append.some.list.some.list =>
      simp only [Option.map_some, Object.value]
      split
      · exact ⟨rfl, h⟩
      · have hl : BufferList.append ⟨bs.map (SharedBuffer.value m.heap)⟩
            ⟨bs'.map (SharedBuffer.value m.heap)⟩ =
            ⟨(bs ++ bs').map (SharedBuffer.value m.heap)⟩ := by
          rw [List.map_append]
          exact congrArg BufferList.mk (BufferList.append_buffers _ _)
        rw [hl]
        exact ⟨rfl, h.append hi hj⟩
    all_goals exact ⟨rfl, h⟩
  | toBuffer i =>
    simp only [Memory.step, Values.step]
    rw [h.getElem? i]
    rcases hi : m.objects[i]? with _ | _ | b | bs
    case list =>
      rcases bs with _ | ⟨b, _ | ⟨b', bs⟩⟩
      · refine ⟨rfl, h.make (o := .buffer ⟨none, 0⟩) ?_ (.refl _) rfl⟩
        exact h.sound
      · refine ⟨rfl, h.make_copy hi (Object.refs_buffer b) fun p hp => ?_⟩
        rwa [show (Object.list [b]).refs = b.refs from List.flatMap_singleton ..]
      · exact ⟨rfl, h⟩
    all_goals exact ⟨rfl, h⟩
  | destroy i =>
    simp only [Memory.step, Values.step]
    rw [h.getElem? i]
    cases hi : m.objects[i]? with
    | none => exact ⟨rfl, h⟩
    | some o =>
      refine ⟨rfl, h.set_of_trades hi ?_ rfl⟩
      have ht := SharedHeap.Trades.releaseAll m.heap o.refs []
      rwa [List.append_nil] at ht

/-! ### Runs -/

lemma forall₂_run (ops : List Op) :
    List.Forall₂ (fun a b => a.output = b.output ∧ Shows a.after b.after)
      (machine.trace empty ops) (Values.machine.trace [] ops) :=
  Machine.forall₂_trace (R := Shows) (E := (· = ·)) (fun _ _ op h => h.step op) shows_empty ops

lemma shows_run (ops : List Op) : (machine.run empty ops).Shows (Values.machine.run [] ops) := by
  have key : ∀ (m : Memory) (vs : List Value), m.Shows vs →
      (machine.run m ops).Shows (Values.machine.run vs ops) := by
    induction ops with
    | nil => exact fun _ _ h => h
    | cons op ops ih => exact fun m vs h => ih _ _ (h.step op).2
  exact key _ _ shows_empty

end Memory

/-- **Sharing cannot be seen.** Whatever operations a program makes, each answers as it would on
objects that hold their strings by value, and after each every object shows the same value. -/
theorem shows_values (ops : List Op) :
    List.Forall₂ (fun a b => a.output = b.output ∧
        a.after.objects.map (Object.value a.after.heap) = b.after)
      (Memory.machine.trace Memory.empty ops) (Values.machine.trace [] ops) :=
  (Memory.forall₂_run ops).imp fun _ _ h => ⟨h.1, h.2.values⟩

end Storage

end Sponge
