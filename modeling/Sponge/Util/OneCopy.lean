import Sponge.Util.Storage
import Sponge.Util.ViewList

/-!
# Which blocks live, and what they hold

* `Memory.Allocates`, `Memory.Sound.allocates` — all that an operation does to the blocks;
* `one_copy_each` — every string is stored once, unchanged, for as long as some `Buffer` points to
  it, and a `Buffer` that points to it has a byte of it left to show;
* `SharedViewList`, `views_stay_valid` — the views of a `BufferList` outlive all operations but those
  on the list itself.
-/

namespace Sponge

open Lib

namespace Storage

def Op.string : Op → Option (List UInt8)
  | .bufferOfString str => some str
  | .listOfString str => some str
  | _ => none

/-! ### Allocation -/

namespace Memory

/-- All that an operation does to the blocks: the ones that survive keep their content, and a new
one is made exactly for a string the operation takes ownership of. -/
structure Allocates (m : Memory) (op : Op) (m' : Memory) : Prop where
  keeps : m.heap.Extends m'.heap
  next : m'.heap.next = m.heap.next + op.string.toList.length
  read : ∀ str, op.string = some str → m'.heap.read m.heap.next = some str

lemma Allocates.of_trades {m m' : Memory} {op : Op} (hop : op.string = none) {refs refs' : List ℕ}
    (h : m.heap.Trades refs m'.heap refs') : m.Allocates op m' where
  keeps := h.keeps
  next := by
    rw [hop]
    exact h.next
  read := by
    intro str hstr
    rw [hop] at hstr
    cases hstr

lemma Allocates.same {m m' : Memory} {op : Op} (hop : op.string = none)
    (h : m'.heap = m.heap) : m.Allocates op m' := by
  have ht : m.heap.Trades [] m'.heap [] := by
    rw [h]
    exact .refl _ _
  exact .of_trades hop ht

lemma Allocates.acquireAll {m m' : Memory} {op : Op} (hop : op.string = none) {ps : List ℕ}
    (h : m'.heap = m.heap.acquireAll ps) : m.Allocates op m' := by
  have ht : m.heap.Trades ps m'.heap (ps ++ ps) := by
    rw [h]
    exact .acquireAll fun p hp => hp
  exact .of_trades hop ht

lemma Allocates.releaseAll {m m' : Memory} {op : Op} (hop : op.string = none) {ps ps' : List ℕ}
    (h : m'.heap = (m.heap.acquireAll ps').releaseAll ps) : m.Allocates op m' := by
  have hacquire : m.heap.Trades (ps' ++ ps) (m.heap.acquireAll ps') (ps' ++ (ps' ++ ps)) :=
    .acquireAll fun p hp => List.mem_append_left _ hp
  have hrelease := SharedHeap.Trades.releaseAll (m.heap.acquireAll ps') ps (ps' ++ ps')
  have ht : m.heap.Trades (ps' ++ ps) m'.heap (ps' ++ ps') := by
    rw [h]
    refine (hacquire.perm (.refl _) ?_).trans hrelease
    rw [← List.append_assoc]
    exact List.perm_append_comm
  exact .of_trades hop ht

lemma allocates_alloc {m m' : Memory} {op : Op} {str : List UInt8} (hop : op.string = some str)
    (h : m'.heap = m.heap.alloc str) : m.Allocates op m' where
  keeps := by
    rw [h]
    exact .alloc _ _
  next := by
    rw [h, hop]
    rfl
  read := by
    intro str' hstr
    rw [hop] at hstr
    rw [h, ← Option.some.inj hstr]
    exact SharedHeap.read_alloc_next str

theorem Sound.allocates {m : Memory} (h : m.Sound) (op : Op) : m.Allocates op (m.step op).2 := by
  cases op with
  | buffer => exact .same rfl rfl
  | bufferOfString str => exact allocates_alloc rfl rfl
  | list => exact .same rfl rfl
  | listOfString str => exact allocates_alloc rfl rfl
  | listOfBuffer i =>
    simp only [Memory.step]
    split
    · exact .acquireAll rfl rfl
    · exact .same rfl rfl
  | copy i =>
    simp only [Memory.step]
    split
    · exact .acquireAll rfl rfl
    · exact .acquireAll rfl rfl
    · exact .same rfl rfl
  | move i =>
    simp only [Memory.step]
    split <;> exact .same rfl rfl
  | assign i j =>
    simp only [Memory.step]
    split
    · exact .releaseAll rfl rfl
    · exact .releaseAll rfl rfl
    · exact .same rfl rfl
  | moveAssign i j =>
    have hgo (ps : List ℕ) : m.heap.releaseAll ps = (m.heap.acquireAll []).releaseAll ps := rfl
    simp only [Memory.step]
    split
    · split
      · exact .same rfl rfl
      · exact .releaseAll rfl (hgo _)
    · split
      · exact .same rfl rfl
      · exact .releaseAll rfl (hgo _)
    · exact .same rfl rfl
  | removePrefix i n =>
    simp only [Memory.step]
    split
    · rename_i b hi
      refine .of_trades rfl (removePrefix_spec b n fun p hp => ?_).2.2
      exact (h.read_isSome p).2 (mem_refs hi p (by rwa [Object.refs_buffer]))
    · rename_i bs hi
      exact .of_trades rfl (removePrefixLoop_spec bs n (h.perm (refs_perm hi))).2.2
    · exact .same rfl rfl
  | append i j =>
    simp only [Memory.step]
    split
    · split
      · exact .same rfl rfl
      · exact .acquireAll rfl rfl
    · exact .same rfl rfl
  | toBuffer i =>
    simp only [Memory.step]
    split
    · exact .same rfl rfl
    · exact .acquireAll rfl rfl
    · exact .same rfl rfl
    · exact .same rfl rfl
  | destroy i =>
    simp only [Memory.step]
    split
    · rename_i o hi
      have hall : m.heap.releaseAll o.refs = (m.heap.acquireAll []).releaseAll o.refs := rfl
      exact .releaseAll rfl hall
    · exact .same rfl rfl

/-- The blocks hold the strings the operations took ownership of, in their order. -/
structure Stores (strings : List (List UInt8)) (m : Memory) : Prop where
  sound : m.Sound
  next : m.heap.next = strings.length
  read : ∀ p str, m.heap.read p = some str → strings[p]? = some str

lemma Stores.step {strings : List (List UInt8)} {m : Memory} (h : Stores strings m) (op : Op) :
    Stores (strings ++ op.string.toList) (m.step op).2 := by
  obtain ⟨keeps, next, read⟩ := h.sound.allocates op
  have hshows := (Shows.step ⟨h.sound, rfl⟩ op).2
  refine ⟨hshows.sound, by rw [next, h.next, List.length_append], ?_⟩
  intro p str hp
  have hlt : p < (m.step op).2.heap.next :=
    hshows.sound.lt_next p ((hshows.sound.read_isSome p).1 (Option.isSome_of_mem hp))
  by_cases hold : p < m.heap.next
  · have := h.read p str (keeps.read p hold str hp)
    rwa [List.getElem?_append_left (by rw [← h.next]; exact hold)]
  · -- the only block made since is the one of the string
    cases hop : op.string with
    | none =>
      rw [hop] at next
      simp only [Option.toList_none, List.length_nil] at next
      omega
    | some str' =>
      rw [hop] at next
      simp only [Option.toList_some, List.length_singleton] at next
      obtain rfl : p = m.heap.next := by omega
      rw [read str' hop] at hp
      rw [h.next, Option.toList_some, List.getElem?_concat_length, hp]

lemma stores_run (ops : List Op) : Stores (ops.filterMap Op.string) (machine.run empty ops) := by
  have h := Machine.history (M := machine)
    (J := fun tr m => Stores ((tr.map Move.input).filterMap Op.string) m) (s := empty)
    ⟨.empty, rfl, fun p str hp => by cases hp⟩ (fun tr m op h => by
      have := h.step op
      rw [List.map_append, List.filterMap_append]
      rwa [show ([machine.move m op].map Move.input).filterMap Op.string = op.string.toList by
        cases hop : op.string <;> simp [hop]]) ops
  rwa [Machine.map_input_trace] at h

end Memory

/-! ### What is left to show -/

def Value.buffers : Value → List Buffer
  | .destroyed => []
  | .buffer b => [b]
  | .list l => l.buffers

/-- What holds of a string that was not cut, of a `Buffer` without one, and of what
`Buffer::remove_prefix` leaves, holds of every `Buffer` an operation leaves. -/
lemma Values.forall_step {P : Buffer → Prop} (null : ∀ offset, P ⟨none, offset⟩)
    (ofString : ∀ str, P (Buffer.ofString str)) (cut : ∀ b n, P b → P (b.removePrefix n).2)
    {vs : List Value} (h : ∀ v ∈ vs, ∀ b ∈ v.buffers, P b) (op : Op) :
    ∀ v ∈ (Values.step vs op).2, ∀ b ∈ v.buffers, P b := by
  have hget : ∀ {i : ℕ} {v : Value}, vs[i]? = some v → ∀ b ∈ v.buffers, P b := fun hi =>
    h _ (List.mem_of_getElem? hi)
  have hmake : ∀ {ws : List Value} {v : Value}, (∀ v ∈ ws, ∀ b ∈ v.buffers, P b) →
      (∀ b ∈ v.buffers, P b) → ∀ w ∈ ws ++ [v], ∀ b ∈ w.buffers, P b := fun hws hv =>
    List.forall_mem_append.2 ⟨hws, List.forall_mem_singleton.2 hv⟩
  have hset : ∀ (i : ℕ) {ws : List Value} {v : Value}, (∀ b ∈ v.buffers, P b) →
      (∀ v ∈ ws, ∀ b ∈ v.buffers, P b) → ∀ w ∈ ws.set i v, ∀ b ∈ w.buffers, P b := by
    intro i ws v hv hws w hw
    rcases List.mem_or_eq_of_mem_set hw with hw | rfl
    exacts [hws w hw, hv]
  cases op with
  | buffer => exact hmake h (List.forall_mem_singleton.2 (null 0))
  | bufferOfString str => exact hmake h (List.forall_mem_singleton.2 (ofString str))
  | list => exact hmake h (fun b hb => by cases hb)
  | listOfString str => exact hmake h (List.forall_mem_singleton.2 (ofString str))
  | listOfBuffer i =>
    simp only [Values.step]
    split
    · rename_i b hi
      exact hmake h fun b' hb => hget hi b' hb
    · exact h
  | copy i =>
    simp only [Values.step]
    split
    · rename_i b hi
      exact hmake h (hget hi)
    · rename_i l hi
      exact hmake h (hget hi)
    · exact h
  | move i =>
    simp only [Values.step]
    split
    · rename_i b hi
      exact hmake (hset i (List.forall_mem_singleton.2 (null _)) h) (hget hi)
    · rename_i l hi
      exact hmake (hset i (fun b hb => by cases hb) h) (hget hi)
    · exact h
  | assign i j =>
    simp only [Values.step]
    split
    · rename_i b hi hj
      exact hset i (hget hj) h
    · rename_i l hi hj
      exact hset i (hget hj) h
    · exact h
  | moveAssign i j =>
    simp only [Values.step]
    split
    · rename_i b hi hj
      split
      · exact h
      · exact hset i (hget hj) (hset j (List.forall_mem_singleton.2 (null _)) h)
    · rename_i l hi hj
      split
      · exact h
      · exact hset i (hget hj) (hset j (fun b hb => by cases hb) h)
    · exact h
  | removePrefix i n =>
    simp only [Values.step]
    split
    · rename_i b hi
      exact hset i (List.forall_mem_singleton.2 (cut b n (hget hi b (List.mem_singleton.2 rfl)))) h
    · rename_i l hi
      exact hset i (BufferList.forall_removePrefixLoop cut (hget hi) n) h
    · exact h
  | append i j =>
    simp only [Values.step]
    split
    · rename_i l other hi hj
      split
      · exact h
      · refine hset i ?_ h
        show ∀ b ∈ (l.append other).buffers, P b
        rw [BufferList.append_buffers]
        exact List.forall_mem_append.2 ⟨hget hi, hget hj⟩
    · exact h
  | toBuffer i =>
    simp only [Values.step]
    split
    · rename_i l hi
      obtain ⟨bs⟩ := l
      rcases bs with _ | ⟨b, _ | ⟨b', bs⟩⟩
      · exact hmake h (List.forall_mem_singleton.2 (null 0))
      · exact hmake h fun b' hb => hget hi b' hb
      · exact h
    · exact h
  | destroy i =>
    simp only [Values.step]
    split
    · exact hset i (fun b hb => by cases hb) h
    · exact h

/-- A `Buffer` with a storage has a byte of it left, unless the string was empty. -/
def Unread (b : Buffer) : Prop :=
  ∀ str, b.storage = some str → b.startingOffset < str.length ∨ str = []

lemma unread_removePrefix (b : Buffer) (n : ℕ) (h : Unread b) : Unread (b.removePrefix n).2 := by
  obtain ⟨storage, offset⟩ := b
  unfold Buffer.removePrefix
  split
  · exact h
  · rename_i hn
    cases storage with
    | none => exact fun str hs => by cases hs
    | some s =>
      have hsize : Buffer.size ⟨some s, offset⟩ = s.length - offset := List.length_drop
      simp only
      split
      · exact fun str hs => by cases hs
      · rename_i hne
        rintro str ⟨⟩
        rcases h s rfl with hlt | hnil
        · simp only at hlt
          exact Or.inl (by show offset + n < s.length; omega)
        · exact Or.inr hnil

lemma unread_run (ops : List Op) : ∀ v ∈ Values.machine.run [] ops, ∀ b ∈ v.buffers, Unread b := by
  refine Machine.invariant (M := Values.machine)
    (I := fun vs => ∀ v ∈ vs, ∀ b ∈ v.buffers, Unread b) (fun v hv => by cases hv) ?_ ops
  intro vs op h
  refine Values.forall_step (fun offset str hs => by cases hs) ?_ unread_removePrefix h op
  rintro str _ ⟨⟩
  cases str with
  | nil => exact Or.inr rfl
  | cons c str => exact Or.inl (Nat.succ_pos _)

/-! ### One copy of every string -/

lemma count_refs (p : ℕ) (bs : List SharedBuffer) :
    (bs.flatMap SharedBuffer.refs).count p = bs.countP fun b => b.storage = some p := by
  induction bs with
  | nil => rfl
  | cons b bs ih =>
    rw [List.flatMap_cons, List.count_append, ih, List.countP_cons, Nat.add_comm]
    congr 1
    unfold SharedBuffer.refs
    cases b.storage with
    | none => rfl
    | some q =>
      rw [Option.toList_some, List.count_singleton]
      simp only [Option.some.injEq, beq_iff_eq, decide_eq_true_eq]

lemma Object.buffers_value (heap : SharedHeap (List UInt8)) (o : Object) :
    (o.value heap).buffers = o.buffers.map (SharedBuffer.value heap) := by
  cases o <;> rfl

/-- The blocks are those of the strings given, each as long as it is pointed to. -/
structure OneCopyEach (strings : List (List UInt8)) (m : Memory) : Prop where
  made : m.heap.next = strings.length
  content : ∀ p str, m.heap.read p = some str → strings[p]? = some str
  lives : ∀ p, (m.heap.read p).isSome ↔ ∃ o ∈ m.objects, ∃ b ∈ o.buffers, b.storage = some p
  useCount : ∀ p, m.heap.useCount p =
    (m.objects.flatMap Object.buffers).countP fun b => b.storage = some p
  unread : ∀ o ∈ m.objects, ∀ b ∈ o.buffers, ∀ p, b.storage = some p →
    ∃ str, strings[p]? = some str ∧ b.str m.heap = str.drop b.startingOffset ∧
      (b.startingOffset < str.length ∨ str = [])

/-- **One copy of every string.** After any operations, the blocks that were made are those of the
strings given, one each; a block holds its string unchanged, and lives exactly as long as some
`Buffer`, alone or in a list, points to it, with their number as its use count; and a `Buffer` that
points to it has a byte of it left to show, unless the string was empty. -/
theorem one_copy_each (ops : List Op) :
    OneCopyEach (ops.filterMap Op.string) (Memory.machine.run Memory.empty ops) := by
  have hstores := Memory.stores_run ops
  have hshows := Memory.shows_run ops
  have hunread := unread_run ops
  generalize Memory.machine.run Memory.empty ops = m at hstores hshows
  have hrefs : m.refs = (m.objects.flatMap Object.buffers).flatMap SharedBuffer.refs :=
    List.flatMap_assoc.symm
  have hmem : ∀ p, p ∈ m.refs ↔ ∃ o ∈ m.objects, ∃ b ∈ o.buffers, b.storage = some p := by
    intro p
    simp only [Memory.refs, Object.refs, SharedBuffer.refs, List.mem_flatMap, Option.mem_toList]
  refine ⟨hstores.next, hstores.read, ?_, ?_, ?_⟩
  · exact fun p => (hstores.sound.read_isSome p).trans (hmem p)
  · intro p
    rw [hstores.sound.useCount_eq, hrefs, count_refs]
  · intro o ho b hb p hp
    obtain ⟨str, hstr⟩ := Option.isSome_iff_exists.1
      ((hstores.sound.read_isSome p).2 ((hmem p).2 ⟨o, ho, b, hb, hp⟩))
    refine ⟨str, hstores.read p str hstr, ?_, ?_⟩
    · unfold SharedBuffer.str
      rw [hp]
      simp only [hstr, Option.getD_some]
    · -- the value of the `Buffer` is one that the operations on values lead to
      have hv : o.value m.heap ∈ Values.machine.run [] ops := by
        rw [← hshows.values]
        exact List.mem_map_of_mem ho
      refine hunread _ hv (b.value m.heap) ?_ str ?_
      · rw [Object.buffers_value]
        exact List.mem_map_of_mem hb
      · unfold SharedBuffer.value
        rw [hp]
        exact hstr

/-! ### Views -/

/-- A `std::string_view` into a block, or the empty one of a `Buffer` without a storage. -/
structure SharedView where
  block : Option ℕ
  offset : ℕ
  length : ℕ
  deriving DecidableEq, Repr

namespace SharedView

def ofBuffer (heap : SharedHeap (List UInt8)) (b : SharedBuffer) : SharedView :=
  match b.storage with
  | none => ⟨none, 0, 0⟩
  | some p => ⟨some p, b.startingOffset, ((heap.read p).getD []).length - b.startingOffset⟩

/-- The bytes a view shows, none if its block is gone. -/
def bytes (heap : SharedHeap (List UInt8)) (v : SharedView) : Option (List UInt8) :=
  match v.block with
  | none => some []
  | some p => (heap.read p).map fun str => (str.drop v.offset).take v.length

/-- `BufferViewList(const BufferList &buffers)`. -/
def ofBuffers (heap : SharedHeap (List UInt8)) (buffers : List SharedBuffer) : List SharedView :=
  buffers.foldl (fun views x => views ++ [ofBuffer heap x]) []

/-- The loop of `BufferViewList::remove_prefix`. -/
def removePrefixLoop : List SharedView → ℕ → Except Exn Unit × List SharedView
  | [], n =>
    if n > 0 then (.error (.outOfRange "BufferListView::remove_prefix"), []) else (.ok (), [])
  | front :: rest, n =>
    if n > 0 then
      if n < front.length then
        (.ok (), { front with offset := front.offset + n, length := front.length - n } :: rest)
      else removePrefixLoop rest (n - front.length)
    else (.ok (), front :: rest)

/-- The view shows a string, all of which is there. -/
structure Valid (heap : SharedHeap (List UInt8)) (v : SharedView) (str : List UInt8) : Prop where
  bytes : v.bytes heap = some str
  length : v.length = str.length

lemma ofBuffers_eq (heap : SharedHeap (List UInt8)) (buffers : List SharedBuffer) :
    ofBuffers heap buffers = buffers.map (ofBuffer heap) := by
  unfold ofBuffers
  rw [List.foldl_append_eq_append, List.nil_append, ← List.flatMap_def, List.map_eq_flatMap]

variable {heap : SharedHeap (List UInt8)}

lemma valid_ofBuffer (b : SharedBuffer) (hlive : ∀ p ∈ b.refs, (heap.read p).isSome) :
    Valid heap (ofBuffer heap b) (b.str heap) := by
  obtain ⟨storage, offset⟩ := b
  cases storage with
  | none => exact ⟨rfl, rfl⟩
  | some p =>
    obtain ⟨str, hstr⟩ := Option.isSome_iff_exists.1 (hlive p (List.mem_singleton.2 rfl))
    unfold ofBuffer SharedBuffer.str
    simp only [hstr, Option.getD_some]
    refine ⟨?_, List.length_drop.symm⟩
    unfold bytes
    simp only [hstr, Option.map_some]
    rw [← List.length_drop, List.take_length]

lemma Valid.congr {v : SharedView} {str : List UInt8} (h : Valid heap v str)
    {heap' : SharedHeap (List UInt8)} (hread : ∀ p, v.block = some p → heap'.read p = heap.read p) :
    Valid heap' v str := by
  refine ⟨?_, h.length⟩
  rw [← h.bytes]
  unfold SharedView.bytes
  cases hb : v.block with
  | none => rfl
  | some p =>
    simp only
    rw [hread p hb]

lemma block_ofBuffer (b : SharedBuffer) : (ofBuffer heap b).block = b.storage := by
  unfold ofBuffer
  split
  · rename_i h
    exact h.symm
  · rename_i p h
    exact h.symm

lemma Valid.drop {v : SharedView} {str : List UInt8} (h : Valid heap v str) (n : ℕ) :
    Valid heap { v with offset := v.offset + n, length := v.length - n } (str.drop n) := by
  obtain ⟨block, offset, length⟩ := v
  obtain ⟨hbytes, hlength⟩ := h
  refine ⟨?_, ?_⟩
  · cases block with
    | none =>
      obtain rfl := Option.some.inj hbytes
      exact congrArg some List.drop_nil.symm
    | some p =>
      simp only [SharedView.bytes, Option.map_eq_some_iff] at hbytes ⊢
      obtain ⟨s, hs, rfl⟩ := hbytes
      refine ⟨s, hs, ?_⟩
      rw [List.drop_take, List.drop_drop]
  · simp only at hlength ⊢
    rw [hlength, List.length_drop]

/-- The views are cut as the strings they show. -/
lemma removePrefixLoop_valid {views : List SharedView} {strs : List (List UInt8)}
    (h : List.Forall₂ (Valid heap) views strs) (n : ℕ) :
    (removePrefixLoop views n).1 = (BufferViewList.removePrefixLoop strs n).1 ∧
    List.Forall₂ (Valid heap) (removePrefixLoop views n).2
      (BufferViewList.removePrefixLoop strs n).2 := by
  induction h generalizing n with
  | nil =>
    unfold removePrefixLoop BufferViewList.removePrefixLoop
    split <;> exact ⟨rfl, .nil⟩
  | cons hv hrest ih =>
    unfold removePrefixLoop BufferViewList.removePrefixLoop
    rw [hv.length]
    split
    · split
      · refine ⟨rfl, .cons ?_ hrest⟩
        rw [← hv.length]
        exact hv.drop n
      · exact ih _
    · exact ⟨rfl, .cons hv hrest⟩

lemma cuts_valid {views : List SharedView} {shown : BufferViewList}
    (h : List.Forall₂ (Valid heap) views shown.views) (cuts : List ℕ) :
    List.Forall₂ (Valid heap) (cuts.foldl (fun views n => (removePrefixLoop views n).2) views)
      (cuts.foldl (fun v n => (v.removePrefix n).2) shown).views := by
  induction cuts generalizing views shown with
  | nil => exact h
  | cons n cuts ih => exact ih (removePrefixLoop_valid h n).2

lemma map_bytes {views : List SharedView} {strs : List (List UInt8)}
    (h : List.Forall₂ (Valid heap) views strs) : views.map (bytes heap) = strs.map some := by
  induction h with
  | nil => rfl
  | cons hv _ ih => rw [List.map_cons, List.map_cons, hv.bytes, ih]

end SharedView

/-- The operation is one on the object `i` itself, other than reading or copying it. -/
def Op.Touches (i : ℕ) : Op → Prop
  | .move j => j = i
  | .assign j _ => j = i
  | .moveAssign j k => j = i ∨ k = i
  | .removePrefix j _ => j = i
  | .append j _ => j = i
  | .destroy j => j = i
  | _ => False

instance (i : ℕ) (op : Op) : Decidable (op.Touches i) := by
  cases op <;> unfold Op.Touches <;> infer_instance

namespace Memory

variable {m : Memory} {o : Object} {i : ℕ}

lemma getElem?_make (hi : m.objects[i]? = some o) (heap : SharedHeap (List UInt8)) (o' : Object) :
    (m.make heap o').objects[i]? = some o := by
  obtain ⟨hlt, -⟩ := List.getElem?_eq_some_iff.1 hi
  show (m.objects ++ [o'])[i]? = some o
  rw [List.getElem?_append_left hlt, hi]

lemma getElem?_set (hi : m.objects[i]? = some o) {j : ℕ} (hj : j ≠ i)
    (heap : SharedHeap (List UInt8)) (o' : Object) : (m.set j heap o').objects[i]? = some o := by
  show (m.objects.set j o')[i]? = some o
  rw [List.getElem?_set_ne hj, hi]

lemma getElem?_step (hi : m.objects[i]? = some o) (op : Op) (h : ¬ op.Touches i) :
    (m.step op).2.objects[i]? = some o := by
  cases op with
  | buffer => exact getElem?_make hi _ _
  | bufferOfString str => exact getElem?_make hi _ _
  | list => exact getElem?_make hi _ _
  | listOfString str => exact getElem?_make hi _ _
  | listOfBuffer j =>
    simp only [Memory.step]
    split
    exacts [getElem?_make hi _ _, hi]
  | copy j =>
    simp only [Memory.step]
    split
    exacts [getElem?_make hi _ _, getElem?_make hi _ _, hi]
  | move j =>
    simp only [Memory.step]
    split
    exacts [getElem?_make (getElem?_set hi h _ _) _ _, getElem?_make (getElem?_set hi h _ _) _ _, hi]
  | assign j k =>
    simp only [Memory.step]
    split
    exacts [getElem?_set hi h _ _, getElem?_set hi h _ _, hi]
  | moveAssign j k =>
    obtain ⟨hj, hk⟩ := not_or.1 h
    simp only [Memory.step]
    split
    · split
      exacts [hi, getElem?_set (getElem?_set hi hk _ _) hj _ _]
    · split
      exacts [hi, getElem?_set (getElem?_set hi hk _ _) hj _ _]
    · exact hi
  | removePrefix j n =>
    simp only [Memory.step]
    split
    exacts [getElem?_set hi h _ _, getElem?_set hi h _ _, hi]
  | append j k =>
    simp only [Memory.step]
    split
    · split
      exacts [hi, getElem?_set hi h _ _]
    · exact hi
  | toBuffer j =>
    simp only [Memory.step]
    split
    exacts [getElem?_make hi _ _, getElem?_make hi _ _, hi, hi]
  | destroy j =>
    simp only [Memory.step]
    split
    exacts [getElem?_set hi h _ _, hi]

/-- An object that no operation touches keeps its pointers, and the blocks their content. -/
lemma kept_run {vs : List Value} (h : m.Shows vs) (hi : m.objects[i]? = some o) {ops : List Op}
    (hops : ∀ op ∈ ops, ¬ op.Touches i) :
    (machine.run m ops).Sound ∧ (machine.run m ops).objects[i]? = some o ∧
      m.heap.Extends (machine.run m ops).heap := by
  induction ops generalizing m vs with
  | nil => exact ⟨h.sound, hi, .refl _⟩
  | cons op ops ih =>
    rw [List.forall_mem_cons] at hops
    have hkeeps := (h.sound.allocates op).keeps
    obtain ⟨hsound, hget, hextends⟩ := ih (h.step op).2 (getElem?_step hi op hops.1) hops.2
    exact ⟨hsound, hget, hkeeps.trans hextends⟩

end Memory

/-- **Views stay valid.** The views of a list, cut from the front any number of times, show the bytes
that were left of the list when they were made, whatever operations on other objects come between. -/
theorem views_stay_valid (before after : List Op) (i : ℕ) (bs : List SharedBuffer)
    (hi : (Memory.machine.run Memory.empty before).objects[i]? = some (.list bs))
    (hafter : ∀ op ∈ after, ¬ op.Touches i) (cuts : List ℕ) (n : ℕ) :
    let m := Memory.machine.run Memory.empty before
    let views := cuts.foldl (fun views n => (SharedView.removePrefixLoop views n).2)
      (SharedView.ofBuffers m.heap bs)
    let shown := cuts.foldl (fun v n => (v.removePrefix n).2)
      (BufferViewList.ofBufferList ⟨bs.map (SharedBuffer.value m.heap)⟩)
    views.map (SharedView.bytes (Memory.machine.run m after).heap) = shown.views.map some ∧
      (SharedView.removePrefixLoop views n).1 = (shown.removePrefix n).1 := by
  intro m views shown
  have hshows := Memory.shows_run before
  obtain ⟨hsound, hget, hextends⟩ := Memory.kept_run hshows hi hafter
  have hrefs : ∀ b ∈ bs, ∀ p ∈ b.refs, p ∈ (Object.list bs).refs := fun b hb p hp =>
    List.mem_flatMap.2 ⟨b, hb, hp⟩
  have hread : ∀ b ∈ bs, ∀ p ∈ b.refs, (Memory.machine.run m after).heap.read p = m.heap.read p :=
    fun b hb p hp => hshows.sound.read_eq (Memory.mem_refs hi p (hrefs b hb p hp)) hextends hsound
      (Memory.mem_refs hget p (hrefs b hb p hp))
  -- the views as they were made, in the memory as it is at the end
  have hmade : List.Forall₂ (SharedView.Valid (Memory.machine.run m after).heap)
      (SharedView.ofBuffers m.heap bs)
      (BufferViewList.ofBufferList ⟨bs.map (SharedBuffer.value m.heap)⟩).views := by
    rw [SharedView.ofBuffers_eq, BufferViewList.views_ofBufferList, BufferList.segs, List.map_map,
      List.forall₂_map_left_iff, List.forall₂_map_right_iff, List.forall₂_same]
    intro b hb
    have hlive : ∀ p ∈ b.refs, (m.heap.read p).isSome := fun p hp =>
      (hshows.sound.read_isSome p).2 (Memory.mem_refs hi p (hrefs b hb p hp))
    rw [Function.comp_apply, str_value]
    refine (SharedView.valid_ofBuffer b hlive).congr fun p hp => hread b hb p ?_
    rw [SharedView.block_ofBuffer] at hp
    exact Option.mem_toList.2 hp
  have hcut := SharedView.cuts_valid hmade cuts
  exact ⟨SharedView.map_bytes hcut, (SharedView.removePrefixLoop_valid hcut n).1⟩

/-- The first `Buffer` and a copy of the list are destroyed after the view was made. -/
theorem views_stay_valid_copies :
    let m := Memory.machine.run Memory.empty [.bufferOfString [1, 2, 3], .listOfBuffer 0]
    let m' := Memory.machine.run m [.copy 1, .removePrefix 2 2, .destroy 0, .destroy 2]
    ((SharedView.removePrefixLoop (SharedView.ofBuffers m.heap [⟨some 0, 0⟩]) 1).2.map
        (SharedView.bytes m'.heap) = [some [2, 3]]) ∧
      (SharedView.removePrefixLoop (SharedView.removePrefixLoop
        (SharedView.ofBuffers m.heap [⟨some 0, 0⟩]) 1).2 3).1 =
        .error (.outOfRange "BufferListView::remove_prefix") :=
  views_stay_valid [.bufferOfString [1, 2, 3], .listOfBuffer 0]
    [.copy 1, .removePrefix 2 2, .destroy 0, .destroy 2] 1 [⟨some 0, 0⟩] rfl (by decide) [1] 3

end Storage

end Sponge
