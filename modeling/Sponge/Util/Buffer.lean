import Sponge.Lib.Segments
import Sponge.Util.Error

/-!
# `Buffer`, `BufferList` and `BufferViewList`

The classes of `buffer.hh`, as `buffer.cc` computes them. A `std::string_view` is the bytes it
shows; the storage that `Buffer`s share is never written to, so each holds it by value. The sums
that the two `size` methods of the lists form are on 64 bits, as in the source.
-/

namespace Sponge

open Lib

/-! ### `Buffer` -/

/-- The class `Buffer`: a storage, absent once it is released, and an offset into it. -/
structure Buffer where
  storage : Option (List UInt8)
  startingOffset : ℕ
  deriving DecidableEq, Repr

namespace Buffer

def empty : Buffer := ⟨none, 0⟩

/-- `Buffer(std::string &&str)`. -/
def ofString (str : List UInt8) : Buffer := ⟨some str, 0⟩

def str (b : Buffer) : List UInt8 :=
  match b.storage with
  | none => []
  | some storage => storage.drop b.startingOffset

def size (b : Buffer) : ℕ := b.str.length

/-- `at(n)`: the `at` of the string view, which checks its argument. -/
def at_ (b : Buffer) (n : ℕ) : Except Exn UInt8 :=
  match b.str[n]? with
  | some c => .ok c
  | none => .error (.outOfRange "basic_string_view::at")

def removePrefix (b : Buffer) (n : ℕ) : Except Exn Unit × Buffer :=
  if n > b.size then (.error (.outOfRange "Buffer::remove_prefix"), b)
  else
    let offset := b.startingOffset + n
    match b.storage with
    | some storage =>
      if offset = storage.length then (.ok (), ⟨none, offset⟩) else (.ok (), ⟨some storage, offset⟩)
    | none => (.ok (), ⟨none, offset⟩)

/-- The offset lies within the storage, as long as there is one. -/
def WF (b : Buffer) : Prop := ∀ storage, b.storage = some storage → b.startingOffset ≤ storage.length

lemma wf_empty : empty.WF := fun _ h => by cases h

lemma wf_ofString (s : List UInt8) : (ofString s).WF := fun _ _ => Nat.zero_le _

@[simp] lemma str_empty : empty.str = [] := rfl

@[simp] lemma str_ofString (s : List UInt8) : (ofString s).str = s := rfl

lemma at_of_lt {b : Buffer} {n : ℕ} (h : n < b.str.length) : b.at_ n = .ok b.str[n] := by
  unfold at_
  rw [List.getElem?_eq_getElem h]

lemma removePrefix_of_gt {b : Buffer} {n : ℕ} (h : b.size < n) :
    b.removePrefix n = (.error (.outOfRange "Buffer::remove_prefix"), b) := if_pos h

/-- **Removing a prefix of a `Buffer`** that is long enough drops it from the bytes shown. -/
theorem removePrefix_of_le {b : Buffer} {n : ℕ} (h : n ≤ b.size) :
    (b.removePrefix n).1 = .ok () ∧ (b.removePrefix n).2.str = b.str.drop n := by
  obtain ⟨storage, offset⟩ := b
  unfold removePrefix
  rw [if_neg (by omega)]
  cases storage with
  | none => exact ⟨rfl, (List.drop_nil).symm⟩
  | some s =>
    simp only
    split
    · -- the cut reaches the end: the storage is released and nothing is left to show
      rename_i hs
      refine ⟨rfl, ?_⟩
      show [] = (s.drop offset).drop n
      rw [List.drop_drop, hs, List.drop_length]
    · exact ⟨rfl, List.drop_drop.symm⟩

lemma WF.removePrefix {b : Buffer} (h : b.WF) (n : ℕ) : (b.removePrefix n).2.WF := by
  obtain ⟨storage, offset⟩ := b
  unfold Buffer.removePrefix
  split
  · exact h
  · rename_i hn
    cases storage with
    | none => exact fun _ h => by cases h
    | some s =>
      have hle : offset ≤ s.length := h s rfl
      have hsize : size ⟨some s, offset⟩ = s.length - offset := List.length_drop
      simp only
      split
      · exact fun _ h => by cases h
      · rintro _ ⟨⟩
        show offset + n ≤ s.length
        omega

end Buffer

/-! ### `BufferList` -/

/-- The class `BufferList`. -/
structure BufferList where
  buffers : List Buffer
  deriving DecidableEq, Repr

namespace BufferList

def empty : BufferList := ⟨[]⟩

/-- `BufferList(Buffer buffer)`. -/
def ofBuffer (buffer : Buffer) : BufferList := ⟨[buffer]⟩

/-- `for (const auto &buf : other._buffers) _buffers.push_back(buf);` -/
def append (l other : BufferList) : BufferList :=
  ⟨other.buffers.foldl (fun buffers buf => buffers ++ [buf]) l.buffers⟩

/-- `BufferList(std::string &&str)`. -/
def ofString (str : List UInt8) : BufferList := empty.append (ofBuffer (Buffer.ofString str))

/-- `operator Buffer()`. -/
def toBuffer (l : BufferList) : Except Exn Buffer :=
  match l.buffers with
  | [] => .ok Buffer.empty
  | [buffer] => .ok buffer
  | _ => .error (.runtimeError
      "BufferList: please use concatenate() to combine a multi-Buffer BufferList into one Buffer")

def concatenate (l : BufferList) : List UInt8 :=
  l.buffers.foldl (fun ret buf => ret ++ buf.str) []

def size (l : BufferList) : ℕ := l.buffers.foldl (fun ret buf => (ret + buf.size) % 2 ^ 64) 0

/-- The loop `while (n > 0)` of `remove_prefix`, with the deque it leaves. -/
def removePrefixLoop : List Buffer → ℕ → Except Exn Unit × List Buffer
  | [], n => if n > 0 then (.error (.outOfRange "BufferList::remove_prefix"), []) else (.ok (), [])
  | front :: rest, n =>
    if n > 0 then
      if n < front.size then
        -- `n` becomes 0, and the loop is left
        ((front.removePrefix n).1, (front.removePrefix n).2 :: rest)
      else removePrefixLoop rest (n - front.size)
    else (.ok (), front :: rest)

def removePrefix (l : BufferList) (n : ℕ) : Except Exn Unit × BufferList :=
  ((removePrefixLoop l.buffers n).1, ⟨(removePrefixLoop l.buffers n).2⟩)

def segs (l : BufferList) : List (List UInt8) := l.buffers.map Buffer.str

lemma concatenate_eq (l : BufferList) : l.concatenate = l.segs.flatten := by
  unfold concatenate segs
  rw [List.foldl_append_eq_append, List.nil_append]

lemma size_eq (l : BufferList) : l.size = totalLength l.segs % 2 ^ 64 := by
  have h := foldl_add_mod Buffer.size (2 ^ 64) l.buffers 0
  rw [Nat.zero_mod, Nat.zero_add] at h
  unfold size totalLength segs
  rw [h, List.map_map]
  rfl

lemma append_buffers (l other : BufferList) :
    (l.append other).buffers = l.buffers ++ other.buffers := by
  unfold append
  rw [List.foldl_append_eq_append, ← List.flatMap_def, List.flatMap_singleton']

lemma segs_append (l other : BufferList) : (l.append other).segs = l.segs ++ other.segs := by
  unfold segs
  rw [append_buffers, List.map_append]

lemma removePrefixLoop_fst (buffers : List Buffer) (n : ℕ) :
    (removePrefixLoop buffers n).1 = if n ≤ totalLength (buffers.map Buffer.str) then .ok ()
      else .error (.outOfRange "BufferList::remove_prefix") := by
  induction buffers generalizing n with
  | nil =>
    unfold removePrefixLoop
    rcases Nat.eq_zero_or_pos n with rfl | hn
    · rfl
    · rw [if_pos hn, if_neg (by simpa using Nat.pos_iff_ne_zero.1 hn)]
  | cons front rest ih =>
    unfold removePrefixLoop
    rw [List.map_cons, totalLength_cons]
    split
    · split
      · rename_i h
        have hlt : n < front.str.length := h
        rw [if_pos (by omega)]
        exact (Buffer.removePrefix_of_le (by omega)).1
      · rename_i h
        have hle : front.str.length ≤ n := Nat.le_of_not_lt h
        rw [ih, Buffer.size]
        exact if_congr (by omega) rfl rfl
    · rw [if_pos (by omega)]

/-- The loop walks over the segments as `dropSegs` does. -/
lemma removePrefixLoop_snd (buffers : List Buffer) (n : ℕ) :
    (removePrefixLoop buffers n).2.map Buffer.str = dropSegs (buffers.map Buffer.str) n := by
  induction buffers generalizing n with
  | nil =>
    unfold removePrefixLoop
    split <;> rfl
  | cons front rest ih =>
    unfold removePrefixLoop
    rw [List.map_cons]
    split
    · rename_i hn
      split
      · rename_i h
        rw [dropSegs_of_lt (by omega) h, List.map_cons]
        exact congrArg (· :: _) (Buffer.removePrefix_of_le (Nat.le_of_lt h)).2
      · rename_i h
        rw [ih, dropSegs_of_le (by omega) (Nat.le_of_not_lt h)]
        rfl
    · rename_i hn
      rw [Nat.eq_zero_of_not_pos hn, dropSegs_zero, List.map_cons]

/-- What `Buffer::remove_prefix` keeps holds of every `Buffer` the loop leaves. -/
lemma forall_removePrefixLoop {P : Buffer → Prop} (hP : ∀ b n, P b → P (b.removePrefix n).2)
    {buffers : List Buffer} (h : ∀ b ∈ buffers, P b) (n : ℕ) :
    ∀ b ∈ (removePrefixLoop buffers n).2, P b := by
  induction buffers generalizing n with
  | nil =>
    unfold removePrefixLoop
    split <;> simp
  | cons front rest ih =>
    rw [List.forall_mem_cons] at h
    unfold removePrefixLoop
    split
    · split
      · exact List.forall_mem_cons.2 ⟨hP front n h.1, h.2⟩
      · exact ih h.2 _
    · exact List.forall_mem_cons.2 h

lemma segs_removePrefix (l : BufferList) (n : ℕ) :
    (l.removePrefix n).2.segs = dropSegs l.segs n := removePrefixLoop_snd _ _

lemma concatenate_removePrefix (l : BufferList) (n : ℕ) :
    (l.removePrefix n).2.concatenate = l.concatenate.drop n := by
  rw [concatenate_eq, concatenate_eq, segs_removePrefix, flatten_dropSegs]

end BufferList

/-! ### `BufferViewList` -/

/-- The class `BufferViewList`. -/
structure BufferViewList where
  views : List (List UInt8)
  deriving DecidableEq, Repr

namespace BufferViewList

/-- `BufferViewList(std::string_view str)`, which the constructors from a string and from a C string
call. -/
def ofView (str : List UInt8) : BufferViewList := ⟨[str]⟩

/-- `BufferViewList(const BufferList &buffers)`. -/
def ofBufferList (l : BufferList) : BufferViewList :=
  ⟨l.buffers.foldl (fun views x => views ++ [x.str]) []⟩

/-- The loop `while (n > 0)` of `remove_prefix`, with the deque it leaves. -/
def removePrefixLoop : List (List UInt8) → ℕ → Except Exn Unit × List (List UInt8)
  | [], n =>
    if n > 0 then (.error (.outOfRange "BufferListView::remove_prefix"), []) else (.ok (), [])
  | front :: rest, n =>
    if n > 0 then
      if n < front.length then (.ok (), front.drop n :: rest)
      else removePrefixLoop rest (n - front.length)
    else (.ok (), front :: rest)

def removePrefix (v : BufferViewList) (n : ℕ) : Except Exn Unit × BufferViewList :=
  ((removePrefixLoop v.views n).1, ⟨(removePrefixLoop v.views n).2⟩)

def size (v : BufferViewList) : ℕ := v.views.foldl (fun ret buf => (ret + buf.length) % 2 ^ 64) 0

/-- `as_iovecs()`: an `iovec` is the bytes it points to. -/
def asIovecs (v : BufferViewList) : List (List UInt8) :=
  v.views.foldl (fun ret x => ret ++ [x]) []

def bytes (v : BufferViewList) : List UInt8 := v.views.flatten

lemma asIovecs_eq (v : BufferViewList) : v.asIovecs = v.views := by
  unfold asIovecs
  rw [List.foldl_append_eq_append, ← List.flatMap_def, List.flatMap_singleton', List.nil_append]

lemma size_eq (v : BufferViewList) : v.size = v.bytes.length % 2 ^ 64 := by
  have h := foldl_add_mod List.length (2 ^ 64) v.views 0
  rw [Nat.zero_mod, Nat.zero_add] at h
  rw [bytes, length_flatten]
  exact h

lemma removePrefixLoop_eq (views : List (List UInt8)) (n : ℕ) :
    removePrefixLoop views n =
      (if n ≤ totalLength views then .ok ()
        else .error (.outOfRange "BufferListView::remove_prefix"), dropSegs views n) := by
  induction views generalizing n with
  | nil =>
    unfold removePrefixLoop
    rcases Nat.eq_zero_or_pos n with rfl | hn
    · rfl
    · rw [if_pos hn, if_neg (by simpa using Nat.pos_iff_ne_zero.1 hn), dropSegs_nil]
  | cons front rest ih =>
    unfold removePrefixLoop
    rw [totalLength_cons]
    split
    · rename_i hn
      split
      · rename_i h
        rw [if_pos (by omega), dropSegs_of_lt (by omega) h]
      · rename_i h
        rw [ih, dropSegs_of_le (by omega) (by omega)]
        exact congrArg (·, _) (if_congr (by omega) rfl rfl)
    · rename_i hn
      rw [if_pos (by omega), Nat.eq_zero_of_not_pos hn, dropSegs_zero]

/-- **Removing a prefix of a `BufferViewList`** fails exactly if it is too long, and otherwise drops
it from the bytes shown. -/
theorem removePrefix_eq (v : BufferViewList) (n : ℕ) :
    (v.removePrefix n).1 = (if n ≤ v.bytes.length then .ok ()
      else .error (.outOfRange "BufferListView::remove_prefix")) ∧
    (v.removePrefix n).2.bytes = v.bytes.drop n := by
  unfold removePrefix bytes
  rw [removePrefixLoop_eq, length_flatten]
  exact ⟨rfl, flatten_dropSegs _ _⟩

end BufferViewList

end Sponge
