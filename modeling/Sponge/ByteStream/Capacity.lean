import Sponge.ByteStream.Refines

/-!
# More capacity never hurts

Two streams of different capacities that get the same calls. The larger one can be much fuller, and
the bytes written alone say nothing about the next write. What it never loses is its lead in bytes
read, in bytes buffered and in room at the same time (`Fifo.Ahead`), so that its lead in bytes
written, the first two together, can only grow.
-/

namespace Sponge.ByteStream

open Lib

/-- The stream `t` has got at least as far as `s`. -/
structure NoBetter (s t : ByteStream) : Prop where
  bytesWritten : s.bytesWritten ≤ t.bytesWritten
  bytesRead : s.bytesRead ≤ t.bytesRead
  bufferSize : s.bufferSize ≤ t.bufferSize
  remainingCapacity : s.remainingCapacity ≤ t.remainingCapacity

section

variable {c c₁ c₂ : UInt64}

/-- **One call.** -/
lemma ahead_applyOp {f : Fifo UInt8 c₁.toNat} {g : Fifo UInt8 c₂.toNat} (h : Fifo.Ahead f g)
    (op : Op) : Fifo.Ahead (applyOp f op) (applyOp g op) := by
  cases op with
  | write data => exact h.write data
  | read len => exact h.pop len
  | popOutput len => exact h.pop len
  | peekOutput len => exact h
  | endInput => exact h.close
  | setError => exact h

/-- **Calls in sequence.** -/
lemma ahead_foldl {f : Fifo UInt8 c₁.toNat} {g : Fifo UInt8 c₂.toNat} (h : Fifo.Ahead f g)
    (ops : List Op) :
    Fifo.Ahead (ops.foldl applyOp f) (ops.foldl applyOp g) := by
  induction ops generalizing f g with
  | nil => exact h
  | cons op ops ih => exact ih (ahead_applyOp h op)

lemma length_accepted_foldl_le (f : Fifo UInt8 c.toNat) (ops : List Op) :
    (ops.foldl applyOp f).accepted.length ≤ f.accepted.length + (offered ops).length := by
  induction ops generalizing f with
  | nil => exact Nat.le_refl _
  | cons op ops ih =>
    refine Nat.le_trans (ih _) ?_
    cases op with
    | write data =>
      show (f.accepted ++ data.take f.room).length + (offered ops).length ≤
        f.accepted.length + (data ++ offered ops).length
      rw [List.length_append, List.length_append, List.length_take]
      omega
    | read len => exact Nat.le_refl _
    | popOutput len => exact Nat.le_refl _
    | peekOutput len => exact Nat.le_refl _
    | endInput => exact Nat.le_refl _
    | setError => exact Nat.le_refl _

/-- The counters are exact as long as they cannot wrap. -/
lemma Shows.toNat_bytesWritten {f : Fifo UInt8 c.toNat} {s : ByteStream} (h : Shows f s)
    (hlt : f.accepted.length < 2 ^ 64) : s.bytesWritten.toNat = f.accepted.length := by
  rw [bytesWritten, h.written, UInt64.toNat_ofNat_of_lt' hlt]

lemma Shows.toNat_bytesRead {f : Fifo UInt8 c.toNat} {s : ByteStream} (h : Shows f s)
    (hlt : f.accepted.length < 2 ^ 64) : s.bytesRead.toNat = f.removed := by
  rw [bytesRead, h.read, UInt64.toNat_ofNat_of_lt' (Nat.lt_of_le_of_lt f.removed_le hlt)]

lemma Shows.noBetter {f : Fifo UInt8 c₁.toNat} {g : Fifo UInt8 c₂.toNat} {s t : ByteStream}
    (hs : Shows f s) (ht : Shows g t) (h : Fifo.Ahead f g) (hlt : g.accepted.length < 2 ^ 64) :
    NoBetter s t := by
  have hflt : f.accepted.length < 2 ^ 64 := Nat.lt_of_le_of_lt h.accepted hlt
  refine ⟨?_, ?_, ?_, ?_⟩
  · rw [UInt64.le_iff_toNat_le, hs.toNat_bytesWritten hflt, ht.toNat_bytesWritten hlt]
    exact h.accepted
  · rw [UInt64.le_iff_toNat_le, hs.toNat_bytesRead hflt, ht.toNat_bytesRead hlt]
    exact h.removed
  · rw [hs.bufferSize_eq, ht.bufferSize_eq]
    exact h.contents
  · rw [hs.remainingCapacity_eq, ht.remainingCapacity_eq]
    exact h.room

end

lemma length_offered_le {js ops : List Op} (h : js <+: ops) :
    (offered js).length ≤ (offered ops).length := by
  obtain ⟨ks, rfl⟩ := h
  rw [offered, offered, List.flatMap_append, List.length_append]
  omega

/-- **More capacity never hurts.** After every call the larger of two streams has got at least as
far, when less than `2 ^ 64` bytes are offered in all. -/
theorem noBetter_of_capacity_le {c₁ c₂ : UInt64} (hc : c₁ ≤ c₂) {ops : List Op}
    (hoffered : (offered ops).length < 2 ^ 64) {js : List Op} (hjs : js <+: ops) :
    NoBetter (machine.run (new c₁) js) (machine.run (new c₂) js) := by
  have hstart : Fifo.Ahead (Fifo.empty UInt8 c₁.toNat) (Fifo.empty UInt8 c₂.toNat) :=
    Fifo.ahead_empty (UInt64.le_iff_toNat_le.1 hc)
  refine ((shows_new c₁).run js).noBetter ((shows_new c₂).run js) (ahead_foldl hstart js) ?_
  have haccepted := length_accepted_foldl_le (Fifo.empty UInt8 c₂.toNat) js
  have hprefix := length_offered_le hjs
  have hempty : (Fifo.empty UInt8 c₂.toNat).accepted.length = 0 := rfl
  omega

/-- Here the larger stream has one byte more in its buffer and as much room for the last write. -/
theorem noBetter_one_two : NoBetter
    (machine.run (new 1) [.write [1, 2], .read 1, .write [3, 4]])
    (machine.run (new 2) [.write [1, 2], .read 1, .write [3, 4]]) :=
  noBetter_of_capacity_le (by decide) (by decide) (List.prefix_refl _)

end Sponge.ByteStream
