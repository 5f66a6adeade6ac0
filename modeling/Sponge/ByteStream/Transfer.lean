import Sponge.ByteStream.Refines

/-!
# A transfer through a `ByteStream`

A writer that holds a source string and offers non-empty pieces of what is left of it, and a reader
that reads as much as it likes, in any order. The stream shows a FIFO that has accepted what the
writer got rid of and removed what the reader received (`Inv`), so nothing is lost, repeated or
reordered; the potential `2 * rest + buffer` falls with every byte that moves.
-/

namespace Sponge.ByteStream

open Lib

/-- A transfer under way. -/
structure Transfer where
  stream : ByteStream
  /-- What the stream has not accepted yet. -/
  rest : List UInt8
  /-- What the reader has received. -/
  delivered : List UInt8
  /-- Whether the writer has called `end_input`. -/
  ended : Bool

namespace Transfer

def start (c : UInt64) (src : List UInt8) : Transfer := ⟨new c, src, [], false⟩

/-- A step of the writer or of the reader, with the number of bytes it moves. -/
inductive Step : Transfer → ℕ → Transfer → Prop
  | write {t : Transfer} (p : List UInt8) (hp : p ≠ []) (hrest : p <+: t.rest) :
      Step t (t.stream.write p).1 { t with
        stream := (t.stream.write p).2
        rest := t.rest.drop (t.stream.write p).1 }
  | endInput {t : Transfer} (hrest : t.rest = []) :
      Step t 0 { t with stream := t.stream.endInput, ended := true }
  | read {t : Transfer} (n : ℕ) :
      Step t (t.stream.read n).1.length { t with
        stream := (t.stream.read n).2
        delivered := t.delivered ++ (t.stream.read n).1 }

/-- What holds throughout the transfer of `src` through a stream of capacity `c`. -/
structure Inv (c : UInt64) (src : List UInt8) (f : Fifo UInt8 c.toNat) (t : Transfer) : Prop where
  shown : Shows f t.stream
  accepted : f.accepted ++ t.rest = src
  delivered : t.delivered = f.accepted.take f.removed
  ended : f.closed = t.ended
  rest : t.ended = true → t.rest = []

variable {c : UInt64} {src : List UInt8}

theorem inv_start (c : UInt64) (src : List UInt8) :
    Inv c src (Fifo.empty UInt8 c.toNat) (start c src) :=
  ⟨shows_new c, rfl, rfl, rfl, fun h => by cases h⟩

/-- What a write of a prefix of the rest moves into the FIFO is a prefix of the rest. -/
lemma take_room_eq {f : Fifo UInt8 c.toNat} {t : Transfer} (h : Shows f t.stream) {p : List UInt8}
    (hp : p <+: t.rest) : p.take f.room = t.rest.take (t.stream.write p).1 := by
  obtain ⟨q, hq⟩ := hp
  rw [write_count, h.remainingCapacity_eq, ← hq, List.take_append_of_le_length (by omega),
    Nat.min_comm, ← List.take_eq_take_min]

/-- **One step** keeps the invariant. -/
theorem Inv.step {f : Fifo UInt8 c.toNat} {t t' : Transfer} {k : ℕ} (h : Inv c src f t)
    (hst : Step t k t') : ∃ f', Inv c src f' t' := by
  cases hst with
  | write p hp hrest =>
    refine ⟨f.write p, h.shown.write p, ?_, ?_, h.ended, ?_⟩
    · simp only [Fifo.write]
      rw [take_room_eq h.shown hrest, List.append_assoc, List.take_append_drop, h.accepted]
    · simp only [Fifo.write]
      rw [List.take_append_of_le_length f.removed_le, h.delivered]
    · intro he
      have h0 := h.rest he
      rw [h0, List.prefix_nil] at hrest
      exact absurd hrest hp
  | endInput hrest =>
    exact ⟨f.close, h.shown.step .endInput, h.accepted, h.delivered, rfl, fun _ => hrest⟩
  | read n =>
    refine ⟨f.pop n, h.shown.popOutput n, h.accepted, ?_, h.ended, h.rest⟩
    show t.delivered ++ t.stream.peekOutput n = f.accepted.take (f.removed + min n f.contents.length)
    rw [peekOutput_eq, h.shown.buffer, h.shown.bufferSize_eq, h.delivered, Fifo.contents,
      List.take_add]

theorem inv_path {is : List ℕ} {t : Transfer} (h : Path Step (start c src) is t) :
    ∃ f, Inv c src f t :=
  h.invariant (I := fun t => ∃ f, Inv c src f t) ⟨_, inv_start c src⟩
    fun _ _ _ hst ⟨_, hf⟩ => hf.step hst

/-- The potential of a transfer: every byte left moves twice, every byte buffered once. -/
def potential (t : Transfer) : ℕ := 2 * t.rest.length + t.stream.bufferSize

lemma Step.potential_add {f : Fifo UInt8 c.toNat} {t t' : Transfer} {k : ℕ} (h : Inv c src f t)
    (hst : Step t k t') : t'.potential + k = t.potential := by
  cases hst with
  | write p hp hrest =>
    have hk := write_count t.stream p
    have hp := hrest.length_le
    have hsize : (t.stream.write p).2.bufferSize = t.stream.bufferSize + (t.stream.write p).1 := by
      rw [bufferSize, write_state, hk, List.length_append, List.length_take, Nat.min_comm]
      rfl
    simp only [potential, List.length_drop, hsize]
    omega
  | endInput hrest => rfl
  | read n =>
    have hsize := (h.shown.popOutput n).bufferSize_eq
    have hbuf := h.shown.bufferSize_eq
    have hlen : (t.stream.read n).1.length = min n t.stream.bufferSize := length_peekOutput _ _
    rw [Fifo.contents_pop, List.length_drop] at hsize
    have hpop : (t.stream.read n).2.bufferSize = f.contents.length - n := hsize
    simp only [potential, hlen, hpop]
    omega

/-- **Progress.** As long as something of the source has not arrived, a step moves a byte. -/
theorem Inv.progress {f : Fifo UInt8 c.toNat} {t : Transfer} (h : Inv c src f t) (hc : 0 < c.toNat)
    (hd : t.delivered ≠ src) : ∃ k t', 0 < k ∧ Step t k t' := by
  have hroom := h.shown.bufferSize_add_remainingCapacity
  rcases Nat.eq_zero_or_pos t.stream.bufferSize with h0 | hpos
  · -- the buffer is empty, so something is left to write, and there is room for it
    have hrest : t.rest ≠ [] := by
      intro hr
      have hcont : f.contents = [] := by
        rw [← List.length_eq_zero_iff, ← h.shown.bufferSize_eq, h0]
      have hacc := h.accepted
      rw [hr, List.append_nil, ← f.take_append_contents, hcont, List.append_nil] at hacc
      exact hd (h.delivered.trans hacc)
    refine ⟨_, _, ?_, Step.write t.rest hrest (List.prefix_refl _)⟩
    have := List.length_pos_iff.2 hrest
    rw [write_count]
    omega
  · refine ⟨_, _, ?_, Step.read 1⟩
    have : (t.stream.read 1).1.length = min 1 t.stream.bufferSize := length_peekOutput _ _
    omega

/-- **A transfer is exact under every schedule**: in every state reached nothing is lost, repeated
or reordered, the capacity is kept, `eof` tells the end of the transfer, and some step moves a byte
until everything has arrived; and no run has more than `2 * |src|` steps that move bytes. -/
theorem transfer_exact (c : UInt64) (src : List UInt8) (is : List ℕ) (t : Transfer)
    (h : Path Step (start c src) is t) :
    t.delivered ++ t.stream.buffer ++ t.rest = src ∧
    t.stream.bufferSize ≤ c.toNat ∧
    (t.stream.eof = true ↔ t.ended = true ∧ t.delivered = src) ∧
    (0 < c.toNat → t.delivered ≠ src → ∃ k t', 0 < k ∧ Step t k t') ∧
    is.countP (0 < ·) ≤ 2 * src.length := by
  obtain ⟨f, hf⟩ := inv_path h
  have hall : t.delivered ++ t.stream.buffer = f.accepted := by
    rw [hf.delivered, hf.shown.buffer, f.take_append_contents]
  refine ⟨?_, ?_, ?_, fun hc hd => hf.progress hc hd, ?_⟩
  · rw [hall, hf.accepted]
  · have := hf.shown.bufferSize_add_remainingCapacity
    omega
  · rw [hf.shown.eof_iff, hf.ended]
    refine and_congr_right fun he => ?_
    have hacc : f.accepted = src := by rw [← hf.accepted, hf.rest he, List.append_nil]
    rw [← Fifo.contents_eq_nil_iff, ← hf.shown.buffer, ← hacc, ← hall, List.self_eq_append_right]
  · have := h.countP_le (μ := potential) (I := fun t => ∃ f, Inv c src f t) (p := (0 < ·))
      ⟨_, inv_start c src⟩ (fun _ _ _ hst ⟨_, hf⟩ => hf.step hst) (fun a k b hst ⟨f, hf⟩ => by
        have := hst.potential_add hf
        rcases Nat.eq_zero_or_pos k with rfl | hk
        · simp; omega
        · simp [hk]; omega)
    have h0 : (start c src).potential = 2 * src.length := rfl
    omega

/-- Three bytes through a stream of capacity 2: after a write and a read, one byte is delivered,
one buffered and one left. -/
theorem transfer_exact_three :
    ∃ t : Transfer, t.delivered = [97] ∧ t.stream.buffer = [98] ∧ t.rest = [99] ∧
      t.delivered ++ t.stream.buffer ++ t.rest = [97, 98, 99] :=
  ⟨_, rfl, rfl, rfl, (transfer_exact 2 [97, 98, 99] _ _
    (.snoc (.snoc (.nil _) (.write [97, 98, 99] (by decide) (List.prefix_refl _)))
      (.read 1))).1⟩

end Transfer

end Sponge.ByteStream
