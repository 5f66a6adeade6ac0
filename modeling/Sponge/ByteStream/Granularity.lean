import Sponge.ByteStream.Refines

/-!
# Calls in pieces

Neither side of a stream can tell whether it is given many small calls or a single large one, also
when the capacity runs out, or the buffer runs empty, in the middle of a piece. The FIFO that the
stream shows has these laws (`Fifo.write_flatten`, `Fifo.pop_sum`); the answers of the pieces add up
because they are what the FIFO takes in and lets out.
-/

namespace Sponge.ByteStream

open Lib

def Ret.toCount : Ret → ℕ
  | .count n => n
  | .void | .bytes _ => 0

def Ret.toBytes : Ret → List UInt8
  | .bytes b => b
  | .void | .count _ => []

def counted (tr : List (Move ByteStream Op Ret)) : ℕ := (tr.map fun m => m.output.toCount).sum

def received (tr : List (Move ByteStream Op Ret)) : List UInt8 :=
  tr.flatMap fun m => m.output.toBytes

namespace Shows

variable {c : UInt64} {f : Fifo UInt8 c.toNat} {s : ByteStream}

lemma accepted_write (h : Shows f s) (data : List UInt8) :
    (f.write data).accepted.length = f.accepted.length + (s.write data).1 := by
  have hlen : (f.write data).accepted.length =
      f.accepted.length + (data.take f.room).length := List.length_append
  rw [hlen, write_count, h.remainingCapacity_eq, List.length_take, Nat.min_comm]

lemma out_read (h : Shows f s) (len : ℕ) : (f.pop len).out = f.out ++ (s.read len).1 := by
  have hread : (s.read len).1 = f.contents.take len := by
    show s.peekOutput len = _
    rw [peekOutput_eq, h.buffer, h.bufferSize_eq, ← List.take_eq_take_min]
  rw [hread, Fifo.out_pop]

lemma accepted_writes (h : Shows f s) (ds : List (List UInt8)) :
    (ds.foldl Fifo.write f).accepted.length =
      f.accepted.length + counted (machine.trace s (ds.map .write)) := by
  induction ds generalizing f s with
  | nil => rfl
  | cons d ds ih =>
    have hcons : counted (machine.trace s ((d :: ds).map .write)) =
        (s.write d).1 + counted (machine.trace (s.write d).2 (ds.map .write)) := List.sum_cons
    rw [List.foldl_cons, ih (h.write d), h.accepted_write, hcons, Nat.add_assoc]

lemma out_reads (h : Shows f s) (ns : List ℕ) :
    (ns.foldl Fifo.pop f).out = f.out ++ received (machine.trace s (ns.map .read)) := by
  induction ns generalizing f s with
  | nil => exact (List.append_nil _).symm
  | cons n ns ih =>
    have hcons : received (machine.trace s ((n :: ns).map .read)) =
        (s.read n).1 ++ received (machine.trace (s.popOutput n) (ns.map .read)) := List.flatMap_cons
    rw [List.foldl_cons, ih (h.popOutput n), h.out_read, hcons, List.append_assoc]

end Shows

/-- Calls on `s` may be cut into pieces, and pieces be put together, without a trace. -/
structure Insensitive (s : ByteStream) : Prop where
  write : ∀ ds : List (List UInt8), machine.run s (ds.map .write) = (s.write ds.flatten).2 ∧
    counted (machine.trace s (ds.map .write)) = (s.write ds.flatten).1
  read : ∀ ns : List ℕ, machine.run s (ns.map .read) = (s.read ns.sum).2 ∧
    received (machine.trace s (ns.map .read)) = (s.read ns.sum).1
  popOutput : ∀ ns : List ℕ, machine.run s (ns.map .popOutput) = s.popOutput ns.sum

section

variable {c : UInt64} (f : Fifo UInt8 c.toNat)

lemma foldl_applyOp_write (ds : List (List UInt8)) :
    (ds.map Op.write).foldl applyOp f = f.write ds.flatten := by
  rw [List.foldl_map, ← Fifo.write_flatten]
  rfl

lemma foldl_applyOp_pop (ns : List ℕ) (op : ℕ → Op)
    (hop : ∀ (g : Fifo UInt8 c.toNat) n, applyOp g (op n) = g.pop n) :
    (ns.map op).foldl applyOp f = f.pop ns.sum := by
  rw [List.foldl_map, ← Fifo.pop_sum]
  simp only [hop]

end

lemma error_popOutput (s : ByteStream) (len : ℕ) : (s.popOutput len).error = s.error := by
  rw [popOutput_eq]

/-- Streams that show the same FIFO after calls other than `set_error` are the same. -/
lemma run_eq_of_shows {c : UInt64} {f : Fifo UInt8 c.toNat} {s t : ByteStream} {ops : List Op}
    (hs : Shows f (machine.run s ops)) (ht : Shows f t) (hops : .setError ∉ ops)
    (herror : t.error = s.error) : machine.run s ops = t := by
  refine hs.unique ht (Bool.eq_iff_iff.2 ?_)
  rw [error_run_iff, or_iff_left hops, herror]

/-- **A stream is insensitive to the granularity of its calls**, in every reachable state. -/
theorem insensitive (c : UInt64) (ops : List Op) : Insensitive (machine.run (new c) ops) := by
  obtain ⟨f, h, -⟩ := shows_run c ops
  generalize machine.run (new c) ops = s at h
  refine ⟨fun ds => ⟨?_, ?_⟩, fun ns => ⟨?_, ?_⟩, fun ns => ?_⟩
  · have hshows := foldl_applyOp_write f ds ▸ h.run (ds.map .write)
    exact run_eq_of_shows hshows (h.write _) (by simp) rfl
  · have htotal := h.accepted_writes ds
    rw [Fifo.write_flatten, h.accepted_write] at htotal
    omega
  · have hshows := foldl_applyOp_pop f ns .read (fun _ _ => rfl) ▸ h.run (ns.map .read)
    exact run_eq_of_shows hshows (h.popOutput _) (by simp) (error_popOutput s _)
  · have hout := h.out_reads ns
    rw [Fifo.pop_sum, h.out_read] at hout
    exact (List.append_cancel_left hout).symm
  · have hshows := foldl_applyOp_pop f ns .popOutput (fun _ _ => rfl) ▸ h.run (ns.map .popOutput)
    exact run_eq_of_shows hshows (h.popOutput _) (by simp) (error_popOutput s _)

end Sponge.ByteStream
