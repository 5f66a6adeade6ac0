import Sponge.Util.Checksum

/-!
# `InternetChecksum` over chunks

The state after some calls of `add` in closed form: the words of all the data, and the parity of
their length (`foldl_add_eq`). The cuts between the calls do not show in it; chunks of even length
leave the parity as it is and commute.
-/

namespace Sponge.InternetChecksum

open Lib

lemma add_parity (c : InternetChecksum) (data : List UInt8) :
    (c.add data).parity = (c.parity ^^ decide (data.length % 2 = 1)) := by
  induction data generalizing c with
  | nil => exact (Bool.xor_false _).symm
  | cons b data ih =>
    have hpar : (c.addByte b).parity = !c.parity := rfl
    rw [add, List.foldl_cons]
    refine (ih (c.addByte b)).trans ?_
    rw [hpar, List.length_cons]
    rcases Nat.mod_two_eq_zero_or_one data.length with h | h
    · simp [Nat.add_mod, h]
    · simp [Nat.add_mod, h]

lemma add_eq (c : InternetChecksum) (data : List UInt8) :
    c.add data = ⟨c.sum + UInt32.ofNat (weight c.parity data),
      c.parity ^^ decide (data.length % 2 = 1)⟩ := by
  have hsum : (c.add data).sum = c.sum + UInt32.ofNat (weight c.parity data) := by
    apply UInt32.toNat_inj.1
    rw [add_sum, UInt32.toNat_add, UInt32.toNat_ofNat', Nat.add_mod_mod]
  rw [← hsum, ← add_parity]

/-- **The state after a sequence of calls**, from a fresh checksum. -/
theorem foldl_add_eq (initialSum : UInt32) (chunks : List (List UInt8)) :
    chunks.foldl add (new initialSum) = ⟨initialSum + UInt32.ofNat (words chunks.flatten).sum,
      decide (chunks.flatten.length % 2 = 1)⟩ := by
  rw [foldl_add, add_eq, sum_words]
  exact congrArg (InternetChecksum.mk _) (Bool.false_xor _)

lemma add_of_even {data : List UInt8} (h : data.length % 2 = 0) (c : InternetChecksum) :
    c.add data = ⟨c.sum + UInt32.ofNat (weight c.parity data), c.parity⟩ := by
  rw [add_eq, h]
  exact congrArg (InternetChecksum.mk _) (Bool.xor_false _)

/-- Chunks of even length commute. -/
lemma add_comm_of_even {x y : List UInt8} (hx : x.length % 2 = 0) (hy : y.length % 2 = 0)
    (c : InternetChecksum) : (c.add x).add y = (c.add y).add x := by
  rw [add_of_even hx, add_of_even hy, add_of_even hy, add_of_even hx]
  simp only [UInt32.add_assoc]
  rw [UInt32.add_comm (UInt32.ofNat (weight c.parity x))]

/-- An even header may be summed beforehand. -/
lemma new_add_words {header : List UInt8} (h : header.length % 2 = 0) (initialSum : UInt32) :
    new (initialSum + UInt32.ofNat (words header).sum) = (new initialSum).add header := by
  rw [add_of_even h, sum_words]
  rfl

/-- **`InternetChecksum` is a streaming computation**, whether or not its sum wraps: the state is a
function of the initial sum and the concatenated data; chunks of even length can be permuted, in any
state; and an even header can be put into the initial sum. -/
theorem streaming :
    (∀ (initialSum : UInt32) (chunks chunks' : List (List UInt8)),
      chunks.flatten = chunks'.flatten →
      chunks.foldl add (new initialSum) = chunks'.foldl add (new initialSum)) ∧
    (∀ (c : InternetChecksum) (chunks chunks' : List (List UInt8)),
      (∀ x ∈ chunks, x.length % 2 = 0) → chunks.Perm chunks' →
      chunks.foldl add c = chunks'.foldl add c) ∧
    (∀ (initialSum : UInt32) (header data : List UInt8), header.length % 2 = 0 →
      (new (initialSum + UInt32.ofNat (words header).sum)).add data =
        ((new initialSum).add header).add data) := by
  refine ⟨?_, ?_, ?_⟩
  · intro initialSum chunks chunks' h
    rw [foldl_add_eq, foldl_add_eq, h]
  · intro c chunks chunks' heven hperm
    exact hperm.foldl_eq' (fun x hx y hy d => add_comm_of_even (heven x hx) (heven y hy) d) c
  · intro initialSum header data h
    rw [new_add_words h]

end Sponge.InternetChecksum
