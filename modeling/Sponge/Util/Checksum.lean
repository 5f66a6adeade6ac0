import Sponge.Lib.BigEndian
import Sponge.Lib.OnesComplement

/-!
# `InternetChecksum`

The class of `util.hh`: a sum on 32 bits with a parity flag, and the folding loop of `value`. The
sum is the sum of the big-endian 16-bit words of the data, modulo `2 ^ 32`; as long as that sum has
not wrapped, `value` is the complement of its ones' complement residue.
-/

namespace Sponge

open Lib

structure InternetChecksum where
  sum : UInt32
  parity : Bool
  deriving DecidableEq, Repr

namespace InternetChecksum

def new (initialSum : UInt32) : InternetChecksum := ⟨initialSum, false⟩

/-- One turn of the loop of `add`. -/
def addByte (c : InternetChecksum) (byte : UInt8) : InternetChecksum :=
  let val : UInt16 := byte.toUInt16
  let val := if !c.parity then val <<< 8 else val
  { sum := c.sum + val.toUInt32, parity := !c.parity }

def add (c : InternetChecksum) (data : List UInt8) : InternetChecksum := data.foldl addByte c

/-- The body of the loop `while (ret > 0xffff)` of `value`. -/
def foldTurn (ret : UInt32) : UInt32 := (ret >>> 16) + (ret &&& 0xffff)

lemma toNat_foldTurn (ret : UInt32) : (foldTurn ret).toNat = carry (65535 + 1) ret.toNat := by
  have hlt := ret.toNat_lt
  have hand : ret.toNat &&& 65535 = ret.toNat % 65536 := Nat.and_two_pow_sub_one_eq_mod _ 16
  unfold foldTurn carry
  rw [UInt32.toNat_add, UInt32.toNat_shiftRight, UInt32.toNat_and]
  show (ret.toNat >>> 16 + (ret.toNat &&& 65535)) % 2 ^ 32 = _
  rw [hand, Nat.shiftRight_eq_div_pow]
  omega

lemma toNat_foldTurn_lt {ret : UInt32} (h : ret > 0xffff) : (foldTurn ret).toNat < ret.toNat := by
  rw [toNat_foldTurn]
  exact carry_lt (by decide) (UInt32.lt_iff_toNat_lt.1 h)

/-- The loop `while (ret > 0xffff)` of `value`. -/
def foldLoop (ret : UInt32) : UInt32 := if ret > 0xffff then foldLoop (foldTurn ret) else ret
termination_by ret.toNat
decreasing_by exact toNat_foldTurn_lt ‹_›

def value (c : InternetChecksum) : UInt16 := (~~~(foldLoop c.sum)).toUInt16

/-! ### The sum -/

/-- The big-endian 16-bit words of some data, an odd last byte padded with a zero byte. -/
def words : List UInt8 → List ℕ
  | [] => []
  | [a] => [bigEndian [a, 0]]
  | a :: b :: rest => bigEndian [a, b] :: words rest

/-- What the bytes add to the sum when the first of them meets the parity `p`. -/
def weight (p : Bool) : List UInt8 → ℕ
  | [] => 0
  | b :: rest => (if p then b.toNat else b.toNat * 256) + weight (!p) rest

/-- The sum that the checksum of `chunks` is about, as an integer. -/
def total (initialSum : UInt32) (chunks : List (List UInt8)) : ℕ :=
  initialSum.toNat + (words chunks.flatten).sum

lemma bigEndian_pair (a b : UInt8) : bigEndian [a, b] = a.toNat * 256 + b.toNat := by
  rw [show [a, b] = [a] ++ [b] by rfl, bigEndian_snoc, show [a] = [] ++ [a] by rfl, bigEndian_snoc,
    bigEndian_nil]
  omega

lemma sum_words (data : List UInt8) : (words data).sum = weight false data := by
  induction data using words.induct with
  | case1 => rfl
  | case2 a => simp [words, weight, bigEndian_pair]
  | case3 a b rest ih =>
    rw [words, List.sum_cons, ih, bigEndian_pair]
    simp [weight]
    omega

lemma addByte_sum (c : InternetChecksum) (b : UInt8) :
    (c.addByte b).sum.toNat =
      (c.sum.toNat + if c.parity then b.toNat else b.toNat * 256) % 2 ^ 32 := by
  have hb := b.toNat_lt
  unfold addByte
  cases c.parity with
  | false =>
    simp [UInt32.toNat_add, Nat.shiftLeft_eq]
    omega
  | true => simp [UInt32.toNat_add]

/-- **The sum after `add`**, wrap-around included. -/
theorem add_sum (c : InternetChecksum) (data : List UInt8) :
    (c.add data).sum.toNat = (c.sum.toNat + weight c.parity data) % 2 ^ 32 := by
  induction data generalizing c with
  | nil =>
    rw [weight, Nat.add_zero, Nat.mod_eq_of_lt c.sum.toNat_lt]
    rfl
  | cons b data ih =>
    have hpar : (c.addByte b).parity = !c.parity := rfl
    rw [add, List.foldl_cons]
    refine (ih (c.addByte b)).trans ?_
    rw [addByte_sum, hpar, weight, Nat.mod_add_mod, Nat.add_assoc]

lemma foldl_add (c : InternetChecksum) (chunks : List (List UInt8)) :
    chunks.foldl add c = c.add chunks.flatten := List.foldl_flatten.symm

/-! ### The value -/

/-- **The folding loop ends**, after some turns, with the residue of its argument. -/
theorem foldLoop_spec (ret : UInt32) :
    (∃ n, foldLoop ret = foldTurn^[n] ret) ∧ (foldLoop ret).toNat = residue 65535 ret.toNat := by
  induction ret using foldLoop.induct with
  | case1 ret h ih =>
    obtain ⟨⟨n, hn⟩, hres⟩ := ih
    rw [foldLoop, if_pos h]
    refine ⟨⟨n + 1, hn⟩, ?_⟩
    rw [hres, toNat_foldTurn, residue_carry]
  | case2 ret h =>
    rw [foldLoop, if_neg h]
    have hle : ret.toNat ≤ 65535 := Nat.le_of_not_lt fun hlt => h (UInt32.lt_iff_toNat_lt.2 hlt)
    exact ⟨⟨0, rfl⟩, (residue_of_le hle).symm⟩

lemma value_eq (c : InternetChecksum) : c.value.toNat = 0xffff - residue 65535 c.sum.toNat := by
  have hle := residue_le (m := 65535) (by decide) c.sum.toNat
  rw [← (foldLoop_spec c.sum).2] at hle ⊢
  unfold value
  rw [UInt32.toNat_toUInt16, UInt32.toNat_not]
  show (2 ^ 32 - 1 - _) % 2 ^ 16 = _
  omega

/-- The value, as long as the sum has not wrapped. -/
lemma value_foldl_add {initialSum : UInt32} {chunks : List (List UInt8)}
    (hT : total initialSum chunks < 2 ^ 32) :
    (chunks.foldl add (new initialSum)).value.toNat =
      0xffff - residue 65535 (total initialSum chunks) := by
  rw [foldl_add, value_eq, add_sum]
  show 0xffff - residue 65535 ((initialSum.toNat + weight false chunks.flatten) % 2 ^ 32) = _
  rw [← sum_words]
  exact congrArg (fun T => 0xffff - residue 65535 T) (Nat.mod_eq_of_lt hT)

lemma sum_words_le (data : List UInt8) : (words data).sum ≤ 65535 * ((data.length + 1) / 2) := by
  induction data using words.induct with
  | case1 => exact Nat.zero_le _
  | case2 a =>
    have := bigEndian_lt [a, 0]
    simp only [words, List.sum_cons, List.sum_nil, List.length_cons, List.length_nil] at this ⊢
    omega
  | case3 a b rest ih =>
    have := bigEndian_lt [a, b]
    simp only [words, List.sum_cons, List.length_cons, List.length_nil] at this ⊢
    omega

lemma sum_words_replicate (n : ℕ) :
    (words (List.replicate (2 * n + 1) 0xff)).sum = 65535 * n + 65280 := by
  induction n with
  | zero => decide
  | succ n ih =>
    rw [show 2 * (n + 1) + 1 = 2 * n + 1 + 1 + 1 by omega, List.replicate_succ, List.replicate_succ,
      words, List.sum_cons, ih, bigEndian_pair, show (0xff : UInt8).toNat = 255 by rfl]
    omega

/-- **`value` is the Internet checksum as long as the sum fits in 32 bits**: after any calls of
`add`, with an integer sum below `2 ^ 32`, it is the complement of the ones' complement sum, and its
loop ends. Without an initial sum that covers all data of up to 131074 bytes, and no more: on 131075
bytes `0xff` the sum wraps and the value is wrong. -/
theorem value_rfc1071 :
    (∀ (initialSum : UInt32) (chunks : List (List UInt8)), total initialSum chunks < 2 ^ 32 →
      (chunks.foldl add (new initialSum)).value.toNat =
        0xffff - residue 65535 (total initialSum chunks)) ∧
    (∀ ret : UInt32, ∃ n, foldLoop ret = foldTurn^[n] ret ∧ ¬ foldLoop ret > 0xffff) ∧
    (∀ chunks : List (List UInt8), chunks.flatten.length ≤ 131074 → total 0 chunks < 2 ^ 32) ∧
    (∃ data : List UInt8, data.length = 131075 ∧ 2 ^ 32 ≤ total 0 [data] ∧
      ((new 0).add data).sum.toNat ≠ total 0 [data] ∧
      ((new 0).add data).value.toNat ≠ 0xffff - residue 65535 (total 0 [data])) := by
  refine ⟨fun _ _ => value_foldl_add, ?_, ?_, ?_⟩
  · intro ret
    obtain ⟨⟨n, hn⟩, hres⟩ := foldLoop_spec ret
    refine ⟨n, hn, fun hgt => ?_⟩
    have hle := residue_le (m := 65535) (by decide) ret.toNat
    have hlt : 65535 < (foldLoop ret).toNat := UInt32.lt_iff_toNat_lt.1 hgt
    omega
  · intro chunks hlen
    have hle := sum_words_le chunks.flatten
    show 0 + _ < _
    omega
  · obtain ⟨data, hlen, hwords⟩ :
        ∃ data : List UInt8, data.length = 131075 ∧ (words data).sum = 4295032575 :=
      ⟨List.replicate (2 * 65537 + 1) 0xff, by rw [List.length_replicate],
        by rw [sum_words_replicate]⟩
    have htotal : total 0 [data] = 4295032575 := by
      rw [total, List.flatten_singleton, hwords]
      rfl
    have hsum : ((new 0).add data).sum.toNat = 65279 := by
      rw [add_sum]
      show (0 + weight false data) % 2 ^ 32 = _
      rw [← sum_words, hwords, Nat.zero_add]
      rfl
    refine ⟨data, hlen, ?_, ?_, ?_⟩
    · rw [htotal]
      decide
    · rw [htotal, hsum]
      decide
    · rw [htotal, value_eq, hsum]
      decide

end InternetChecksum

end Sponge
