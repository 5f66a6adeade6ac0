import Mathlib.Data.List.Basic
import Mathlib.Data.Nat.Digits.Defs

/-!
# Numbers from bytes, most significant first

`bigEndian bs` is the number whose digits in base 256 are the bytes `bs`. `bigEndian_snoc` reads it
from the right end, one byte at a time, which is the direction of a shift-and-add loop.
-/

namespace Sponge.Lib

/-- The number with the given big-endian bytes. -/
def bigEndian (bs : List UInt8) : ℕ := Nat.ofDigits 256 (bs.reverse.map UInt8.toNat)

@[simp] lemma bigEndian_nil : bigEndian [] = 0 := rfl

lemma bigEndian_snoc (bs : List UInt8) (b : UInt8) :
    bigEndian (bs ++ [b]) = bigEndian bs * 256 + b.toNat := by
  unfold bigEndian
  rw [List.reverse_append, List.reverse_singleton, List.singleton_append, List.map_cons,
    Nat.ofDigits_cons]
  omega

lemma digit_lt {bs : List UInt8} {d : ℕ} (h : d ∈ bs.reverse.map UInt8.toNat) : d < 256 := by
  obtain ⟨b, -, rfl⟩ := List.mem_map.1 h
  exact b.toNat_lt

lemma bigEndian_lt (bs : List UInt8) : bigEndian bs < 256 ^ bs.length := by
  have h := Nat.ofDigits_lt_base_pow_length (b := 256) (by decide) (fun _ => @digit_lt bs _)
  rwa [List.length_map, List.length_reverse] at h

theorem bigEndian_inj {as bs : List UInt8} (hlen : as.length = bs.length)
    (h : bigEndian as = bigEndian bs) : as = bs := by
  have hdig := Nat.ofDigits_inj_of_len_eq (b := 256) (by decide) (by simpa using hlen)
    (fun _ => digit_lt) (fun _ => digit_lt) h
  have hinj : Function.Injective UInt8.toNat := fun _ _ => UInt8.toNat_inj.1
  exact List.reverse_inj.1 (List.map_injective_iff.2 hinj hdig)

end Sponge.Lib
