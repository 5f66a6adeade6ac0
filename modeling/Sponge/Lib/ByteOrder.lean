import Sponge.Lib.BigEndian

/-!
# Byte orders

Numbers in memory, on a host of either byte order, and the conversions between the order of the host
and the one with the most significant byte first. `store_htobe` and `betoh_load` say what the
conversions are for: through them the order of the host cannot be seen in memory.
-/

namespace Sponge.Lib

/-- The lowest `w` bytes of a number, the most significant first. -/
def toBigEndian : ℕ → ℕ → List UInt8
  | 0, _ => []
  | w + 1, n => toBigEndian w (n / 256) ++ [UInt8.ofNat n]

@[simp] lemma length_toBigEndian (w n : ℕ) : (toBigEndian w n).length = w := by
  induction w generalizing n with
  | zero => rfl
  | succ w ih => rw [toBigEndian, List.length_append, ih, List.length_singleton]

lemma bigEndian_toBigEndian (w n : ℕ) : bigEndian (toBigEndian w n) = n % 256 ^ w := by
  induction w generalizing n with
  | zero => simp [toBigEndian, Nat.mod_one]
  | succ w ih =>
    have hpow : 256 ^ (w + 1) = 256 * 256 ^ w := Nat.pow_succ'
    rw [toBigEndian, bigEndian_snoc, ih, UInt8.toNat_ofNat', hpow, Nat.mod_mul]
    omega

lemma toBigEndian_bigEndian (bs : List UInt8) : toBigEndian bs.length (bigEndian bs) = bs := by
  apply bigEndian_inj (length_toBigEndian _ _)
  rw [bigEndian_toBigEndian, Nat.mod_eq_of_lt (bigEndian_lt bs)]

/-- The order of a number's bytes in the memory of a host. -/
inductive ByteOrder where
  | little
  | big
  deriving DecidableEq, Repr

namespace ByteOrder

def swap (w n : ℕ) : ℕ := bigEndian (toBigEndian w n).reverse

/-- From the order of the host to most significant first. -/
def htobe : ByteOrder → ℕ → ℕ → ℕ
  | little, w, n => swap w n
  | big, _, n => n

/-- From most significant first to the order of the host. -/
def betoh : ByteOrder → ℕ → ℕ → ℕ
  | little, w, n => swap w n
  | big, _, n => n

/-- The bytes in memory of a number of `w` bytes. -/
def store : ByteOrder → ℕ → ℕ → List UInt8
  | little, w, n => (toBigEndian w n).reverse
  | big, w, n => toBigEndian w n

/-- The number with the given bytes in memory. -/
def load : ByteOrder → List UInt8 → ℕ
  | little, bs => bigEndian bs.reverse
  | big, bs => bigEndian bs

variable (o : ByteOrder)

@[simp] lemma length_store (w n : ℕ) : (o.store w n).length = w := by
  cases o <;> simp [store]

lemma load_store (w n : ℕ) : o.load (o.store w n) = n % 256 ^ w := by
  cases o with
  | little => rw [load, store, List.reverse_reverse, bigEndian_toBigEndian]
  | big => rw [load, store, bigEndian_toBigEndian]

lemma store_load (bs : List UInt8) : o.store bs.length (o.load bs) = bs := by
  cases o with
  | little =>
    rw [load, store, ← List.length_reverse, toBigEndian_bigEndian, List.reverse_reverse]
  | big => rw [load, store, toBigEndian_bigEndian]

lemma load_lt (bs : List UInt8) : o.load bs < 256 ^ bs.length := by
  cases o with
  | little =>
    rw [load, ← List.length_reverse]
    exact bigEndian_lt _
  | big => exact bigEndian_lt bs

lemma swap_lt (w n : ℕ) : swap w n < 256 ^ w := by
  have h := bigEndian_lt (toBigEndian w n).reverse
  rwa [List.length_reverse, length_toBigEndian] at h

lemma htobe_lt {w n : ℕ} (h : n < 256 ^ w) : o.htobe w n < 256 ^ w := by
  cases o with
  | little => exact swap_lt w n
  | big => exact h

/-- What has been converted lies in memory with the most significant byte first. -/
theorem store_htobe (w n : ℕ) : o.store w (o.htobe w n) = toBigEndian w n := by
  cases o with
  | little =>
    have h := toBigEndian_bigEndian (toBigEndian w n).reverse
    rw [List.length_reverse, length_toBigEndian] at h
    rw [store, htobe, swap, h, List.reverse_reverse]
  | big => rfl

theorem betoh_load (bs : List UInt8) : o.betoh bs.length (o.load bs) = bigEndian bs := by
  cases o with
  | little =>
    rw [betoh, load, swap, ← List.length_reverse, toBigEndian_bigEndian, List.reverse_reverse]
  | big => rfl

end ByteOrder

end Sponge.Lib
