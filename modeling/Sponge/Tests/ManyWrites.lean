import Sponge.Tests.Harness

/-!
# `byte_stream_many_writes`

The one test that draws its input: a thousand strings of random lengths and letters are written to a
stream that has room for all of them, and after each the accessors are asked for the totals. The
random generator is a parameter, so what is proved holds of every seed.
-/

namespace Sponge.Tests

open Lib ByteStreamTestHarness

def NREPS : ℕ := 1000

def MIN_WRITE : ℕ := 10

def MAX_WRITE : ℕ := 200

def CAPACITY : ℕ := MAX_WRITE * NREPS

def EXIT_SUCCESS : ℕ := 0

def EXIT_FAILURE : ℕ := 1

section Program

variable {σ γ : Type*} (I : Implementation σ) (next : γ → UInt32 × γ)

/-- `MIN_WRITE + (rd() % (MAX_WRITE - MIN_WRITE))`. -/
def writeSize (r : UInt32) : ℕ := MIN_WRITE + r.toNat % (MAX_WRITE - MIN_WRITE)

/-- `generate(d.begin(), d.end(), [&] { return 'a' + (rd() % 26); });` on a string of the length. -/
def generate : ℕ → γ → Text × γ
  | 0, rd => ([], rd)
  | n + 1, rd =>
    let d := generate n (next rd).2
    (UInt8.ofNat (97 + (next rd).1.toNat % 26) :: d.1, d.2)

/-- The calls of `test.execute` in one round. -/
def round (d : Text) (size acc : ℕ) : List ByteStreamTestStep :=
  [.write d (some size), .inputEnded false, .bufferEmpty false, .eof false, .bytesRead 0,
    .bytesWritten acc, .remainingCapacity (CAPACITY - acc), .bufferSize acc]

/-- The loop, with the number of rounds to come. -/
def writeLoop : ℕ → γ → ℕ → ByteStreamTestHarness σ → Except Text Unit × ByteStreamTestHarness σ
  | 0, _, _, test => (.ok (), test)
  | i + 1, rd, acc, test =>
    let size := writeSize (next rd).1
    let d := generate next size (next rd).2
    match test.run I (round d.1 size (acc + size)) with
    | (.ok _, test) => writeLoop i d.2 (acc + size) test
    | (.error e, test) => (.error e, test)

/-- `main`: the status, and what went to the standard error. -/
def manyWrites (rd : γ) : ℕ × Text :=
  match writeLoop I next NREPS rd 0 (new I (ascii "many writes") (UInt64.ofNat CAPACITY)) with
  | (.ok _, test) => (EXIT_SUCCESS, test.cerr)
  | (.error what, test) =>
    (EXIT_FAILURE, test.cerr ++ ascii "Exception: " ++ cStr 0 what ++ ascii "\n")

end Program

section Succeeds

variable {σ γ : Type*} {I : Implementation σ} {next : γ → UInt32 × γ}

lemma length_generate (n : ℕ) (rd : γ) : (generate next n rd).1.length = n := by
  induction n generalizing rd with
  | zero => rfl
  | succ n ih => exact congrArg (· + 1) (ih _)

lemma writeSize_bounds (r : UInt32) : 0 < writeSize r ∧ writeSize r ≤ MAX_WRITE := by
  have h : r.toNat % (MAX_WRITE - MIN_WRITE) < MAX_WRITE - MIN_WRITE := Nat.mod_lt _ (by decide)
  simp only [writeSize, MIN_WRITE, MAX_WRITE] at h ⊢
  omega

/-- The FIFO after some rounds: `acc` bytes have come in, none has gone out. -/
structure Filled {c : ℕ} (f : Fifo UInt8 c) (acc : ℕ) : Prop where
  accepted : f.accepted.length = acc
  removed : f.removed = 0
  closed : f.closed = false

namespace Filled

variable {c acc : ℕ} {f : Fifo UInt8 c} (h : Filled f acc)
include h

lemma length_contents : f.contents.length = acc := by
  rw [Fifo.length_contents, h.accepted, h.removed, Nat.sub_zero]

lemma room_eq : f.room = c - acc := by rw [Fifo.room, h.length_contents]

lemma write {d : Text} (hroom : acc + d.length ≤ c) : Filled (f.write d) (acc + d.length) := by
  refine ⟨?_, h.removed, h.closed⟩
  rw [Fifo.accepted_write_of_le (by rw [h.room_eq]; omega), List.length_append, h.accepted]

end Filled

lemma met_round {c acc : ℕ} {f : Fifo UInt8 c} (h : Filled f acc) (hc : c = CAPACITY) {d : Text}
    (hpos : 0 < d.length) (hroom : acc + d.length ≤ c) :
    Met f (round d d.length (acc + d.length)) := by
  have hw := h.write hroom
  have hsmall : acc + d.length < 2 ^ 64 := Nat.lt_of_le_of_lt hroom (by rw [hc]; decide)
  have hne : (f.write d).contents.isEmpty = false := by
    rw [List.isEmpty_eq_false_iff, ← List.length_pos_iff, hw.length_contents]
    omega
  refine ⟨?_, hw.closed, hne, ?_, ?_, ?_, ?_, hw.length_contents, trivial⟩
  · show min d.length f.room = d.length
    rw [h.room_eq]
    omega
  · show ((f.write d).closed && (f.write d).contents.isEmpty) = false
    rw [hw.closed, Bool.false_and]
  · show (f.write d).removed % 2 ^ 64 = 0
    rw [hw.removed, Nat.zero_mod]
  · show (f.write d).accepted.length % 2 ^ 64 = acc + d.length
    rw [hw.accepted, Nat.mod_eq_of_lt hsmall]
  · show (f.write d).room = CAPACITY - (acc + d.length)
    rw [hw.room_eq, hc]

/-- The loop goes through, as long as there is room for the rounds to come. -/
lemma writeLoop_ok {capacity : UInt64} (hI : I.Conforms capacity) (hc : capacity.toNat = CAPACITY)
    {f : Fifo UInt8 capacity.toNat} {acc : ℕ} (hf : Filled f acc) (i : ℕ)
    (hroom : acc + MAX_WRITE * i ≤ capacity.toNat) (rd : γ) {test : ByteStreamTestHarness σ}
    (hreach : I.Reach capacity f test.byteStream) :
    ∃ test', writeLoop I next i rd acc test = (.ok (), test') ∧ test'.cerr = test.cerr := by
  induction i generalizing f acc rd test with
  | zero => exact ⟨test, rfl, rfl⟩
  | succ i ih =>
    obtain ⟨hpos, hle⟩ := writeSize_bounds (next rd).1
    simp only [writeLoop]
    have hlen : (generate next (writeSize (next rd).1) (next rd).2).1.length =
        writeSize (next rd).1 := length_generate _ _
    generalize generate next (writeSize (next rd).1) (next rd).2 = d at hlen ⊢
    rw [Nat.mul_succ] at hroom
    have hmet := met_round hf hc (d := d.1) (by omega) (by omega)
    have hw := hf.write (d := d.1) (by omega)
    rw [hlen] at hmet hw
    obtain ⟨s, hs, hrun⟩ := run_of_met hI hreach hmet
    rw [hrun]
    exact ih hw (by omega) d.2 hs

/-- **The test succeeds on `ByteStream`**, whatever the generator draws. -/
theorem manyWrites_succeeds (next : γ → UInt32 × γ) (rd : γ) :
    manyWrites byteStream next rd = (EXIT_SUCCESS, []) := by
  have hreach : byteStream.Reach (UInt64.ofNat CAPACITY) (Fifo.empty UInt8 _)
      (new byteStream (ascii "many writes") (UInt64.ofNat CAPACITY)).byteStream := .new
  have hfilled : Filled (Fifo.empty UInt8 (UInt64.ofNat CAPACITY).toNat) 0 := ⟨rfl, rfl, rfl⟩
  have hroom : 0 + MAX_WRITE * NREPS ≤ (UInt64.ofNat CAPACITY).toNat := by decide
  obtain ⟨test, hloop, hcerr⟩ :=
    writeLoop_ok (byteStream_conforms _) (by decide) hfilled NREPS hroom rd hreach
  rw [manyWrites, hloop]
  exact Prod.ext rfl hcerr

end Succeeds

end Sponge.Tests
