import Sponge.Lib.Machine

/-!
# `ByteStream`

The class of `byte_stream.hh` and its methods, as `byte_stream.cc` computes them. Strings and the
deque are lists of bytes. Lengths and positions are natural numbers, except where the source
calculates with `size_t` values that could wrap: the two counters and the subtraction
`_capacity - _buffer.size()` are on 64 bits.
-/

namespace Sponge

/-- The class `ByteStream`. -/
structure ByteStream where
  buffer : List UInt8
  capacity : UInt64
  readCount : UInt64
  writeCount : UInt64
  isInputEnded : Bool
  error : Bool
  deriving DecidableEq, Repr

namespace ByteStream

/-- `ByteStream(capacity)`. -/
def new (capacity : UInt64) : ByteStream := ⟨[], capacity, 0, 0, false, false⟩

def bufferSize (s : ByteStream) : ℕ := s.buffer.length

def bufferEmpty (s : ByteStream) : Bool := s.buffer.isEmpty

def inputEnded (s : ByteStream) : Bool := s.isInputEnded

def eof (s : ByteStream) : Bool := s.inputEnded && s.bufferEmpty

def bytesWritten (s : ByteStream) : UInt64 := s.writeCount

def bytesRead (s : ByteStream) : UInt64 := s.readCount

/-- `_capacity - _buffer.size()`, a subtraction of `size_t` values. -/
def remainingCapacity (s : ByteStream) : ℕ := (s.capacity - UInt64.ofNat s.bufferSize).toNat

/-- `for (size_t i = 0; i < len; i++) _buffer.push_back(data[i]);` -/
def pushBack (buffer data : List UInt8) : ℕ → List UInt8
  | 0 => buffer
  | i + 1 => pushBack buffer data i ++ data[i]?.toList

/-- `for (size_t i = 0; i < length; i++) _buffer.pop_front();` -/
def popFront (buffer : List UInt8) : ℕ → List UInt8
  | 0 => buffer
  | i + 1 => (popFront buffer i).tail

def write (s : ByteStream) (data : List UInt8) : ℕ × ByteStream :=
  let len := if data.length > s.remainingCapacity then s.remainingCapacity else data.length
  (len, { s with
    writeCount := s.writeCount + UInt64.ofNat len
    buffer := pushBack s.buffer data len })

def peekOutput (s : ByteStream) (len : ℕ) : List UInt8 :=
  if s.bufferEmpty then []
  else
    let length := if len > s.bufferSize then s.bufferSize else len
    s.buffer.take length

def popOutput (s : ByteStream) (len : ℕ) : ByteStream :=
  if s.bufferEmpty then s
  else
    let length := if len > s.bufferSize then s.bufferSize else len
    { s with
      readCount := s.readCount + UInt64.ofNat length
      buffer := popFront s.buffer length }

def read (s : ByteStream) (len : ℕ) : List UInt8 × ByteStream := (s.peekOutput len, s.popOutput len)

def endInput (s : ByteStream) : ByteStream := { s with isInputEnded := true }

def setError (s : ByteStream) : ByteStream := { s with error := true }

/-! ### The methods as moves of one machine -/

/-- A call of a method that is not a plain accessor. -/
inductive Op where
  | write (data : List UInt8)
  | read (len : ℕ)
  | popOutput (len : ℕ)
  | peekOutput (len : ℕ)
  | endInput
  | setError
  deriving DecidableEq, Repr

/-- What a call returns. -/
inductive Ret where
  | void
  | count (n : ℕ)
  | bytes (b : List UInt8)
  deriving DecidableEq, Repr

def step (s : ByteStream) : Op → Ret × ByteStream
  | .write data => (.count (s.write data).1, (s.write data).2)
  | .read len => (.bytes (s.read len).1, (s.read len).2)
  | .popOutput len => (.void, s.popOutput len)
  | .peekOutput len => (.bytes (s.peekOutput len), s)
  | .endInput => (.void, s.endInput)
  | .setError => (.void, s.setError)

/-- A `ByteStream` and the calls made on it. -/
def machine : Lib.Machine ByteStream Op Ret := ⟨step⟩

@[simp] lemma machine_step (s : ByteStream) (op : Op) : machine.step s op = s.step op := rfl

/-! ### What the methods do to the buffer -/

/-- The clip of a length that `write`, `peek_output` and `pop_output` share. -/
lemma clip_eq (len bound : ℕ) : (if len > bound then bound else len) = min len bound := by
  split <;> omega

lemma pushBack_eq (buffer data : List UInt8) {n : ℕ} (h : n ≤ data.length) :
    pushBack buffer data n = buffer ++ data.take n := by
  induction n with
  | zero => simp [pushBack]
  | succ i ih =>
    have hi : i < data.length := h
    rw [pushBack, ih (by omega), List.take_add_one, List.append_assoc]

lemma popFront_eq (buffer : List UInt8) (n : ℕ) : popFront buffer n = buffer.drop n := by
  induction n with
  | zero => rfl
  | succ i ih => rw [popFront, ih, List.tail_drop]

lemma bufferEmpty_iff (s : ByteStream) : s.bufferEmpty = true ↔ s.buffer = [] :=
  List.isEmpty_iff

lemma peekOutput_eq (s : ByteStream) (len : ℕ) :
    s.peekOutput len = s.buffer.take (min len s.bufferSize) := by
  unfold peekOutput
  split
  · rename_i h
    rw [(bufferEmpty_iff s).1 h, List.take_nil]
  · rw [clip_eq]

lemma length_peekOutput (s : ByteStream) (len : ℕ) :
    (s.peekOutput len).length = min len s.bufferSize := by
  rw [peekOutput_eq, List.length_take, bufferSize]
  omega

lemma popOutput_eq (s : ByteStream) (len : ℕ) :
    s.popOutput len = { s with
      readCount := s.readCount + UInt64.ofNat (min len s.bufferSize)
      buffer := s.buffer.drop len } := by
  unfold popOutput
  split
  · rename_i h
    have hb := (bufferEmpty_iff s).1 h
    obtain ⟨buffer, capacity, readCount, writeCount, isInputEnded, error⟩ := s
    subst hb
    simp [bufferSize]
  · simp only [clip_eq, popFront_eq]
    rw [bufferSize, ← List.drop_eq_drop_min]

lemma write_count (s : ByteStream) (data : List UInt8) :
    (s.write data).1 = min data.length s.remainingCapacity := clip_eq _ _

lemma write_state (s : ByteStream) (data : List UInt8) :
    (s.write data).2 = { s with
      writeCount := s.writeCount + UInt64.ofNat (s.write data).1
      buffer := s.buffer ++ data.take s.remainingCapacity } := by
  have h : pushBack s.buffer data (s.write data).1 = s.buffer ++ data.take s.remainingCapacity := by
    rw [pushBack_eq _ _ (by rw [write_count]; omega), write_count, Nat.min_comm,
      ← List.take_eq_take_min]
  rw [← h]
  rfl

end ByteStream

end Sponge
