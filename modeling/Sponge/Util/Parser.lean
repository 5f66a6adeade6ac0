import Sponge.Lib.BigEndian
import Sponge.Lib.Machine
import Sponge.Util.Buffer

/-!
# `NetParser` and `NetUnparser`

The classes of `parser.hh`. The template parameter of `_parse_int` and `_unparse_int` is one of the
three integer types they are instantiated at; an integer is a bit vector of the width of its type,
so the shift of the parser's loop discards what leaves the type, as in the source.
-/

namespace Sponge

open Lib

inductive ParseResult where
  | noError
  | badChecksum
  | packetTooShort
  | wrongIPVersion
  | headerTooShort
  | truncatedPacket
  | unsupported
  deriving DecidableEq, Repr

/-- The types the integer methods are instantiated at. -/
inductive IntType where
  | u8
  | u16
  | u32
  deriving DecidableEq, Repr

def IntType.sizeof : IntType → ℕ
  | u8 => 1
  | u16 => 2
  | u32 => 4

abbrev IntType.Val (t : IntType) : Type := BitVec (8 * t.sizeof)

structure NetParser where
  buffer : Buffer
  error : ParseResult
  deriving DecidableEq, Repr

namespace NetParser

def new (buffer : Buffer) : NetParser := ⟨buffer, .noError⟩

def getError (p : NetParser) : ParseResult := p.error

def setError (p : NetParser) (res : ParseResult) : NetParser := { p with error := res }

def hasError (p : NetParser) : Bool := p.getError != .noError

def checkSize (p : NetParser) (size : ℕ) : NetParser :=
  if size > p.buffer.size then p.setError .packetTooShort else p

/-- The value of `ret` after `i` turns of the loop of `_parse_int`. -/
def parseLoop (t : IntType) (b : Buffer) : ℕ → Except Exn t.Val
  | 0 => .ok 0
  | i + 1 =>
    match parseLoop t b i, b.at_ i with
    | .ok ret, .ok c => .ok ((ret <<< 8) + c.toBitVec.setWidth _)
    | .error e, _ => .error e
    | .ok _, .error e => .error e

/-- `_parse_int<T>()`. -/
def parseInt (t : IntType) (p : NetParser) : Except Exn t.Val × NetParser :=
  let p := p.checkSize t.sizeof
  if p.hasError then (.ok 0, p)
  else
    match parseLoop t p.buffer t.sizeof with
    | .error e => (.error e, p)
    | .ok ret =>
      match p.buffer.removePrefix t.sizeof with
      | (.error e, b) => (.error e, { p with buffer := b })
      | (.ok (), b) => (.ok ret, { p with buffer := b })

def u32 (p : NetParser) : Except Exn (BitVec 32) × NetParser := parseInt .u32 p

def u16 (p : NetParser) : Except Exn (BitVec 16) × NetParser := parseInt .u16 p

def u8 (p : NetParser) : Except Exn (BitVec 8) × NetParser := parseInt .u8 p

def removePrefix (p : NetParser) (n : ℕ) : Except Exn Unit × NetParser :=
  let p := p.checkSize n
  if p.hasError then (.ok (), p)
  else ((p.buffer.removePrefix n).1, { p with buffer := (p.buffer.removePrefix n).2 })

end NetParser

/-! ### `NetUnparser` -/

namespace NetUnparser

/-- The string after `i` turns of the loop of `_unparse_int`. -/
def unparseLoop (s : List UInt8) (t : IntType) (val : t.Val) : ℕ → List UInt8
  | 0 => s
  | i + 1 =>
    unparseLoop s t val i ++
      [⟨((val >>> ((t.sizeof - i - 1) * 8)) &&& 0xff).setWidth 8⟩]

/-- `_unparse_int<T>(s, val)`. -/
def unparseInt (s : List UInt8) (t : IntType) (val : t.Val) : List UInt8 :=
  unparseLoop s t val t.sizeof

def u32 (s : List UInt8) (val : BitVec 32) : List UInt8 := unparseInt s .u32 val

def u16 (s : List UInt8) (val : BitVec 16) : List UInt8 := unparseInt s .u16 val

def u8 (s : List UInt8) (val : BitVec 8) : List UInt8 := unparseInt s .u8 val

end NetUnparser

/-! ### The calls of a parser as moves of one machine -/

namespace NetParser

/-- A call of an integer method or of `remove_prefix`. -/
inductive Call where
  | int (t : IntType)
  | removePrefix (n : ℕ)
  deriving DecidableEq, Repr

structure Token where
  type : IntType
  val : type.Val
  deriving DecidableEq, Repr

/-- What a call returns. -/
inductive Ret where
  | void
  | int (tok : Token)
  deriving DecidableEq, Repr

/-- `u8()`, `u16()` or `u32()`, by the type of its value. -/
def int (p : NetParser) : (t : IntType) → Except Exn t.Val × NetParser
  | .u8 => p.u8
  | .u16 => p.u16
  | .u32 => p.u32

def step (p : NetParser) : Call → Except Exn Ret × NetParser
  | .int t => ((p.int t).1.map fun v => .int ⟨t, v⟩, (p.int t).2)
  | .removePrefix n => ((p.removePrefix n).1.map fun _ => .void, (p.removePrefix n).2)

/-- A `NetParser` and the calls made on it. -/
def machine : Machine NetParser Call (Except Exn Ret) := ⟨step⟩

@[simp] lemma machine_step (p : NetParser) (c : Call) : machine.step p c = p.step c := rfl

end NetParser

/-! ### What a call does -/

namespace NetParser

/-- The number of bytes a call asks for. -/
def Call.width : Call → ℕ
  | .int t => t.sizeof
  | .removePrefix n => n

/-- What a call returns when it reads nothing. -/
def Call.zero : Call → Ret
  | .int t => .int ⟨t, 0⟩
  | .removePrefix _ => .void

/-- What a call returns when the bytes `str` are enough for it. -/
def Call.value (str : List UInt8) : Call → Ret
  | .int t => .int ⟨t, BitVec.ofNat _ (bigEndian (str.take t.sizeof))⟩
  | .removePrefix _ => .void

/-- One turn of the shift-and-add loop, modulo the width of the type. -/
lemma shift_add (w a : ℕ) (c : UInt8) :
    (BitVec.ofNat w a <<< 8) + c.toBitVec.setWidth w = BitVec.ofNat w (a * 256 + c.toNat) := by
  apply BitVec.eq_of_toNat_eq
  rw [BitVec.toNat_add, BitVec.toNat_shiftLeft, BitVec.toNat_setWidth, BitVec.toNat_ofNat,
    BitVec.toNat_ofNat, Nat.shiftLeft_eq, Nat.mod_mul_mod, ← Nat.add_mod]
  rfl

lemma parseLoop_eq (t : IntType) (b : Buffer) {i : ℕ} (h : i ≤ b.str.length) :
    parseLoop t b i = .ok (BitVec.ofNat _ (bigEndian (b.str.take i))) := by
  induction i with
  | zero => rfl
  | succ i ih =>
    rw [parseLoop, ih (by omega), Buffer.at_of_lt h, List.take_succ_eq_append_getElem h,
      bigEndian_snoc, ← shift_add]

lemma int_eq (p : NetParser) (t : IntType) : p.int t = parseInt t p := by
  cases t <;> rfl

lemma hasError_iff (p : NetParser) : p.hasError = true ↔ p.error ≠ .noError := by
  simp [hasError, getError]

lemma checkSize_of_le {p : NetParser} {size : ℕ} (h : size ≤ p.buffer.size) :
    p.checkSize size = p := if_neg (Nat.not_lt.2 h)

lemma checkSize_of_gt {p : NetParser} {size : ℕ} (h : p.buffer.size < size) :
    p.checkSize size = p.setError .packetTooShort := if_pos h

/-- After the size check has found an error, or found one there already, a call reads nothing. -/
lemma step_of_checkSize {p : NetParser} {c : Call} (h : (p.checkSize c.width).error ≠ .noError) :
    p.step c = (.ok c.zero, p.checkSize c.width) := by
  have he := (hasError_iff _).2 h
  cases c with
  | int t =>
    simp only [Call.width] at he
    simp only [step, int_eq, parseInt, he, if_true]
    rfl
  | removePrefix n =>
    simp only [Call.width] at he
    simp only [step, removePrefix, he, if_true]
    rfl

theorem step_of_short {p : NetParser} {c : Call} (hw : p.buffer.size < c.width) :
    p.step c = (.ok c.zero, p.setError .packetTooShort) := by
  have h := checkSize_of_gt hw
  rw [step_of_checkSize (by rw [h]; exact fun h => by cases h), h]

theorem step_of_error {p : NetParser} (c : Call) (he : p.error ≠ .noError) :
    p.step c = (.ok c.zero, p.checkSize c.width) := by
  refine step_of_checkSize ?_
  unfold checkSize
  split
  · exact fun h => by cases h
  · exact he

theorem step_of_fits {p : NetParser} {c : Call} (he : p.error = .noError)
    (hw : c.width ≤ p.buffer.size) :
    p.step c = (.ok (c.value p.buffer.str),
      { p with buffer := (p.buffer.removePrefix c.width).2 }) := by
  have hno : p.hasError = false := by
    rw [← Bool.not_eq_true, hasError_iff, not_not]
    exact he
  have hcheck := checkSize_of_le hw
  obtain ⟨hfst, -⟩ := Buffer.removePrefix_of_le hw
  cases c with
  | int t =>
    simp only [Call.width] at hcheck hfst hw
    simp only [step, int_eq, parseInt, hcheck, hno, parseLoop_eq t p.buffer hw]
    rw [← Prod.eta (p.buffer.removePrefix t.sizeof), hfst]
    rfl
  | removePrefix n =>
    simp only [Call.width] at hcheck hfst
    simp only [step, removePrefix, hcheck, hno, hfst]
    rfl

end NetParser

/-- `u8`, `u16` or `u32` of `NetUnparser`, by the type of the value. -/
def NetUnparser.token (s : List UInt8) : NetParser.Token → List UInt8
  | ⟨.u8, v⟩ => NetUnparser.u8 s v
  | ⟨.u16, v⟩ => NetUnparser.u16 s v
  | ⟨.u32, v⟩ => NetUnparser.u32 s v

/-- A message: its integers unparsed one after the other onto `s`. -/
def NetUnparser.message (s : List UInt8) (toks : List NetParser.Token) : List UInt8 :=
  toks.foldl NetUnparser.token s

end Sponge
