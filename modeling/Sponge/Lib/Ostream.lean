import Sponge.Lib.Hex

/-!
# Formatted output

The insertions of strings, characters and numbers into `std::ostream`, and the string stream, as the
C++ standard describes them for the C locale. The state of a stream is what has come out together
with the formatting in force: the flags and the fill character stay until they are changed, the
width is spent by the next insertion.
-/

namespace Sponge.Lib

/-- `ios_base::basefield`. -/
inductive Base where
  | dec
  | oct
  | hex
  deriving DecidableEq, Repr

def Base.radix : Base → ℕ
  | .dec => 10
  | .oct => 8
  | .hex => 16

/-- `ios_base::adjustfield`; output is aligned to the right unless it says otherwise. -/
inductive Adjust where
  | right
  | left
  | internal
  deriving DecidableEq, Repr

/-- `ios_base::fmtflags`, those that the insertions below read. -/
structure Fmtflags where
  basefield : Base
  adjustfield : Adjust
  showbase : Bool
  showpos : Bool
  uppercase : Bool
  deriving DecidableEq, Repr

/-- The flags of a stream that nobody has changed. -/
def Fmtflags.initial : Fmtflags := ⟨.dec, .right, false, false, false⟩

/-- What stands before the digits of a number that is not negative. -/
def Fmtflags.lead (f : Fmtflags) (n : ℕ) : List Char :=
  match f.basefield with
  | .dec => if f.showpos then ['+'] else []
  | .oct => if f.showbase && n != 0 then ['0'] else []
  | .hex => if f.showbase && n != 0 then ['0', if f.uppercase then 'X' else 'x'] else []

def Fmtflags.digits (f : Fmtflags) (n : ℕ) : List Char :=
  let ds := Nat.toDigits f.basefield.radix n
  if f.uppercase then ds.map Char.toUpper else ds

structure Ostream where
  out : List Char
  flags : Fmtflags
  fill : Char
  width : ℕ
  deriving DecidableEq, Repr

namespace Ostream

/-- A stream with the formatting it starts with. -/
def initial (out : List Char) : Ostream := ⟨out, .initial, ' ', 0⟩

variable (s : Ostream)

/-- `lead` and `body`, filled up to the width. -/
def pad (lead body : List Char) : List Char :=
  let blanks := List.replicate (s.width - (lead.length + body.length)) s.fill
  match s.flags.adjustfield with
  | .right => blanks ++ lead ++ body
  | .left => lead ++ body ++ blanks
  | .internal => lead ++ blanks ++ body

def insert (lead body : List Char) : Ostream :=
  { s with out := s.out ++ s.pad lead body, width := 0 }

/-- `os << str` -/
def putString (str : List Char) : Ostream := s.insert [] str

/-- `os << c` -/
def putChar (c : Char) : Ostream := s.insert [] [c]

/-- `os << n`, for an integer that is not negative. -/
def putInt (n : ℕ) : Ostream := s.insert (s.flags.lead n) (s.flags.digits n)

/-- `os << hex` -/
def hex : Ostream := { s with flags := { s.flags with basefield := .hex } }

/-- `os << setfill(c)` -/
def setfill (c : Char) : Ostream := { s with fill := c }

/-- `os << setw(n)` -/
def setw (n : ℕ) : Ostream := { s with width := n }

/-- `os << endl`, an unformatted output. -/
def endl : Ostream := { s with out := s.out ++ ['\n'] }

/-- `os.flags(f)` -/
def setFlags (f : Fmtflags) : Ostream := { s with flags := f }

def append (text : List Char) : Ostream := { s with out := s.out ++ text }

@[simp] lemma append_append (t u : List Char) : (s.append t).append u = s.append (t ++ u) :=
  congrArg (Ostream.mk · s.flags s.fill s.width) (List.append_assoc _ _ _)

@[simp] lemma append_nil : s.append [] = s :=
  congrArg (Ostream.mk · s.flags s.fill s.width) (List.append_nil _)

lemma endl_eq : s.endl = s.append ['\n'] := rfl

/-! ### Without a width, and in hexadecimal with leading zeros -/

/-- The formatting in force shows numbers in hexadecimal with leading zeros, and no width is set. -/
structure ZeroFilledHex : Prop where
  flags : s.flags = { Fmtflags.initial with basefield := .hex }
  fill : s.fill = '0'
  width : s.width = 0

lemma zeroFilledHex_initial (out : List Char) :
    ((initial out).hex.setfill '0').ZeroFilledHex := ⟨rfl, rfl, rfl⟩

namespace ZeroFilledHex

variable {s} (h : s.ZeroFilledHex)
include h

lemma append (t : List Char) : (s.append t).ZeroFilledHex := ⟨h.flags, h.fill, h.width⟩

lemma putString (str : List Char) : s.putString str = s.append str := by
  obtain ⟨out, flags, fill, width⟩ := s
  obtain ⟨rfl, rfl, rfl⟩ := h
  simp [Ostream.putString, insert, pad, Fmtflags.initial, Ostream.append]

lemma putInt {w n : ℕ} (hw : 0 < w) (hn : n < 16 ^ w) :
    (s.setw w).putInt n = s.append (hexField w n) := by
  obtain ⟨out, flags, fill, width⟩ := s
  obtain ⟨rfl, rfl, rfl⟩ := h
  rw [← leftpad_toDigits hw hn]
  simp [Ostream.putInt, setw, insert, pad, Fmtflags.initial, Fmtflags.lead, Fmtflags.digits,
    Base.radix, Ostream.append, List.leftpad]

lemma append_putString (t str : List Char) : (s.append t).putString str = s.append (t ++ str) := by
  rw [(h.append t).putString, append_append]

lemma append_putChar (t : List Char) (c : Char) : (s.append t).putChar c = s.append (t ++ [c]) :=
  h.append_putString t [c]

lemma append_putInt (t : List Char) {w n : ℕ} (hw : 0 < w) (hn : n < 16 ^ w) :
    ((s.append t).setw w).putInt n = s.append (t ++ hexField w n) := by
  rw [(h.append t).putInt hw hn, append_append]

end ZeroFilledHex

end Ostream

/-! ### String streams -/

/-- A `std::stringstream`: its content, and the position where the next character goes. -/
structure Stringstream where
  content : List Char
  put : ℕ
  deriving DecidableEq, Repr

namespace Stringstream

/-- `stringstream ss(str)`, and what `ss.str(str)` makes of any stream: the next character goes to
the front. -/
def new (str : List Char) : Stringstream := ⟨str, 0⟩

/-- `ss << c`, over what stands there already. -/
def putChar (ss : Stringstream) (c : Char) : Stringstream :=
  ⟨ss.content.take ss.put ++ c :: ss.content.drop (ss.put + 1), ss.put + 1⟩

/-- `ss.str()` -/
def str (ss : Stringstream) : List Char := ss.content

/-- The stream whose content has all been written. -/
def written (t : List Char) : Stringstream := ⟨t, t.length⟩

lemma putChar_written (t : List Char) (c : Char) : (written t).putChar c = written (t ++ [c]) := by
  simp [putChar, written]

lemma putChar_new (a c : Char) : (new [a]).putChar c = written [c] := rfl

end Stringstream

end Sponge.Lib
