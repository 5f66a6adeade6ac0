import Mathlib.Data.List.Induction
import Sponge.Lib.Ostream

/-!
# `hexdump`

The function `hexdump` of `util.cc`. The counter `printed` is an `int`, and the model counts in
natural numbers: the two agree as long as there are less than `2 ^ 31` bytes.

What the loop has written after any number of bytes (`dumped`) consists of lines (`dumpLine`): those
that are complete, then the head and the bytes of the one that is open, whose text waits in `pchars`.
-/

namespace Sponge

open Lib

/-- `isprint`, in the C locale. -/
def isprint (c : UInt8) : Bool := 0x20 ≤ c && c ≤ 0x7e

/-- The character that stands for a byte in the text column. -/
def shown (b : UInt8) : Char := if isprint b then Char.ofNat b.toNat else '.'

/-- The variables of `hexdump` that its loop changes. -/
structure Dump where
  cout : Ostream
  printed : ℕ
  pchars : Stringstream
  deriving DecidableEq, Repr

namespace Dump

/-- `cout << "    " << pchars.str() << "\n"; pchars.str(" ");` -/
def flush (d : Dump) : Dump :=
  { d with
    cout := ((d.cout.putString "    ".toList).putString d.pchars.str).putString "\n".toList
    pchars := .new " ".toList }

/-- `cout << indent_string << setw(8) << printed << ":    ";` -/
def openLine (d : Dump) (indentString : List Char) : Dump :=
  let offset := ((d.cout.putString indentString).setw 8).putInt d.printed
  { d with cout := offset.putString ":    ".toList }

/-- What the loop does before it shows a byte. -/
def separate (d : Dump) (indentString : List Char) : Dump :=
  if d.printed &&& 0xf = 0 then
    (if d.printed ≠ 0 then d.flush else d).openLine indentString
  else if d.printed &&& 1 = 0 then { d with cout := d.cout.putChar ' ' }
  else d

/-- `cout << setw(2) << +data[i]; pchars << ...; printed += 1;` -/
def showByte (d : Dump) (b : UInt8) : Dump where
  cout := (d.cout.setw 2).putInt b.toNat
  printed := d.printed + 1
  pchars := d.pchars.putChar (shown b)

def byte (indentString : List Char) (d : Dump) (b : UInt8) : Dump :=
  (d.separate indentString).showByte b

/-- What `hexdump` writes after the loop. -/
def finish (d : Dump) : Ostream :=
  let printRem := (16 - (d.printed &&& 0xf)) % 16
  let blanks := List.replicate (2 * printRem + printRem / 2 + 4) ' '
  (((d.cout.putString blanks).putString d.pchars.str).putChar '\n').endl

end Dump

def hexdump (data : List UInt8) (indent : ℕ) (cout : Ostream) : Ostream :=
  let flags := cout.flags
  let indentString := List.replicate indent ' '
  let start : Dump := ⟨cout.hex.setfill '0', 0, .new " ".toList⟩
  (data.foldl (Dump.byte indentString) start).finish.setFlags flags

/-! ### The lines of a dump -/

/-- The bytes that line `k` shows. -/
def chunk (data : List UInt8) (k : ℕ) : List UInt8 := (data.drop (16 * k)).take 16

def lineHead (indent offset : ℕ) : List Char :=
  List.replicate indent ' ' ++ hexField 8 offset ++ ":    ".toList

/-- The blank before the byte in place `j` of a line, if there is one. -/
def gap (j : ℕ) : List Char := if j ≠ 0 ∧ j % 2 = 0 then [' '] else []

def hexCols (bs : List UInt8) : List Char :=
  bs.zipIdx.flatMap fun p => gap p.2 ++ hexField 2 p.1.toNat

/-- The hexadecimal columns, filled up to where the text begins. -/
def columns (bs : List UInt8) : List Char :=
  hexCols bs ++ List.replicate (43 - (hexCols bs).length) ' '

def dumpLine (indent offset : ℕ) (bs : List UInt8) : List Char :=
  lineHead indent offset ++ columns bs ++ bs.map shown

def firstLines (indent : ℕ) (data : List UInt8) (q : ℕ) : List Char :=
  (List.range q).flatMap fun k => dumpLine indent (16 * k) (chunk data k) ++ ['\n']

lemma hexCols_append_singleton (bs : List UInt8) (b : UInt8) :
    hexCols (bs ++ [b]) = hexCols bs ++ (gap bs.length ++ hexField 2 b.toNat) := by
  unfold hexCols
  rw [List.zipIdx_append, List.flatMap_append, Nat.zero_add, List.zipIdx_singleton,
    List.flatMap_singleton]

lemma length_hexCols (bs : List UInt8) :
    (hexCols bs).length = 2 * bs.length + (bs.length - 1) / 2 := by
  induction bs using List.reverseRecOn with
  | nil => rfl
  | append_singleton bs b ih =>
    have hgap : (gap bs.length).length = if bs.length ≠ 0 ∧ bs.length % 2 = 0 then 1 else 0 := by
      unfold gap
      split <;> rfl
    rw [hexCols_append_singleton, List.length_append, List.length_append, ih, length_hexField,
      hgap, List.length_append, List.length_singleton]
    split <;> omega

/-- Without the blanks, the columns are the digits of the bytes. -/
lemma filter_hexCols (bs : List UInt8) :
    (hexCols bs).filter (· ≠ ' ') = bs.flatMap fun b => hexField 2 b.toNat := by
  have hfield : ∀ n, (hexField 2 n).filter (· ≠ ' ') = hexField 2 n := by
    intro n
    refine List.filter_eq_self.2 fun c hc => ?_
    have hne : c ≠ ' ' := fun h => notMem_hexField (by decide) 2 n (h ▸ hc)
    simpa using hne
  have hgap : ∀ j, (gap j).filter (· ≠ ' ') = [] := by
    intro j
    unfold gap
    split <;> rfl
  induction bs using List.reverseRecOn with
  | nil => rfl
  | append_singleton bs b ih =>
    rw [hexCols_append_singleton, List.filter_append, List.filter_append, ih, hgap, hfield,
      List.nil_append, List.flatMap_append, List.flatMap_singleton]

lemma chunk_append {data : List UInt8} {k : ℕ} (h : 16 * k + 16 ≤ data.length) (e : List UInt8) :
    chunk (data ++ e) k = chunk data k := by
  unfold chunk
  rw [List.drop_append_of_le_length (by omega),
    List.take_append_of_le_length (by rw [List.length_drop]; omega)]

lemma chunk_of_le {data : List UInt8} {k : ℕ} (h : data.length ≤ 16 * k + 16) :
    chunk data k = data.drop (16 * k) :=
  List.take_of_length_le (by rw [List.length_drop]; omega)

lemma firstLines_append {data : List UInt8} {q : ℕ} (h : 16 * q ≤ data.length) (e : List UInt8)
    (indent : ℕ) : firstLines indent (data ++ e) q = firstLines indent data q := by
  unfold firstLines
  refine List.flatMap_congr fun k hk => ?_
  have hk := List.mem_range.1 hk
  rw [chunk_append (by omega)]

lemma firstLines_succ (indent : ℕ) (data : List UInt8) (q : ℕ) :
    firstLines indent data (q + 1) =
      firstLines indent data q ++ (dumpLine indent (16 * q) (chunk data q) ++ ['\n']) := by
  unfold firstLines
  rw [List.range_succ, List.flatMap_append, List.flatMap_singleton]

/-! ### What the loop writes -/

lemma and_fifteen (n : ℕ) : n &&& 0xf = n % 16 := Nat.and_two_pow_sub_one_eq_mod n 4

/-- The variables of the loop after the bytes `seen`, the last of which stands in line `q`. -/
def dumped (indent : ℕ) (start : Ostream) (seen : List UInt8) (q : ℕ) : Dump where
  cout := start.append (firstLines indent seen q ++ lineHead indent (16 * q) ++
    hexCols (seen.drop (16 * q)))
  printed := seen.length
  pchars := .written ((seen.drop (16 * q)).map shown)

section

variable {indent : ℕ} {start : Ostream} (hstart : start.ZeroFilledHex)
include hstart

lemma Dump.showByte_eq {d : Dump} {t : List Char} (hcout : d.cout = start.append t) (b : UInt8) :
    d.showByte b = ⟨start.append (t ++ hexField 2 b.toNat), d.printed + 1,
      d.pchars.putChar (shown b)⟩ := by
  unfold Dump.showByte
  rw [hcout, hstart.append_putInt t (by decide) (show b.toNat < 16 ^ 2 from b.toNat_lt)]

lemma Dump.openLine_eq {d : Dump} {t : List Char} (hcout : d.cout = start.append t)
    (hlt : d.printed < 16 ^ 8) :
    d.openLine (List.replicate indent ' ') =
      { d with cout := start.append (t ++ lineHead indent d.printed) } := by
  have hoffset : ((d.cout.putString (List.replicate indent ' ')).setw 8).putInt d.printed =
      start.append (t ++ List.replicate indent ' ' ++ hexField 8 d.printed) := by
    rw [hcout, hstart.append_putString, hstart.append_putInt _ (by decide) hlt]
  unfold Dump.openLine lineHead
  simp only [hoffset, hstart.append_putString, List.append_assoc]

lemma Dump.flush_eq {d : Dump} {t : List Char} (hcout : d.cout = start.append t) :
    d.flush = { d with
      cout := start.append (t ++ List.replicate 4 ' ' ++ d.pchars.str ++ ['\n'])
      pchars := .new [' '] } := by
  unfold Dump.flush
  rw [hcout, hstart.append_putString, hstart.append_putString, hstart.append_putString]
  rfl

lemma Dump.separate_of_open {d : Dump} {t : List Char} (hcout : d.cout = start.append t)
    (h : d.printed % 16 ≠ 0) (indentString : List Char) :
    d.separate indentString = { d with cout := start.append (t ++ gap (d.printed % 16)) } := by
  unfold Dump.separate
  rw [and_fifteen, if_neg h, Nat.and_one_is_mod]
  by_cases heven : d.printed % 2 = 0
  · have hgap : gap (d.printed % 16) = [' '] := if_pos (by omega)
    rw [if_pos heven, hgap, hcout, hstart.append_putChar]
  · have hgap : gap (d.printed % 16) = [] := if_neg (by omega)
    rw [if_neg heven, hgap, List.append_nil, ← hcout]

lemma Dump.separate_of_start {d : Dump} {t : List Char} (hcout : d.cout = start.append t)
    (h : d.printed = 0) : d.separate (List.replicate indent ' ') =
      { d with cout := start.append (t ++ lineHead indent 0) } := by
  unfold Dump.separate
  have hlt : d.printed < 16 ^ 8 := by omega
  rw [if_pos (by rw [h]; rfl), if_neg (not_not.2 h), Dump.openLine_eq hstart hcout hlt, h]

lemma Dump.separate_of_full {d : Dump} {t : List Char} (hcout : d.cout = start.append t)
    (h : d.printed % 16 = 0) (hpos : d.printed ≠ 0) (hlt : d.printed < 16 ^ 8) :
    d.separate (List.replicate indent ' ') =
      { d with
        cout := start.append (t ++ List.replicate 4 ' ' ++ d.pchars.str ++ ['\n'] ++
          lineHead indent d.printed)
        pchars := .new [' '] } := by
  unfold Dump.separate
  rw [and_fifteen, if_pos h, if_pos hpos, Dump.flush_eq hstart hcout]
  exact Dump.openLine_eq hstart rfl hlt

/-- **One byte** on the line that is open. -/
lemma byte_dumped {seen : List UInt8} {q : ℕ} (hlow : 16 * q < seen.length)
    (hhigh : seen.length < 16 * q + 16) (b : UInt8) :
    (dumped indent start seen q).byte (List.replicate indent ' ') b =
      dumped indent start (seen ++ [b]) q := by
  have hdrop : (seen ++ [b]).drop (16 * q) = seen.drop (16 * q) ++ [b] :=
    List.drop_append_of_le_length (Nat.le_of_lt hlow)
  have hplace : seen.length % 16 = (seen.drop (16 * q)).length := by
    rw [List.length_drop]
    omega
  have hopen : (dumped indent start seen q).printed % 16 ≠ 0 := by
    show seen.length % 16 ≠ 0
    omega
  unfold Dump.byte
  rw [Dump.separate_of_open hstart rfl hopen, Dump.showByte_eq hstart rfl]
  unfold dumped
  simp only [hdrop, hplace, hexCols_append_singleton, firstLines_append (Nat.le_of_lt hlow),
    List.map_append, List.length_append, List.append_assoc, Stringstream.putChar_written,
    List.map_singleton, List.length_singleton]

/-- **One byte** when the line that was open is full. -/
lemma byte_dumped_full {seen : List UInt8} {q : ℕ} (hlen : seen.length = 16 * (q + 1))
    (hlt : seen.length < 16 ^ 8) (b : UInt8) :
    (dumped indent start seen q).byte (List.replicate indent ' ') b =
      dumped indent start (seen ++ [b]) (q + 1) := by
  have hfull : (dumped indent start seen q).printed % 16 = 0 := by
    show seen.length % 16 = 0
    omega
  have hpos : (dumped indent start seen q).printed ≠ 0 := by
    show seen.length ≠ 0
    omega
  have hcolumns : columns (seen.drop (16 * q)) =
      hexCols (seen.drop (16 * q)) ++ List.replicate 4 ' ' := by
    have hblanks : 43 - (hexCols (seen.drop (16 * q))).length = 4 := by
      rw [length_hexCols, List.length_drop]
      omega
    rw [columns, hblanks]
  have hdrop : (seen ++ [b]).drop (16 * (q + 1)) = [b] := by
    rw [← hlen, List.drop_left]
  unfold Dump.byte
  rw [Dump.separate_of_full hstart rfl hfull hpos hlt, Dump.showByte_eq hstart rfl]
  unfold dumped
  rw [hdrop, firstLines_append (Nat.le_of_eq hlen.symm), firstLines_succ,
    chunk_of_le (by omega), dumpLine, hcolumns, ← hlen]
  simp [Stringstream.putChar_new, Stringstream.written, Stringstream.str, hexCols, gap]

/-- **The loop**, by induction on the bytes from the last one. -/
theorem foldl_byte {data : List UInt8} (hne : data ≠ []) (hlt : data.length < 16 ^ 8) :
    data.foldl (Dump.byte (List.replicate indent ' ')) ⟨start, 0, .new " ".toList⟩ =
      dumped indent start data ((data.length - 1) / 16) := by
  induction data using List.reverseRecOn with
  | nil => exact absurd rfl hne
  | append_singleton seen b ih =>
    rw [List.foldl_append, List.foldl_cons, List.foldl_nil]
    rw [List.length_append, List.length_singleton] at hlt ⊢
    by_cases hnil : seen = []
    · subst hnil
      unfold Dump.byte
      rw [List.foldl_nil, Dump.separate_of_start hstart (start.append_nil).symm rfl,
        Dump.showByte_eq hstart rfl]
      simp [dumped, firstLines, hexCols, gap, Stringstream.putChar_new, Stringstream.written]
    · have hpos : 0 < seen.length := List.length_pos_iff.2 hnil
      rw [ih hnil (by omega)]
      by_cases hfull : seen.length % 16 = 0
      · have hq : (seen.length + 1 - 1) / 16 = (seen.length - 1) / 16 + 1 := by omega
        rw [hq]
        exact byte_dumped_full hstart (by omega) (by omega) b
      · have hq : (seen.length + 1 - 1) / 16 = (seen.length - 1) / 16 := by omega
        rw [hq]
        exact byte_dumped hstart (by omega) (by omega) b

/-- After the loop the last line is completed, and another one left empty. -/
lemma finish_dumped {data : List UInt8} {q : ℕ} (hlow : 16 * q < data.length)
    (hhigh : data.length ≤ 16 * q + 16) : (dumped indent start data q).finish =
      start.append (firstLines indent data (q + 1) ++ ['\n']) := by
  have hblanks : 2 * ((16 - data.length % 16) % 16) + (16 - data.length % 16) % 16 / 2 + 4 =
      43 - (hexCols (data.drop (16 * q))).length := by
    rw [length_hexCols, List.length_drop]
    omega
  unfold Dump.finish dumped
  simp only [and_fifteen, hblanks, hstart.append_putString, hstart.append_putChar, Ostream.endl_eq,
    Ostream.append_append]
  rw [firstLines_succ, chunk_of_le hhigh, dumpLine, columns]
  simp [Stringstream.written, Stringstream.str]

end

/-- **The dump** is its lines, and an empty one. The flags of the stream are as before, its fill
character is not. -/
theorem hexdump_eq {data : List UInt8} (hpos : 0 < data.length) (hlt : data.length < 2 ^ 31)
    (indent : ℕ) (out : List Char) : hexdump data indent (.initial out) =
      { Ostream.initial out with
        out := out ++ (firstLines indent data ((data.length + 15) / 16) ++ ['\n'])
        fill := '0' } := by
  have hstart := Ostream.zeroFilledHex_initial out
  have hloop := @foldl_byte indent _ hstart data (List.ne_nil_of_length_pos hpos) (by omega)
  have hlow : 16 * ((data.length - 1) / 16) < data.length := by omega
  have hq : (data.length + 15) / 16 = (data.length - 1) / 16 + 1 := by omega
  unfold hexdump
  simp only [hloop, finish_dumped hstart hlow (by omega), hq]
  rfl

/-! ### Reading a dump -/

/-- The digits in a line, without the blanks between them. -/
def digitsOf (indent : ℕ) (line : List Char) : List Char :=
  ((line.drop (indent + 13)).take 43).filter (· ≠ ' ')

/-- The line shows the bytes `bs`, and that they begin at `offset`. -/
structure ShowsBytes (indent offset : ℕ) (bs : List UInt8) (line : List Char) : Prop where
  noBreak : '\n' ∉ line
  indented : line.take indent = List.replicate indent ' '
  address : ofHex ((line.drop indent).take 8) = some offset
  colon : (line.drop (indent + 8)).take 5 = ":    ".toList
  digits : ofHexBytes (digitsOf indent line) = some bs
  text : line.drop (indent + 56) = bs.map shown

/-- The lines of a dump show all the bytes, 16 in each but the last, which shows the rest. -/
structure ShowsAll (data : List UInt8) (indent : ℕ) (lines : List (List Char)) : Prop where
  length : lines.length = (data.length + 15) / 16
  line : ∀ k (h : k < lines.length), ShowsBytes indent (16 * k) (chunk data k) lines[k]
  digits : ofHexBytes (lines.flatMap (digitsOf indent)) = some data

lemma length_lineHead (indent offset : ℕ) : (lineHead indent offset).length = indent + 13 := by
  simp [lineHead, length_hexField]

lemma length_columns {bs : List UInt8} (h : bs.length ≤ 16) : (columns bs).length = 43 := by
  have hle : (hexCols bs).length ≤ 43 := by
    rw [length_hexCols]
    omega
  rw [columns, List.length_append, List.length_replicate]
  omega

lemma digitsOf_dumpLine {indent offset : ℕ} {bs : List UInt8} (h : bs.length ≤ 16) :
    digitsOf indent (dumpLine indent offset bs) = bs.flatMap fun b => hexField 2 b.toNat := by
  unfold digitsOf dumpLine
  rw [List.append_assoc, List.drop_left' (length_lineHead _ _), List.take_left' (length_columns h),
    columns, List.filter_append, filter_hexCols]
  simp

lemma shown_ne_newline (b : UInt8) : shown b ≠ '\n' := by
  have hchar : ∀ n ≤ 0x7e, 0x20 ≤ n → Char.ofNat n ≠ '\n' := by decide
  unfold shown isprint
  split
  · rename_i h
    rw [Bool.and_eq_true, decide_eq_true_eq, decide_eq_true_eq] at h
    exact hchar b.toNat (UInt8.le_iff_toNat_le.1 h.2) (UInt8.le_iff_toNat_le.1 h.1)
  · decide

lemma newline_notMem_hexCols (bs : List UInt8) : '\n' ∉ hexCols bs := by
  intro h
  obtain ⟨p, -, hp⟩ := List.mem_flatMap.1 h
  rcases List.mem_append.1 hp with hgap | hfield
  · unfold gap at hgap
    split at hgap
    · simp at hgap
    · cases hgap
  · exact notMem_hexField (by decide) _ _ hfield

lemma newline_notMem_dumpLine (indent offset : ℕ) (bs : List UInt8) :
    '\n' ∉ dumpLine indent offset bs := by
  have hblanks : ∀ n, '\n' ∉ List.replicate n ' ' :=
    fun n h => absurd (List.eq_of_mem_replicate h) (by decide)
  have haddress : '\n' ∉ hexField 8 offset := notMem_hexField (by decide) _ _
  have htext : '\n' ∉ bs.map shown := by
    intro h
    obtain ⟨b, -, hb⟩ := List.mem_map.1 h
    exact shown_ne_newline b hb
  simp only [dumpLine, lineHead, columns, List.mem_append, not_or]
  exact ⟨⟨⟨⟨hblanks _, haddress⟩, by decide⟩, newline_notMem_hexCols bs, hblanks _⟩, htext⟩

theorem dumpLine_showsBytes (indent : ℕ) {offset : ℕ} {bs : List UInt8} (hoffset : offset < 16 ^ 8)
    (h : bs.length ≤ 16) : ShowsBytes indent offset bs (dumpLine indent offset bs) := by
  have hdigits : ofHexBytes (digitsOf indent (dumpLine indent offset bs)) = some bs := by
    rw [digitsOf_dumpLine h, ofHexBytes_flatMap]
  have hmargin : (List.replicate indent ' ').length = indent := List.length_replicate
  have hfield : (List.replicate indent ' ' ++ hexField 8 offset).length = indent + 8 := by
    rw [List.length_append, hmargin, length_hexField]
  have hcolumns : (lineHead indent offset ++ columns bs).length = indent + 56 := by
    rw [List.length_append, length_lineHead, length_columns h]
  refine ⟨newline_notMem_dumpLine indent offset bs, ?_, ?_, ?_, hdigits, ?_⟩
  · simp only [dumpLine, lineHead, List.append_assoc]
    exact List.take_left' hmargin
  · simp only [dumpLine, lineHead, List.append_assoc]
    rw [List.drop_left' hmargin, List.take_left' (length_hexField 8 offset), ofHex_hexField,
      Nat.mod_eq_of_lt hoffset]
  · rw [dumpLine, lineHead, List.append_assoc, List.append_assoc, List.drop_left' hfield]
    rfl
  · exact List.drop_left' hcolumns

lemma flatMap_chunk (data : List UInt8) (q : ℕ) :
    (List.range q).flatMap (chunk data) = data.take (16 * q) := by
  induction q with
  | zero => rfl
  | succ q ih =>
    rw [List.range_succ, List.flatMap_append, List.flatMap_singleton, ih, Nat.mul_succ,
      List.take_add]
    rfl

/-- **`hexdump` is lossless and aligned**: it writes lines that show all the bytes, and an empty
one. -/
theorem hexdump_showsAll {data : List UInt8} (hpos : 0 < data.length) (hlt : data.length < 2 ^ 31)
    (indent : ℕ) (out : List Char) : ∃ lines : List (List Char),
      (hexdump data indent (.initial out)).out = out ++ (lines.flatMap (· ++ ['\n']) ++ ['\n']) ∧
        ShowsAll data indent lines := by
  have hshort : ∀ k, (chunk data k).length ≤ 16 := fun k => List.length_take_le _ _
  refine ⟨(List.range ((data.length + 15) / 16)).map
    fun k => dumpLine indent (16 * k) (chunk data k), ?_, ?_, ?_, ?_⟩
  · rw [hexdump_eq hpos hlt, List.flatMap_map]
    rfl
  · rw [List.length_map, List.length_range]
  · intro k hk
    rw [List.length_map, List.length_range] at hk
    rw [List.getElem_map, List.getElem_range]
    exact dumpLine_showsBytes indent (by omega) (hshort k)
  · have hdigits : ∀ k, digitsOf indent (dumpLine indent (16 * k) (chunk data k)) =
        (chunk data k).flatMap fun b => hexField 2 b.toNat :=
      fun k => digitsOf_dumpLine (hshort k)
    have hall : (List.range ((data.length + 15) / 16)).flatMap (chunk data) = data := by
      rw [flatMap_chunk]
      exact List.take_of_length_le (by omega)
    rw [List.flatMap_map]
    simp only [hdigits]
    rw [← List.flatMap_assoc, hall, ofHexBytes_flatMap]

/-- A line of 16 bytes, and one of a single byte that is not printable. -/
theorem hexdump_showsAll_seventeen : ∃ lines : List (List Char),
    (hexdump (List.replicate 16 0x41 ++ [0x0a]) 2 (.initial [])).out =
        [] ++ (lines.flatMap (· ++ ['\n']) ++ ['\n']) ∧
      ShowsAll (List.replicate 16 0x41 ++ [0x0a]) 2 lines :=
  hexdump_showsAll (by decide) (by decide) 2 []

example : (hexdump [0x48, 0x69, 0x0a] 2 (.initial [])).out =
    "  00000000:    4869 0a                                    Hi.\n\n".toList := by decide

end Sponge
