import Sponge.Util.Cursor

/-!
# `NetParser` and `NetUnparser` are inverse

The shift-and-mask loop writes the big-endian bytes of an integer (`bigEndian_unparseLoop`), which
is what the shift-and-add loop reads. By induction over the integers of a message, parsing what was
unparsed gives the integers back, and unparsing what was parsed gives the bytes back.
-/

namespace Sponge

open Lib NetParser

namespace NetUnparser

/-! ### One integer -/

lemma unparseLoop_append (s : List UInt8) (t : IntType) (val : t.Val) (i : ℕ) :
    unparseLoop s t val i = s ++ unparseLoop [] t val i := by
  induction i with
  | zero => exact (List.append_nil s).symm
  | succ i ih => rw [unparseLoop, unparseLoop, ih, List.append_assoc]

lemma length_unparseLoop (t : IntType) (val : t.Val) (i : ℕ) :
    (unparseLoop [] t val i).length = i := by
  induction i with
  | zero => rfl
  | succ i ih => rw [unparseLoop, List.length_append, ih, List.length_singleton]

lemma toNat_mask {w : ℕ} (hw : 8 ≤ w) (x : BitVec w) :
    ((x &&& 0xff).setWidth 8).toNat = x.toNat % 256 := by
  have hones : (0xff : BitVec w).setWidth 8 = BitVec.allOnes 8 := by
    apply BitVec.eq_of_toNat_eq
    rw [BitVec.toNat_setWidth, BitVec.toNat_allOnes]
    exact Nat.mod_mod_of_dvd 255 (Nat.pow_dvd_pow 2 hw)
  rw [BitVec.setWidth_and, hones, BitVec.and_allOnes, BitVec.toNat_setWidth]

lemma eight_le_width (t : IntType) : 8 ≤ 8 * t.sizeof := by
  cases t <;> decide

/-- The first `i` bytes written are the integer without its last `sizeof - i` bytes. -/
theorem bigEndian_unparseLoop (t : IntType) (val : t.Val) {i : ℕ} (h : i ≤ t.sizeof) :
    bigEndian (unparseLoop [] t val i) = val.toNat / 256 ^ (t.sizeof - i) := by
  induction i with
  | zero =>
    have hlt := val.isLt
    rw [Nat.pow_mul] at hlt
    exact (Nat.div_eq_of_lt hlt).symm
  | succ i ih =>
    have hk : t.sizeof - i = (t.sizeof - i - 1) + 1 := by omega
    have hshift : (2 : ℕ) ^ ((t.sizeof - i - 1) * 8) = 256 ^ (t.sizeof - i - 1) := by
      rw [Nat.mul_comm, Nat.pow_mul]
    have hbyte : ((((val >>> ((t.sizeof - i - 1) * 8)) &&& 0xff).setWidth 8).toNat : ℕ) =
        val.toNat / 256 ^ (t.sizeof - i - 1) % 256 := by
      rw [toNat_mask (eight_le_width t), BitVec.toNat_ushiftRight, Nat.shiftRight_eq_div_pow, hshift]
    rw [unparseLoop, bigEndian_snoc, ih (by omega), hk, Nat.pow_succ, ← Nat.div_div_eq_div_mul]
    show _ + (BitVec.toNat _) = _
    rw [← hk, hbyte, Nat.mul_comm, Nat.div_add_mod]
    congr 2

/-! ### A token -/

def encode (tok : Token) : List UInt8 := unparseInt [] tok.type tok.val

lemma token_eq (s : List UInt8) (tok : Token) : token s tok = s ++ encode tok := by
  obtain ⟨t, v⟩ := tok
  cases t <;> exact unparseLoop_append s _ v _

lemma message_eq (s : List UInt8) (toks : List Token) : message s toks = s ++ toks.flatMap encode := by
  induction toks generalizing s with
  | nil => exact (List.append_nil s).symm
  | cons tok toks ih =>
    rw [message, List.foldl_cons, token_eq]
    exact (ih _).trans (by rw [List.flatMap_cons, List.append_assoc])

lemma length_encode (tok : Token) : (encode tok).length = tok.type.sizeof := length_unparseLoop _ _ _

lemma bigEndian_encode (tok : Token) : bigEndian (encode tok) = tok.val.toNat := by
  have := bigEndian_unparseLoop tok.type tok.val (Nat.le_refl _)
  rwa [Nat.sub_self, Nat.pow_zero, Nat.div_one] at this

lemma value_encode (tok : Token) (rest : List UInt8) :
    Call.value (encode tok ++ rest) (.int tok.type) = .int tok := by
  rw [Call.value, List.take_left' (length_encode tok), bigEndian_encode, BitVec.ofNat_toNat,
    BitVec.setWidth_eq]

lemma encode_value (t : IntType) {bs : List UInt8} (h : bs.length = t.sizeof) :
    encode ⟨t, BitVec.ofNat _ (bigEndian bs)⟩ = bs := by
  refine bigEndian_inj ((length_encode _).trans h.symm) ?_
  rw [bigEndian_encode, toNat_ofNat_bigEndian t bs h]

end NetUnparser

/-! ### A message -/

namespace NetParser

open NetUnparser

/-- What the calls `cs` on the parser `p` return. -/
def answers (p : NetParser) (cs : List Call) : List (Except Exn Ret) :=
  (machine.trace p cs).map Move.output

lemma answers_message {p : NetParser} {toks : List Token} {rest : List UInt8}
    (h : At (toks.flatMap encode ++ rest) 0 p) :
    p.answers (toks.map fun tok => .int tok.type) = toks.map (fun tok => .ok (.int tok)) ∧
      At rest 0 (machine.run p (toks.map fun tok => .int tok.type)) := by
  induction toks generalizing p with
  | nil => exact ⟨rfl, h⟩
  | cons tok toks ih =>
    have hlen := length_encode tok
    rw [List.flatMap_cons, List.append_assoc] at h
    obtain ⟨hout, hat⟩ := h.step (c := .int tok.type) (by
      rw [List.length_append, hlen]
      simp only [Call.width]
      omega)
    rw [List.drop_zero, value_encode] at hout
    have hnext : At (toks.flatMap encode ++ rest) 0 (p.step (.int tok.type)).2 := by
      refine ⟨hat.error, ?_⟩
      rw [hat.buffer, List.drop_zero, Nat.zero_add]
      exact List.drop_left' hlen
    obtain ⟨ih₁, ih₂⟩ := ih hnext
    refine ⟨?_, ih₂⟩
    rw [answers, List.map_cons, List.map_cons, machine.trace_cons, List.map_cons, ← ih₁]
    exact congrArg (· :: _) hout

/-- Integers read without an error are a message that was there. -/
lemma message_of_answers {p : NetParser} (he : p.error = .noError) (types : List IntType)
    (h : (machine.run p (types.map .int)).error = .noError) :
    ∃ toks : List Token, toks.map Token.type = types ∧
      p.answers (types.map .int) = toks.map (fun tok => .ok (.int tok)) ∧
      p.buffer.str = toks.flatMap encode ++ (machine.run p (types.map .int)).buffer.str := by
  induction types generalizing p with
  | nil => exact ⟨[], rfl, rfl, rfl⟩
  | cons t types ih =>
    have hat : At p.buffer.str 0 p := ⟨he, rfl⟩
    rcases Nat.lt_or_ge p.buffer.str.length t.sizeof with hlt | hle
    · -- the first integer does not fit, and the error stays
      have hl := (hat.step_short (c := .int t) (by simpa [Call.width] using hlt) (Nat.zero_le _)).2
      have := (hl.run (types.map .int)).error
      rw [List.map_cons, machine.run_cons] at h
      exact absurd (h.symm.trans this) (by decide)
    · obtain ⟨hout, hnext⟩ := hat.step (c := .int t) (by simpa [Call.width] using hle)
      obtain ⟨toks, htypes, hans, hstr⟩ := ih hnext.error h
      have hlen : (p.buffer.str.take t.sizeof).length = t.sizeof := by
        rw [List.length_take]
        omega
      refine ⟨⟨t, BitVec.ofNat _ (bigEndian (p.buffer.str.take t.sizeof))⟩ :: toks, ?_, ?_, ?_⟩
      · rw [List.map_cons, htypes]
      · rw [answers, List.map_cons, List.map_cons, machine.trace_cons, List.map_cons, ← hans]
        exact congrArg (· :: _) hout
      · have hdrop : p.buffer.str.drop t.sizeof = (p.step (.int t)).2.buffer.str := by
          rw [hnext.buffer, Nat.zero_add]
          rfl
        rw [List.flatMap_cons, encode_value t hlen, List.append_assoc]
        exact (List.take_append_drop t.sizeof _).symm.trans (congrArg _ (hdrop.trans hstr))

/-- **Parsing and unparsing are inverse over whole messages.** Unparsing integers onto a string
keeps it and writes what a parser that skips it reads as the same integers; and what a parser reads
without an error unparses to the bytes it consumed. -/
theorem unparse_parse_inverse :
    (∀ (s₀ : List UInt8) (toks : List Token) (rest : List UInt8),
      let p := new (Buffer.ofString (message s₀ toks ++ rest))
      let q := (p.removePrefix s₀.length).2
      let final := machine.run q (toks.map fun tok => .int tok.type)
      s₀ <+: message s₀ toks ∧
      (p.removePrefix s₀.length).1 = .ok () ∧
      q.answers (toks.map fun tok => .int tok.type) = toks.map (fun tok => .ok (.int tok)) ∧
      final.getError = .noError ∧ final.buffer.str = rest) ∧
    (∀ (B : List UInt8) (types : List IntType),
      let p := new (Buffer.ofString B)
      let final := machine.run p (types.map .int)
      final.getError = .noError →
      ∃ toks : List Token, toks.map Token.type = types ∧
        p.answers (types.map .int) = toks.map (fun tok => .ok (.int tok)) ∧
        message [] toks ++ final.buffer.str = B) := by
  constructor
  · intro s₀ toks rest p q final
    have hmsg : message s₀ toks ++ rest = s₀ ++ (toks.flatMap encode ++ rest) := by
      rw [message_eq, List.append_assoc]
    obtain ⟨hout, hat⟩ := (at_new (message s₀ toks ++ rest)).step (c := .removePrefix s₀.length) (by
      rw [hmsg, List.length_append]
      simp only [Call.width]
      omega)
    have hok : (p.removePrefix s₀.length).1 = .ok () := by
      cases hr : (p.removePrefix s₀.length).1 with
      | ok u => rfl
      | error e =>
        have : (p.removePrefix s₀.length).1.map (fun _ => Ret.void) = .ok .void := hout
        rw [hr] at this
        cases this
    have hq : At (toks.flatMap encode ++ rest) 0 q := by
      refine ⟨hat.error, ?_⟩
      rw [List.drop_zero]
      refine hat.buffer.trans ?_
      rw [Nat.zero_add, hmsg]
      exact List.drop_left' rfl
    obtain ⟨hans, hfinal⟩ := answers_message hq
    exact ⟨by rw [message_eq]; exact List.prefix_append _ _, hok, hans, hfinal.error, hfinal.buffer⟩
  · intro B types p final h
    obtain ⟨toks, htypes, hans, hstr⟩ := message_of_answers (p := p) rfl types h
    refine ⟨toks, htypes, hans, ?_⟩
    rw [message_eq, List.nil_append]
    exact hstr.symm

end NetParser

end Sponge
