import Mathlib.Logic.Function.Basic
import Sponge.Lib.Machine
import Sponge.Util.Error

/-!
# `FileDescriptor::set_blocking`

The method reads the status flags of the descriptor, changes one of them and writes all of them back.
The flags belong to the open file, which handles, threads and processes share, so calls of the method
may come between the two halves of one another.

* `State`, `step` — the flags of an open file and any number of calls under way;
* `set_blocking_interleaved` — however they interleave and fail, no other flag changes, and the file
  is in the mode that the last of them to come through has asked for.
-/

namespace Sponge.Blocking

open Lib

/-- The status flags of an open file, the `int` of `fcntl`. -/
abbrev Flags : Type := BitVec 32

def O_NONBLOCK : Flags := 0x800

/-- The flags that `F_SETFL` can change on Linux: `O_APPEND`, `O_ASYNC`, `O_DIRECT`, `O_NOATIME` and
`O_NONBLOCK`. -/
def settable : Flags := 0x400 ||| 0x2000 ||| 0x4000 ||| 0x40000 ||| O_NONBLOCK

/-- What `set_blocking(blocking_state)` does to the flags it has read. -/
def change (blockingState : Bool) (flags : Flags) : Flags :=
  if blockingState then flags ^^^ (flags &&& O_NONBLOCK) else flags ||| O_NONBLOCK

/-- What `F_SETFL` makes of the flags of a file. -/
def setfl (old new : Flags) : Flags := (old &&& ~~~settable) ||| (new &&& settable)

/-- A call under way: what it was asked for, and the flags that it has read, once it has. -/
structure Call where
  blockingState : Bool
  read : Option Flags
  deriving DecidableEq, Repr

structure State (ι : Type) where
  flags : Flags
  calls : ι → Option Call

/-- A caller begins, or makes the next of its two calls of `fcntl`; with the `errno` it fails with, if
it does. -/
inductive Input (ι : Type) where
  | setBlocking (i : ι) (blockingState : Bool)
  | fcntl (i : ι) (fails : Option {errno : ℕ // errno ≠ 0})

section Step

variable {ι : Type} [DecidableEq ι]

/-- What `fcntl` returns, and `errno`. -/
def answer (fails : Option {errno : ℕ // errno ≠ 0}) (returnValue : ℤ) : ℤ × ℕ :=
  match fails with
  | none => (returnValue, 0)
  | some errno => (-1, errno)

def State.setCall (st : State ι) (i : ι) (c : Option Call) : State ι :=
  { st with calls := Function.update st.calls i c }

/-- One move; with what the call of the method comes to, if it ends. -/
def step (st : State ι) : Input ι → Option (Except Exn Unit) × State ι
  | .setBlocking i blockingState =>
    match st.calls i with
    | some _ => (none, st)
    | none => (none, st.setCall i (some ⟨blockingState, none⟩))
  | .fcntl i fails =>
    match st.calls i with
    | none => (none, st)
    | some ⟨blockingState, none⟩ =>
      let r := answer fails st.flags.toInt
      match systemCall "fcntl" r.1 r.2 0 with
      | .error e => (some (.error e), st.setCall i none)
      | .ok flags => (none, st.setCall i (some ⟨blockingState, some (BitVec.ofInt 32 flags)⟩))
    | some ⟨blockingState, some flags⟩ =>
      let r := answer fails 0
      match systemCall "fcntl" r.1 r.2 0 with
      | .error e => (some (.error e), st.setCall i none)
      | .ok _ => (some (.ok ()),
          { st.setCall i none with flags := setfl st.flags (change blockingState flags) })

def machine : Machine (State ι) (Input ι) (Option (Except Exn Unit)) := ⟨step⟩

@[simp] lemma machine_step (st : State ι) (i : Input ι) : machine.step st i = step st i := rfl

def init (flags : Flags) : State ι := ⟨flags, fun _ => none⟩

end Step

def others (flags : Flags) : Flags := flags &&& ~~~O_NONBLOCK

def isBlocking (flags : Flags) : Bool := flags &&& O_NONBLOCK == 0

lemma change_getLsbD (b : Bool) (flags : Flags) (i : ℕ) :
    (change b flags).getLsbD i =
      if O_NONBLOCK.getLsbD i then !b else flags.getLsbD i := by
  cases b <;> cases h : O_NONBLOCK.getLsbD i <;> simp [change, h]

lemma setfl_getLsbD (old new : Flags) (i : ℕ) :
    (setfl old new).getLsbD i = if settable.getLsbD i then new.getLsbD i else old.getLsbD i := by
  simp only [setfl, BitVec.getLsbD_or, BitVec.getLsbD_and, BitVec.getLsbD_not]
  by_cases hi : i < 32
  · generalize settable.getLsbD i = b
    cases b <;> simp [hi]
  · have hge (flags : Flags) : flags.getLsbD i = false := BitVec.getLsbD_of_ge flags i (by omega)
    simp [hge]

lemma others_change (b : Bool) (flags : Flags) : others (change b flags) = others flags := by
  apply BitVec.eq_of_getLsbD_eq
  intro i hi
  simp only [others, BitVec.getLsbD_and, BitVec.getLsbD_not, change_getLsbD]
  cases O_NONBLOCK.getLsbD i <;> simp

/-- `F_SETFL` keeps what it cannot change, and what it is told to keep. -/
lemma others_setfl {old new : Flags} (h : others new = others old) :
    others (setfl old new) = others old := by
  apply BitVec.eq_of_getLsbD_eq
  intro i hi
  have hbit := congrArg (·.getLsbD i) h
  simp only [others, BitVec.getLsbD_and, BitVec.getLsbD_not, setfl_getLsbD] at hbit ⊢
  split_ifs
  · exact hbit
  · rfl

lemma isBlocking_eq (flags : Flags) : isBlocking flags = !flags.getLsbD 11 := by
  have hpow : O_NONBLOCK = BitVec.twoPow 32 11 := by decide
  rw [isBlocking, hpow, BitVec.and_twoPow]
  cases flags.getLsbD 11 <;> decide

lemma isBlocking_setfl_change (b : Bool) (old flags : Flags) :
    isBlocking (setfl old (change b flags)) = b := by
  have hset : settable.getLsbD 11 = true := by decide
  have hbit : O_NONBLOCK.getLsbD 11 = true := by decide
  rw [isBlocking_eq, setfl_getLsbD, change_getLsbD, hset, hbit, if_pos rfl, if_pos rfl, Bool.not_not]

/-! ### Runs -/

section Runs

variable {ι : Type}

/-- What the call was asked for that comes through in a move. -/
def setBy (m : Move (State ι) (Input ι) (Option (Except Exn Unit))) : Option Bool :=
  match m.input, m.output with
  | .fcntl i _, some (.ok ()) => (m.before.calls i).map Call.blockingState
  | _, _ => none

/-- The mode that the last call to come through has asked for. -/
def lastSet (before : Bool) (tr : List (Move (State ι) (Input ι) (Option (Except Exn Unit)))) : Bool :=
  (tr.filterMap setBy).getLast?.getD before

/-- **The invariant**: the other flags of the file, and those in what was read of them, are the first
ones. -/
structure Kept (flags : Flags) (tr : List (Move (State ι) (Input ι) (Option (Except Exn Unit))))
    (st : State ι) : Prop where
  others : others st.flags = others flags
  read : ∀ i c f, st.calls i = some c → c.read = some f → Blocking.others f = Blocking.others flags
  mode : isBlocking st.flags = lastSet (isBlocking flags) tr

lemma lastSet_append (before : Bool)
    (tr : List (Move (State ι) (Input ι) (Option (Except Exn Unit))))
    (m : Move (State ι) (Input ι) (Option (Except Exn Unit))) :
    lastSet before (tr ++ [m]) = (setBy m).getD (lastSet before tr) := by
  unfold lastSet
  rw [List.filterMap_append]
  cases hm : setBy m with
  | none => simp [hm]
  | some b => simp [hm]

lemma Kept.quiet {flags : Flags} {tr : List (Move (State ι) (Input ι) (Option (Except Exn Unit)))}
    {m : Move (State ι) (Input ι) (Option (Except Exn Unit))} (h : Kept flags tr m.before)
    (hset : setBy m = none) (hflags : m.after.flags = m.before.flags)
    (hread : ∀ i c f, m.after.calls i = some c → c.read = some f →
      Blocking.others f = Blocking.others flags) : Kept flags (tr ++ [m]) m.after := by
  refine ⟨?_, hread, ?_⟩
  · rw [hflags, h.others]
  · rw [lastSet_append, hset, hflags, h.mode]
    rfl

variable [DecidableEq ι]

lemma Kept.setCall {flags : Flags}
    {tr : List (Move (State ι) (Input ι) (Option (Except Exn Unit)))} {st : State ι}
    (h : Kept flags tr st) (i : ι) {c : Option Call}
    (hc : ∀ c' f, c = some c' → c'.read = some f → Blocking.others f = Blocking.others flags) :
    ∀ j c' f, (st.setCall i c).calls j = some c' → c'.read = some f →
      Blocking.others f = Blocking.others flags := by
  intro j c' f hj hf
  by_cases hij : j = i
  · subst hij
    have hself : (st.setCall j c).calls j = c := Function.update_self ..
    rw [hself] at hj
    exact hc c' f hj hf
  · have hother : (st.setCall i c).calls j = st.calls j := Function.update_of_ne hij ..
    rw [hother] at hj
    exact h.read j c' f hj hf

lemma read_flags {flags : Flags} {v : ℤ}
    (h : systemCall "fcntl" flags.toInt 0 0 = .ok v) : BitVec.ofInt 32 v = flags := by
  unfold systemCall at h
  split_ifs at h
  cases h
  have hmod : toInt flags.toInt = flags.toInt := BitVec.toInt_bmod_cancel flags
  rw [hmod, BitVec.ofInt_toInt]

theorem Kept.step {flags : Flags} {tr : List (Move (State ι) (Input ι) (Option (Except Exn Unit)))}
    {st : State ι} (h : Kept flags tr st) (i : Input ι) :
    Kept flags (tr ++ [machine.move st i]) (machine.move st i).after := by
  cases i with
  | setBlocking i blockingState =>
    cases hi : st.calls i with
    | some c =>
      have hstep : Blocking.step st (.setBlocking i blockingState) = (none, st) := by
        rw [Blocking.step, hi]
      rw [machine.move_eq ((machine_step st _).trans hstep)]
      exact .quiet h rfl rfl h.read
    | none =>
      have hstep : Blocking.step st (.setBlocking i blockingState) =
          (none, st.setCall i (some ⟨blockingState, none⟩)) := by
        rw [Blocking.step, hi]
      rw [machine.move_eq ((machine_step st _).trans hstep)]
      refine .quiet h rfl rfl (h.setCall i ?_)
      rintro c' f ⟨⟩ hf
      cases hf
  | fcntl i fails =>
    have hgone := h.setCall i (c := none) fun c' f hc' _ => (by cases hc')
    cases hi : st.calls i with
    | none =>
      have hstep : Blocking.step st (.fcntl i fails) = (none, st) := by
        rw [Blocking.step, hi]
      rw [machine.move_eq ((machine_step st _).trans hstep)]
      exact .quiet h rfl rfl h.read
    | some c =>
      obtain ⟨blockingState, read⟩ := c
      cases read with
      | none =>
        cases hcall : systemCall "fcntl" (answer fails st.flags.toInt).1
            (answer fails st.flags.toInt).2 0 with
        | error e =>
          have hstep : Blocking.step st (.fcntl i fails) = (some (.error e), st.setCall i none) := by
            simp only [Blocking.step, hi, hcall]
          rw [machine.move_eq ((machine_step st _).trans hstep)]
          exact .quiet h rfl rfl hgone
        | ok v =>
          have hstep : Blocking.step st (.fcntl i fails) =
              (none, st.setCall i (some ⟨blockingState, some (BitVec.ofInt 32 v)⟩)) := by
            simp only [Blocking.step, hi, hcall]
          rw [machine.move_eq ((machine_step st _).trans hstep)]
          refine .quiet h rfl rfl (h.setCall i ?_)
          rintro c' f ⟨⟩ ⟨⟩
          cases fails with
          | none => rw [read_flags hcall, h.others]
          | some errno =>
            rw [answer, systemCall_of_fail errno.2] at hcall
            cases hcall
      | some f =>
        cases hcall : systemCall "fcntl" (answer fails 0).1 (answer fails 0).2 0 with
        | error e =>
          have hstep : Blocking.step st (.fcntl i fails) = (some (.error e), st.setCall i none) := by
            simp only [Blocking.step, hi, hcall]
          rw [machine.move_eq ((machine_step st _).trans hstep)]
          exact .quiet h rfl rfl hgone
        | ok v =>
          have hstep : Blocking.step st (.fcntl i fails) = (some (.ok ()),
              { st.setCall i none with flags := setfl st.flags (change blockingState f) }) := by
            simp only [Blocking.step, hi, hcall]
          rw [machine.move_eq ((machine_step st _).trans hstep)]
          have hsame : Blocking.others (change blockingState f) = Blocking.others st.flags := by
            rw [others_change, h.read i _ f hi rfl, h.others]
          refine ⟨?_, hgone, ?_⟩
          · exact (others_setfl hsame).trans h.others
          · have hset : setBy ⟨st, .fcntl i fails, some (.ok ()),
                { st.setCall i none with flags := setfl st.flags (change blockingState f) }⟩ =
                  some blockingState := by
              simp only [setBy, hi, Option.map_some]
            rw [lastSet_append, hset]
            exact isBlocking_setfl_change ..

/-- **Only the one flag.** Whatever calls of `set_blocking` come between one another, and fail, on the
handles of an open file: its other flags stay as they were, and it is in the mode that the last call
to come through has asked for. -/
theorem set_blocking_interleaved (flags : Flags) (is : List (Input ι)) :
    others (machine.run (init flags) is).flags = others flags ∧
      isBlocking (machine.run (init flags) is).flags =
        lastSet (isBlocking flags) (machine.trace (init flags) is) := by
  have h : Kept flags (machine.trace (init flags) is) (machine.run (init flags) is) :=
    machine.history (J := fun tr st => Kept flags tr st) ⟨rfl, fun _ _ _ hc => (by cases hc), rfl⟩
      (fun _ _ i h => h.step i) is
  exact ⟨h.others, h.mode⟩

end Runs

end Sponge.Blocking
