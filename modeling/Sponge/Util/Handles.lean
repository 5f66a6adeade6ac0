import Sponge.Lib.Machine
import Sponge.Util.FileDescriptor

/-!
# The handles of a descriptor

The objects of the class `FileDescriptor` that share one `FDWrapper`, and the calls of `::close`
that they lead to: one for every explicit `close`, and one by the destructor of the wrapper, which
runs when the last pointer to it goes and skips the call if the descriptor was closed before.

* `Handles`, `step` — the objects with their pointers, the wrapper, the calls made;
* `Calls`, `step_calls` — all that an operation adds to the calls of `::close`;
* `Wired` — the invariant: the wrapper lives as long as an object holds it, and its flag tells
  whether a call of `::close` has succeeded;
* `released_once_iff` — when no call follows one that succeeded.
-/

namespace Sponge

open Lib

/-- `FDWrapper::close()`, with the calls of `::close` made so far. -/
def FDWrapper.close (w : FDWrapper) (calls : List ZeroAnswer) (answer : ZeroAnswer) :
    Except Exn Unit × FDWrapper × List ZeroAnswer :=
  match systemCall "close" answer.returnValue answer.errno 0 with
  | .error e => (.error e, w, calls ++ [answer])
  | .ok _ => (.ok (), { w with eof := true, closed := true }, calls ++ [answer])

/-- `~FDWrapper()`: what it catches and reports, if `close` throws, and the calls of `::close`. -/
def FDWrapper.destruct (w : FDWrapper) (calls : List ZeroAnswer) (answer : ZeroAnswer) :
    Option Exn × List ZeroAnswer :=
  if w.closed then (none, calls)
  else
    match w.close calls answer with
    | (.error e, _, calls) => (some e, calls)
    | (.ok (), _, calls) => (none, calls)

namespace FDWrapper

variable (w : FDWrapper) {calls : List ZeroAnswer} {a : ZeroAnswer}

lemma close_calls : (w.close calls a).2.2 = calls ++ [a] := by
  unfold close
  split <;> rfl

lemma destruct_of_closed (h : w.closed = true) : w.destruct calls a = (none, calls) := by
  rw [destruct, if_pos h]

lemma destruct_calls (h : w.closed = false) : (w.destruct calls a).2 = calls ++ [a] := by
  rw [destruct, if_neg (by rw [h]; exact Bool.false_ne_true)]
  have hcalls : (w.close calls a).2.2 = calls ++ [a] := w.close_calls
  split
  all_goals
    rename_i heq
    rw [heq] at hcalls
    exact hcalls

end FDWrapper

namespace FileDescriptor

/-- An object of the class: gone, without a pointer since it was moved from, or with a pointer to
the wrapper. -/
inductive Handle where
  | destroyed
  | empty
  | holds
  deriving DecidableEq, Repr

/-- The objects made so far, their wrapper as long as it lives, and the calls of `::close`. -/
structure Handles where
  objects : List Handle
  wrapper : Option FDWrapper
  calls : List ZeroAnswer
  deriving DecidableEq

namespace Handles

def new (fd : ℕ) : Handles := ⟨[.holds], some { fd }, []⟩

/-- What becomes of the wrapper after a pointer to it was let go of. -/
def letGo (s : Handles) (answer : ZeroAnswer) : Handles :=
  if .holds ∈ s.objects then s
  else
    match s.wrapper with
    | none => s
    | some w => { s with wrapper := none, calls := (w.destruct s.calls answer).2 }

/-- The operations on an object, by its number; with an answer for `::close` if it comes to it. -/
inductive Op where
  | duplicate (h : ℕ)
  | move (h : ℕ)
  /-- `h = std::move(k)`. -/
  | assign (h k : ℕ) (answer : ZeroAnswer)
  | close (h : ℕ) (answer : ZeroAnswer)
  | destroy (h : ℕ) (answer : ZeroAnswer)
  deriving DecidableEq

/-- The object, unless it was never made or is gone. -/
def object (s : Handles) (h : ℕ) : Option Handle :=
  match s.objects[h]? with
  | some .destroyed => none
  | o => o

/-- One operation. One on an object that is not there, and a `close` through an object that was
moved from, are none that a program can make, and do nothing. -/
def step (s : Handles) : Op → Except Exn Unit × Handles
  | .duplicate h =>
    match s.object h with
    | some o => (.ok (), { s with objects := s.objects ++ [o] })
    | none => (.ok (), s)
  | .move h =>
    match s.object h with
    | some o => (.ok (), { s with objects := s.objects.set h .empty ++ [o] })
    | none => (.ok (), s)
  | .assign h k answer =>
    match s.object h, s.object k with
    | some _, some o =>
      if h = k then (.ok (), s)
      else (.ok (), letGo { s with objects := (s.objects.set h o).set k .empty } answer)
    | _, _ => (.ok (), s)
  | .close h answer =>
    match s.object h, s.wrapper with
    | some .holds, some w =>
      let (result, w, calls) := w.close s.calls answer
      (result, { s with wrapper := some w, calls })
    | _, _ => (.ok (), s)
  | .destroy h answer =>
    match s.object h with
    | some _ => (.ok (), letGo { s with objects := s.objects.set h .destroyed } answer)
    | none => (.ok (), s)

/-- The handles of a descriptor and the operations on them. -/
def machine : Machine Handles Op (Except Exn Unit) := ⟨step⟩

@[simp] lemma machine_step (s : Handles) (op : Op) : machine.step s op = s.step op := rfl

/-! ### What an operation adds to the calls -/

lemma close_closed (w : FDWrapper) (calls : List ZeroAnswer) (a : ZeroAnswer) :
    (w.close calls a).2.1.closed = true ↔ w.closed = true ∨ a.returnValue = 0 := by
  obtain ⟨rv, errno, ⟨rfl, he⟩ | rfl⟩ := a
  · unfold FDWrapper.close
    rw [systemCall_of_fail he]
    exact ⟨.inl, fun h => h.resolve_right fun h0 => absurd (show (-1 : ℤ) = 0 from h0) (by decide)⟩
  · exact ⟨fun _ => .inr rfl, fun _ => rfl⟩

/-- An explicit `close` that reaches the wrapper `w`. -/
def Closes (s : Handles) (op : Op) (w : FDWrapper) : Prop :=
  ∃ h a, op = .close h a ∧ s.object h = some .holds ∧ s.wrapper = some w

lemma not_closes {s : Handles} {op : Op} (hop : ∀ h a, op ≠ .close h a) (w : FDWrapper) :
    ¬ s.Closes op w := fun ⟨h, a, heq, _⟩ => hop h a heq

/-- What an operation adds to the calls of `::close`: nothing, the call of an explicit `close`, or
the one of the destructor of a wrapper that was not closed before. -/
inductive Calls (s : Handles) (op : Op) (s' : Handles) : Prop
  | none (calls : s'.calls = s.calls) (no_close : ∀ w, ¬ s.Closes op w)
  | explicit (w : FDWrapper) (a : ZeroAnswer) (closes : s.Closes op w)
      (calls : s'.calls = s.calls ++ [a])
  | destructor (w : FDWrapper) (a : ZeroAnswer) (wrapper : s.wrapper = some w)
      (opened : w.closed = false) (calls : s'.calls = s.calls ++ [a])
      (no_close : ∀ w, ¬ s.Closes op w)

/-- Letting go of a pointer, by an operation that changed the objects only. -/
lemma letGo_calls {s : Handles} {op : Op} (objects : List Handle) (answer : ZeroAnswer)
    (hop : ∀ h a, op ≠ .close h a) :
    s.Calls op (letGo { s with objects } answer) := by
  unfold letGo
  split
  · exact .none rfl (not_closes hop)
  · cases hw : s.wrapper with
    | none => exact .none rfl (not_closes hop)
    | some w =>
      cases hclosed : w.closed with
      | true => exact .none (congrArg Prod.snd (w.destruct_of_closed hclosed)) (not_closes hop)
      | false => exact .destructor w answer hw hclosed (w.destruct_calls hclosed) (not_closes hop)

/-- **All that an operation adds to the calls of `::close`.** -/
theorem step_calls (s : Handles) (op : Op) : s.Calls op (s.step op).2 := by
  cases op with
  | duplicate h =>
    have hop : ∀ h' a, Op.duplicate h ≠ .close h' a := fun _ _ heq => by cases heq
    simp only [step]
    split <;> exact .none rfl (not_closes hop)
  | move h =>
    have hop : ∀ h' a, Op.move h ≠ .close h' a := fun _ _ heq => by cases heq
    simp only [step]
    split <;> exact .none rfl (not_closes hop)
  | assign h k answer =>
    have hop : ∀ h' a, Op.assign h k answer ≠ .close h' a := fun _ _ heq => by cases heq
    simp only [step]
    split
    · split
      · exact .none rfl (not_closes hop)
      · exact letGo_calls _ _ hop
    · exact .none rfl (not_closes hop)
  | close h answer =>
    simp only [step]
    split
    · rename_i w hobject hwrapper
      exact .explicit w answer ⟨h, answer, rfl, hobject, hwrapper⟩ w.close_calls
    · rename_i hother
      refine .none rfl ?_
      rintro w ⟨h', a, heq, hobject, hwrapper⟩
      cases heq
      exact hother w hobject hwrapper
  | destroy h answer =>
    have hop : ∀ h' a, Op.destroy h answer ≠ .close h' a := fun _ _ heq => by cases heq
    simp only [step]
    split
    · exact letGo_calls _ _ hop
    · exact .none rfl (not_closes hop)

/-! ### The wrapper and its flag -/

/-- **The invariant.** An object with a pointer points to a wrapper that lives, and one that lives
is pointed to; its flag is set once a call of `::close` has succeeded; and before it was gone there
was a call. -/
structure Wired (s : Handles) : Prop where
  lives : .holds ∈ s.objects → s.wrapper ≠ none
  held : s.wrapper ≠ none → .holds ∈ s.objects
  opened : ∀ w, s.wrapper = some w → (w.closed = false ↔ ∀ a ∈ s.calls, a.returnValue = -1)
  called : s.wrapper = none → s.calls ≠ []

lemma wired_new (fd : ℕ) : (new fd).Wired := by
  refine ⟨fun _ h => (by cases h), fun _ => List.mem_singleton.2 rfl, ?_, fun h => by cases h⟩
  rintro w ⟨⟩
  exact ⟨fun _ a ha => (by cases ha), fun _ => rfl⟩

/-- After a pointer was let go of, the wrapper lives exactly as long as one is left. -/
lemma Wired.letGo {s : Handles} (h : s.Wired) {objects : List Handle} (answer : ZeroAnswer)
    (hsub : .holds ∈ objects → .holds ∈ s.objects) :
    (Handles.letGo { s with objects } answer).Wired := by
  unfold Handles.letGo
  split
  · rename_i hholds
    exact ⟨fun ho => h.lives (hsub ho), fun _ => hholds, h.opened, h.called⟩
  · rename_i hholds
    cases hw : s.wrapper with
    | none =>
      simp only
      exact ⟨fun ho => absurd ho hholds, fun hn => absurd rfl hn, fun w hs => (by cases hs),
        fun _ => h.called hw⟩
    | some w =>
      simp only
      refine ⟨fun ho => absurd ho hholds, fun hn => absurd rfl hn, fun w hs => (by cases hs), ?_⟩
      intro _
      cases hclosed : w.closed with
      | true =>
        -- the flag is set, so there was a call that did not fail
        rw [w.destruct_of_closed hclosed]
        rintro hnil
        have hopen := (h.opened w hw).2 fun a ha => by rw [hnil] at ha; cases ha
        rw [hopen] at hclosed
        cases hclosed
      | false =>
        rw [w.destruct_calls hclosed]
        exact List.concat_ne_nil _ _

lemma Wired.objects {s : Handles} (h : s.Wired) {objects : List Handle}
    (hiff : .holds ∈ objects ↔ .holds ∈ s.objects) : Wired { s with objects } :=
  ⟨fun ho => h.lives (hiff.1 ho), fun hn => hiff.2 (h.held hn), h.opened, h.called⟩

lemma object_mem {s : Handles} {h : ℕ} {o : Handle} (ho : s.object h = some o) :
    s.objects[h]? = some o := by
  unfold object at ho
  split at ho
  · cases ho
  · exact ho

lemma Wired.step {s : Handles} (h : s.Wired) (op : Op) : (s.step op).2.Wired := by
  cases op with
  | duplicate i =>
    simp only [Handles.step]
    split
    · rename_i o ho
      have hmem := List.mem_of_getElem? (object_mem ho)
      refine h.objects ⟨fun hh => ?_, fun hh => List.mem_append_left _ hh⟩
      rcases List.mem_append.1 hh with hh | hh
      · exact hh
      · rwa [List.mem_singleton.1 hh]
    · exact h
  | move i =>
    simp only [Handles.step]
    split
    · rename_i o ho
      have hget := object_mem ho
      refine h.objects ⟨fun hh => ?_, fun hh => ?_⟩
      · rcases List.mem_append.1 hh with hh | hh
        · exact (List.mem_or_eq_of_mem_set hh).resolve_right (fun hc => by cases hc)
        · rw [List.mem_singleton.1 hh]
          exact List.mem_of_getElem? hget
      · obtain ⟨j, hj⟩ := List.mem_iff_getElem?.1 hh
        by_cases hij : i = j
        · -- the pointer that was moved is in the new object
          subst hij
          rw [hget] at hj
          rw [Option.some.inj hj]
          exact List.mem_append_right _ (List.mem_singleton.2 rfl)
        · refine List.mem_append_left _ (List.mem_of_getElem? (i := j) ?_)
          rwa [List.getElem?_set_ne hij]
    · exact h
  | assign i k answer =>
    simp only [Handles.step]
    split
    · rename_i o hi hk
      split
      · exact h
      · refine h.letGo answer fun hh => ?_
        have hset := (List.mem_or_eq_of_mem_set hh).resolve_right (fun hc => by cases hc)
        rcases List.mem_or_eq_of_mem_set hset with hset | rfl
        · exact hset
        · exact List.mem_of_getElem? (object_mem hk)
    · exact h
  | close i answer =>
    simp only [Handles.step]
    split
    · rename_i w hobject hwrapper
      have hheld := h.held (by rw [hwrapper]; exact fun hn => by cases hn)
      refine ⟨fun _ hn => (by cases hn), fun _ => hheld, ?_, fun hn => by cases hn⟩
      rintro w' ⟨⟩
      show (w.close s.calls answer).2.1.closed = false ↔
        ∀ a ∈ (w.close s.calls answer).2.2, a.returnValue = -1
      have hw := h.opened w hwrapper
      rw [w.close_calls, List.forall_mem_append, ← hw, List.forall_mem_singleton, ← Bool.not_eq_true,
        close_closed, not_or, Bool.not_eq_true]
      refine and_congr_right fun _ => ?_
      rcases answer.fails_or_returns with ⟨hfail, -⟩ | hok
      · rw [hfail]
        decide
      · rw [hok]
        decide
    · exact h
  | destroy i answer =>
    simp only [Handles.step]
    split
    · refine h.letGo answer fun hh => ?_
      exact (List.mem_or_eq_of_mem_set hh).resolve_right (fun hc => by cases hc)
    · exact h

/-! ### Runs -/

/-- No call of `::close` follows one that succeeded. -/
def ReleasedOnce (calls : List ZeroAnswer) : Prop :=
  calls.Pairwise fun earlier _ => earlier.returnValue = -1

/-- An explicit `close` finds the descriptor not closed yet. -/
def FirstClose (m : Move Handles Op (Except Exn Unit)) : Prop :=
  ∀ w, m.before.Closes m.input w → w.closed = false

lemma releasedOnce_append {calls : List ZeroAnswer} (a : ZeroAnswer) :
    ReleasedOnce (calls ++ [a]) ↔ ReleasedOnce calls ∧ ∀ b ∈ calls, b.returnValue = -1 := by
  unfold ReleasedOnce
  rw [List.pairwise_append]
  simp

/-- One operation: what it adds to the calls keeps them released once exactly if an explicit
`close` is a first one. -/
lemma releasedOnce_step {s : Handles} (h : s.Wired) (op : Op) :
    ReleasedOnce (s.step op).2.calls ↔ ReleasedOnce s.calls ∧ FirstClose (machine.move s op) := by
  rcases step_calls s op with ⟨hcalls, hno⟩ | ⟨w, a, hcloses, hcalls⟩ | ⟨w, a, hw, hopen, hcalls, hno⟩
  · rw [hcalls]
    exact (and_iff_left fun w hw => absurd hw (hno w)).symm
  · rw [hcalls, releasedOnce_append]
    obtain ⟨i, b, hop, hobject, hwrapper⟩ := hcloses
    rw [← h.opened w hwrapper]
    refine and_congr_right fun _ => ⟨?_, fun hfirst => hfirst w ⟨i, b, hop, hobject, hwrapper⟩⟩
    rintro hopen w' ⟨_, _, _, _, hw'⟩
    obtain rfl : w = w' := Option.some.inj (hwrapper.symm.trans hw')
    exact hopen
  · rw [hcalls, releasedOnce_append, ← h.opened w hw]
    exact and_congr_right fun _ => ⟨fun _ w hw => absurd hw (hno w), fun _ => hopen⟩

lemma wired_run (fd : ℕ) (ops : List Op) : (machine.run (new fd) ops).Wired :=
  Machine.invariant (wired_new fd) (fun _ op h => h.step op) ops

/-- **When a descriptor is released once**: in a run of operations on the handles of a wrapper, no
`::close` follows one that succeeded exactly if every explicit `close` finds the wrapper not closed
yet. In every run, a wrapper that nobody holds any more has called `::close`. -/
theorem released_once_iff (fd : ℕ) (ops : List Op) :
    (ReleasedOnce (machine.run (new fd) ops).calls ↔
      ∀ m ∈ machine.trace (new fd) ops, FirstClose m) ∧
    (.holds ∉ (machine.run (new fd) ops).objects → (machine.run (new fd) ops).calls ≠ []) := by
  refine ⟨?_, ?_⟩
  · refine (Machine.history (M := machine) (J := fun tr s => s.Wired ∧
      (ReleasedOnce s.calls ↔ ∀ m ∈ tr, FirstClose m)) ⟨wired_new fd, ?_⟩ ?_ ops).2
    · exact ⟨fun _ m hm => (by cases hm), fun _ => List.Pairwise.nil⟩
    · rintro tr s op ⟨hs, hiff⟩
      refine ⟨hs.step op, ?_⟩
      rw [machine_step, releasedOnce_step hs op, hiff, List.forall_mem_append,
        List.forall_mem_singleton]
  · intro hnone
    have h := wired_run fd ops
    refine h.called ?_
    by_contra hw
    exact hnone (h.held hw)

def succeeded : ZeroAnswer := ⟨0, 0, .inr rfl⟩

/-- Two handles, each closed explicitly. -/
theorem not_released_once :
    ¬ ReleasedOnce
      (machine.run (new 3) [.duplicate 0, .close 0 succeeded, .close 1 succeeded]).calls := by
  have hcalls : (machine.run (new 3) [.duplicate 0, .close 0 succeeded, .close 1 succeeded]).calls =
      [succeeded, succeeded] := by decide
  rw [hcalls]
  intro h
  have hfail := (List.pairwise_cons.1 h).1 succeeded (List.mem_singleton.2 rfl)
  exact absurd hfail (by decide)

end Handles

end FileDescriptor

end Sponge
