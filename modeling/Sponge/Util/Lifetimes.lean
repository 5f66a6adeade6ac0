import Sponge.Util.Descriptors
import Sponge.Util.PollResults

/-!
# An event loop in a process

A rule holds a duplicate of the descriptor it is for, so the loop has a say in how long a descriptor
stays open. Here are `EventLoop` and the objects of `Descriptors` in one machine: `add_rule` makes
an object, erasing a rule or destroying the loop destroys it, and the functions of the rules and the
caller do to the objects of the user what they like.

* `State`, `step` — the process, its loop, and the object of each rule;
* `Mild` — what every operation but `close` leaves of the wrappers;
* `Kept` — the invariant: a rule's object holds the rule's wrapper, and no two rules share one;
* `rules_hold` — who keeps a descriptor open;
* `Polling` — the invariant of the calls that have not polled yet;
* `polls_own` — what `poll` is called for: open descriptors, and each the one of its rule.
-/

namespace Sponge.Lifetimes

open Lib FileDescriptor EventLoop Descriptors

/-! ### The machine -/

/-- A process with a loop. `holder` is the object of a rule, by the number of the registration. -/
structure State where
  process : Process
  rules : RuleList
  stack : List Frame
  undefined : Bool
  holder : ℕ → ℕ

/-- The loop, with the wrappers as its rules see them. -/
def State.loop (s : State) : EventLoop.State :=
  ⟨s.rules, fun p => (s.process.wrappers p).getD { fd := 0 }, s.stack, s.undefined⟩

def start : State := ⟨Process.start, RuleList.empty, [], false, fun _ => 0⟩

inductive Input where
  /-- the user's code calls `add_rule` with its object `h` -/
  | addRule (h : ℕ) (direction : Direction)
  /-- the user's code does something to its objects -/
  | user (op : Op)
  /-- the user's code reads or writes through its object `h` -/
  | use (h : ℕ) (eof : Bool) (readCount writeCount : UInt32)
  | waitNextEvent
  /-- the function that is running returns; with an answer for `::close` if it comes to it -/
  | ret (answer : Bool) (a : CloseAnswer)
  | throw (e : Exn)
  | poll (answer : PollAnswer)
  | tick
  /-- the caller's loop is destroyed, with an answer for the `::close` of each rule, and another one
  takes its place -/
  | renew (a : ℕ → CloseAnswer)

def names : Op → List ℕ
  | .openFd _ _ | .tunTap _ _ _ _ _ => []
  | .socket h _ _ _ _ _ | .accept h _ _ _ _ | .duplicate h | .move h | .close h _ | .destroy h _ =>
    [h]
  | .assign h k _ => [h, k]

def State.userRuns (s : State) : Bool :=
  !s.undefined && s.stack.head?.all fun fr => fr.pc.running.isSome

/-- The object is not the one of a rule, which the user's code has no name for. -/
def State.isUsers (s : State) (h : ℕ) : Bool := s.rules.nodes.all fun id => s.holder id != h

/-- The process, when the objects of these rules have been destroyed. -/
def State.without (s : State) (ids : List ℕ) (a : ℕ → CloseAnswer) : Process :=
  ids.foldl (fun process id => (Descriptors.step process (.destroy (s.holder id) (a id))).2)
    s.process

/-- A move of the loop, and the destruction of the rules that it erases. -/
def loopMove (s : State) (i : EventLoop.Input) (a : CloseAnswer) : List Event × State :=
  let r := EventLoop.step s.loop i
  (r.1, { s with
    process := s.without (s.rules.nodes.filter (· ∉ r.2.rules.nodes)) fun _ => a
    rules := r.2.rules
    stack := r.2.stack
    undefined := r.2.undefined })

/-- One move. One that the user's code cannot make changes nothing. -/
def step (s : State) : Input → List Event × State
  | .addRule h direction =>
    match s.process.object h with
    | some (.holds p) =>
      if s.userRuns && s.isUsers h then
        ([.added (s.rules.newRule p direction)],
          { s with
            process := (Descriptors.step s.process (.duplicate h)).2
            rules := s.rules.pushBack p direction
            holder := Function.update s.holder s.rules.registered s.process.objects.length })
      else ([], s)
    | _ => ([], s)
  | .user op =>
    if s.userRuns && (names op).all s.isUsers then
      ([], { s with process := (Descriptors.step s.process op).2 })
    else ([], s)
  | .use h eof readCount writeCount =>
    match s.process.object h with
    | some (.holds p) =>
      match s.process.wrappers p with
      | some w =>
        if s.userRuns && s.isUsers h then
          ([], { s with process := s.process.setWrapper p { w with eof, readCount, writeCount } })
        else ([], s)
      | none => ([], s)
    | _ => ([], s)
  | .waitNextEvent => loopMove s .waitNextEvent succeeded
  | .ret answer a => loopMove s (.ret answer) a
  | .throw e => loopMove s (.throw e) succeeded
  | .poll answer => loopMove s (.poll answer) succeeded
  | .tick => loopMove s .tick succeeded
  | .renew a =>
    if s.stack.isEmpty && !s.undefined then
      ([], { s with process := s.without s.rules.nodes a, rules := RuleList.empty })
    else ([], s)

def machine : Machine State Input (List Event) := ⟨step⟩

@[simp] lemma machine_step (s : State) (i : Input) : machine.step s i = step s i := rfl

def Honest (s : State) : Input → Prop
  | .user op => ¬ Robs (Descriptors.machine.move s.process op)
  | _ => True

/-! ### What an operation leaves -/

/-- Of the wrappers that there were, those that are left have their descriptors and are as closed as
before. -/
structure Mild (s s' : Process) : Prop where
  made : s.made ≤ s'.made
  wrappers : ∀ p < s.made, ∀ w', s'.wrappers p = some w' →
    ∃ w, s.wrappers p = some w ∧ w'.fd = w.fd ∧ w'.closed = w.closed

namespace Mild

variable {s s' s'' : Process}

lemma of_eq (hmade : s'.made = s.made) (hwrappers : s'.wrappers = s.wrappers) : Mild s s' := by
  refine ⟨Nat.le_of_eq hmade.symm, fun p _ w' hw' => ⟨w', ?_, rfl, rfl⟩⟩
  rw [← hwrappers, hw']

lemma trans (h : Mild s s') (h' : Mild s' s'') : Mild s s'' := by
  refine ⟨h.made.trans h'.made, fun p hp w'' hw'' => ?_⟩
  obtain ⟨w', hw', hfd', hclosed'⟩ := h'.wrappers p (hp.trans_le h.made) w'' hw''
  obtain ⟨w, hw, hfd, hclosed⟩ := h.wrappers p hp w' hw'
  exact ⟨w, hw, hfd'.trans hfd, hclosed'.trans hclosed⟩

lemma update (s : Process) {p : ℕ} {w : FDWrapper} (hw : s.wrappers p = some w)
    {x : Option FDWrapper} (hx : ∀ w' ∈ x, w'.fd = w.fd ∧ w'.closed = w.closed)
    (opened abandoned : Finset ℕ) : Mild s { s with
      wrappers := Function.update s.wrappers p x
      opened
      abandoned } := by
  refine ⟨Nat.le_refl _, fun q _ w' hw' => ?_⟩
  replace hw' : Function.update s.wrappers p x q = some w' := hw'
  by_cases hq : q = p
  · subst hq
    rw [Function.update_self] at hw'
    obtain ⟨hfd, hclosed⟩ := hx w' hw'
    exact ⟨w, hw, hfd, hclosed⟩
  · rw [Function.update_of_ne hq] at hw'
    exact ⟨w', hw', rfl, rfl⟩

lemma gone (s : Process) {p fd : ℕ} (h : s.Owns p fd) (opened abandoned : Finset ℕ) :
    Mild s { s with
      wrappers := Function.update s.wrappers p none
      opened
      abandoned } := by
  obtain ⟨w, hw, -⟩ := h
  exact update s hw (fun w' hw' => by cases hw') opened abandoned

lemma letGo {s s' : Process} {p : ℕ} (h : LetsGo s p s') : Mild s s' := by
  cases h with
  | held hheld => exact of_eq rfl rfl
  | absent hnobody hw => exact of_eq rfl rfl
  | closed hnobody w hw hclosed => exact update s hw (fun w' hw' => by cases hw') _ _
  | frees hnobody fd howns => exact gone s howns _ _
  | abandons hnobody fd howns hmem => exact gone s howns _ _

lemma create (s : Process) (fd : ℕ) : Mild s (s.create fd) := by
  refine ⟨Nat.le_succ _, fun p hp w' hw' => ⟨w', ?_, rfl, rfl⟩⟩
  replace hw' : Function.update s.wrappers s.made (some { fd }) p = some w' := hw'
  rwa [Function.update_of_ne (Nat.ne_of_lt hp)] at hw'

lemma stable (s : Process) : Stable fun _ s' => Mild s s' where
  objects := fun h _ _ => h.trans (of_eq rfl rfl)
  letGo := fun h hgo => h.trans (letGo hgo)
  create := fun h _ => h.trans (create _ _)
  setWrapper := by
    intro t p w w' h hw hfd hclosed
    refine h.trans (update t hw ?_ _ _)
    rintro v ⟨⟩
    exact ⟨hfd, hclosed⟩

theorem step (s : Process) {op : Op} (hop : ∀ h a, op ≠ .close h a) :
    Mild s (Descriptors.step s op).2 :=
  (stable s).step (of_eq rfl rfl) hop

end Mild

/-! ### The objects that an operation leaves alone -/

section Objects

variable {s : Process} {j : ℕ}

@[simp] lemma objects_letGo (s : Process) (p : ℕ) (a : CloseAnswer) :
    (s.letGo p a).objects = s.objects := by
  have hgo := letsGo s p a
  generalize s.letGo p a = s' at hgo ⊢
  cases hgo <;> rfl

@[simp] lemma objects_letGoOf (s : Process) (o : Object) (a : CloseAnswer) :
    (s.letGoOf o a).objects = s.objects := by
  cases o with
  | destroyed => rfl
  | empty => rfl
  | holds p => exact objects_letGo ..

@[simp] lemma objects_destroy (s : Process) (h : ℕ) (o : Object) (a : CloseAnswer) :
    (s.destroy h o a).objects = s.objects.set h .destroyed := objects_letGoOf ..

lemma objects_close (s : Process) (p : ℕ) (w : FDWrapper) (a : CloseAnswer) :
    (s.close p w a).2.objects = s.objects := by
  unfold Process.close
  simp only
  split <;> rfl

/-- A constructor that throws takes its own object with it, and no other. -/
lemma objects_finish {objects : List Object} (hj : j < objects.length) (o : Object)
    (hs : s.objects = objects ++ [o]) (check : Except Exn Unit) (a : CloseAnswer) :
    (s.finish o check a).2.objects[j]? = objects[j]? := by
  have happend : s.objects[j]? = objects[j]? := by rw [hs, List.getElem?_append_left hj]
  unfold Process.finish
  split
  · exact happend
  · have hlast : s.objects.length - 1 ≠ j := by
      rw [hs, List.length_append, List.length_singleton]
      omega
    rw [objects_destroy, List.getElem?_set_ne hlast, happend]

lemma objects_acquire (hj : j < s.objects.length) (attempt : String) (opens : Opens)
    (check : Except Exn Unit) (a : CloseAnswer) :
    (s.acquire attempt opens check a).2.objects[j]? = s.objects[j]? := by
  unfold Process.acquire
  split
  · rfl
  · split
    · rfl
    · exact objects_finish hj _ rfl check a

theorem objects_step {op : Op} (hop : j ∉ names op) (hj : j < s.objects.length) :
    (Descriptors.step s op).2.objects[j]? = s.objects[j]? := by
  cases op with
  | openFd attempt opens => exact objects_acquire hj ..
  | tunTap devname isTun opens ioctl a => exact objects_acquire hj ..
  | socket h domain type actualDomain actualType a =>
    have hne : h ≠ j := fun heq => hop (List.mem_singleton.2 heq.symm)
    simp only [Descriptors.step]
    split
    · have hset : j < (s.objects.set h .empty).length := by rwa [List.length_set]
      rw [objects_finish hset _ rfl, List.getElem?_set_ne hne]
    · rfl
  | accept h opens actualDomain actualType a =>
    simp only [Descriptors.step]
    split
    · split
      · exact objects_acquire (s := s.setWrapper _ _) hj ..
      · rfl
    · rfl
  | duplicate h =>
    simp only [Descriptors.step]
    split
    · exact List.getElem?_append_left hj
    · rfl
  | move h =>
    have hne : h ≠ j := fun heq => hop (List.mem_singleton.2 heq.symm)
    simp only [Descriptors.step]
    split
    · rw [List.getElem?_append_left (by rwa [List.length_set]), List.getElem?_set_ne hne]
    · rfl
  | assign h k a =>
    have hne : h ≠ j := fun heq => hop (heq ▸ List.mem_cons_self)
    have hne' : k ≠ j := fun heq => hop (heq ▸ List.mem_cons_of_mem _ List.mem_cons_self)
    simp only [Descriptors.step]
    split
    · split
      · rfl
      · rw [objects_letGoOf, List.getElem?_set_ne hne', List.getElem?_set_ne hne]
    · rfl
  | close h a =>
    simp only [Descriptors.step]
    split
    · split
      · rw [objects_close]
      · rfl
    · rfl
  | destroy h a =>
    have hne : h ≠ j := fun heq => hop (List.mem_singleton.2 heq.symm)
    simp only [Descriptors.step]
    split
    · rw [objects_destroy, List.getElem?_set_ne hne]
    · rfl

end Objects

/-- The destruction of rules, one after the other. -/
lemma without_spec {s : State} (h : Owned none s.process) (ids : List ℕ) (a : ℕ → CloseAnswer) :
    Owned none (s.without ids a) ∧ Mild s.process (s.without ids a) ∧
      ∀ j < s.process.objects.length, (∀ id ∈ ids, s.holder id ≠ j) →
        (s.without ids a).objects[j]? = s.process.objects[j]? := by
  induction ids generalizing s with
  | nil => exact ⟨h, .of_eq rfl rfl, fun _ _ _ => rfl⟩
  | cons id ids ih =>
    have hclose : ∀ h' a', Op.destroy (s.holder id) (a id) ≠ .close h' a' :=
      fun _ _ heq => by cases heq
    have hlength : (Descriptors.step s.process (.destroy (s.holder id) (a id))).2.objects.length =
        s.process.objects.length := by
      simp only [Descriptors.step]
      split
      · rw [objects_destroy, List.length_set]
      · rfl
    obtain ⟨howned, hmild, hobjects⟩ :=
      ih (s := { s with process := (Descriptors.step s.process (.destroy (s.holder id) (a id))).2 })
        ((owned_step h _).2 (not_robs hclose))
    refine ⟨howned, (Mild.step s.process hclose).trans hmild, fun j hj hne => ?_⟩
    rw [List.forall_mem_cons] at hne
    have hname : j ∉ names (.destroy (s.holder id) (a id)) :=
      fun hmem => hne.1 (List.mem_singleton.1 hmem).symm
    exact (hobjects j (hlength ▸ hj) hne.2).trans (objects_step hname hj)

/-! ### Rules and their objects -/

/-- **The invariant**: the process owns its descriptors, the object of a rule holds the rule's
wrapper, and no two rules share an object. -/
structure Kept (s : State) : Prop where
  owned : Owned none s.process
  holds : ∀ r ∈ s.rules.rules, s.process.objects[s.holder r.id]? = some (.holds r.fd)
  apart : ∀ id ∈ s.rules.nodes, ∀ id' ∈ s.rules.nodes, s.holder id = s.holder id' → id = id'

/-- A move of the loop registers nothing, and erases one rule at most. -/
lemma rules_of_step {s s' : EventLoop.State} {i : EventLoop.Input} {es : List Event}
    (h : Step s i es s') (hi : ∀ fd direction, i ≠ .addRule fd direction) :
    s'.rules = s.rules ∨ ∃ id, s'.rules = s.rules.erase id := by
  cases h with
  | addRule hs fd direction => exact absurd rfl (hi fd direction)
  | firstCancelled hs hpc hr answer => exact .inr ⟨_, rfl⟩
  | secondCancelled hs hpc hr answer => exact .inr ⟨_, rfl⟩
  | _ => exact .inl rfl

lemma mem_of_step {s : EventLoop.State} {i : EventLoop.Input}
    (hi : ∀ fd direction, i ≠ .addRule fd direction) {r : Rule}
    (hr : r ∈ (EventLoop.step s i).2.rules.rules) : r ∈ s.rules.rules := by
  rcases rules_of_step (step_cases s i) hi with heq | ⟨id, heq⟩
  · rwa [heq] at hr
  · rw [heq] at hr
    exact List.mem_of_mem_filter hr

namespace Kept

variable {s : State}

lemma start : Kept start := ⟨Owned.start, fun _ hr => (by cases hr), fun _ hid => (by cases hid)⟩

lemma mem_nodes {l : RuleList} {r : Rule} (hr : r ∈ l.rules) : r.id ∈ l.nodes :=
  List.mem_map_of_mem hr

lemma lives (h : Kept s) {r : Rule} (hr : r ∈ s.rules.rules) :
    ∃ w, s.process.wrappers r.fd = some w :=
  Option.isSome_iff_exists.1 (h.owned.lives r.fd (List.mem_of_getElem? (h.holds r hr)))

lemma holder_lt (h : Kept s) {r : Rule} (hr : r ∈ s.rules.rules) :
    s.holder r.id < s.process.objects.length :=
  (List.getElem?_eq_some_iff.1 (h.holds r hr)).1

lemma not_isUsers {r : Rule} (hr : r ∈ s.rules.rules) : s.isUsers (s.holder r.id) ≠ true := by
  intro husers
  have hne := List.all_eq_true.1 husers r.id (mem_nodes hr)
  simp at hne

lemma process (h : Kept s) {process : Process} (howned : Owned none process)
    (hobjects : ∀ r ∈ s.rules.rules,
      process.objects[s.holder r.id]? = s.process.objects[s.holder r.id]?) :
    Kept { s with process } :=
  ⟨howned, fun r hr => (hobjects r hr).trans (h.holds r hr), h.apart⟩

lemma addRule (h : Kept s) {k p : ℕ} (hk : s.process.object k = some (.holds p))
    (direction : Direction) :
    Kept { s with
      process := (Descriptors.step s.process (.duplicate k)).2
      rules := s.rules.pushBack p direction
      holder := Function.update s.holder s.rules.registered s.process.objects.length } := by
  have hclose : ∀ h' a', Op.duplicate k ≠ .close h' a' := fun _ _ heq => by cases heq
  have hobjects : (Descriptors.step s.process (.duplicate k)).2.objects =
      s.process.objects ++ [.holds p] := by
    simp only [Descriptors.step, hk]
  have hold : ∀ id ∈ s.rules.nodes,
      Function.update s.holder s.rules.registered s.process.objects.length id = s.holder id :=
    fun id hid => Function.update_of_ne (Nat.ne_of_lt (s.rules.lt_registered id hid)) ..
  have hlt : ∀ id ∈ s.rules.nodes, s.holder id < s.process.objects.length := by
    intro id hid
    obtain ⟨r, hr, rfl⟩ := List.mem_map.1 hid
    exact h.holder_lt hr
  refine ⟨(owned_step h.owned _).2 (not_robs hclose), ?_, ?_⟩
  · intro r hr
    simp only [hobjects]
    rcases List.mem_append.1 hr with hr | hr
    · rw [hold r.id (mem_nodes hr), List.getElem?_append_left (h.holder_lt hr)]
      exact h.holds r hr
    · rw [List.mem_singleton.1 hr]
      simp [RuleList.newRule]
  · intro id hid id' hid' heq
    simp only [RuleList.nodes_pushBack, List.mem_append, List.mem_singleton] at hid hid' heq
    rcases hid with hid | rfl <;> rcases hid' with hid' | rfl
    · rw [hold id hid, hold id' hid'] at heq
      exact h.apart id hid id' hid' heq
    · rw [hold id hid, Function.update_self] at heq
      exact absurd heq (Nat.ne_of_lt (hlt id hid))
    · rw [hold id' hid', Function.update_self] at heq
      exact absurd heq.symm (Nat.ne_of_lt (hlt id' hid'))
    · rfl

lemma gone (h : Kept s) {i : EventLoop.Input} (hi : ∀ fd direction, i ≠ .addRule fd direction)
    (a : CloseAnswer) :
    Owned none (loopMove s i a).2.process ∧ Mild s.process (loopMove s i a).2.process ∧
      ∀ r ∈ (loopMove s i a).2.rules.rules, r ∈ s.rules.rules ∧
        (loopMove s i a).2.process.objects[s.holder r.id]? = s.process.objects[s.holder r.id]? := by
  obtain ⟨howned, hmild, hobjects⟩ := without_spec h.owned
    (s.rules.nodes.filter (· ∉ (EventLoop.step s.loop i).2.rules.nodes)) fun _ => a
  refine ⟨howned, hmild, fun r hr => ?_⟩
  have hold : r ∈ s.rules.rules := mem_of_step hi hr
  refine ⟨hold, hobjects _ (h.holder_lt hold) fun id hid heq => ?_⟩
  obtain ⟨hmem, hnot⟩ := List.mem_filter.1 hid
  have hid' := h.apart id hmem r.id (mem_nodes hold) heq
  exact of_decide_eq_true hnot (hid' ▸ mem_nodes hr)

lemma loopMove (h : Kept s) {i : EventLoop.Input}
    (hi : ∀ fd direction, i ≠ .addRule fd direction) (a : CloseAnswer) :
    Kept (loopMove s i a).2 := by
  obtain ⟨howned, -, hrules⟩ := h.gone hi a
  refine ⟨howned, fun r hr => ?_, fun id hid id' hid' => ?_⟩
  · obtain ⟨hold, hobjects⟩ := hrules r hr
    exact hobjects.trans (h.holds r hold)
  · obtain ⟨r, hr, rfl⟩ := List.mem_map.1 hid
    obtain ⟨r', hr', rfl⟩ := List.mem_map.1 hid'
    exact h.apart _ (mem_nodes (hrules r hr).1) _ (mem_nodes (hrules r' hr').1)

/-- **One move** keeps the invariant, unless it robs a wrapper. -/
theorem step (h : Kept s) {i : Input} (hi : Honest s i) : Kept (step s i).2 := by
  cases i with
  | addRule k direction =>
    simp only [Lifetimes.step]
    split
    · rename_i p hk
      split
      · exact h.addRule hk direction
      · exact h
    · exact h
  | user op =>
    simp only [Lifetimes.step]
    split
    · rename_i hruns
      obtain ⟨-, husers⟩ := Bool.and_eq_true_iff.1 hruns
      refine h.process ((owned_step h.owned op).2 hi) fun r hr => ?_
      refine objects_step (fun hmem => ?_) (h.holder_lt hr)
      exact not_isUsers hr (List.all_eq_true.1 husers _ hmem)
    · exact h
  | use k eof readCount writeCount =>
    simp only [Lifetimes.step]
    split
    · split
      · rename_i w hw
        split
        · exact h.process (h.owned.setWrapper hw rfl rfl) fun _ _ => rfl
        · exact h
      · exact h
    · exact h
  | waitNextEvent => exact h.loopMove (fun _ _ heq => by cases heq) _
  | ret answer a => exact h.loopMove (fun _ _ heq => by cases heq) _
  | throw e => exact h.loopMove (fun _ _ heq => by cases heq) _
  | poll answer => exact h.loopMove (fun _ _ heq => by cases heq) _
  | tick => exact h.loopMove (fun _ _ heq => by cases heq) _
  | renew a =>
    simp only [Lifetimes.step]
    split
    · obtain ⟨howned, -⟩ := without_spec h.owned s.rules.nodes a
      exact ⟨howned, fun _ hr => (by cases hr), fun _ hid => (by cases hid)⟩
    · exact h

end Kept

lemma kept_run {is : List Input} (h : ∀ m ∈ machine.trace start is, Honest m.before m.input) :
    Kept (machine.run start is) :=
  Machine.invariant_of (P := fun m => Honest m.before m.input) Kept.start
    (fun _ _ hi hs => hs.step hi) h

/-- **Who keeps a descriptor open.** In a run without a `close` that robs a wrapper: the object of
every rule holds the rule's wrapper, which lives, and whose descriptor is open and no other
wrapper's unless it was closed; and every open descriptor, but for those that a destructor has left
open, belongs to a wrapper that a rule in the list or an object of the user holds. -/
theorem rules_hold (is : List Input)
    (h : ∀ m ∈ machine.trace start is, Honest m.before m.input) :
    let s := machine.run start is
    (∀ r ∈ s.rules.rules, s.process.objects[s.holder r.id]? = some (.holds r.fd) ∧
      ∃ w, s.process.wrappers r.fd = some w ∧ (w.closed = false →
        w.fd ∈ s.process.opened ∧ ∀ p, s.process.Owns p w.fd → p = r.fd)) ∧
    ∀ fd ∈ s.process.opened, fd ∈ s.process.abandoned ∨ ∃ p, s.process.Owns p fd ∧
      ((∃ r ∈ s.rules.rules, r.fd = p) ∨
        ∃ k, s.process.objects[k]? = some (.holds p) ∧ ∀ r ∈ s.rules.rules, s.holder r.id ≠ k) := by
  intro s
  have hs : Kept s := kept_run h
  constructor
  · intro r hr
    obtain ⟨w, hw⟩ := hs.lives hr
    refine ⟨hs.holds r hr, w, hw, fun hopen => ?_⟩
    have howns : s.process.Owns r.fd w.fd := ⟨w, hw, hopen, rfl⟩
    exact ⟨(hs.owned.opened _ _ howns).1, fun p hp => hs.owned.unique _ _ _ hp howns⟩
  · intro fd hfd
    refine (hs.owned.owner fd hfd).imp_right ?_
    rintro ⟨p, hp⟩
    obtain ⟨w, hw, -, -⟩ := id hp
    refine ⟨p, hp, ?_⟩
    have hholds := (hs.owned.held p (by rw [hw]; rfl)).resolve_right fun hn => by cases hn
    obtain ⟨k, hk⟩ := List.mem_iff_getElem?.1 hholds
    by_cases hrule : ∃ r ∈ s.rules.rules, s.holder r.id = k
    · obtain ⟨r, hr, rfl⟩ := hrule
      have hsame := (hs.holds r hr).symm.trans hk
      cases hsame
      exact .inl ⟨r, hr, rfl⟩
    · exact .inr ⟨k, hk, fun r hr heq => hrule ⟨r, hr, heq⟩⟩

/-- A descriptor with a rule, whose first object is destroyed: the rule keeps it open. -/
theorem rules_hold_destroyed :
    let is : List Input := [.user (.openFd "open" (gives 3 (by decide))), .addRule 0 .in_,
      .user (.destroy 0 succeeded)]
    ∃ w, (machine.run start is).process.wrappers 0 = some w ∧
      w.fd ∈ (machine.run start is).process.opened := by
  intro is
  have hhonest : ∀ m ∈ machine.trace start is, Honest m.before m.input := by
    intro m hm
    simp only [is, Machine.trace_cons, Machine.trace_nil, List.mem_cons, List.not_mem_nil,
      or_false] at hm
    rcases hm with rfl | rfl | rfl
    · exact not_robs fun _ _ heq => by cases heq
    · trivial
    · exact not_robs fun _ _ heq => by cases heq
  obtain ⟨hrules, -⟩ := rules_hold is hhonest
  obtain ⟨-, w, hw, hopen⟩ := hrules ⟨0, 0, .in_⟩ (by decide)
  exact ⟨w, hw, (hopen (by cases hw; rfl)).1⟩

/-! ### What `poll` is called for -/

/-- The input does not come between a call and its entries, robs no wrapper, and closes nothing
while a call is in its first pass. -/
def Calm (s : State) : Input → Prop
  | .addRule _ _ => ∀ fr ∈ s.stack, fr.pc.inSecondPass = false
  | .ret answer _ => EventLoop.Undisturbed s.loop (.ret answer)
  | .user op => ¬ Robs (Descriptors.machine.move s.process op) ∧
      ∀ k a, op = .close k a → ∀ fr ∈ s.stack, fr.pc.inSecondPass = true
  | _ => True

lemma Calm.honest {s : State} {i : Input} (h : Calm s i) : Honest s i := by
  cases i with
  | user op => exact h.1
  | _ => trivial

/-- Before `poll` is called, the entries of a call are of open descriptors that their rules own, and
so is the descriptor of the rule that is being asked. -/
structure Fresh (s : State) (fr : Frame) : Prop where
  entries : ∀ e ∈ fr.pollfds, ∀ r ∈ s.rules.rules, r.id = e.owner → s.process.Owns r.fd e.fd
  asking : ∀ id, fr.pc = .firstInterest id →
    ∀ r ∈ s.rules.rules, r.id = id → ∃ fd, s.process.Owns r.fd fd

/-- How a call in its first pass, or about to poll, comes out of a move of the loop. -/
inductive Passes (s : EventLoop.State) (fr : Frame) : Prop
  | stays (mem : fr ∈ s.stack)
  | begins (pollfds : fr.pollfds = []) (pc : ∃ it, fr.pc = .first it)
  | goes (fr₀ : Frame) (mem : fr₀ ∈ s.stack) (first : fr₀.pc.inSecondPass = false)
      (pollfds : fr.pollfds = fr₀.pollfds) (pc : ∀ id, fr.pc ≠ .firstInterest id)
  | asks (fr₀ : Frame) (mem : fr₀ ∈ s.stack) (first : fr₀.pc.inSecondPass = false)
      (pollfds : fr.pollfds = fr₀.pollfds) (id : ℕ) (r : Rule) (pc : fr.pc = .firstInterest id)
      (find : s.rules.find id = some r) (opened : (s.fds r.fd).closed = false)
  | enters (fr₀ : Frame) (mem : fr₀ ∈ s.stack) (id : ℕ) (r : Rule) (events : UInt16)
      (asked : fr₀.pc = .firstInterest id) (find : s.rules.find id = some r)
      (pollfds : fr.pollfds = fr₀.pollfds ++ [⟨(s.fds r.fd).fd, events, 0, id⟩])
      (pc : ∃ it, fr.pc = .first it)

lemma passes_of_step {s s' : EventLoop.State} {i : EventLoop.Input} {es : List Event}
    (h : Step s i es s') {g : Frame} (hg : g ∈ s'.stack) (hfirst : g.pc.inSecondPass = false) :
    Passes s g := by
  have hrest {fr : Frame} {rest : List Frame} (hs : s.stack = fr :: rest) (hmem : g ∈ rest) :
      Passes s g := .stays (hs ▸ List.mem_cons_of_mem _ hmem)
  have htop {fr : Frame} {rest : List Frame} (hs : s.stack = fr :: rest) : fr ∈ s.stack :=
    hs ▸ List.mem_cons_self
  cases h with
  | idle i | addRule hs fd direction | setFd fd w | dangling hs hpc hr i | outOfBounds hs hpc hp =>
    exact .stays hg
  | waitNextEvent hs =>
    rcases List.mem_cons.1 hg with rfl | hg
    · exact .begins rfl ⟨_, rfl⟩
    · exact .stays hg
  | throw hs hrun e | exit hs hpc hpoll | timeout hs hpc a ha | interrupted hs hpc a ha
  | success hs hpc | pollError hs hpc hp herr | busyWait hs hpc => exact hrest hs hg
  | toPoll hs hpc hpoll | callFirstCancel hs hpc hr hover | firstCancelled hs hpc hr answer =>
    rcases List.mem_cons.1 hg with rfl | hg
    · exact .goes _ (htop hs) (by rw [hpc]; rfl) rfl fun id heq => by cases heq
    · exact hrest hs hg
  | callFirstInterest hs hpc hr hover =>
    rcases List.mem_cons.1 hg with rfl | hg
    · exact .asks _ (htop hs) (by rw [hpc]; rfl) rfl _ _ rfl hr
        (Bool.eq_false_iff.2 fun hclosed => hover (.inr hclosed))
    · exact hrest hs hg
  | entry hs hpc hr answer events hevents =>
    rcases List.mem_cons.1 hg with rfl | hg
    · exact .enters _ (htop hs) _ _ events hpc hr rfl ⟨_, rfl⟩
    · exact hrest hs hg
  | polled hs hpc a ha | callSecondCancel hs hpc hp hr hhup | callCallback hs hpc hp hr hready
  | notReady hs hpc hp hr hready | secondCancelled hs hpc hr answer
  | serviced hs hpc hr hcount answer | unserviced hs hpc hr hcount answer
  | uninterested hs hpc hr =>
    rcases List.mem_cons.1 hg with rfl | hg
    · cases hfirst
    · exact hrest hs hg

lemma owns_of_mild {s s' : State} (h : Kept s) (h' : Kept s') (hmild : Mild s.process s'.process)
    {r : Rule} (hr : r ∈ s'.rules.rules) {fd : ℕ} (howns : s.process.Owns r.fd fd) :
    s'.process.Owns r.fd fd := by
  obtain ⟨w, hw, hopen, hfd⟩ := howns
  obtain ⟨w', hw'⟩ := h'.lives hr
  have hmade : r.fd < s.process.made := by
    by_contra hle
    have hnone := h.owned.fresh r.fd (Nat.le_of_not_lt hle)
    rw [hw] at hnone
    cases hnone
  obtain ⟨v, hv, hfd', hclosed'⟩ := hmild.wrappers r.fd hmade w' hw'
  cases hw.symm.trans hv
  exact ⟨w', hw', hclosed'.trans hopen, hfd'.trans hfd⟩

lemma Fresh.mono {s s' : State} (h : Kept s) (h' : Kept s') (hmild : Mild s.process s'.process)
    (hrules : ∀ r ∈ s'.rules.rules, r ∈ s.rules.rules) {fr : Frame} (hfr : Fresh s fr) :
    Fresh s' fr := by
  refine ⟨fun e he r hr hid => ?_, fun id hpc r hr hid => ?_⟩
  · exact owns_of_mild h h' hmild hr (hfr.entries e he r (hrules r hr) hid)
  · obtain ⟨fd, howns⟩ := hfr.asking id hpc r (hrules r hr) hid
    exact ⟨fd, owns_of_mild h h' hmild hr howns⟩

/-- The entries of a call in its first pass are of rules in the list. -/
lemma owner_mem {nodes : List ℕ} {fr : Frame} (h : fr.InStep nodes)
    (hfirst : fr.pc.inSecondPass = false) {e : Pollfd} (he : e ∈ fr.pollfds) : e.owner ∈ nodes := by
  have howner : e.owner ∈ fr.owners := List.mem_map_of_mem he
  have hfilling : ∀ it, Filling nodes fr.owners it → e.owner ∈ nodes := by
    rintro it ⟨rest, rfl, -⟩
    exact List.mem_append_left _ howner
  obtain ⟨pollfds, something, pc⟩ := fr
  cases pc with
  | first it => exact hfilling _ h
  | firstCancel id => exact hfilling _ h
  | firstInterest id => exact hfilling _ h
  | poll =>
    obtain rfl : nodes = _ := h
    exact howner
  | second it idx => cases hfirst
  | secondCancel id idx => cases hfirst
  | secondCallback id idx count => cases hfirst
  | secondInterest id idx => cases hfirst

lemma loop_fds {s : State} {p : ℕ} {w : FDWrapper} (hw : s.process.wrappers p = some w) :
    s.loop.fds p = w := by
  simp only [State.loop, hw, Option.getD_some]

lemma userRuns_loop {s : State} (h : s.userRuns = true) : s.loop.UserRuns := by
  intro fr hfr
  obtain ⟨-, hruns⟩ := Bool.and_eq_true_iff.1 h
  replace hfr : s.stack.head? = some fr := hfr
  rwa [hfr] at hruns

lemma eq_of_find {l : RuleList} {id : ℕ} {r r' : Rule} (hfind : l.find id = some r)
    (hr' : r' ∈ l.rules) (hid : r'.id = id) : r' = r := by
  obtain ⟨hr, hrid⟩ := RuleList.find_spec hfind
  exact List.inj_on_of_nodup_map l.nodup_nodes hr' hr (hid.trans hrid.symm)

/-- **The invariant**: the calls are in step with the list, and those that have not polled yet have
entries for open descriptors. -/
structure Polling (s : State) : Prop where
  kept : Kept s
  inStep : InStep s.loop
  fresh : ∀ fr ∈ s.stack, fr.pc.inSecondPass = false → Fresh s fr

namespace Polling

variable {s : State}

lemma start : Polling start where
  kept := Kept.start
  inStep := inStep_init _
  fresh := fun _ hfr => by cases hfr

lemma mild (h : Polling s) {process : Process} (hmild : Mild s.process process)
    (hkept : Kept { s with process }) : Polling { s with process } where
  kept := hkept
  inStep := ⟨h.inStep.defined, h.inStep.calls, h.inStep.outer⟩
  fresh := fun fr hfr hfirst => (h.fresh fr hfr hfirst).mono h.kept hkept hmild fun _ hr => hr

lemma loopMove (h : Polling s) {i : EventLoop.Input}
    (hi : ∀ fd direction, i ≠ .addRule fd direction) (hcalm : EventLoop.Undisturbed s.loop i)
    (a : CloseAnswer) : Polling (loopMove s i a).2 := by
  have hstep := step_cases s.loop i
  have hin : InStep (EventLoop.step s.loop i).2 := h.inStep.step hcalm hstep
  have hkept := h.kept.loopMove hi a
  obtain ⟨-, hmild, hrules⟩ := h.kept.gone hi a
  have hsub : ∀ r ∈ (Lifetimes.loopMove s i a).2.rules.rules, r ∈ s.rules.rules :=
    fun r hr => (hrules r hr).1
  have hmono {fr : Frame} (hfr : Fresh s fr) : Fresh (Lifetimes.loopMove s i a).2 fr :=
    hfr.mono h.kept hkept hmild hsub
  refine ⟨hkept, ⟨hin.defined, hin.calls, hin.outer⟩, fun g hg hfirst => ?_⟩
  cases passes_of_step hstep hg hfirst with
  | stays hmem => exact hmono (h.fresh g hmem hfirst)
  | begins hpollfds hpc =>
    obtain ⟨it, hpc⟩ := hpc
    refine ⟨fun e he => ?_, fun id heq => ?_⟩
    · rw [hpollfds] at he
      cases he
    · rw [hpc] at heq
      cases heq
  | goes fr₀ hmem hfirst₀ hpollfds hpc =>
    obtain ⟨hentries, -⟩ := hmono (h.fresh fr₀ hmem hfirst₀)
    exact ⟨hpollfds ▸ hentries, fun id heq => absurd heq (hpc id)⟩
  | asks fr₀ hmem hfirst₀ hpollfds id r hpc hfind hopen =>
    obtain ⟨hentries, -⟩ := hmono (h.fresh fr₀ hmem hfirst₀)
    refine ⟨hpollfds ▸ hentries, fun id' heq r' hr' hid' => ?_⟩
    cases hpc.symm.trans heq
    obtain rfl := eq_of_find hfind (hsub r' hr') hid'
    -- the loop has just seen that the wrapper is not closed
    obtain ⟨w, hw⟩ := h.kept.lives (hsub r' hr')
    rw [loop_fds hw] at hopen
    exact ⟨w.fd, owns_of_mild h.kept hkept hmild hr' ⟨w, hw, hopen, rfl⟩⟩
  | enters fr₀ hmem id r events hasked hfind hpollfds hpc =>
    obtain ⟨it, hpc⟩ := hpc
    have hfresh := h.fresh fr₀ hmem (by rw [hasked]; rfl)
    refine ⟨fun e he r' hr' hid' => ?_, fun id' heq => ?_⟩
    · rw [hpollfds] at he
      rcases List.mem_append.1 he with he | he
      · exact (hmono hfresh).entries e he r' hr' hid'
      · -- the new entry has the number of the wrapper of the rule that was asked
        rw [List.mem_singleton.1 he] at hid' ⊢
        obtain rfl := eq_of_find hfind (hsub r' hr') hid'
        obtain ⟨fd, w, hw, hopen, hfd⟩ := hfresh.asking id hasked r' (hsub r' hr') hid'
        rw [loop_fds hw]
        exact owns_of_mild h.kept hkept hmild hr' ⟨w, hw, hopen, rfl⟩
    · rw [hpc] at heq
      cases heq

/-- A new rule is none that a call in its first pass has an entry for, or is at. -/
lemma addRule (h : Polling s) {k p : ℕ} (hk : s.process.object k = some (.holds p))
    (direction : Direction) (hcalm : ∀ fr ∈ s.stack, fr.pc.inSecondPass = false)
    (hruns : s.loop.UserRuns) :
    Polling { s with
      process := (Descriptors.step s.process (.duplicate k)).2
      rules := s.rules.pushBack p direction
      holder := Function.update s.holder s.rules.registered s.process.objects.length } := by
  have hkept := h.kept.addRule hk direction
  have hclose : ∀ h' a', Op.duplicate k ≠ .close h' a' := fun _ _ heq => by cases heq
  have hmild := Mild.step s.process hclose
  have hundisturbed : EventLoop.Undisturbed s.loop (.addRule p direction) := hcalm
  have hin := h.inStep.step hundisturbed (Step.addRule hruns p direction)
  refine ⟨hkept, ⟨hin.defined, hin.calls, hin.outer⟩, fun fr hfr hfirst => ?_⟩
  have hnodes := h.inStep.calls fr hfr
  have hfresh := h.fresh fr hfr hfirst
  have hold : ∀ r ∈ (s.rules.pushBack p direction).rules, r.id ∈ s.rules.nodes →
      r ∈ s.rules.rules := by
    intro r hr hid
    rcases List.mem_append.1 hr with hr | hr
    · exact hr
    · rw [List.mem_singleton.1 hr] at hid
      exact absurd (s.rules.lt_registered _ hid) (Nat.lt_irrefl _)
  refine ⟨fun e he r hr hid => ?_, fun id hpc r hr hid => ?_⟩
  · have hr' := hold r hr (hid ▸ owner_mem hnodes hfirst he)
    exact owns_of_mild h.kept hkept hmild hr (hfresh.entries e he r hr' hid)
  · have hr' := hold r hr (hid ▸ hnodes.node_mem (by rw [hpc]; rfl))
    obtain ⟨fd, howns⟩ := hfresh.asking id hpc r hr' hid
    exact ⟨fd, owns_of_mild h.kept hkept hmild hr howns⟩

/-- **One calm move** keeps the invariant. -/
theorem step (h : Polling s) {i : Input} (hi : Calm s i) : Polling (step s i).2 := by
  have hkept := h.kept.step hi.honest
  cases i with
  | addRule k direction =>
    simp only [Lifetimes.step]
    split
    · rename_i p hk
      split
      · rename_i hruns
        exact h.addRule hk direction hi (userRuns_loop (Bool.and_eq_true_iff.1 hruns).1)
      · exact h
    · exact h
  | user op =>
    simp only [Lifetimes.step] at hkept ⊢
    split at hkept
    · rename_i hruns
      rw [if_pos hruns]
      by_cases hop : ∃ k a, op = .close k a
      · obtain ⟨k, a, hop⟩ := hop
        refine ⟨hkept, ⟨h.inStep.defined, h.inStep.calls, h.inStep.outer⟩, fun fr hfr hfirst => ?_⟩
        have hsecond := hi.2 k a hop fr hfr
        rw [hfirst] at hsecond
        cases hsecond
      · exact h.mild (Mild.step _ fun k a heq => hop ⟨k, a, heq⟩) hkept
    · rename_i hruns
      rw [if_neg hruns]
      exact h
  | use k eof readCount writeCount =>
    simp only [Lifetimes.step] at hkept ⊢
    split
    · rename_i p hk
      split
      · rename_i w hw
        split
        · rename_i hruns
          simp only [hk, hw, hruns, if_true] at hkept
          exact h.mild (.update _ hw (fun w' hw' => by cases hw'; exact ⟨rfl, rfl⟩) _ _) hkept
        · exact h
      · exact h
    · exact h
  | waitNextEvent =>
    exact h.loopMove (i := .waitNextEvent) (fun _ _ heq => by cases heq) trivial _
  | ret answer a => exact h.loopMove (i := .ret answer) (fun _ _ heq => by cases heq) hi _
  | throw e => exact h.loopMove (i := .throw e) (fun _ _ heq => by cases heq) trivial _
  | poll answer => exact h.loopMove (i := .poll answer) (fun _ _ heq => by cases heq) trivial _
  | tick => exact h.loopMove (i := .tick) (fun _ _ heq => by cases heq) trivial _
  | renew a =>
    simp only [Lifetimes.step] at hkept ⊢
    split at hkept
    · rename_i hidle
      rw [if_pos hidle]
      -- no call is under way
      have hstack : s.stack = [] := List.isEmpty_iff.1 (Bool.and_eq_true_iff.1 hidle).1
      have hnone : ∀ fr, fr ∉ s.stack := fun fr => by rw [hstack]; exact List.not_mem_nil
      refine ⟨hkept, ⟨h.inStep.defined, fun fr hfr => absurd hfr (hnone fr), ?_⟩,
        fun fr hfr => absurd hfr (hnone fr)⟩
      intro fr hfr
      exact absurd (List.mem_of_mem_tail hfr) (hnone fr)
    · rename_i hbusy
      rw [if_neg hbusy]
      exact h

end Polling

lemma polling_run {is : List Input} (h : ∀ m ∈ machine.trace start is, Calm m.before m.input) :
    Polling (machine.run start is) :=
  Machine.invariant_of (P := fun m => Calm m.before m.input) Polling.start
    (fun _ _ hi hs => hs.step hi) h

/-- **What `poll` is called for.** In a run of calm moves, a call that is about to poll has one
entry for each rule, in the order of the list; the descriptor of each entry is open, and the wrapper
that owns it is the one of the entry's rule. -/
theorem polls_own {is : List Input} (h : ∀ m ∈ machine.trace start is, Calm m.before m.input)
    {fr : Frame} {rest : List Frame} (hs : (machine.run start is).stack = fr :: rest)
    (hpc : fr.pc = .poll) :
    let s := machine.run start is
    s.rules.nodes = fr.owners ∧ ∀ e ∈ fr.pollfds, e.fd ∈ s.process.opened ∧
      ∃ r ∈ s.rules.rules, r.id = e.owner ∧ ∀ p, s.process.Owns p e.fd ↔ p = r.fd := by
  intro s
  have hpolling : Polling s := polling_run h
  have hfr : fr ∈ s.stack := hs ▸ List.mem_cons_self
  have hin : fr.InStep s.rules.nodes := hpolling.inStep.calls fr hfr
  have hnodes : s.rules.nodes = fr.owners := by
    rw [Frame.InStep, hpc] at hin
    exact hin
  refine ⟨hnodes, fun e he => ?_⟩
  have hmem : e.owner ∈ s.rules.nodes := hnodes ▸ List.mem_map_of_mem he
  obtain ⟨r, hr, hid⟩ := List.mem_map.1 hmem
  have howns := (hpolling.fresh fr hfr (by rw [hpc]; rfl)).entries e he r hr hid
  have howned := hpolling.kept.owned
  refine ⟨(howned.opened _ _ howns).1, r, hr, hid, fun p => ⟨fun hp => ?_, fun hp => ?_⟩⟩
  · exact howned.unique _ _ _ hp howns
  · rw [hp]
    exact howns

/-- The user's object of the descriptor is destroyed before the call. -/
theorem polls_own_destroyed :
    let is : List Input := [.user (.openFd "open" (gives 3 (by decide))), .addRule 0 .in_,
      .user (.destroy 0 succeeded), .waitNextEvent, .tick, .ret true succeeded,
      .tick]
    let s := machine.run start is
    3 ∈ s.process.opened ∧ ∃ r ∈ s.rules.rules, r.id = 0 ∧ ∀ p, s.process.Owns p 3 ↔ p = r.fd := by
  intro is s
  have hcalm : ∀ m ∈ machine.trace start is, Calm m.before m.input := by
    intro m hm
    simp only [is, Machine.trace_cons, Machine.trace_nil, List.mem_cons, List.not_mem_nil,
      or_false] at hm
    rcases hm with rfl | rfl | rfl | rfl | rfl | rfl | rfl
    · exact ⟨not_robs fun _ _ heq => (by cases heq), fun _ _ heq => by cases heq⟩
    · exact fun _ hfr => by cases hfr
    · exact ⟨not_robs fun _ _ heq => (by cases heq), fun _ _ heq => by cases heq⟩
    · trivial
    · trivial
    · exact fun _ hid => by cases hid
    · trivial
  have hs : s.stack = [⟨[⟨3, pollIn, 0, 0⟩], true, .poll⟩] := rfl
  obtain ⟨-, hentries⟩ := polls_own hcalm hs rfl
  exact hentries ⟨3, pollIn, 0, 0⟩ List.mem_cons_self

-- an `interest` closes the descriptor of the rule before it, and `poll` is asked for both
example :
    let s := machine.run start [.user (.openFd "open" (gives 3 (by decide))),
      .user (.openFd "open" (gives 4 (by decide))), .addRule 0 .in_, .addRule 1 .in_,
      .waitNextEvent, .tick, .ret true succeeded, .tick,
      .user (.close 0 succeeded), .ret true succeeded, .tick]
    s.stack = [⟨[⟨3, pollIn, 0, 0⟩, ⟨4, pollIn, 0, 1⟩], true, .poll⟩] ∧ 3 ∉ s.process.opened := by
  decide

end Sponge.Lifetimes
