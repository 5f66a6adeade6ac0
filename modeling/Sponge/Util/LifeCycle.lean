import Sponge.Lib.History
import Sponge.Util.PollResults

/-!
# The life cycle of a rule

What the history of a loop says about its rules, as long as the functions of the rules return and
neither register rules nor wait on the same loop. The invariant has four parts, each kept by every
move:

* `Registry` — the list is what was registered and has not been cancelled;
* `Cancels` — no function is called after `cancel`;
* `Entries` — an entry that asks for something was made when `interest` answered `true`;
* `Judged` — what a callback is preceded by.
-/

namespace Sponge.EventLoop

open Lib

/-- A function of a rule that is running does not register a rule, wait or throw. -/
def Quiet (s : State) : Input → Prop
  | .addRule _ _ | .waitNextEvent | .throw _ => s.stack = []
  | .setFd _ _ | .ret _ | .poll _ | .tick => True

instance (s : State) (i : Input) : Decidable (Quiet s i) :=
  match i with
  | .addRule _ _ | .waitNextEvent | .throw _ => inferInstanceAs (Decidable (s.stack = []))
  | .setFd _ _ | .ret _ | .poll _ | .tick => inferInstanceAs (Decidable True)

/-- It has happened in the call that is under way. -/
def InThisCall (p : Event → Prop) (evs : List Event) : Prop := Since p (· = .entered) evs

def registeredIds (evs : List Event) : List ℕ :=
  evs.filterMap fun
    | .added r => some r.id
    | _ => none

/-- The function of a rule that is running in the innermost call. -/
def State.running (s : State) : Option (RuleFn × ℕ) := s.stack.head?.bind fun fr => fr.pc.running

lemma running_eq {s : State} {fr : Frame} {rest : List Frame} (hs : s.stack = fr :: rest) {pc : Pc}
    (hpc : fr.pc = pc) : s.running = pc.running := by
  rw [State.running, hs, ← hpc]
  rfl

lemma rest_eq_nil {s : State} {fr : Frame} {rest : List Frame} (halone : s.stack.tail = [])
    (hs : s.stack = fr :: rest) : rest = [] := by
  rwa [hs] at halone

/-! ### The list of rules -/

structure Registry (evs : List Event) (l : RuleList) : Prop where
  registered : registeredIds evs = List.range l.registered
  added : ∀ r ∈ l.rules, .added r ∈ evs
  cancelled : ∀ id answer, .returned .cancel id answer ∈ evs → id ∈ registeredIds evs
  mem : ∀ id, id ∈ l.nodes ↔ id ∈ registeredIds evs ∧ ∀ answer, .returned .cancel id answer ∉ evs

lemma registeredIds_append (evs es : List Event) :
    registeredIds (evs ++ es) = registeredIds evs ++ registeredIds es := List.filterMap_append

namespace Registry

variable {evs es : List Event} {l : RuleList}

lemma nil : Registry [] RuleList.empty :=
  ⟨rfl, fun _ h => absurd h List.not_mem_nil, fun _ _ h => absurd h List.not_mem_nil,
    fun _ => by simp [registeredIds]⟩

lemma keep (h : Registry evs l) (hadd : registeredIds es = [])
    (hcancel : ∀ id answer, .returned .cancel id answer ∉ es) : Registry (evs ++ es) l := by
  have hids : registeredIds (evs ++ es) = registeredIds evs := by
    rw [registeredIds_append, hadd, List.append_nil]
  have hret : ∀ id answer, .returned .cancel id answer ∈ evs ++ es ↔
      .returned .cancel id answer ∈ evs := fun id answer => by
    rw [List.mem_append, or_iff_left (hcancel id answer)]
  refine ⟨hids.trans h.registered, fun r hr => List.mem_append_left _ (h.added r hr), ?_, ?_⟩
  · simpa only [hids, hret] using h.cancelled
  · simpa only [hids, hret] using h.mem

lemma pushBack (h : Registry evs l) (fd : ℕ) (direction : Direction) :
    Registry (evs ++ [.added (l.newRule fd direction)]) (l.pushBack fd direction) := by
  have hids : registeredIds (evs ++ [.added (l.newRule fd direction)]) =
      registeredIds evs ++ [l.registered] := registeredIds_append _ _
  have hret : ∀ id answer, .returned .cancel id answer ∈
      evs ++ [.added (l.newRule fd direction)] ↔ .returned .cancel id answer ∈ evs :=
    fun id answer => by rw [List.mem_append, or_iff_left (by simp)]
  have hnew : ∀ answer, .returned .cancel l.registered answer ∉ evs := fun answer hmem => by
    have := h.cancelled _ _ hmem
    rw [h.registered] at this
    exact List.not_mem_range_self this
  refine ⟨?_, ?_, fun id answer hmem => ?_, fun id => ?_⟩
  · rw [hids, h.registered]
    exact List.range_succ.symm
  · refine List.forall_mem_append.2 ⟨fun r hr => List.mem_append_left _ (h.added r hr), ?_⟩
    exact List.forall_mem_singleton.2 (List.mem_append_right _ (List.mem_singleton.2 rfl))
  · rw [hids]
    exact List.mem_append_left _ (h.cancelled id answer ((hret id answer).1 hmem))
  · simp only [hret]
    rw [RuleList.nodes_pushBack, hids, List.mem_append, List.mem_append, h.mem, List.mem_singleton]
    constructor
    · rintro (⟨hid, hall⟩ | rfl)
      · exact ⟨.inl hid, hall⟩
      · exact ⟨.inr rfl, hnew⟩
    · rintro ⟨hid | rfl, hall⟩
      · exact .inl ⟨hid, hall⟩
      · exact .inr rfl

lemma erase (h : Registry evs l) {id : ℕ} (hid : id ∈ l.nodes) (answer : Bool) :
    Registry (evs ++ [.returned .cancel id answer]) (l.erase id) := by
  have hids : registeredIds (evs ++ [.returned .cancel id answer]) = registeredIds evs := by
    rw [registeredIds_append]
    exact List.append_nil _
  refine ⟨hids.trans h.registered, fun r hr => ?_, fun id' answer' hmem => ?_, fun id' => ?_⟩
  · exact List.mem_append_left _ (h.added r (List.mem_filter.1 hr).1)
  · rw [hids]
    rcases List.mem_append.1 hmem with hmem | hmem
    · exact h.cancelled id' answer' hmem
    · obtain ⟨rfl, -⟩ : id' = id ∧ answer' = answer := by simpa using hmem
      exact ((h.mem _).1 hid).1
  · rw [RuleList.nodes_erase, l.nodup_nodes.mem_erase_iff, h.mem, hids]
    constructor
    · rintro ⟨hne, hreg, hall⟩
      exact ⟨hreg, fun a => by simpa [hne] using hall a⟩
    · rintro ⟨hreg, hall⟩
      refine ⟨?_, hreg, fun a ha => hall a (List.mem_append_left _ ha)⟩
      rintro rfl
      exact hall answer (List.mem_append_right _ (List.mem_singleton.2 rfl))

theorem step {s s' : State} {i : Input} (h : Registry evs s.rules) (hstep : Step s i es s') :
    Registry (evs ++ es) s'.rules := by
  cases hstep
  case addRule hs fd direction => exact h.pushBack fd direction
  case firstCancelled hs hpc hr answer => exact h.erase (RuleList.find_mem hr) answer
  case secondCancelled hs hpc hr answer => exact h.erase (RuleList.find_mem hr) answer
  all_goals exact h.keep rfl (by simp)

end Registry

/-! ### The functions called -/

/-- The rules whose `cancel` has been called are those whose `cancel` has returned and the one whose
`cancel` is running; and no function of a rule is called once its `cancel` has been. -/
structure Cancels (evs : List Event) (running : Option (RuleFn × ℕ)) : Prop where
  called_iff : ∀ id, .called .cancel id ∈ evs ↔
    (∃ answer, .returned .cancel id answer ∈ evs) ∨ running = some (.cancel, id)
  silent : Always (fun before e => ∀ f id, e = .called f id → .called .cancel id ∉ before) evs

namespace Cancels

variable {evs es : List Event} {running running' : Option (RuleFn × ℕ)}

lemma nil : Cancels [] none := ⟨fun _ => by simp, Always.nil _⟩

lemma keep (h : Cancels evs running) (hes : ∀ f id, .called f id ∉ es)
    (hrun : ∀ id, running = some (.cancel, id) ↔
      (∃ answer, .returned .cancel id answer ∈ es) ∨ running' = some (.cancel, id)) :
    Cancels (evs ++ es) running' := by
  refine ⟨fun id => ?_, h.silent.append fun e he before f id heq => ?_⟩
  · rw [List.mem_append, or_iff_left (hes .cancel id), h.called_iff, hrun, ← or_assoc, ← exists_or]
    simp only [List.mem_append]
  · rw [heq] at he
    exact absurd he (hes f id)

/-- A function of a rule in the list is called, while no `cancel` is running. -/
lemma call (h : Cancels evs running) {l : RuleList} (hreg : Registry evs l)
    (hidle : ∀ id, running ≠ some (.cancel, id)) {id : ℕ} (hid : id ∈ l.nodes) (f : RuleFn) :
    Cancels (evs ++ [.called f id]) (some (f, id)) := by
  refine ⟨fun id' => ?_, h.silent.snoc fun f' id' heq hmem => ?_⟩
  · rw [List.mem_append, h.called_iff, or_iff_left (hidle id')]
    simp [eq_comm]
  · obtain ⟨rfl, rfl⟩ : f = f' ∧ id = id' := by simpa using heq
    rw [h.called_iff, or_iff_left (hidle id)] at hmem
    obtain ⟨answer, hret⟩ := hmem
    exact ((hreg.mem id).1 hid).2 answer hret

variable {s s' : State} {i : Input}

theorem step (h : Cancels evs s.running) (hreg : Registry evs s.rules) (halone : s.stack.tail = [])
    (hi : Quiet s i) (hstep : Step s i es s') : Cancels (evs ++ es) s'.running := by
  cases hstep
  case idle | addRule hs fd direction | setFd fd w | dangling hs hpc hr | outOfBounds hs hpc hp =>
    exact h.keep (by simp) fun id => by simp [State.running, State.crash]
  case waitNextEvent hs =>
    refine h.keep (by simp) fun id => ?_
    rw [State.running, show s.stack = [] from hi]
    simp [State.running, Pc.running]
  case throw hs hrun e =>
    rw [show s.stack = [] from hi] at hs
    cases hs
  case callFirstCancel hs hpc hr hover | callFirstInterest hs hpc hr hover |
      callSecondCancel hs hpc hp hr hhup | callCallback hs hpc hp hr hready =>
    rw [running_eq hs hpc] at h
    exact h.call hreg (by simp [Pc.running]) (RuleList.find_mem hr) _
  case unserviced id idx count r hs hpc hr hcount answer =>
    -- the callback returns, and then `interest` is called
    rw [running_eq hs hpc] at h
    rw [List.append_cons]
    have hreturned : Cancels (evs ++ [.returned .callback id answer]) none :=
      h.keep (by simp) (by simp [Pc.running])
    exact hreturned.call (hreg.keep rfl (by simp)) (by simp) (RuleList.find_mem hr) _
  case firstCancelled hs hpc hr answer | secondCancelled hs hpc hr answer =>
    rw [running_eq hs hpc] at h
    exact h.keep (by simp) fun id => by simp [State.running, State.goto, Pc.running, eq_comm]
  case toPoll hs hpc hpoll | entry hs hpc hr answer events hevents | polled hs hpc a ha |
      notReady hs hpc hp hr hready | serviced hs hpc hr hcount answer | uninterested hs hpc hr =>
    rw [running_eq hs hpc] at h
    exact h.keep (by simp) fun id => by simp [State.running, State.goto, Pc.running]
  case exit hs hpc hpoll | timeout hs hpc a ha | interrupted hs hpc a ha | success hs hpc |
      pollError hs hpc hp herr | busyWait hs hpc =>
    obtain rfl := rest_eq_nil halone hs
    rw [running_eq hs hpc] at h
    exact h.keep (by simp) fun id => by simp [State.running, State.leave, Pc.running]

end Cancels

/-! ### The entries -/

/-- An entry that asks for something was made in this call, when `interest` answered `true`, and asks
for the direction of its rule; in the second pass the entries are those that `poll` left. -/
structure Entries (evs : List Event) (stack : List Frame) : Prop where
  interest : ∀ fr ∈ stack, ∀ p ∈ fr.pollfds, p.events ≠ 0 →
    InThisCall (· = .returned .interest p.owner true) evs ∧
      ∃ r, .added r ∈ evs ∧ r.id = p.owner ∧ p.events = r.direction.value
  polled : ∀ fr ∈ stack, fr.pc.inSecondPass = true → InThisCall (· = .polled fr.pollfds) evs

lemma InThisCall.append {p : Event → Prop} {evs es : List Event} (h : InThisCall p evs)
    (hes : .entered ∉ es) : InThisCall p (evs ++ es) :=
  Since.append h fun _ hx heq => hes (heq ▸ hx)

lemma mem_setRevents {pollfds : List Pollfd} {revents : ℕ → UInt16} {p : Pollfd}
    (h : p ∈ setRevents pollfds revents) : ∃ q ∈ pollfds, p.owner = q.owner ∧ p.events = q.events := by
  obtain ⟨i, hi, rfl⟩ := List.mem_mapIdx.1 h
  exact ⟨pollfds[i], List.getElem_mem hi, rfl, rfl⟩

namespace Entries

variable {evs es : List Event} {stack stack' : List Frame}

lemma nil : Entries [] [] :=
  ⟨fun _ h => absurd h List.not_mem_nil, fun _ h => absurd h List.not_mem_nil⟩

lemma keep (h : Entries evs stack) (hes : .entered ∉ es)
    (hstack : ∀ g ∈ stack', ∃ fr ∈ stack, g.pollfds = fr.pollfds ∧
      (g.pc.inSecondPass = true → fr.pc.inSecondPass = true)) : Entries (evs ++ es) stack' := by
  refine ⟨fun g hg p hp hne => ?_, fun g hg hsecond => ?_⟩
  · obtain ⟨fr, hfr, heq, -⟩ := hstack g hg
    obtain ⟨hint, r, hr, hid⟩ := h.interest fr hfr p (heq ▸ hp) hne
    exact ⟨hint.append hes, r, List.mem_append_left _ hr, hid⟩
  · obtain ⟨fr, hfr, heq, hpass⟩ := hstack g hg
    rw [heq]
    exact (h.polled fr hfr (hpass hsecond)).append hes

variable {s s' : State} {i : Input} {fr : Frame} {rest : List Frame}

lemma keep_goto (h : Entries evs s.stack) (hes : .entered ∉ es) (hs : s.stack = fr :: rest) {pc : Pc}
    (hpc : pc.inSecondPass = true → fr.pc.inSecondPass = true) :
    Entries (evs ++ es) (s.goto fr rest pc).stack := by
  rw [hs] at h
  refine h.keep hes (List.forall_mem_cons.2 ⟨⟨fr, List.mem_cons_self, rfl, hpc⟩, fun g hg => ?_⟩)
  exact ⟨g, List.mem_cons_of_mem _ hg, rfl, fun h => h⟩

lemma push (h : Entries evs (fr :: rest)) {l : RuleList} (hreg : Registry evs l) {id : ℕ} {r : Rule}
    (hr : l.find id = some r) (answer : Bool) {events : UInt16} (fd : ℕ)
    (hevents : events = if answer then r.direction.value else 0) (something : Bool)
    (it : Option ℕ) : Entries (evs ++ [.returned .interest id answer])
      (⟨fr.pollfds ++ [⟨fd, events, 0, id⟩], something, .first it⟩ :: rest) := by
  have hold : Entries (evs ++ [.returned .interest id answer]) (fr :: rest) :=
    h.keep (by simp) fun g hg => ⟨g, hg, rfl, fun h => h⟩
  obtain ⟨hmem, hid⟩ := RuleList.find_spec hr
  refine ⟨List.forall_mem_cons.2 ⟨?_, ?_⟩, List.forall_mem_cons.2 ⟨nofun, ?_⟩⟩
  · refine List.forall_mem_append.2 ⟨hold.interest fr List.mem_cons_self, ?_⟩
    refine List.forall_mem_singleton.2 fun hne => ?_
    -- the new entry asks for something only if the answer is `true`
    cases answer with
    | false => exact absurd hevents hne
    | true =>
      exact ⟨Since.snoc evs rfl, r, List.mem_append_left _ (hreg.added r hmem), hid, hevents⟩
  · exact fun g hg => hold.interest g (List.mem_cons_of_mem _ hg)
  · exact fun g hg => hold.polled g (List.mem_cons_of_mem _ hg)

lemma polled_poll (h : Entries evs (fr :: rest)) (revents : ℕ → UInt16) (something : Bool)
    (it : Option ℕ) : Entries (evs ++ [.polled (setRevents fr.pollfds revents)])
      (⟨setRevents fr.pollfds revents, something, .second it 0⟩ :: rest) := by
  have hold : Entries (evs ++ [.polled (setRevents fr.pollfds revents)]) (fr :: rest) :=
    h.keep (by simp) fun g hg => ⟨g, hg, rfl, fun h => h⟩
  refine ⟨List.forall_mem_cons.2 ⟨fun p hp hne => ?_, ?_⟩, List.forall_mem_cons.2 ⟨fun _ => ?_, ?_⟩⟩
  · obtain ⟨q, hq, howner, hevents⟩ := mem_setRevents hp
    rw [hevents] at hne ⊢
    rw [howner]
    exact hold.interest fr List.mem_cons_self q hq hne
  · exact fun g hg => hold.interest g (List.mem_cons_of_mem _ hg)
  · exact Since.snoc evs rfl
  · exact fun g hg => hold.polled g (List.mem_cons_of_mem _ hg)

theorem step (h : Entries evs s.stack) (hreg : Registry evs s.rules) (hi : Quiet s i)
    (hstep : Step s i es s') : Entries (evs ++ es) s'.stack := by
  cases hstep
  case idle | addRule hs fd direction | setFd fd w | dangling hs hpc hr | outOfBounds hs hpc hp =>
    exact h.keep (by simp) fun g hg => ⟨g, hg, rfl, fun h => h⟩
  case waitNextEvent hs =>
    rw [show s.stack = [] from hi]
    refine ⟨List.forall_mem_singleton.2 fun p hp => absurd hp List.not_mem_nil, ?_⟩
    exact List.forall_mem_singleton.2 nofun
  case throw hs hrun e =>
    rw [show s.stack = [] from hi] at hs
    cases hs
  case exit hs hpc hpoll | timeout hs hpc a ha | interrupted hs hpc a ha | success hs hpc |
      pollError hs hpc hp herr | busyWait hs hpc =>
    refine h.keep (by simp) fun g hg => ⟨g, ?_, rfl, fun h => h⟩
    rw [hs]
    exact List.mem_cons_of_mem _ hg
  case entry hs hpc hr answer events hevents =>
    rw [hs] at h
    exact h.push hreg hr answer _ hevents _ _
  case polled hs hpc a ha =>
    rw [hs] at h
    exact h.polled_poll _ _ _
  case callFirstCancel hs hpc hr hover | callFirstInterest hs hpc hr hover |
      callSecondCancel hs hpc hp hr hhup | callCallback hs hpc hp hr hready |
      unserviced hs hpc hr hcount answer | firstCancelled hs hpc hr answer |
      secondCancelled hs hpc hr answer | toPoll hs hpc hpoll | notReady hs hpc hp hr hready |
      serviced hs hpc hr hcount answer | uninterested hs hpc hr =>
    exact h.keep_goto (by simp) hs (by simp [hpc, Pc.inSecondPass])

end Entries

/-! ### What precedes a callback -/

/-- In the call under way `interest` of the rule has answered `true`, and `poll` has left the entry
of the rule with the rule's direction among its `revents`. -/
def Judged (before : List Event) (id : ℕ) : Prop :=
  InThisCall (· = .returned .interest id true) before ∧
    ∃ pollfds, InThisCall (· = .polled pollfds) before ∧ ∃ p ∈ pollfds, p.owner = id ∧
      ∃ r, .added r ∈ before ∧ r.id = id ∧ p.revents &&& r.direction.value ≠ 0

/-- A rule that the second pass finds ready has been judged by its own entry. -/
lemma Entries.judged {evs : List Event} {s : State} (h : Entries evs s.stack) (hstep : InStep s)
    {fr : Frame} {rest : List Frame} {id idx : ℕ} {p : Pollfd} (hs : s.stack = fr :: rest)
    (hpc : fr.pc = .second (some id) idx) (hp : fr.pollfds[idx]? = some p)
    (hready : p.revents &&& p.events ≠ 0) : Judged evs id := by
  obtain ⟨hlt, howner⟩ := hstep.readsOwnEntry fr rest id idx hs hpc
  obtain ⟨_, rfl⟩ := List.getElem?_eq_some_iff.1 hp
  have hfr : fr ∈ s.stack := by
    rw [hs]
    exact List.mem_cons_self
  have hmem : fr.pollfds[idx] ∈ fr.pollfds := List.getElem_mem hlt
  have hne : fr.pollfds[idx].events ≠ 0 := by
    intro h0
    rw [h0] at hready
    exact hready (UInt16.and_zero)
  obtain ⟨hint, r, hr, hid, hevents⟩ := h.interest fr hfr _ hmem hne
  rw [howner] at hint hid
  refine ⟨hint, fr.pollfds, h.polled fr hfr (by rw [hpc]; rfl), _, hmem, howner, r, hr, hid, ?_⟩
  rwa [← hevents]

/-- Every callback is of a rule that has been judged. -/
def Callbacks (evs : List Event) : Prop :=
  Always (fun before e => ∀ id, e = .called .callback id → Judged before id) evs

theorem Callbacks.step {evs es : List Event} {s s' : State} {i : Input} (h : Callbacks evs)
    (hentries : Entries evs s.stack) (hin : InStep s) (hstep : Step s i es s') :
    Callbacks (evs ++ es) := by
  cases hstep
  case callCallback hs hpc hp hr hready =>
    refine Always.snoc h fun id heq => ?_
    cases heq
    exact hentries.judged hin hs hpc hp hready
  all_goals exact Always.append h (by simp)

/-! ### The result -/

/-- **The invariant** of a run whose functions are quiet. -/
structure Tracked (evs : List Event) (s : State) : Prop where
  inStep : InStep s
  alone : s.stack.tail = []
  registry : Registry evs s.rules
  cancels : Cancels evs s.running
  entries : Entries evs s.stack
  callbacks : Callbacks evs

namespace Tracked

variable {evs : List Event} {s : State} {i : Input}

lemma init (fds : ℕ → FDWrapper) : Tracked [] (init fds) :=
  ⟨inStep_init fds, rfl, Registry.nil, Cancels.nil, Entries.nil, Always.nil _⟩

lemma undisturbed (h : Tracked evs s) (hi : Quiet s i) : Undisturbed s i := by
  cases i with
  | addRule fd direction =>
    intro fr hfr
    rw [show s.stack = [] from hi] at hfr
    cases hfr
  | ret answer =>
    intro id _ fr hfr
    rw [h.alone] at hfr
    cases hfr
  | waitNextEvent => trivial
  | setFd fd w => trivial
  | throw e => trivial
  | poll a => trivial
  | tick => trivial

lemma alone_step {es : List Event} {s' : State} (h : s.stack.tail = []) (hi : Quiet s i)
    (hstep : Step s i es s') : s'.stack.tail = [] := by
  cases hstep
  case idle | addRule hs fd direction | setFd fd w | dangling hs hpc hr | outOfBounds hs hpc hp =>
    exact h
  case waitNextEvent hs => exact hi
  case throw hs hrun e | exit hs hpc hpoll | timeout hs hpc a ha | interrupted hs hpc a ha |
      success hs hpc | pollError hs hpc hp herr | busyWait hs hpc =>
    obtain rfl := rest_eq_nil h hs
    rfl
  all_goals exact rest_eq_nil h ‹_›

/-- **Every quiet move keeps the invariant.** -/
theorem step (h : Tracked evs s) (hi : Quiet s i) :
    Tracked (evs ++ (machine.step s i).1) (machine.step s i).2 := by
  have hstep := step_cases s i
  exact ⟨h.inStep.step (h.undisturbed hi) hstep, alone_step h.alone hi hstep,
    h.registry.step hstep, h.cancels.step h.registry h.alone hi hstep,
    h.entries.step h.registry hi hstep, h.callbacks.step h.entries h.inStep hstep⟩

end Tracked

theorem tracked_run {fds : ℕ → FDWrapper} {is : List Input}
    (h : ∀ m ∈ machine.trace (init fds) is, Quiet m.before m.input) :
    Tracked (history (machine.trace (init fds) is)) (machine.run (init fds) is) := by
  refine machine.history_of (J := fun tr s => Tracked (history tr) s)
    (P := fun m => Quiet m.before m.input) (Tracked.init fds) (fun tr s i hi ht => ?_) h
  have happend : history (tr ++ [machine.move s i]) = history tr ++ (machine.step s i).1 := by
    simp [history]
  rw [happend]
  exact ht.step hi

/-- What a history and the state it leads to say about the rules. -/
structure LifeCycle (evs : List Event) (s : State) : Prop where
  defined : s.undefined = false
  cancel_once : ∀ id, evs.count (.called .cancel id) ≤ 1
  mem_rules : ∀ id, id ∈ s.rules.nodes ↔
    id ∈ registeredIds evs ∧ ∀ answer, .returned .cancel id answer ∉ evs
  mem_rules_between : s.stack = [] → ∀ id, id ∈ s.rules.nodes ↔
    id ∈ registeredIds evs ∧ .called .cancel id ∉ evs
  silent : ∀ before id after, evs = before ++ .called .cancel id :: after →
    ∀ f, .called f id ∉ after
  callback : ∀ before id after, evs = before ++ .called .callback id :: after → Judged before id
  order : (registeredIds evs).Nodup ∧ s.rules.nodes.Sublist (registeredIds evs)

/-- **The life cycle of a rule.** In every run whose functions are quiet, also after calls that an
exception has ended: a rule is cancelled at most once and is in the list until then; it is not heard
of afterwards; a callback runs only if the rule was interested in the same call and ready by its own
entry; and the list is in the order of registration. -/
theorem life_cycle (fds : ℕ → FDWrapper) (is : List Input)
    (h : ∀ m ∈ machine.trace (init fds) is, Quiet m.before m.input) :
    LifeCycle (history (machine.trace (init fds) is)) (machine.run (init fds) is) := by
  have ht := tracked_run h
  generalize history (machine.trace (init fds) is) = evs at ht
  generalize machine.run (init fds) is = s at ht
  have hsilent : ∀ before id after, evs = before ++ .called .cancel id :: after →
      ∀ f, .called f id ∉ after := by
    rintro before id after rfl f hf
    obtain ⟨mid, after', rfl⟩ := List.append_of_mem hf
    have hbefore := ht.cancels.silent (before ++ .called .cancel id :: mid) (.called f id) after'
      (by simp)
    exact hbefore f id rfl (by simp)
  refine ⟨ht.inStep.defined, fun id => ?_, ht.registry.mem, fun hs id => ?_, hsilent, ?_, ?_, ?_⟩
  · exact count_le_one fun before after heq => hsilent before id after heq .cancel
  · rw [ht.registry.mem, ht.cancels.called_iff]
    simp [State.running, hs]
  · exact fun before id after heq => ht.callbacks before _ after heq id rfl
  · rw [ht.registry.registered]
    exact List.nodup_range
  · rw [ht.registry.registered]
    exact s.rules.nodes_sublist

/-- Of two rules the first is cancelled on a hangup and the second called back. -/
theorem life_cycle_hangup :
    LifeCycle
      (history (machine.trace (init fun i => { fd := i }) [.addRule 0 .in_, .addRule 1 .out,
        .waitNextEvent, .tick, .ret true, .tick, .ret true, .tick,
        .poll ⟨2, 0, fun i => if i = 0 then pollHup else pollOut, .inr (by decide)⟩, .tick,
        .ret true, .tick, .setFd 1 { fd := 1, writeCount := 1 }, .ret true, .tick]))
      (machine.run (init fun i => { fd := i }) [.addRule 0 .in_, .addRule 1 .out,
        .waitNextEvent, .tick, .ret true, .tick, .ret true, .tick,
        .poll ⟨2, 0, fun i => if i = 0 then pollHup else pollOut, .inr (by decide)⟩, .tick,
        .ret true, .tick, .setFd 1 { fd := 1, writeCount := 1 }, .ret true, .tick]) :=
  life_cycle _ _ (by decide)

end Sponge.EventLoop
