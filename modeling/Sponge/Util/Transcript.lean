import Sponge.Util.LifeCycle
import Sponge.Util.PollOutcome

/-!
# What a call of `wait_next_event` does, from its first event to its last

The events of a call, in the order they come, as long as nothing comes between the calls and their
entries (`Undisturbed`): the first pass asks every rule once, in the order of registration, and makes
an entry for each rule it does not cancel; after `poll` the second pass serves every entry once, in
the order of the entries, as its `revents` say.

* `Visit`, `FirstPass` — the events and the entries of the first pass;
* `Served`, `Serving` — what the second pass does with an entry;
* `Transcript`, `transcript` — the events of a call under way, an invariant of every call;
* `call_transcript` — the events of a call that is over, also where a function of a rule throws.
-/

namespace Sponge.EventLoop

open Lib

/-! ### The two passes -/

/-- A rule that the first pass has come to: whether it was cancelled or asked for its interest, the
rules registered while that function was running, and what it answered. -/
structure Visit where
  rule : Rule
  cancelled : Bool
  added : List Rule
  answer : Bool

namespace Visit

def fn (v : Visit) : RuleFn := if v.cancelled then .cancel else .interest

def events (v : Visit) : List Event :=
  .called v.fn v.rule.id :: (v.added.map Event.added ++ [.returned v.fn v.rule.id v.answer])

/-- The entry that the visit makes, if the rule was not cancelled; `num` are the numbers of the
descriptors. -/
def entry (num : ℕ → ℕ) (v : Visit) : Pollfd :=
  ⟨num v.rule.fd, if v.answer then v.rule.direction.value else 0, 0, v.rule.id⟩

end Visit

/-- The events and the entries of a first pass that has made the visits: of rules registered in
`past`, and in the order of their registration. -/
structure FirstPass (num : ℕ → ℕ) (past : List Event) (visits : List Visit) (log : List Event)
    (pollfds : List Pollfd) : Prop where
  log : log = visits.flatMap Visit.events
  entries : pollfds = (visits.filter fun v => !v.cancelled).map (Visit.entry num)
  order : (visits.map fun v => v.rule.id).Pairwise (· < ·)
  registered : ∀ v ∈ visits, .added v.rule ∈ past

/-- Asked for, a hangup and nothing else. -/
def HungUp (p : Pollfd) : Prop :=
  p.revents &&& pollHup ≠ 0 ∧ p.events ≠ 0 ∧ p.revents &&& p.events = 0

def Ready (p : Pollfd) : Prop := p.revents &&& p.events ≠ 0

def Failed (p : Pollfd) : Prop := p.revents &&& (pollErr ||| pollNval) ≠ 0

/-- The events of the second pass for an entry that it has gone past. -/
inductive Served (p : Pollfd) : List Event → Prop
  | passedOver (h : ¬ Tells p) : Served p []
  | cancelled (hok : ¬ Failed p) (h : HungUp p) (answer : Bool) :
      Served p [.called .cancel p.owner, .returned .cancel p.owner answer]
  | serviced (hok : ¬ Failed p) (h : Ready p) (answer : Bool) :
      Served p [.called .callback p.owner, .returned .callback p.owner answer]
  | uninterested (hok : ¬ Failed p) (h : Ready p) (answer : Bool) :
      Served p [.called .callback p.owner, .returned .callback p.owner answer,
        .called .interest p.owner, .returned .interest p.owner false]

/-- The events of the second pass for an entry that it is at, while a function is running. -/
inductive Serving (p : Pollfd) : List Event → Prop
  | cancelling (hok : ¬ Failed p) (h : HungUp p) : Serving p [.called .cancel p.owner]
  | servicing (hok : ¬ Failed p) (h : Ready p) : Serving p [.called .callback p.owner]
  | asking (hok : ¬ Failed p) (h : Ready p) (answer : Bool) :
      Serving p [.called .callback p.owner, .returned .callback p.owner answer,
        .called .interest p.owner]

/-- The events of a call that has gone past the first `idx` entries, and then added `tail`. -/
def SecondPass (num : ℕ → ℕ) (past : List Event) (log : List Event) (pollfds : List Pollfd)
    (idx : ℕ) (tail : List Event) : Prop :=
  ∃ visits first entries revents segs, FirstPass num past visits first entries ∧
    pollfds = setRevents entries revents ∧
    log = first ++ .polled pollfds :: (segs.flatten ++ tail) ∧
    List.Forall₂ Served (pollfds.take idx) segs

/-- The entry that a function is called for, and what is known about it. -/
def CalledFor (P : Pollfd → Prop) (pollfds : List Pollfd) (id idx : ℕ) : Prop :=
  ∃ p, pollfds[idx]? = some p ∧ p.owner = id ∧ ¬ Failed p ∧ P p

/-- The events of a first pass in which a function is running. -/
def InVisit (num : ℕ → ℕ) (past : List Event) (fn : RuleFn) (id : ℕ) (log : List Event)
    (pollfds : List Pollfd) : Prop :=
  ∃ visits first added, FirstPass num past visits first pollfds ∧
    log = first ++ .called fn id :: List.map Event.added added ∧ ∀ v ∈ visits, v.rule.id < id

/-- **The events of a call that is under way**, by the point it is at. -/
def Transcript (num : ℕ → ℕ) (past : List Event) (_ : RuleList) (log : List Event) (fr : Frame) :
    Prop :=
  match fr.pc with
  | .first it => ∃ visits, FirstPass num past visits log fr.pollfds ∧
      ∀ id ∈ it, ∀ v ∈ visits, v.rule.id < id
  | .firstCancel id => InVisit num past .cancel id log fr.pollfds
  | .firstInterest id => InVisit num past .interest id log fr.pollfds
  | .poll => ∃ visits, FirstPass num past visits log fr.pollfds
  | .second _ idx => SecondPass num past log fr.pollfds idx []
  | .secondCancel id idx => SecondPass num past log fr.pollfds idx [.called .cancel id] ∧
      CalledFor HungUp fr.pollfds id idx
  | .secondCallback id idx _ => SecondPass num past log fr.pollfds idx [.called .callback id] ∧
      CalledFor Ready fr.pollfds id idx
  | .secondInterest id idx => (∃ answer, SecondPass num past log fr.pollfds idx
      [.called .callback id, .returned .callback id answer, .called .interest id]) ∧
      CalledFor Ready fr.pollfds id idx

/-! ### The invariant -/

section

variable {num : ℕ → ℕ} {past : List Event} {visits : List Visit} {log : List Event}
  {pollfds : List Pollfd} {l l' : RuleList} {fr : Frame} {id idx : ℕ} {fn : RuleFn}

lemma FirstPass.nil : FirstPass num past [] [] [] :=
  ⟨rfl, rfl, .nil, fun _ h => absurd h List.not_mem_nil⟩

lemma FirstPass.snoc (h : FirstPass num past visits log pollfds) {v : Visit}
    (hv : .added v.rule ∈ past) (hlt : ∀ w ∈ visits, w.rule.id < v.rule.id) :
    FirstPass num past (visits ++ [v]) (log ++ v.events)
      (if v.cancelled then pollfds else pollfds ++ [v.entry num]) where
  log := by
    rw [h.log, List.flatMap_append, List.flatMap_singleton]
  entries := by
    rw [List.filter_append, List.map_append, ← h.entries]
    cases hc : v.cancelled <;> simp [hc]
  order := by
    rw [List.map_append, List.pairwise_append]
    refine ⟨h.order, List.pairwise_singleton _ _, ?_⟩
    rintro a ha b hb
    obtain ⟨w, hw, rfl⟩ := List.mem_map.1 ha
    rw [List.mem_singleton.1 hb]
    exact hlt w hw
  registered := List.forall_mem_append.2 ⟨h.registered, List.forall_mem_singleton.2 hv⟩

lemma InVisit.added (h : InVisit num past fn id log pollfds) (r : Rule) :
    InVisit num past fn id (log ++ [.added r]) pollfds := by
  obtain ⟨visits, first, added, hfirst, rfl, hlt⟩ := h
  refine ⟨visits, first, added ++ [r], hfirst, ?_, hlt⟩
  rw [List.map_append, List.append_assoc]
  rfl

lemma InVisit.returned (h : InVisit num past fn id log pollfds) {r : Rule} (hr : r.id = id)
    (hpast : .added r ∈ past) {cancelled : Bool}
    (hfn : fn = if cancelled then .cancel else .interest) (answer : Bool) {it : Option ℕ}
    (hit : ∀ a ∈ it, id < a) :
    ∃ visits, FirstPass num past visits (log ++ [.returned fn id answer])
      (if cancelled then pollfds
        else pollfds ++ [⟨num r.fd, if answer then r.direction.value else 0, 0, id⟩]) ∧
      ∀ a ∈ it, ∀ v ∈ visits, v.rule.id < a := by
  obtain ⟨visits, first, added, hfirst, rfl, hlt⟩ := h
  subst hr
  have hsnoc := hfirst.snoc (v := ⟨r, cancelled, added, answer⟩) hpast hlt
  refine ⟨visits ++ [⟨r, cancelled, added, answer⟩], ?_, fun a ha => ?_⟩
  · rw [List.append_assoc, List.cons_append]
    unfold Visit.events Visit.fn at hsnoc
    rw [← hfn] at hsnoc
    exact hsnoc
  · refine List.forall_mem_append.2 ⟨fun v hv => ?_, List.forall_mem_singleton.2 (hit a ha)⟩
    exact lt_trans (hlt v hv) (hit a ha)

lemma SecondPass.append {tail : List Event} (h : SecondPass num past log pollfds idx tail)
    (es : List Event) : SecondPass num past (log ++ es) pollfds idx (tail ++ es) := by
  obtain ⟨visits, first, entries, revents, segs, hfirst, hpollfds, rfl, hserved⟩ := h
  refine ⟨visits, first, entries, revents, segs, hfirst, hpollfds, ?_, hserved⟩
  rw [List.append_assoc, List.cons_append, List.append_assoc]

/-- The entry at the index is served, and the call goes past it. -/
lemma SecondPass.served {tail : List Event} {p : Pollfd}
    (h : SecondPass num past log pollfds idx tail) (hp : pollfds[idx]? = some p)
    (hs : Served p tail) : SecondPass num past log pollfds (idx + 1) [] := by
  obtain ⟨visits, first, entries, revents, segs, hfirst, hpollfds, rfl, hserved⟩ := h
  refine ⟨visits, first, entries, revents, segs ++ [tail], hfirst, hpollfds, ?_, ?_⟩
  · rw [List.flatten_append, List.flatten_singleton, List.append_nil]
  · rw [List.take_add_one, hp]
    exact List.rel_append hserved (.cons hs .nil)

end

lemma RuleList.lt_next {l : RuleList} {id : ℕ} (hid : id ∈ l.nodes) :
    ∀ a ∈ next l.nodes id, id < a := by
  intro a ha
  obtain ⟨before, after, hsplit⟩ := List.append_of_mem hid
  have hsorted : (before ++ id :: after).Pairwise (· < ·) := by
    rw [← hsplit]
    exact l.ordered
  have hnew : id ∉ before := fun hmem =>
    lt_irrefl id ((List.pairwise_append.1 hsorted).2.2 id hmem id List.mem_cons_self)
  rw [hsplit, next_append hnew] at ha
  have hcons := (List.pairwise_append.1 hsorted).2.1
  exact (List.pairwise_cons.1 hcons).1 a (List.mem_of_mem_head? ha)

lemma secondPass_of_failed {s : State} {fr : Frame} {rest : List Frame} {id idx : ℕ} {p : Pollfd}
    (hp : fr.pollfds[idx]? = some p) (h : Failed p) :
    (secondPass s fr rest (some id) idx).1 =
      [.thrown (.runtimeError "EventLoop: error on polled file descriptor")] := by
  unfold secondPass
  simp only [hp]
  rw [if_pos (show p.revents &&& (pollErr ||| pollNval) ≠ 0 from h)]

/-- An entry for which a function is called is not in error. -/
lemma not_failed {s : State} {fr : Frame} {rest : List Frame} {id idx : ℕ} {p : Pollfd} {f : RuleFn}
    (hp : fr.pollfds[idx]? = some p)
    (h : (secondPass s fr rest (some id) idx).1 = [.called f id]) : ¬ Failed p := by
  intro hfailed
  rw [secondPass_of_failed hp hfailed] at h
  cases h

lemma owner_eq {s : State} (h : ReadsOwnEntry s) {fr : Frame} {rest : List Frame} {id idx : ℕ}
    {p : Pollfd} (hs : s.stack = fr :: rest) (hpc : fr.pc = .second (some id) idx)
    (hp : fr.pollfds[idx]? = some p) : p.owner = id := by
  obtain ⟨hlt, howner⟩ := h fr rest id idx hs hpc
  rw [List.getElem?_eq_getElem hlt] at hp
  rw [← Option.some.inj hp, howner]

/-- What a move has to satisfy: `num` are the numbers of the descriptors, the rules in the list were
registered in `past`, and nothing comes between the calls and their entries. -/
structure Settled (num : ℕ → ℕ) (past : List Event) (m : Move State Input (List Event)) : Prop where
  num : ∀ i, (m.before.fds i).fd = num i
  past : ∀ r ∈ m.before.rules.rules, .added r ∈ past
  own : ReadsOwnEntry m.before
  undisturbed : Undisturbed m.before m.input

/-- **Every call keeps to its transcript.** -/
theorem transcript (num : ℕ → ℕ) (past : List Event) :
    CallInvariant (Transcript num past) (Settled num past) := by
  refine ⟨fun _ => ⟨[], .nil, fun _ _ v hv => (by cases hv)⟩, fun _ _ h => h,
    fun hsettled hm hstep hdef hs hs' h => ?_⟩
  have hout := congrArg Prod.fst hm
  obtain ⟨hnum, hpast, hown, hundisturbed⟩ := hsettled
  simp only [Machine.move_before, Machine.move_input] at hnum hpast hown hundisturbed
  cases hstep with
  | idle i | setFd fd w =>
    obtain ⟨rfl, -⟩ := List.cons.inj (hs.symm.trans hs')
    rwa [List.append_nil]
  | addRule huser fd direction =>
    obtain ⟨rfl, -⟩ := List.cons.inj (hs.symm.trans hs')
    have hrun := huser _ (by rw [hs]; rfl)
    have hfirst := hundisturbed _ (by rw [hs]; exact List.mem_cons_self)
    unfold Transcript at h ⊢
    cases hpc : Frame.pc _ with
    | first it | poll | second it idx => rw [hpc] at hrun; cases hrun
    | firstCancel id =>
      rw [hpc] at h
      exact InVisit.added h _
    | firstInterest id =>
      rw [hpc] at h
      exact InVisit.added h _
    | secondCancel id idx | secondCallback id idx c | secondInterest id idx =>
      rw [hpc] at hfirst
      cases hfirst
  | dangling hs₀ hpc hr i | outOfBounds hs₀ hpc hp => cases hdef
  | waitNextEvent huser =>
    rw [hs] at hs'
    exact absurd (List.cons.inj hs').2 (List.cons_ne_self _ _)
  | throw hs₀ hrun e | exit hs₀ hpc hpoll | timeout hs₀ hpc a ha | interrupted hs₀ hpc a ha
  | success hs₀ hpc | pollError hs₀ hpc hp herr | busyWait hs₀ hpc =>
    exact (not_left hs hs₀ hs').elim
  | toPoll hs₀ hpc hpoll =>
    obtain ⟨rfl, rfl⟩ := List.cons.inj (hs.symm.trans hs₀)
    obtain ⟨rfl, -⟩ := List.cons.inj hs'
    rw [List.append_nil]
    simp only [Transcript, hpc] at h ⊢
    obtain ⟨visits, hfirst, -⟩ := h
    exact ⟨visits, hfirst⟩
  | callFirstCancel hs₀ hpc hr hover | callFirstInterest hs₀ hpc hr hover =>
    obtain ⟨rfl, rfl⟩ := List.cons.inj (hs.symm.trans hs₀)
    obtain ⟨rfl, -⟩ := List.cons.inj hs'
    simp only [Transcript, hpc] at h ⊢
    obtain ⟨visits, hfirst, hlt⟩ := h
    exact ⟨visits, _, [], hfirst, rfl, hlt _ rfl⟩
  | firstCancelled hs₀ hpc hr answer =>
    obtain ⟨rfl, rfl⟩ := List.cons.inj (hs.symm.trans hs₀)
    obtain ⟨rfl, -⟩ := List.cons.inj hs'
    simp only [Transcript, hpc] at h ⊢
    obtain ⟨hmem, hid⟩ := RuleList.find_spec hr
    have hfn : RuleFn.cancel = if true then .cancel else .interest := rfl
    exact InVisit.returned h hid (hpast _ hmem) hfn answer
      (RuleList.lt_next (RuleList.find_mem hr))
  | entry hs₀ hpc hr answer events hevents =>
    obtain ⟨rfl, rfl⟩ := List.cons.inj (hs.symm.trans hs₀)
    obtain ⟨rfl, -⟩ := List.cons.inj hs'
    simp only [Transcript, hpc] at h ⊢
    obtain ⟨hmem, hid⟩ := RuleList.find_spec hr
    subst hevents
    rw [hnum]
    have hfn : RuleFn.interest = if false then .cancel else .interest := rfl
    exact InVisit.returned h hid (hpast _ hmem) hfn answer
      (RuleList.lt_next (RuleList.find_mem hr))
  | polled hs₀ hpc a ha =>
    obtain ⟨rfl, rfl⟩ := List.cons.inj (hs.symm.trans hs₀)
    obtain ⟨rfl, -⟩ := List.cons.inj hs'
    simp only [Transcript, hpc] at h ⊢
    obtain ⟨visits, hfirst⟩ := h
    refine ⟨visits, _, _, a.revents, [], hfirst, rfl, rfl, ?_⟩
    rw [List.take_zero]
    exact .nil
  | callSecondCancel hs₀ hpc hp hr hhup =>
    obtain ⟨rfl, rfl⟩ := List.cons.inj (hs.symm.trans hs₀)
    obtain ⟨rfl, -⟩ := List.cons.inj hs'
    rw [step_second hs hpc hdef] at hout
    have howner := owner_eq hown hs hpc hp
    simp only [Transcript, hpc] at h ⊢
    exact ⟨h.append _, _, hp, howner, not_failed hp hout, hhup⟩
  | callCallback hs₀ hpc hp hr hready =>
    obtain ⟨rfl, rfl⟩ := List.cons.inj (hs.symm.trans hs₀)
    obtain ⟨rfl, -⟩ := List.cons.inj hs'
    rw [step_second hs hpc hdef] at hout
    have howner := owner_eq hown hs hpc hp
    simp only [Transcript, hpc] at h ⊢
    exact ⟨h.append _, _, hp, howner, not_failed hp hout, hready⟩
  | notReady hs₀ hpc hp hr hready =>
    obtain ⟨rfl, rfl⟩ := List.cons.inj (hs.symm.trans hs₀)
    obtain ⟨rfl, -⟩ := List.cons.inj hs'
    rw [step_second hs hpc hdef] at hout
    rw [List.append_nil]
    simp only [Transcript, hpc] at h ⊢
    exact h.served hp (.passedOver fun htells => secondPass_of_tells hp hr htells hout)
  | secondCancelled hs₀ hpc hr answer =>
    obtain ⟨rfl, rfl⟩ := List.cons.inj (hs.symm.trans hs₀)
    obtain ⟨rfl, -⟩ := List.cons.inj hs'
    simp only [Transcript, hpc] at h ⊢
    obtain ⟨hsecond, p, hp, rfl, hok, hhup⟩ := h
    exact (hsecond.append _).served hp (.cancelled hok hhup answer)
  | serviced hs₀ hpc hr hcount answer =>
    obtain ⟨rfl, rfl⟩ := List.cons.inj (hs.symm.trans hs₀)
    obtain ⟨rfl, -⟩ := List.cons.inj hs'
    simp only [Transcript, hpc] at h ⊢
    obtain ⟨hsecond, p, hp, rfl, hok, hready⟩ := h
    exact (hsecond.append _).served hp (.serviced hok hready answer)
  | unserviced hs₀ hpc hr hcount answer =>
    obtain ⟨rfl, rfl⟩ := List.cons.inj (hs.symm.trans hs₀)
    obtain ⟨rfl, -⟩ := List.cons.inj hs'
    simp only [Transcript, hpc] at h ⊢
    exact ⟨⟨answer, h.1.append _⟩, h.2⟩
  | uninterested hs₀ hpc hr =>
    obtain ⟨rfl, rfl⟩ := List.cons.inj (hs.symm.trans hs₀)
    obtain ⟨rfl, -⟩ := List.cons.inj hs'
    simp only [Transcript, hpc] at h ⊢
    obtain ⟨⟨answer, hsecond⟩, p, hp, rfl, hok, hready⟩ := h
    exact (hsecond.append _).served hp (.uninterested hok hready answer)

/-! ### Calls that the loop ends -/

lemma fd_run (fds : ℕ → FDWrapper) (is : List Input) (i : ℕ) :
    ((machine.run (init fds) is).fds i).fd = (fds i).fd := by
  refine machine.invariant (I := fun s => (s.fds i).fd = (fds i).fd) rfl ?_ is
  intro s input h
  have hstep := step_cases s input
  rw [machine_step]
  generalize (step s input).2 = s' at hstep
  generalize (step s input).1 = es at hstep
  cases hstep with
  | setFd fd w =>
    by_cases hi : i = fd
    · subst hi
      simpa using h
    · simpa [Function.update_of_ne hi] using h
  | _ => exact h

lemma added_run (fds : ℕ → FDWrapper) (is : List Input) :
    ∀ r ∈ (machine.run (init fds) is).rules.rules,
      .added r ∈ history (machine.trace (init fds) is) := by
  refine machine.history (J := fun tr s => ∀ r ∈ s.rules.rules, .added r ∈ history tr)
    (s := init fds) (fun r hr => absurd hr List.not_mem_nil) (fun tr s input h => ?_) is
  have happend : history (tr ++ [machine.move s input]) = history tr ++ (machine.step s input).1 := by
    simp [history]
  rw [happend]
  have hstep := step_cases s input
  rw [machine_step]
  generalize (step s input).2 = s' at hstep
  generalize (step s input).1 = es at hstep
  have hold : ∀ r ∈ s.rules.rules, Event.added r ∈ history tr ++ es := fun r hr =>
    List.mem_append_left _ (h r hr)
  cases hstep with
  | addRule hs fd direction =>
    refine List.forall_mem_append.2 ⟨hold, List.forall_mem_singleton.2 ?_⟩
    exact List.mem_append_right _ (List.mem_singleton.2 rfl)
  | firstCancelled hs hpc hr answer | secondCancelled hs hpc hr answer =>
    exact fun r hr => hold r (List.mem_filter.1 hr).1
  | _ => exact hold

/-- The moves of an undisturbed run are settled, by its registrations. -/
lemma settled_run {fds : ℕ → FDWrapper} {is : List Input}
    (h : ∀ m ∈ machine.trace (init fds) is, Undisturbed m.before m.input) :
    ∀ m ∈ machine.trace (init fds) is,
      Settled (fun i => (fds i).fd) (history (machine.trace (init fds) is)) m := by
  intro m hm
  have hundisturbed := h m hm
  obtain ⟨js, i, ks, rfl, rfl⟩ := machine.mem_trace.1 hm
  rw [machine.trace_append] at h ⊢
  refine ⟨fd_run fds js, fun r hr => ?_, ?_, hundisturbed⟩
  · unfold history
    rw [List.flatMap_append]
    exact List.mem_append_left _ (added_run fds js r hr)
  · exact (inStep_run fun m hm => h m (List.mem_append_left _ hm)).readsOwnEntry

section

variable {s s' : State} {i : Input} {es : List Event}

lemma Step.polled_cases (h : Step s i es s') {pollfds : List Pollfd} (hp : .polled pollfds ∈ es) :
    ∃ fr revents, s.stack.head? = some fr ∧ fr.pc = .poll ∧
      pollfds = setRevents fr.pollfds revents := by
  cases h
  case polled hs hpc a ha => exact ⟨_, a.revents, by rw [hs]; rfl, hpc, by simpa using hp⟩
  all_goals exact absurd hp (by simp)

lemma Step.no_second_pass (h : Step s i es s') {r : Result} (hr : .result r ∈ es)
    (hne : r ≠ .success) : ∃ fr, s.stack.head? = some fr ∧ (fr.pc = .first none ∨ fr.pc = .poll) := by
  cases h
  case exit hs hpc hpoll => exact ⟨_, by rw [hs]; rfl, .inl hpc⟩
  case timeout hs hpc a ha => exact ⟨_, by rw [hs]; rfl, .inr hpc⟩
  case interrupted hs hpc a ha => exact ⟨_, by rw [hs]; rfl, .inr hpc⟩
  case success hs hpc => exact absurd (by simpa using hr) hne
  all_goals exact absurd hr (by simp)

lemma Step.pollError_cases (h : Step s .tick es s') {e : Exn} (he : .thrown e ∈ es) :
    ∃ fr id idx p, s.stack.head? = some fr ∧ fr.pc = .second (some id) idx ∧
      fr.pollfds[idx]? = some p ∧ Failed p := by
  cases h
  case pollError hs hpc hp herr => exact ⟨_, _, _, _, by rw [hs]; rfl, hpc, hp, herr⟩
  all_goals exact absurd he (by simp)

lemma Step.busyWait_cases (h : Step s i es s') {id : ℕ} {e : Exn}
    (he : es = [.returned .interest id true, .thrown e]) :
    ∃ fr idx, s.stack.head? = some fr ∧ fr.pc = .secondInterest id idx := by
  cases h
  case busyWait fr rest id' idx hs hpc =>
    obtain rfl : id' = id := by simpa using (List.cons.inj he).1
    exact ⟨fr, idx, by rw [hs]; rfl, hpc⟩
  all_goals exact absurd he (by simp)

lemma Step.throw_cases {e : Exn} (h : Step s (.throw e) es s') (he : .thrown e ∈ es) :
    ∃ fr, s.stack.head? = some fr ∧ fr.pc.running.isSome := by
  cases h
  case throw hs hrun => exact ⟨_, by rw [hs]; rfl, hrun⟩
  all_goals exact absurd he (by simp)

/-- After the first pass, the entries are those of the rules in the list. -/
lemma InStep.owners_eq (h : InStep s) {fr : Frame} (hs : s.stack.head? = some fr)
    (hpc : fr.pc = .first none ∨ fr.pc = .poll) : fr.owners = s.rules.nodes := by
  have hfr := h.calls fr (List.mem_of_mem_head? hs)
  unfold Frame.InStep at hfr
  rcases hpc with hpc | hpc
  · rw [hpc] at hfr
    exact (Filling.eq_of_end hfr).symm
  · rw [hpc] at hfr
    exact hfr.symm

end

/-- What a call has done when a move of the loop ends it, or when it has polled. -/
structure CallTranscript (num : ℕ → ℕ) (past : List Event) (log : List Event)
    (m : Move State Input (List Event)) : Prop where
  /-- Every rule in the list has an entry. -/
  polled : ∀ pollfds, .polled pollfds ∈ m.output →
    ∃ visits entries revents, FirstPass num past visits log entries ∧
      pollfds = setRevents entries revents ∧ pollfds.map Pollfd.owner = m.before.rules.nodes
  /-- Without a second pass, every rule in the list was asked. -/
  timeoutOrExit : ∀ r, .result r ∈ m.output → r ≠ .success →
    ∃ visits entries, FirstPass num past visits log entries ∧
      entries.map Pollfd.owner = m.before.rules.nodes
  /-- All entries are served. -/
  success : .result .success ∈ m.output → ∃ visits first entries revents segs,
    FirstPass num past visits first entries ∧
    log = first ++ .polled (setRevents entries revents) :: segs.flatten ∧
    List.Forall₂ Served (setRevents entries revents) segs
  /-- The entries before the first one in error are served. -/
  pollError : ∀ e, m.input = .tick → .thrown e ∈ m.output → ∃ pollfds idx p,
    SecondPass num past log pollfds idx [] ∧ pollfds[idx]? = some p ∧ Failed p
  /-- The entries before the first one that is waited for busily are served. -/
  busyWait : ∀ id e, m.output = [.returned .interest id true, .thrown e] → ∃ pollfds idx answer,
    SecondPass num past log pollfds idx
      [.called .callback id, .returned .callback id answer, .called .interest id] ∧
    CalledFor Ready pollfds id idx
  /-- The entries before the one whose rule's function throws are served, if it is not the first pass
  that the exception ends. -/
  throws : ∀ e, m.input = .throw e → .thrown e ∈ m.output →
    (∃ fn id pollfds, InVisit num past fn id log pollfds) ∨
    ∃ pollfds idx p tail, SecondPass num past log pollfds idx tail ∧ pollfds[idx]? = some p ∧
      Serving p tail

/-- A call in which a function is running, and throws. -/
lemma Transcript.throws {num : ℕ → ℕ} {past log : List Event} {l : RuleList} {fr : Frame}
    (h : Transcript num past l log fr) (hrun : fr.pc.running.isSome) :
    (∃ fn id pollfds, InVisit num past fn id log pollfds) ∨
    ∃ pollfds idx p tail, SecondPass num past log pollfds idx tail ∧ pollfds[idx]? = some p ∧
      Serving p tail := by
  unfold Transcript at h
  cases hpc : fr.pc with
  | first it | poll | second it idx =>
    rw [hpc] at hrun
    cases hrun
  | firstCancel id =>
    simp only [hpc] at h
    exact .inl ⟨_, _, _, h⟩
  | firstInterest id =>
    simp only [hpc] at h
    exact .inl ⟨_, _, _, h⟩
  | secondCancel id idx =>
    simp only [hpc] at h
    obtain ⟨hsecond, p, hp, rfl, hok, hhup⟩ := h
    exact .inr ⟨_, _, _, _, hsecond, hp, .cancelling hok hhup⟩
  | secondCallback id idx count =>
    simp only [hpc] at h
    obtain ⟨hsecond, p, hp, rfl, hok, hready⟩ := h
    exact .inr ⟨_, _, _, _, hsecond, hp, .servicing hok hready⟩
  | secondInterest id idx =>
    simp only [hpc] at h
    obtain ⟨⟨answer, hsecond⟩, p, hp, rfl, hok, hready⟩ := h
    exact .inr ⟨_, _, _, _, hsecond, hp, .asking hok hready answer⟩

/-- A call that keeps to its transcript, and in step, has done so when a move ends it. -/
lemma InStep.callTranscript {num : ℕ → ℕ} {past log : List Event} {s : State} (hin : InStep s)
    (htop : ∀ {fr : Frame}, s.stack.head? = some fr → Transcript num past s.rules log fr)
    (i : Input) : CallTranscript num past log (machine.move s i) := by
  have hstep := step_cases s i
  refine ⟨fun pollfds hp => ?_, fun r hr hne => ?_, fun hr => ?_, fun e hi he => ?_,
    fun id e he => ?_, fun e hi he => ?_⟩
  · obtain ⟨fr, revents, hs, hpc, rfl⟩ := hstep.polled_cases hp
    have hlog := htop hs
    simp only [Transcript, hpc] at hlog
    obtain ⟨visits, hfirst⟩ := hlog
    refine ⟨visits, fr.pollfds, revents, hfirst, rfl, ?_⟩
    rw [owners_setRevents]
    exact hin.owners_eq hs (.inr hpc)
  · obtain ⟨fr, hs, hpc⟩ := hstep.no_second_pass hr hne
    have hlog := htop hs
    have hasked : ∃ visits, FirstPass num past visits log fr.pollfds := by
      rcases hpc with hpc | hpc
      · simp only [Transcript, hpc] at hlog
        obtain ⟨visits, hfirst, -⟩ := hlog
        exact ⟨visits, hfirst⟩
      · simp only [Transcript, hpc] at hlog
        exact hlog
    obtain ⟨visits, hfirst⟩ := hasked
    exact ⟨visits, fr.pollfds, hfirst, hin.owners_eq hs hpc⟩
  · rcases hstep.result_cases hr with ⟨hr, -⟩ | ⟨hr, -⟩ | ⟨hr, -⟩ | ⟨-, fr, idx, hs, hpc⟩
    · cases hr
    · cases hr
    · cases hr
    · have hlog := htop hs
      have hread := hin.calls fr (List.mem_of_mem_head? hs)
      simp only [Transcript, hpc] at hlog
      simp only [Frame.InStep, hpc] at hread
      obtain ⟨visits, first, entries, revents, segs, hfirst, hpollfds, hlog, hserved⟩ := hlog
      -- the walk has come to the end of the entries
      have hend : fr.pollfds.length ≤ idx := by
        have := hread.le_of_end
        unfold Frame.owners at this
        rwa [List.length_map] at this
      rw [List.take_of_length_le hend] at hserved
      rw [List.append_nil] at hlog
      rw [hpollfds] at hlog hserved
      exact ⟨visits, first, entries, revents, segs, hfirst, hlog, hserved⟩
  · have hi : i = .tick := hi
    subst hi
    obtain ⟨fr, id, idx, p, hs, hpc, hp, hfailed⟩ := hstep.pollError_cases he
    have hlog := htop hs
    simp only [Transcript, hpc] at hlog
    exact ⟨fr.pollfds, idx, p, hlog, hp, hfailed⟩
  · obtain ⟨fr, idx, hs, hpc⟩ := hstep.busyWait_cases he
    have hlog := htop hs
    simp only [Transcript, hpc] at hlog
    obtain ⟨⟨answer, hsecond⟩, hcalled⟩ := hlog
    exact ⟨fr.pollfds, idx, answer, hsecond, hcalled⟩
  · have hi : i = .throw e := hi
    subst hi
    obtain ⟨fr, hs, hrun⟩ := hstep.throw_cases he
    exact (htop hs).throws hrun

/-- **What a call of `wait_next_event` does.** In an undisturbed run, whatever the functions of the
rules do to the descriptors and whatever `poll` answers: the first pass asks every rule once, in the
order of registration; a call that succeeds has served all entries, each once and in their order, as
its `revents` say; and one that ends with an exception, of the loop or of a function of a rule, has
served the entries before the one that it is about, and none after it. -/
theorem call_transcript (fds : ℕ → FDWrapper) (is : List Input)
    (h : ∀ m ∈ machine.trace (init fds) is, Undisturbed m.before m.input) (js : List Input)
    (i : Input) (ks : List Input) (his : is = js ++ i :: ks) :
    CallTranscript (fun i => (fds i).fd) (history (machine.trace (init fds) is))
      (callLog (machine.trace (init fds) js)) (machine.move (machine.run (init fds) js) i) := by
  have hsettled := settled_run h
  subst his
  rw [machine.trace_append, List.forall_mem_append] at h hsettled
  have hin := inStep_run h.1
  have hlogged := (transcript _ _).logged_run fds hsettled.1 hin.defined
  rw [machine.trace_append]
  exact hin.callTranscript (fun hs => CallInvariant.of_top hlogged hs) i

/-- The last move of a call in which the first rule is cancelled on a hangup and the second is called
back. -/
theorem call_transcript_hangup :
    CallTranscript (fun i => i)
      (history (machine.trace (init fun i => { fd := i }) ([.addRule 0 .in_, .addRule 1 .out,
        .waitNextEvent, .tick, .ret true, .tick, .ret true, .tick,
        .poll ⟨2, 0, fun i => if i = 0 then pollHup else pollOut, .inr (by decide)⟩, .tick,
        .ret true, .tick, .setFd 1 { fd := 1, writeCount := 1 }, .ret true] ++ [.tick])))
      (callLog (machine.trace (init fun i => { fd := i }) [.addRule 0 .in_, .addRule 1 .out,
        .waitNextEvent, .tick, .ret true, .tick, .ret true, .tick,
        .poll ⟨2, 0, fun i => if i = 0 then pollHup else pollOut, .inr (by decide)⟩, .tick,
        .ret true, .tick, .setFd 1 { fd := 1, writeCount := 1 }, .ret true]))
      (machine.move (machine.run (init fun i => { fd := i }) [.addRule 0 .in_, .addRule 1 .out,
        .waitNextEvent, .tick, .ret true, .tick, .ret true, .tick,
        .poll ⟨2, 0, fun i => if i = 0 then pollHup else pollOut, .inr (by decide)⟩, .tick,
        .ret true, .tick, .setFd 1 { fd := 1, writeCount := 1 }, .ret true]) .tick) :=
  call_transcript (fun i => { fd := i }) _ (by decide) _ .tick [] rfl

end Sponge.EventLoop
