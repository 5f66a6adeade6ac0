import Sponge.Util.PollResults

/-!
# What `wait_next_event` answers

Whether the result of a call tells the truth about the call. The calls of a loop may be nested, so
the events of each call under way are logged apart (`logs`), and `Truthful` reads a move against the
log of the call that makes it. Two invariants, one for each pass, are kept by every call, whatever
the functions of the rules do (`CallInvariant`):

* `Asking` — in the first pass, every rule before the iterator has been asked, and has an entry;
* `Telling` — in the second pass, a function has been called since `poll`, or an entry that leads
  to a call is still ahead, if every `poll` was heard (`Heard`).

`Timeout` and `Exit` are truthful in every run. A `poll` that is not heard leads to a success with
nothing behind it (`no_progress`), so that a run is truthful exactly if its polls are heard
(`truthful_iff_heard`).
-/

namespace Sponge.EventLoop

open Lib

/-! ### The events of each call -/

/-- The events of the calls under way, the innermost first, without those of the calls that their
functions made. -/
def logStep (logs : List (List Event)) (m : Move State Input (List Event)) : List (List Event) :=
  if m.before.stack.length < m.after.stack.length then [] :: logs
  else if m.after.stack.length < m.before.stack.length then logs.tail
  else logs.modifyHead (· ++ m.output)

lemma logStep_enter {logs : List (List Event)} {m : Move State Input (List Event)}
    (h : m.before.stack.length < m.after.stack.length) : logStep logs m = [] :: logs := if_pos h

lemma logStep_leave {logs : List (List Event)} {m : Move State Input (List Event)}
    (h : m.after.stack.length < m.before.stack.length) : logStep logs m = logs.tail := by
  rw [logStep, if_neg (Nat.lt_asymm h), if_pos h]

lemma logStep_stay {logs : List (List Event)} {m : Move State Input (List Event)}
    (h : m.after.stack.length = m.before.stack.length) :
    logStep logs m = logs.modifyHead (· ++ m.output) := by
  rw [logStep, h, if_neg (Nat.lt_irrefl _), if_neg (Nat.lt_irrefl _)]

def logs (tr : List (Move State Input (List Event))) : List (List Event) := tr.foldl logStep []

def callLog (tr : List (Move State Input (List Event))) : List Event := (logs tr).headD []

/-- The events of a call since it came back from `poll`. -/
def sincePoll : List Event → List Event
  | [] => []
  | .polled _ :: log => log
  | _ :: log => sincePoll log

lemma logs_append (tr tr' : List (Move State Input (List Event))) :
    logs (tr ++ tr') = tr'.foldl logStep (logs tr) := List.foldl_append

lemma sincePoll_append {log : List Event} {pollfds : List Pollfd} (h : .polled pollfds ∈ log)
    (es : List Event) : sincePoll (log ++ es) = sincePoll log ++ es := by
  induction log with
  | nil => cases h
  | cons e log ih =>
    cases e with
    | polled ps => rfl
    | _ => exact ih (by simpa using h)

lemma sincePoll_append_of_unpolled {log : List Event} (h : ∀ pollfds, .polled pollfds ∉ log)
    (es : List Event) : sincePoll (log ++ es) = sincePoll es := by
  induction log with
  | nil => rfl
  | cons e log ih =>
    have htail : ∀ pollfds, .polled pollfds ∉ log := fun ps hps => h ps (List.mem_cons_of_mem _ hps)
    cases e with
    | polled ps => exact absurd List.mem_cons_self (h ps)
    | _ => exact ih htail

lemma polled_of_mem_sincePoll {log : List Event} {e : Event} (h : e ∈ sincePoll log) :
    ∃ pollfds, .polled pollfds ∈ log := by
  by_contra hnone
  have hall : ∀ pollfds, .polled pollfds ∉ log := fun ps hps => hnone ⟨ps, hps⟩
  have hnil := sincePoll_append_of_unpolled hall []
  rw [List.append_nil] at hnil
  rw [hnil] at h
  cases h

/-! ### The truth about a call -/

/-- After `poll`, the callback of a rule has run or a rule has been cancelled. -/
def Progress (log : List Event) : Prop :=
  ∃ id answer, .returned .callback id answer ∈ sincePoll log ∨
    .returned .cancel id answer ∈ sincePoll log

/-- The move is one in which `poll` answers `a` to the call `fr`. -/
structure Polls (m : Move State Input (List Event)) (fr : Frame) (a : PollAnswer) : Prop where
  defined : m.before.undefined = false
  input : m.input = .poll a
  top : m.before.stack.head? = some fr
  pc : fr.pc = .poll

/-- The move tells the truth about the call that makes it, which has come as far as `log`. -/
structure Truthful (log : List Event) (m : Move State Input (List Event)) : Prop where
  timeout : .result .timeout ∈ m.output → ∃ a, m.input = .poll a ∧ a.returnValue = 0
  exit : .result .exit ∈ m.output →
    ((∀ id ∈ m.before.rules.nodes, .returned .interest id false ∈ log) ∧
      ∀ id, .returned .interest id true ∉ log) ∨
    ∃ a, m.input = .poll a ∧ a.returnValue = -1 ∧ a.errno = eintr
  pollError : ∀ fr a, Polls m fr a → a.returnValue = -1 → a.errno ≠ eintr →
    (∃ e, .thrown e ∈ m.output) ∧ ∀ id, .called .callback id ∉ log ++ m.output
  success : .result .success ∈ m.output → Progress log

def RunTruthful (fds : ℕ → FDWrapper) (is : List Input) : Prop :=
  ∀ js i ks, is = js ++ i :: ks →
    Truthful (callLog (machine.trace (init fds) js)) (machine.move (machine.run (init fds) js) i)

/-! ### Invariants of the calls -/

/-- The list of rules may have become the other one since: rules may be gone, and others added. -/
structure Later (l l' : RuleList) : Prop where
  registered : l.registered ≤ l'.registered
  nodes : ∀ id ∈ l'.nodes, id ∈ l.nodes ∨ l.registered ≤ id

namespace Later

variable (l : RuleList)

lemma refl : Later l l := ⟨Nat.le_refl _, fun _ h => .inl h⟩

lemma pushBack (fd : ℕ) (direction : Direction) : Later l (l.pushBack fd direction) := by
  refine ⟨Nat.le_succ _, fun id hid => ?_⟩
  rw [RuleList.nodes_pushBack, List.mem_append, List.mem_singleton] at hid
  exact hid.imp_right Eq.ge

lemma erase (id : ℕ) : Later l (l.erase id) := by
  refine ⟨Nat.le_refl _, fun x hx => .inl ?_⟩
  rw [RuleList.nodes_erase] at hx
  exact List.mem_of_mem_erase hx

end Later

/-- What a move does to the calls under way: it enters one, leaves the innermost one, or goes on in
the innermost one. -/
lemma Step.stack_cases {s s' : State} {i : Input} {es : List Event} (h : Step s i es s') :
    (s.UserRuns ∧ s' = { s with stack := ⟨[], false, .first s.rules.begin⟩ :: s.stack }) ∨
    (∃ fr, s.stack = fr :: s'.stack ∧ s'.rules = s.rules) ∨
    (s'.stack.length = s.stack.length ∧ s'.stack.tail = s.stack.tail ∧ Later s.rules s'.rules) := by
  cases h with
  | waitNextEvent hs => exact .inl ⟨hs, rfl⟩
  | throw hs hrun e | exit hs hpc hpoll | timeout hs hpc a ha | interrupted hs hpc a ha
  | success hs hpc | pollError hs hpc hp herr | busyWait hs hpc => exact .inr (.inl ⟨_, hs, rfl⟩)
  | idle i | setFd fd w | dangling hs hpc hr i | outOfBounds hs hpc hp =>
    exact .inr (.inr ⟨rfl, rfl, .refl _⟩)
  | addRule hs fd direction => exact .inr (.inr ⟨rfl, rfl, .pushBack _ _ _⟩)
  | firstCancelled hs hpc hr answer | secondCancelled hs hpc hr answer =>
    exact .inr (.inr ⟨by rw [hs]; rfl, by rw [hs]; rfl, .erase _ _⟩)
  | toPoll hs hpc hpoll | callFirstCancel hs hpc hr hover | callFirstInterest hs hpc hr hover
  | entry hs hpc hr answer events hevents | polled hs hpc a ha | callSecondCancel hs hpc hp hr hhup
  | callCallback hs hpc hp hr hready | notReady hs hpc hp hr hready
  | serviced hs hpc hr hcount answer | unserviced hs hpc hr hcount answer
  | uninterested hs hpc hr => exact .inr (.inr ⟨by rw [hs]; rfl, by rw [hs]; rfl, .refl _⟩)

/-- Every call is related to its log by `P`, and in the calls around the innermost one a function is
running. -/
structure Logged (P : RuleList → List Event → Frame → Prop) (logs : List (List Event)) (s : State) :
    Prop where
  calls : List.Forall₂ (P s.rules) logs s.stack
  outer : ∀ fr ∈ s.stack.tail, fr.pc.running.isSome

/-- `P`, of a call and its log, holds when the call is made, is kept by the moves of the call that
satisfy `C`, and while a function is running it does not depend on what becomes of the rules. -/
structure CallInvariant (P : RuleList → List Event → Frame → Prop)
    (C : Move State Input (List Event) → Prop) : Prop where
  enter : ∀ l, P l [] ⟨[], false, .first l.begin⟩
  later : ∀ {l l' log fr}, fr.pc.running.isSome → Later l l' → P l log fr → P l' log fr
  keep : ∀ {s i s' fr fr' rest log es}, C (machine.move s i) → step s i = (es, s') →
    Step s i es s' → s'.undefined = false → s.stack = fr :: rest → s'.stack = fr' :: rest →
    P s.rules log fr → P s'.rules (log ++ es) fr'

lemma defined_of_step {s : State} {i : Input} (h : (step s i).2.undefined = false) :
    s.undefined = false := by
  cases hdef : s.undefined with
  | false => rfl
  | true =>
    rw [step_of_undefined hdef] at h
    exact hdef ▸ h

namespace CallInvariant

variable {P : RuleList → List Event → Frame → Prop} {C : Move State Input (List Event) → Prop}

theorem logged_step (hP : CallInvariant P C) {logs : List (List Event)} {s : State} {i : Input}
    (h : Logged P logs s) (hC : C (machine.move s i)) (hdef : (step s i).2.undefined = false) :
    Logged P (logStep logs (machine.move s i)) (machine.step s i).2 := by
  have hstep := step_cases s i
  obtain ⟨es, s', hm⟩ : ∃ es s', step s i = (es, s') := ⟨_, _, rfl⟩
  have hafter : (machine.move s i).after = s' := congrArg Prod.snd hm
  have houtput : (machine.move s i).output = es := congrArg Prod.fst hm
  rw [hm] at hstep hdef
  rw [show (machine.step s i).2 = s' from hafter]
  rcases hstep.stack_cases with ⟨huser, rfl⟩ | ⟨fr, hs, hrules⟩ | ⟨hlen, htail, hlater⟩
  · rw [logStep_enter (by rw [hafter]; exact Nat.lt_succ_self _)]
    exact ⟨.cons (hP.enter _) h.calls, huser.running h.outer⟩
  · rw [logStep_leave (by rw [hafter, Machine.move_before, hs]; exact Nat.lt_succ_self _)]
    obtain ⟨hcalls, houter⟩ := h
    rw [hs] at hcalls houter
    cases hcalls with
    | cons _ hcalls =>
      exact ⟨hrules ▸ hcalls, fun g hg => houter g (List.mem_of_mem_tail hg)⟩
  · rw [logStep_stay (by rw [hafter]; exact hlen), houtput]
    refine ⟨?_, htail ▸ h.outer⟩
    cases hs : s.stack with
    | nil =>
      have hs' : s'.stack = [] := List.eq_nil_of_length_eq_zero (by rw [hlen, hs]; rfl)
      have hlogs := h.calls
      rw [hs, List.forall₂_nil_right_iff] at hlogs
      rw [hlogs, hs']
      exact .nil
    | cons fr rest =>
      obtain ⟨fr', rest', hs'⟩ : ∃ fr' rest', s'.stack = fr' :: rest' :=
        List.exists_cons_of_length_eq_add_one (by rw [hlen, hs]; rfl)
      obtain rfl : rest' = rest := by rwa [hs, hs'] at htail
      obtain ⟨hcalls, houter⟩ := h
      rw [hs] at hcalls houter
      rw [hs']
      cases hcalls with
      | cons hfr hrest =>
        refine .cons (hP.keep hC hm hstep hdef hs hs' hfr) ?_
        -- a function is running in the calls around, so that the rules do not matter to them
        refine List.forall₂_iff_zip.2 ⟨hrest.length_eq, fun hmem => ?_⟩
        exact hP.later (houter _ (List.of_mem_zip hmem).2) hlater
          ((List.forall₂_iff_zip.1 hrest).2 hmem)

/-- **The calls of a run.** A call invariant holds of every call under way, as long as the moves
satisfy `C`. -/
theorem logged_run (hP : CallInvariant P C) (fds : ℕ → FDWrapper) {is : List Input}
    (h : ∀ m ∈ machine.trace (init fds) is, C m)
    (hdef : (machine.run (init fds) is).undefined = false) :
    Logged P (logs (machine.trace (init fds) is)) (machine.run (init fds) is) := by
  refine machine.history_of (P := C)
    (J := fun tr s => s.undefined = false → Logged P (logs tr) s) ?_ ?_ h hdef
  · exact fun _ => ⟨.nil, fun _ h => absurd h List.not_mem_nil⟩
  · intro tr s i hC ih hdef
    rw [logs_append]
    exact hP.logged_step (ih (defined_of_step hdef)) hC hdef

lemma of_top {tr : List (Move State Input (List Event))} {s : State} {fr : Frame}
    (h : Logged P (logs tr) s) (hs : s.stack.head? = some fr) : P s.rules (callLog tr) fr := by
  obtain ⟨rest, hs⟩ := List.head?_eq_some_iff.1 hs
  have hcalls := h.calls
  unfold callLog
  generalize logs tr = lg at hcalls
  rw [hs] at hcalls
  cases hcalls with
  | cons hfr _ => exact hfr

end CallInvariant

/-- The function that is running is one of the rule at the iterator. -/
lemma Pc.node_of_running {pc : Pc} {f : RuleFn} {id : ℕ} (h : pc.running = some (f, id)) :
    pc.node = some id := by
  cases pc with
  | first it => cases h
  | poll => cases h
  | second it idx => cases h
  | firstCancel id => exact congrArg _ (Prod.ext_iff.1 (Option.some.inj h)).2
  | firstInterest id => exact congrArg _ (Prod.ext_iff.1 (Option.some.inj h)).2
  | secondCancel id idx => exact congrArg _ (Prod.ext_iff.1 (Option.some.inj h)).2
  | secondCallback id idx count => exact congrArg _ (Prod.ext_iff.1 (Option.some.inj h)).2
  | secondInterest id idx => exact congrArg _ (Prod.ext_iff.1 (Option.some.inj h)).2

lemma not_left {s : State} {fr fr' g : Frame} {rest rest' : List Frame} (hs : s.stack = fr :: rest)
    (hs₀ : s.stack = g :: rest') (hs' : rest' = fr' :: rest) : False := by
  obtain ⟨-, rfl⟩ := List.cons.inj (hs.symm.trans hs₀)
  exact List.cons_ne_self _ _ hs'.symm

/-! ### The first pass -/

/-- The rules that a call has made an entry for are those it has asked, it polls if one of them was
interested, and in the first pass, where it has not polled yet, no rule before the iterator is left
out. -/
structure Asking (l : RuleList) (log : List Event) (fr : Frame) : Prop where
  answered : ∀ id ∈ fr.owners, ∃ answer, .returned .interest id answer ∈ log
  something : ∀ id, .returned .interest id true ∈ log → fr.somethingToPoll = true
  unpolled : fr.pc.inSecondPass = false → ∀ pollfds, .polled pollfds ∉ log
  node_lt : fr.pc.inSecondPass = false → ∀ id ∈ fr.pc.node, id < l.registered
  passed : fr.pc.inSecondPass = false → ∀ x ∈ l.nodes, (∀ id ∈ fr.pc.node, x < id) → x ∈ fr.owners

namespace Asking

variable {l l' : RuleList} {log es : List Event} {fr : Frame} {pc : Pc} {id : ℕ}

lemma enter (l : RuleList) : Asking l [] ⟨[], false, .first l.begin⟩ := by
  refine ⟨fun _ h => absurd h List.not_mem_nil, fun _ h => absurd h List.not_mem_nil,
    fun _ _ => List.not_mem_nil, fun _ id hid => ?_, fun _ x hx hlt => ?_⟩
  · exact l.lt_registered id (List.mem_of_mem_head? hid)
  · obtain ⟨n, hn, hle⟩ := head_le l.ordered hx
    exact absurd (hlt n hn) (Nat.not_lt_of_le hle)

/-- A rule registered while a function is running comes after the iterator. -/
lemma later (hrun : fr.pc.running.isSome) (hl : Later l l') (h : Asking l log fr) :
    Asking l' log fr := by
  refine ⟨h.answered, h.something, h.unpolled, fun hpc id hid => ?_, fun hpc x hx hlt => ?_⟩
  · exact Nat.lt_of_lt_of_le (h.node_lt hpc id hid) hl.registered
  · rcases hl.nodes x hx with hx | hx
    · exact h.passed hpc x hx hlt
    · obtain ⟨⟨f, id⟩, hf⟩ := Option.isSome_iff_exists.1 hrun
      have hreg := h.node_lt hpc id (Pc.node_of_running hf)
      have hxid := hlt id (Pc.node_of_running hf)
      omega

lemma second (hsecond : fr.pc.inSecondPass = true) (h : Asking l log fr) : Asking l' log fr := by
  have hne : ¬ fr.pc.inSecondPass = false := by rw [hsecond]; decide
  exact ⟨h.answered, h.something, fun hpc => absurd hpc hne, fun hpc => absurd hpc hne,
    fun hpc => absurd hpc hne⟩

lemma goto (h : Asking l log fr) (hes : ∀ id, .returned .interest id true ∉ es)
    (hpc : pc.inSecondPass = false → fr.pc.inSecondPass = false ∧ pc.node = fr.pc.node ∧
      ∀ pollfds, .polled pollfds ∉ es) : Asking l (log ++ es) { fr with pc } := by
  refine ⟨fun id hid => ?_, fun id hid => ?_, fun hfirst ps hps => ?_, fun hfirst id hid => ?_,
    fun hfirst x hx hlt => ?_⟩
  · obtain ⟨answer, hmem⟩ := h.answered id hid
    exact ⟨answer, List.mem_append_left _ hmem⟩
  · exact h.something id ((List.mem_append.1 hid).resolve_right (hes id))
  · obtain ⟨hfr, -, hno⟩ := hpc hfirst
    exact (List.mem_append.1 hps).elim (h.unpolled hfr ps) (hno ps)
  · obtain ⟨hfr, hnode, -⟩ := hpc hfirst
    exact h.node_lt hfr id (hnode ▸ hid)
  · obtain ⟨hfr, hnode, -⟩ := hpc hfirst
    exact h.passed hfr x hx fun id hid => hlt id (hnode ▸ hid)

lemma erase (h : Asking l log fr) (hpc : fr.pc = .firstCancel id) (hid : id ∈ l.nodes)
    (answer : Bool) : Asking (l.erase id) (log ++ [.returned .cancel id answer])
      { fr with pc := .first (next l.nodes id) } := by
  have hfirst : fr.pc.inSecondPass = false := by rw [hpc]; rfl
  refine ⟨fun x hx => ?_, fun x hx => ?_, fun _ ps hps => ?_, fun _ x hx => ?_, fun _ x hx hlt => ?_⟩
  · obtain ⟨a, ha⟩ := h.answered x hx
    exact ⟨a, List.mem_append_left _ ha⟩
  · exact h.something x (by simpa using hx)
  · exact h.unpolled hfirst ps (by simpa using hps)
  · exact l.lt_registered x (next_mem hx)
  · rw [RuleList.nodes_erase, l.nodup_nodes.mem_erase_iff] at hx
    refine h.passed hfirst x hx.2 fun id' hid' => ?_
    obtain rfl : id = id' := by simpa [hpc, Pc.node] using hid'
    refine Nat.lt_of_le_of_ne (Nat.le_of_not_lt fun hgt => ?_) hx.1
    obtain ⟨n, hn, hle⟩ := next_le l.ordered hid hx.2 hgt
    exact absurd (hlt n hn) (Nat.not_lt_of_le hle)

lemma push (h : Asking l log fr) (hpc : fr.pc = .firstInterest id) (hid : id ∈ l.nodes)
    (answer : Bool) (fd : ℕ) (events : UInt16) :
    Asking l (log ++ [.returned .interest id answer])
      ⟨fr.pollfds ++ [⟨fd, events, 0, id⟩], answer || fr.somethingToPoll,
        .first (next l.nodes id)⟩ := by
  have hfirst : fr.pc.inSecondPass = false := by rw [hpc]; rfl
  have howners : ∀ x, x ∈ (fr.pollfds ++ [(⟨fd, events, 0, id⟩ : Pollfd)]).map Pollfd.owner ↔
      x ∈ fr.owners ∨ x = id := fun x => by simp [Frame.owners]
  refine ⟨fun x hx => ?_, fun x hx => ?_, fun _ ps hps => ?_, fun _ x hx => ?_, fun _ x hx hlt => ?_⟩
  · rcases (howners x).1 hx with hx | rfl
    · obtain ⟨a, ha⟩ := h.answered x hx
      exact ⟨a, List.mem_append_left _ ha⟩
    · exact ⟨answer, List.mem_append_right _ (List.mem_singleton.2 rfl)⟩
  · rcases List.mem_append.1 hx with hx | hx
    · simp [h.something x hx]
    · obtain ⟨rfl, rfl⟩ : x = id ∧ answer = true := by simpa [eq_comm] using hx
      rfl
  · exact h.unpolled hfirst ps (by simpa using hps)
  · exact l.lt_registered x (next_mem hx)
  · refine (howners x).2 ?_
    rcases Nat.lt_trichotomy x id with hlow | rfl | hgt
    · refine .inl (h.passed hfirst x hx fun id' hid' => ?_)
      obtain rfl : id = id' := by simpa [hpc, Pc.node] using hid'
      exact hlow
    · exact .inr rfl
    · obtain ⟨n, hn, hle⟩ := next_le l.ordered hid hx hgt
      exact absurd (hlt n hn) (Nat.not_lt_of_le hle)

lemma polled (h : Asking l log fr) (revents : ℕ → UInt16) (it : Option ℕ) :
    Asking l (log ++ [.polled (setRevents fr.pollfds revents)])
      ⟨setRevents fr.pollfds revents, fr.somethingToPoll, .second it 0⟩ := by
  refine ⟨fun x hx => ?_, fun x hx => ?_, nofun, nofun, nofun⟩
  · obtain ⟨a, ha⟩ := h.answered x (by rwa [← owners_setRevents fr revents])
    exact ⟨a, List.mem_append_left _ ha⟩
  · exact h.something x (by simpa using hx)

lemma all_asked (h : Asking l log fr) (hfirst : fr.pc.inSecondPass = false)
    (hnode : fr.pc.node = none) : ∀ x ∈ l.nodes, x ∈ fr.owners := fun x hx =>
  h.passed hfirst x hx fun id hid => by rw [hnode] at hid; cases hid

end Asking

/-- **Every call asks its rules in turn**, whatever the functions of the rules do. -/
theorem asking : CallInvariant Asking fun _ => True := by
  refine ⟨Asking.enter, Asking.later, fun _ _ hstep hdef hs hs' h => ?_⟩
  cases hstep with
  | idle i | setFd fd w =>
    obtain ⟨rfl, -⟩ := List.cons.inj (hs.symm.trans hs')
    rwa [List.append_nil]
  | addRule huser fd direction =>
    obtain ⟨rfl, -⟩ := List.cons.inj (hs.symm.trans hs')
    have hlater := h.later (huser _ (by rw [hs]; rfl)) (.pushBack _ fd direction)
    exact hlater.goto (by simp) fun hfirst => ⟨hfirst, rfl, by simp⟩
  | dangling hs₀ hpc hr i | outOfBounds hs₀ hpc hp => cases hdef
  | waitNextEvent huser =>
    rw [hs] at hs'
    exact absurd (List.cons.inj hs').2 (List.cons_ne_self _ _)
  | throw hs₀ hrun e | exit hs₀ hpc hpoll | timeout hs₀ hpc a ha | interrupted hs₀ hpc a ha
  | success hs₀ hpc | pollError hs₀ hpc hp herr | busyWait hs₀ hpc =>
    exact (not_left hs hs₀ hs').elim
  | firstCancelled hs₀ hpc hr answer =>
    obtain ⟨rfl, rfl⟩ := List.cons.inj (hs.symm.trans hs₀)
    obtain ⟨rfl, -⟩ := List.cons.inj hs'
    exact h.erase hpc (RuleList.find_mem hr) answer
  | entry hs₀ hpc hr answer events hevents =>
    obtain ⟨rfl, rfl⟩ := List.cons.inj (hs.symm.trans hs₀)
    obtain ⟨rfl, -⟩ := List.cons.inj hs'
    exact h.push hpc (RuleList.find_mem hr) answer _ events
  | polled hs₀ hpc a ha =>
    obtain ⟨rfl, rfl⟩ := List.cons.inj (hs.symm.trans hs₀)
    obtain ⟨rfl, -⟩ := List.cons.inj hs'
    exact h.polled a.revents _
  | secondCancelled hs₀ hpc hr answer =>
    obtain ⟨rfl, rfl⟩ := List.cons.inj (hs.symm.trans hs₀)
    obtain ⟨rfl, -⟩ := List.cons.inj hs'
    exact .second rfl (h.goto (by simp) (by simp [Pc.inSecondPass]))
  | toPoll hs₀ hpc hpoll | callFirstCancel hs₀ hpc hr hover | callFirstInterest hs₀ hpc hr hover
  | callSecondCancel hs₀ hpc hp hr hhup | callCallback hs₀ hpc hp hr hready
  | unserviced hs₀ hpc hr hcount answer | notReady hs₀ hpc hp hr hready
  | serviced hs₀ hpc hr hcount answer | uninterested hs₀ hpc hr =>
    obtain ⟨rfl, rfl⟩ := List.cons.inj (hs.symm.trans hs₀)
    obtain ⟨rfl, -⟩ := List.cons.inj hs'
    exact h.goto (by simp) (by simp [hpc, Pc.inSecondPass, Pc.node])

/-! ### The second pass -/

/-- An entry that the second pass does not pass over in silence: an error, what was asked for, or a
hangup where something was asked for. -/
def Tells (p : Pollfd) : Prop :=
  p.revents &&& (pollErr ||| pollNval) ≠ 0 ∨ p.revents &&& p.events ≠ 0 ∨
    (p.revents &&& pollHup ≠ 0 ∧ p.events ≠ 0)

/-- What `poll` answers is heard: it does not fail with anything but `EINTR`, and with a positive
count an entry before the end of the rules tells something. -/
def Heard (m : Move State Input (List Event)) : Prop :=
  ∀ fr a, Polls m fr a → (a.returnValue = -1 → a.errno = eintr) ∧
    (0 < a.returnValue → ∃ j p, j < m.before.rules.nodes.length ∧
      (setRevents fr.pollfds a.revents)[j]? = some p ∧ Tells p)

/-- From the iterator on, in step with the list as it is, there is an entry that tells something. -/
structure Ahead (l : RuleList) (pollfds : List Pollfd) (it : Option ℕ) (idx : ℕ) : Prop where
  reading : Reading l.nodes l.nodes it idx
  tells : ∃ j p, idx ≤ j ∧ j < l.nodes.length ∧ pollfds[j]? = some p ∧ Tells p

/-- In the second pass there has been progress, or an entry ahead will make it. -/
def Telling (l : RuleList) (log : List Event) (fr : Frame) : Prop :=
  match fr.pc with
  | .second it idx =>
    Progress log ∨ ((∃ pollfds, .polled pollfds ∈ log) ∧ Ahead l fr.pollfds it idx)
  | .secondInterest _ _ => Progress log
  | .secondCancel _ _ | .secondCallback _ _ _ => ∃ pollfds, .polled pollfds ∈ log
  | .first _ | .firstCancel _ | .firstInterest _ | .poll => True

section

variable {s : State} {fr : Frame} {rest : List Frame} {it : Option ℕ} {id idx : ℕ} {p : Pollfd}
  {r : Rule}

lemma step_second (hs : s.stack = fr :: rest) (hpc : fr.pc = .second it idx)
    (hdef : s.undefined = false) : step s .tick = secondPass s fr rest it idx := by
  obtain ⟨pollfds, something, pc⟩ := fr
  obtain rfl : pc = .second it idx := hpc
  unfold step
  rw [hdef, hs]
  rfl

lemma step_poll (hs : s.stack = fr :: rest) (hpc : fr.pc = .poll) (hdef : s.undefined = false)
    (a : PollAnswer) : step s (.poll a) = afterPoll s fr rest a := by
  obtain ⟨pollfds, something, pc⟩ := fr
  obtain rfl : pc = .poll := hpc
  unfold step
  rw [hdef, hs]
  rfl

lemma secondPass_of_tells (hp : fr.pollfds[idx]? = some p) (hr : s.rules.find id = some r)
    (h : Tells p) : (secondPass s fr rest (some id) idx).1 ≠ [] := by
  unfold secondPass
  simp only [hp, hr]
  by_cases herr : p.revents &&& (pollErr ||| pollNval) ≠ 0
  · simp [herr]
  by_cases hready : p.revents &&& p.events ≠ 0
  · simp [herr, hready]
  · have hhup : p.revents &&& pollHup ≠ 0 ∧ p.events ≠ 0 :=
      (h.resolve_left herr).resolve_left hready
    simp [herr, hready, hhup]

lemma secondPass_of_not_tells (hp : fr.pollfds[idx]? = some p) (hr : s.rules.find id = some r)
    (h : ¬ Tells p) : secondPass s fr rest (some id) idx =
      ([], s.goto fr rest (.second (next s.rules.nodes id) (idx + 1))) := by
  obtain ⟨herr, hnot⟩ := not_or.1 h
  obtain ⟨hready, hhup⟩ := not_or.1 hnot
  unfold secondPass
  simp only [hp, hr]
  rw [if_neg herr, if_neg, if_neg]
  · simpa using hready
  · simpa using fun h1 h2 => absurd ⟨h1, h2⟩ hhup

end

lemma not_progress {log : List Event} (h : sincePoll log = []) : ¬ Progress log := by
  rintro ⟨id, answer, hmem⟩
  rw [h] at hmem
  exact hmem.elim List.not_mem_nil List.not_mem_nil

lemma Progress.append {log : List Event} (h : Progress log) (es : List Event) :
    Progress (log ++ es) := by
  obtain ⟨id, answer, hmem | hmem⟩ := h
  · obtain ⟨ps, hps⟩ := polled_of_mem_sincePoll hmem
    exact ⟨id, answer, .inl (by rw [sincePoll_append hps]; exact List.mem_append_left _ hmem)⟩
  · obtain ⟨ps, hps⟩ := polled_of_mem_sincePoll hmem
    exact ⟨id, answer, .inr (by rw [sincePoll_append hps]; exact List.mem_append_left _ hmem)⟩

lemma Progress.polled {log : List Event} (h : Progress log) : ∃ pollfds, .polled pollfds ∈ log := by
  obtain ⟨id, answer, hmem | hmem⟩ := h <;> exact polled_of_mem_sincePoll hmem

lemma Progress.of_returned {log es : List Event} (h : ∃ pollfds, .polled pollfds ∈ log) {id : ℕ}
    {answer : Bool}
    (hes : .returned .callback id answer ∈ es ∨ .returned .cancel id answer ∈ es) :
    Progress (log ++ es) := by
  obtain ⟨ps, hps⟩ := h
  refine ⟨id, answer, ?_⟩
  rw [sincePoll_append hps, List.mem_append, List.mem_append]
  exact hes.imp .inr .inr

namespace Telling

variable {l l' : RuleList} {log : List Event} {fr : Frame}

lemma later (hrun : fr.pc.running.isSome) (h : Telling l log fr) (es : List Event) :
    Telling l' (log ++ es) fr := by
  have hpolled : (∃ pollfds, .polled pollfds ∈ log) → ∃ pollfds, .polled pollfds ∈ log ++ es :=
    fun ⟨ps, hps⟩ => ⟨ps, List.mem_append_left _ hps⟩
  obtain ⟨pollfds, something, pc⟩ := fr
  cases pc with
  | first it => cases hrun
  | poll => cases hrun
  | second it idx => cases hrun
  | firstCancel id => trivial
  | firstInterest id => trivial
  | secondCancel id idx => exact hpolled h
  | secondCallback id idx count => exact hpolled h
  | secondInterest id idx => exact Progress.append h es

lemma polled {it : Option ℕ} {idx : ℕ} (h : Telling l log fr) (hpc : fr.pc = .second it idx) :
    ∃ pollfds, .polled pollfds ∈ log := by
  simp only [Telling, hpc] at h
  exact h.elim Progress.polled And.left

end Telling

/-- **Every call has something to show for its second pass**, if its `poll` was heard. -/
theorem telling : CallInvariant Telling Heard := by
  refine ⟨fun _ => trivial, @fun l l' log fr hrun _ h => ?_,
    fun hheard hm hstep hdef hs hs' h => ?_⟩
  · have hlater : Telling l' (log ++ []) fr := h.later hrun []
    rwa [List.append_nil] at hlater
  have hout := congrArg Prod.fst hm
  cases hstep with
  | idle i | setFd fd w =>
    obtain ⟨rfl, -⟩ := List.cons.inj (hs.symm.trans hs')
    rwa [List.append_nil]
  | addRule huser fd direction =>
    obtain ⟨rfl, -⟩ := List.cons.inj (hs.symm.trans hs')
    exact h.later (huser _ (by rw [hs]; rfl)) _
  | dangling hs₀ hpc hr i | outOfBounds hs₀ hpc hp => cases hdef
  | waitNextEvent huser =>
    rw [hs] at hs'
    exact absurd (List.cons.inj hs').2 (List.cons_ne_self _ _)
  | throw hs₀ hrun e | exit hs₀ hpc hpoll | timeout hs₀ hpc a ha | interrupted hs₀ hpc a ha
  | success hs₀ hpc | pollError hs₀ hpc hp herr | busyWait hs₀ hpc =>
    exact (not_left hs hs₀ hs').elim
  | toPoll hs₀ hpc hpoll | callFirstCancel hs₀ hpc hr hover | callFirstInterest hs₀ hpc hr hover
  | firstCancelled hs₀ hpc hr answer | entry hs₀ hpc hr answer events hevents =>
    obtain ⟨rfl, -⟩ := List.cons.inj hs'
    trivial
  | polled hs₀ hpc a ha =>
    obtain ⟨rfl, rfl⟩ := List.cons.inj (hs.symm.trans hs₀)
    obtain ⟨rfl, -⟩ := List.cons.inj hs'
    obtain ⟨hfail, hcount⟩ := hheard _ a ⟨hdef, rfl, by rw [Machine.move_before, hs]; rfl, hpc⟩
    have hpos : 0 < a.returnValue := ha.resolve_right fun h => h.2 (hfail h.1)
    obtain ⟨j, p, hj, hp, htells⟩ := hcount hpos
    refine .inr ⟨⟨_, List.mem_append_right _ (List.mem_singleton.2 rfl)⟩, Reading.begin _, ?_⟩
    exact ⟨j, p, Nat.zero_le j, hj, hp, htells⟩
  | callSecondCancel hs₀ hpc hp hr hhup | callCallback hs₀ hpc hp hr hready =>
    obtain ⟨rfl, rfl⟩ := List.cons.inj (hs.symm.trans hs₀)
    obtain ⟨rfl, -⟩ := List.cons.inj hs'
    obtain ⟨ps, hps⟩ := h.polled hpc
    exact ⟨ps, List.mem_append_left _ hps⟩
  | notReady hs₀ hpc hp hr hready =>
    obtain ⟨rfl, rfl⟩ := List.cons.inj (hs.symm.trans hs₀)
    obtain ⟨rfl, -⟩ := List.cons.inj hs'
    rw [List.append_nil]
    simp only [Telling, hpc] at h
    rcases h with h | ⟨hps, hread, j, q, hle, hj, hq, htells⟩
    · exact .inl h
    · refine .inr ⟨hps, hread.step (RuleList.nodup_nodes _), j, q, ?_, hj, hq, htells⟩
      -- the entry at the index has told nothing, or the move would not be silent
      refine Nat.lt_of_le_of_ne hle fun heq => ?_
      subst heq
      rw [step_second hs hpc hdef] at hout
      exact secondPass_of_tells hq hr htells hout
  | secondCancelled hs₀ hpc hr answer =>
    obtain ⟨rfl, rfl⟩ := List.cons.inj (hs.symm.trans hs₀)
    obtain ⟨rfl, -⟩ := List.cons.inj hs'
    simp only [Telling, hpc] at h
    exact .inl (.of_returned h (.inr (List.mem_singleton.2 rfl)))
  | serviced hs₀ hpc hr hcount answer =>
    obtain ⟨rfl, rfl⟩ := List.cons.inj (hs.symm.trans hs₀)
    obtain ⟨rfl, -⟩ := List.cons.inj hs'
    simp only [Telling, hpc] at h
    exact .inl (.of_returned h (.inl (List.mem_singleton.2 rfl)))
  | unserviced hs₀ hpc hr hcount answer =>
    obtain ⟨rfl, rfl⟩ := List.cons.inj (hs.symm.trans hs₀)
    obtain ⟨rfl, -⟩ := List.cons.inj hs'
    simp only [Telling, hpc] at h
    exact .of_returned h (.inl List.mem_cons_self)
  | uninterested hs₀ hpc hr =>
    obtain ⟨rfl, rfl⟩ := List.cons.inj (hs.symm.trans hs₀)
    obtain ⟨rfl, -⟩ := List.cons.inj hs'
    simp only [Telling, hpc] at h
    exact .inl (h.append _)

/-! ### Polls that are not heard -/

def Input.isTick : Input → Bool
  | .tick => true
  | _ => false

/-- The innermost call is in its second pass, and from the index on its entries tell nothing. -/
structure Hushed (s : State) (fr : Frame) (rest : List Frame) (it : Option ℕ) (idx : ℕ) : Prop where
  defined : s.undefined = false
  stack : s.stack = fr :: rest
  pc : fr.pc = .second it idx
  reading : Reading s.rules.nodes s.rules.nodes it idx
  idx_le : idx ≤ s.rules.nodes.length
  entries : s.rules.nodes.length ≤ fr.pollfds.length
  silent : ∀ j p, idx ≤ j → j < s.rules.nodes.length → fr.pollfds[j]? = some p → ¬ Tells p

lemma logStep_silent {lg : List (List Event)} {m : Move State Input (List Event)}
    (hlen : m.after.stack.length = m.before.stack.length) (hout : m.output = []) :
    logStep lg m = lg := by
  rw [logStep_stay hlen, hout]
  cases lg with
  | nil => rfl
  | cons log lg => rw [List.modifyHead_cons, List.append_nil]

namespace Hushed

variable {s : State} {fr : Frame} {rest : List Frame} {it : Option ℕ} {id idx : ℕ}

lemma tick (h : Hushed s fr rest (some id) idx) :
    step s .tick = ([], s.goto fr rest (.second (next s.rules.nodes id) (idx + 1))) := by
  obtain ⟨hlt, -⟩ := List.getElem?_eq_some_iff.1 h.reading.getElem
  have hlt' : idx < fr.pollfds.length := Nat.lt_of_lt_of_le hlt h.entries
  have hp : fr.pollfds[idx]? = some fr.pollfds[idx] := List.getElem?_eq_getElem hlt'
  rw [step_second h.stack h.pc h.defined]
  cases hr : s.rules.find id with
  | none => exact absurd h.reading.mem ((RuleList.find_eq_none_iff _ _).1 hr)
  | some r => exact secondPass_of_not_tells hp hr (h.silent idx _ (Nat.le_refl _) hlt hp)

lemma after_tick (h : Hushed s fr rest (some id) idx) :
    Hushed (s.goto fr rest (.second (next s.rules.nodes id) (idx + 1)))
      { fr with pc := .second (next s.rules.nodes id) (idx + 1) } rest (next s.rules.nodes id)
      (idx + 1) := by
  obtain ⟨hlt, -⟩ := List.getElem?_eq_some_iff.1 h.reading.getElem
  refine ⟨h.defined, rfl, rfl, h.reading.step s.rules.nodup_nodes, hlt, h.entries, ?_⟩
  exact fun j p hj => h.silent j p (Nat.le_of_succ_le hj)

lemma idle (h : Hushed s fr rest it idx) {i : Input} (hi : i.isTick = false) :
    step s i = ([], s) := by
  have hpc := h.pc
  have hstack := h.stack
  obtain ⟨pollfds, something, pc⟩ := fr
  obtain rfl : pc = .second it idx := hpc
  unfold step
  rw [h.defined, hstack]
  cases i with
  | tick => cases hi
  | _ => rfl

/-- The call goes on in silence, with enough ticks to the end of the rules, and returns. -/
lemma success (h : Hushed s fr rest it idx) (lg : List (List Event)) {is : List Input}
    (hticks : s.rules.nodes.length < idx + is.countP Input.isTick) :
    ∃ js ks, is = js ++ .tick :: ks ∧ .result .success ∈ (step (machine.run s js) .tick).1 ∧
      (machine.trace s js).foldl logStep lg = lg := by
  induction is generalizing s fr it idx with
  | nil => exact absurd hticks (Nat.not_lt_of_le h.idx_le)
  | cons i is ih =>
    cases hi : i.isTick with
    | false =>
      rw [List.countP_cons_of_neg (by simp [hi])] at hticks
      obtain ⟨js, ks, rfl, hsuccess, hlogs⟩ := ih h hticks
      have hidle := h.idle hi
      refine ⟨i :: js, ks, rfl, ?_, ?_⟩
      · rwa [machine.run_cons, machine_step, hidle]
      · rw [machine.trace_cons, List.foldl_cons, machine_step, hidle, logStep_silent]
        · exact hlogs
        · rw [Machine.move_after, machine_step, hidle]; rfl
        · rw [Machine.move_output, machine_step, hidle]
    | true =>
      obtain rfl : i = .tick := by
        cases i with
        | tick => rfl
        | _ => cases hi
      cases it with
      | none =>
        refine ⟨[], is, rfl, ?_, rfl⟩
        rw [machine.run_nil, step_second h.stack h.pc h.defined]
        exact List.mem_cons_self
      | some id =>
        rw [List.countP_cons_of_pos (by simp [hi])] at hticks
        have htick := h.tick
        obtain ⟨js, ks, rfl, hsuccess, hlogs⟩ := ih h.after_tick
          (show s.rules.nodes.length < _ by omega)
        refine ⟨.tick :: js, ks, rfl, ?_, ?_⟩
        · rwa [machine.run_cons, machine_step, htick]
        · rw [machine.trace_cons, List.foldl_cons, machine_step, htick, logStep_silent]
          · exact hlogs
          · rw [Machine.move_after, machine_step, htick, Machine.move_before, h.stack]; rfl
          · rw [Machine.move_output, machine_step, htick]

end Hushed

lemma afterPoll_go (s : State) (fr : Frame) (rest : List Frame) {a : PollAnswer}
    (ha : 0 < a.returnValue ∨ (a.returnValue = -1 ∧ a.errno ≠ eintr)) :
    afterPoll s fr rest a = ([.polled (setRevents fr.pollfds a.revents)],
      s.goto { fr with pollfds := setRevents fr.pollfds a.revents } rest
        (.second s.rules.begin 0)) := by
  unfold afterPoll
  rcases systemCall_poll a with ⟨hfail, hcall⟩ | ⟨hcount, hcall⟩
  · obtain ⟨-, hne⟩ := ha.resolve_left (by omega)
    rw [hcall]
    exact if_neg hne
  · rw [hcall]
    exact if_neg (by omega)

/-- At `poll` every rule has an entry, so that the walk over the rules does not get beyond the
entries. -/
lemma Asking.length_le {l : RuleList} {log : List Event} {fr : Frame} (h : Asking l log fr)
    (hpc : fr.pc = .poll) : l.nodes.length ≤ fr.pollfds.length := by
  have hsub : l.nodes ⊆ fr.owners := h.all_asked (by rw [hpc]; rfl) (by rw [hpc]; rfl)
  have hle := (List.subperm_of_subset l.nodup_nodes hsub).length_le
  rwa [Frame.owners, List.length_map] at hle

/-- With a positive count and no entry that tells anything, the call returns with a success after
some ticks, and nothing has happened since `poll`. -/
lemma no_progress {s : State} {lg : List (List Event)} {fr : Frame} {rest : List Frame}
    {a : PollAnswer} (h : Logged Asking lg s) (hdef : s.undefined = false)
    (hs : s.stack = fr :: rest) (hpc : fr.pc = .poll) (hpos : 0 < a.returnValue)
    (hnone : ∀ j p, j < s.rules.nodes.length → (setRevents fr.pollfds a.revents)[j]? = some p →
      ¬ Tells p) {is : List Input} (hticks : s.rules.nodes.length < is.countP Input.isTick) :
    ∃ js ks, is = js ++ .tick :: ks ∧
      .result .success ∈ (step (machine.run s (.poll a :: js)) .tick).1 ∧
      ¬ Progress (((machine.trace s (.poll a :: js)).foldl logStep lg).headD []) := by
  have hcalls := h.calls
  rw [hs] at hcalls
  cases hcalls with
  | @cons log _ lg _ hask _ =>
    have hpoll := (step_poll hs hpc hdef a).trans (afterPoll_go s fr rest (.inl hpos))
    have hhushed : Hushed (step s (.poll a)).2
        ⟨setRevents fr.pollfds a.revents, fr.somethingToPoll, .second s.rules.begin 0⟩ rest
        s.rules.begin 0 := by
      rw [hpoll]
      refine ⟨hdef, rfl, rfl, Reading.begin _, Nat.zero_le _, ?_, fun j p _ => hnone j p⟩
      rw [setRevents, List.length_mapIdx]
      exact hask.length_le hpc
    have hstep : logStep (log :: lg) (machine.move s (.poll a)) =
        (log ++ [.polled (setRevents fr.pollfds a.revents)]) :: lg := by
      rw [logStep_stay, Machine.move_output, machine_step, hpoll, List.modifyHead_cons]
      rw [Machine.move_after, machine_step, hpoll, Machine.move_before, hs]
      rfl
    have hlt : (step s (.poll a)).2.rules.nodes.length < 0 + is.countP Input.isTick := by
      rw [hpoll, Nat.zero_add]
      exact hticks
    obtain ⟨js, ks, his, hsuccess, hlogs⟩ := hhushed.success
      (logStep (log :: lg) (machine.move s (.poll a))) hlt
    refine ⟨js, ks, his, hsuccess, not_progress ?_⟩
    rw [machine.trace_cons, List.foldl_cons, machine_step, hlogs, hstep, List.headD_cons]
    exact sincePoll_append_of_unpolled (hask.unpolled (by rw [hpc]; rfl)) _

/-! ### The result -/

lemma Step.result_cases {s s' : State} {i : Input} {es : List Event} {r : Result}
    (h : Step s i es s') (hr : .result r ∈ es) :
    (r = .timeout ∧ ∃ a, i = .poll a ∧ a.returnValue = 0) ∨
    (r = .exit ∧ ∃ a, i = .poll a ∧ a.returnValue = -1 ∧ a.errno = eintr) ∨
    (r = .exit ∧ ∃ fr, s.stack.head? = some fr ∧ fr.pc = .first none ∧
      fr.somethingToPoll = false) ∨
    (r = .success ∧ ∃ fr idx, s.stack.head? = some fr ∧ fr.pc = .second none idx) := by
  cases h
  case timeout hs hpc a ha =>
    exact .inl ⟨by simpa using hr, a, rfl, ha⟩
  case interrupted hs hpc a ha =>
    exact .inr (.inl ⟨by simpa using hr, a, rfl, ha⟩)
  case exit hs hpc hpoll =>
    exact .inr (.inr (.inl ⟨by simpa using hr, _, by rw [hs]; rfl, hpc, hpoll⟩))
  case success hs hpc =>
    exact .inr (.inr (.inr ⟨by simpa using hr, _, _, by rw [hs]; rfl, hpc⟩))
  all_goals exact absurd hr (by simp)

lemma defined_of_output {s : State} {i : Input} {e : Event} (h : e ∈ (step s i).1) :
    s.undefined = false := by
  cases hdef : s.undefined with
  | false => rfl
  | true =>
    rw [step_of_undefined hdef] at h
    cases h

/-- Whatever `poll` answers, `Exit` tells the truth. -/
lemma exit_truthful (fds : ℕ → FDWrapper) (js : List Input) (i : Input)
    (h : .result .exit ∈ (step (machine.run (init fds) js) i).1) :
    ((∀ id ∈ (machine.run (init fds) js).rules.nodes,
      .returned .interest id false ∈ callLog (machine.trace (init fds) js)) ∧
      ∀ id, .returned .interest id true ∉ callLog (machine.trace (init fds) js)) ∨
    ∃ a, i = .poll a ∧ a.returnValue = -1 ∧ a.errno = eintr := by
  rcases (step_cases _ i).result_cases h with ⟨hr, -⟩ | ⟨-, ha⟩ | ⟨-, fr, hs, hpc, hpoll⟩ | ⟨hr, -⟩
  · cases hr
  · exact .inr ha
  · have hlogged := asking.logged_run fds (fun m _ => trivial) (defined_of_output h)
    have hask := CallInvariant.of_top hlogged hs
    have hno : ∀ id, .returned .interest id true ∉ callLog (machine.trace (init fds) js) := by
      intro id hid
      have hsome := hask.something id hid
      rw [hpoll] at hsome
      cases hsome
    refine .inl ⟨fun id hid => ?_, hno⟩
    obtain ⟨answer, hmem⟩ := hask.answered id
      (hask.all_asked (by rw [hpc]; rfl) (by rw [hpc]; rfl) id hid)
    cases answer with
    | false => exact hmem
    | true => exact absurd hmem (hno id)
  · cases hr

lemma truthful_of_heard {fds : ℕ → FDWrapper} {is : List Input}
    (h : ∀ m ∈ machine.trace (init fds) is, Heard m) : RunTruthful fds is := by
  rintro js i ks rfl
  rw [machine.trace_append, List.forall_mem_append, machine.trace_cons, List.forall_mem_cons] at h
  obtain ⟨hjs, hi, -⟩ := h
  refine ⟨fun ht => ?_, exit_truthful fds js i, fun fr a hp hfail hne => ?_, fun hsucc => ?_⟩
  · rcases (step_cases _ i).result_cases ht with ⟨-, ha⟩ | ⟨hr, -⟩ | ⟨hr, -⟩ | ⟨hr, -⟩
    · exact ha
    all_goals cases hr
  · exact absurd ((hi fr a hp).1 hfail) hne
  · rcases (step_cases _ i).result_cases hsucc with ⟨hr, -⟩ | ⟨hr, -⟩ | ⟨hr, -⟩ |
      ⟨-, fr, idx, hs, hpc⟩
    · cases hr
    · cases hr
    · cases hr
    · have htell := CallInvariant.of_top (telling.logged_run fds hjs (defined_of_output hsucc)) hs
      simp only [Telling, hpc] at htell
      rcases htell with hprogress | ⟨-, hread, j, p, hle, hlt, -⟩
      · exact hprogress
      · have hend := hread.le_of_end
        omega

/-- **When the results tell the truth.** The moves of a run, and those of the loop after it, tell the
truth about their calls exactly if every poll of the run is heard: `poll` does not fail with anything
but `EINTR`, and with a positive count an entry before the end of the rules is in error, ready, or
hung up where something was asked for. -/
theorem truthful_iff_heard (fds : ℕ → FDWrapper) (is : List Input) :
    (∀ n, RunTruthful fds (is ++ List.replicate n .tick)) ↔
      ∀ m ∈ machine.trace (init fds) is, Heard m := by
  constructor
  · intro h m hm
    obtain ⟨js, i, ks, rfl, rfl⟩ := machine.mem_trace.1 hm
    intro fr a hp
    obtain rfl : i = .poll a := hp.input
    obtain ⟨rest, hs⟩ : ∃ rest, (machine.run (init fds) js).stack = fr :: rest :=
      List.head?_eq_some_iff.1 hp.top
    have hdef : (machine.run (init fds) js).undefined = false := hp.defined
    constructor
    · -- a failure is dropped, where the call should throw
      intro hfail
      by_contra hne
      obtain ⟨⟨e, he⟩, -⟩ := (h 0 js (.poll a) ks (by simp)).pollError fr a hp hfail hne
      rw [Machine.move_output, machine_step] at he
      rw [step_poll hs hp.pc hdef, afterPoll_go _ fr rest (.inr ⟨hfail, hne⟩)] at he
      simp at he
    · -- the second pass finds nothing to do
      intro hpos
      by_contra hnone
      have hlogged : Logged Asking (logs (machine.trace (init fds) js))
          (machine.run (init fds) js) := asking.logged_run fds (fun _ _ => trivial) hdef
      have hticks : (machine.run (init fds) js).rules.nodes.length <
          (ks ++ List.replicate ((machine.run (init fds) js).rules.nodes.length + 1)
            Input.tick).countP Input.isTick := by
        rw [List.countP_append, List.countP_replicate, if_pos (by rfl)]
        omega
      obtain ⟨js', ks', heq, hsuccess, hno⟩ := no_progress hlogged hdef hs hp.pc hpos
        (fun j p hj hget htells => hnone ⟨j, p, hj, hget, htells⟩) hticks
      have htruth := h _ (js ++ .poll a :: js') .tick ks' (by
        rw [List.append_assoc, List.append_assoc, List.cons_append, List.cons_append, heq])
      refine hno ?_
      rw [machine.run_append] at htruth
      have hprogress := htruth.success hsuccess
      rwa [callLog, machine.trace_append, logs_append] at hprogress
  · intro h n
    refine truthful_of_heard ?_
    rw [machine.trace_append, List.forall_mem_append]
    refine ⟨h, fun m hm fr a hp => ?_⟩
    have hinput : m.input ∈ List.replicate n .tick := by
      rw [← machine.map_input_trace (machine.run (init fds) is) (List.replicate n .tick)]
      exact List.mem_map_of_mem hm
    have hpoll := hp.input
    rw [List.eq_of_mem_replicate hinput] at hpoll
    cases hpoll

/-- `poll` fails with `ENOMEM`, and the call returns with a success in which nothing has happened; and
so it does when the only news is the hangup of a descriptor that nobody is interested in. -/
theorem not_truthful :
    ¬ RunTruthful (fun i => { fd := i }) [.addRule 0 .in_, .waitNextEvent, .tick, .ret true, .tick,
      .poll ⟨-1, 12, fun _ => 0, .inl (by decide)⟩, .tick, .tick] ∧
    ¬ RunTruthful (fun i => { fd := i }) [.addRule 0 .in_, .addRule 1 .in_, .waitNextEvent, .tick,
      .ret true, .tick, .ret false, .tick,
      .poll ⟨1, 0, fun i => if i = 1 then pollHup else 0, .inr (by decide)⟩, .tick, .tick,
      .tick] := by
  constructor
  · intro h
    have htruth := h [.addRule 0 .in_, .waitNextEvent, .tick, .ret true, .tick,
      .poll ⟨-1, 12, fun _ => 0, .inl (by decide)⟩, .tick] .tick [] rfl
    exact not_progress (by decide) (htruth.success (by decide))
  · intro h
    have htruth := h [.addRule 0 .in_, .addRule 1 .in_, .waitNextEvent, .tick,
      .ret true, .tick, .ret false, .tick,
      .poll ⟨1, 0, fun i => if i = 1 then pollHup else 0, .inr (by decide)⟩, .tick, .tick]
      .tick [] rfl
    exact not_progress (by decide) (htruth.success (by decide))

end Sponge.EventLoop
