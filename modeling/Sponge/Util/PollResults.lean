import Sponge.Util.EventLoop

/-!
# Calls in step with the list

The second pass of `wait_next_event` walks the list of rules and, with an index of its own, the
entries that the first pass made. As long as no rule is registered while a call is in its second
pass, and no call that a function of a rule makes erases a rule that a call around it still waits for
(`Undisturbed`), every call under way is in step with the list (`InStep`): a rule is judged by its
own entry. A rule registered during a first pass is one the pass comes to.
-/

namespace Sponge.EventLoop

open Lib

def Frame.owners (fr : Frame) : List ℕ := fr.pollfds.map Pollfd.owner

def Pc.inSecondPass : Pc → Bool
  | .second _ _ | .secondCancel _ _ | .secondCallback _ _ _ | .secondInterest _ _ => true
  | .first _ | .firstCancel _ | .firstInterest _ | .poll => false

/-- The rules that a call will look at again: those with an entry it has not used up, and the one it
is at. -/
def Frame.awaited (fr : Frame) : List ℕ :=
  match fr.pc with
  | .first it => it.toList ++ fr.owners
  | .firstCancel id | .firstInterest id => id :: fr.owners
  | .poll => fr.owners
  | .second _ idx | .secondCancel _ idx | .secondCallback _ idx _ | .secondInterest _ idx =>
    fr.owners.drop idx

/-- The rule whose `cancel` is running in the innermost call. -/
def State.cancelling (s : State) : Option ℕ :=
  match s.stack with
  | [] => none
  | fr :: _ =>
    match fr.pc with
    | .firstCancel id | .secondCancel id _ => some id
    | _ => none

/-- The input does not come between the calls under way and their entries: it registers no rule
during a second pass, and erases no rule that a call around the innermost one awaits. -/
def Undisturbed (s : State) : Input → Prop
  | .addRule _ _ => ∀ fr ∈ s.stack, fr.pc.inSecondPass = false
  | .ret _ => ∀ id ∈ s.cancelling, ∀ fr ∈ s.stack.tail, id ∉ fr.awaited
  | .waitNextEvent | .setFd _ _ | .throw _ | .poll _ | .tick => True

instance (s : State) (i : Input) : Decidable (Undisturbed s i) :=
  match i with
  | .addRule _ _ => inferInstanceAs (Decidable (∀ fr ∈ s.stack, fr.pc.inSecondPass = false))
  | .ret _ =>
    inferInstanceAs (Decidable (∀ id ∈ s.cancelling, ∀ fr ∈ s.stack.tail, id ∉ fr.awaited))
  | .waitNextEvent | .setFd _ _ | .throw _ | .poll _ | .tick => inferInstanceAs (Decidable True)

/-- If a rule is about to be judged, there is an entry at the index, made for that rule. -/
def ReadsOwnEntry (s : State) : Prop :=
  ∀ fr rest id idx, s.stack = fr :: rest → fr.pc = .second (some id) idx →
    ∃ h : idx < fr.pollfds.length, fr.pollfds[idx].owner = id

/-! ### Calls in step with the list -/

/-- The entries of a call agree with the nodes of the list: while it makes them, with those it has
passed; while it uses them, from the index on, with those from the iterator on. -/
def Frame.InStep (nodes : List ℕ) (fr : Frame) : Prop :=
  match fr.pc with
  | .first it => Filling nodes fr.owners it
  | .firstCancel id | .firstInterest id => Filling nodes fr.owners (some id)
  | .poll => nodes = fr.owners
  | .second it idx => Reading nodes fr.owners it idx
  | .secondCancel id idx | .secondCallback id idx _ | .secondInterest id idx =>
    Reading nodes fr.owners (some id) idx

/-- **The invariant**: nothing undefined has happened, every call is in step with the list, and in
the calls around the innermost one a function is running. -/
structure InStep (s : State) : Prop where
  defined : s.undefined = false
  calls : ∀ fr ∈ s.stack, fr.InStep s.rules.nodes
  outer : ∀ fr ∈ s.stack.tail, fr.pc.running.isSome

lemma owners_setRevents (fr : Frame) (revents : ℕ → UInt16) :
    (setRevents fr.pollfds revents).map Pollfd.owner = fr.owners := by
  refine List.ext_getElem? fun i => ?_
  unfold setRevents Frame.owners
  rw [List.getElem?_map, List.getElem?_map, List.getElem?_mapIdx, Option.map_map]
  rfl

/-- A rule registered outside of the second pass is one the call will come to. -/
lemma Frame.InStep.append {nodes : List ℕ} {fr : Frame} (h : fr.InStep nodes)
    (hrun : fr.pc.running.isSome) (hfirst : fr.pc.inSecondPass = false) (id : ℕ) :
    fr.InStep (nodes ++ [id]) := by
  obtain ⟨pollfds, something, pc⟩ := fr
  cases pc with
  | first it => cases hrun
  | poll => cases hrun
  | firstCancel it => exact Filling.append h id
  | firstInterest it => exact Filling.append h id
  | second it idx => cases hfirst
  | secondCancel it idx => cases hfirst
  | secondCallback it idx count => cases hfirst
  | secondInterest it idx => cases hfirst

/-- A rule that a call does not await may be erased. -/
lemma Frame.InStep.erase_other {nodes : List ℕ} {fr : Frame} {id : ℕ} (h : fr.InStep nodes)
    (hrun : fr.pc.running.isSome) (hid : id ∉ fr.awaited) : fr.InStep (nodes.erase id) := by
  obtain ⟨pollfds, something, pc⟩ := fr
  cases pc with
  | first it => cases hrun
  | poll => cases hrun
  | second it idx => cases hrun
  | firstCancel it =>
    obtain ⟨hne, hmem⟩ := not_or.1 (mt List.mem_cons.2 hid)
    exact Filling.erase_other h hmem hne
  | firstInterest it =>
    obtain ⟨hne, hmem⟩ := not_or.1 (mt List.mem_cons.2 hid)
    exact Filling.erase_other h hmem hne
  | secondCancel it idx => exact Reading.erase_other h hid
  | secondCallback it idx count => exact Reading.erase_other h hid
  | secondInterest it idx => exact Reading.erase_other h hid

lemma Frame.InStep.node_mem {nodes : List ℕ} {fr : Frame} {id : ℕ} (h : fr.InStep nodes)
    (hid : fr.pc.node = some id) : id ∈ nodes := by
  obtain ⟨pollfds, something, pc⟩ := fr
  cases pc with
  | poll => cases hid
  | first it =>
    obtain rfl : it = some id := hid
    exact Filling.mem h
  | firstCancel it =>
    obtain rfl := Option.some.inj hid
    exact Filling.mem h
  | firstInterest it =>
    obtain rfl := Option.some.inj hid
    exact Filling.mem h
  | second it idx =>
    obtain rfl : it = some id := hid
    exact Reading.mem h
  | secondCancel it idx =>
    obtain rfl := Option.some.inj hid
    exact Reading.mem h
  | secondCallback it idx count =>
    obtain rfl := Option.some.inj hid
    exact Reading.mem h
  | secondInterest it idx =>
    obtain rfl := Option.some.inj hid
    exact Reading.mem h

/-- While the user's code runs, a function is running in every call, if one is in the calls around
the innermost one. -/
lemma State.UserRuns.running {s : State} (hs : s.UserRuns)
    (houter : ∀ fr ∈ s.stack.tail, fr.pc.running.isSome) :
    ∀ fr ∈ s.stack, fr.pc.running.isSome := by
  intro fr hfr
  cases hstack : s.stack with
  | nil =>
    rw [hstack] at hfr
    cases hfr
  | cons top rest =>
    rw [hstack] at hfr houter
    rcases List.mem_cons.1 hfr with rfl | hfr
    · exact hs fr (by rw [hstack]; rfl)
    · exact houter fr hfr

namespace InStep

variable {s : State} {fr fr' : Frame} {rest : List Frame}

lemma leave (h : InStep s) (hs : s.stack = fr :: rest) : InStep (s.leave rest) := by
  refine ⟨h.defined, fun g hg => h.calls g ?_, fun g hg => h.outer g ?_⟩
  · rw [hs]
    exact List.mem_cons_of_mem _ hg
  · rw [hs]
    exact List.mem_of_mem_tail hg

lemma goto (h : InStep s) (hs : s.stack = fr :: rest) {pc : Pc}
    (hfr : Frame.InStep s.rules.nodes { fr' with pc }) : InStep (s.goto fr' rest pc) := by
  refine ⟨h.defined, List.forall_mem_cons.2 ⟨hfr, fun g hg => h.calls g ?_⟩, fun g hg => h.outer g ?_⟩
  · rw [hs]
    exact List.mem_cons_of_mem _ hg
  · rw [hs]
    exact hg

/-- The innermost call erases a rule that the calls around it do not await, and goes on. -/
lemma erase (h : InStep s) (hs : s.stack = fr :: rest) {pc : Pc} {id : ℕ}
    (hrest : ∀ g ∈ s.stack.tail, id ∉ g.awaited)
    (hfr : Frame.InStep (s.rules.nodes.erase id) { fr with pc }) :
    InStep { s.goto fr rest pc with rules := s.rules.erase id } := by
  have htail : s.stack.tail = rest := by rw [hs, List.tail_cons]
  refine ⟨h.defined, ?_, fun g hg => h.outer g (htail ▸ hg)⟩
  simp only [RuleList.nodes_erase]
  refine List.forall_mem_cons.2 ⟨hfr, fun g hg => ?_⟩
  have hg' : g ∈ s.stack.tail := htail ▸ hg
  exact (h.calls g (List.mem_of_mem_tail hg')).erase_other (h.outer g hg') (hrest g hg')

lemma top (h : InStep s) (hs : s.stack = fr :: rest) {pc : Pc} (hpc : fr.pc = pc) :
    Frame.InStep s.rules.nodes { fr with pc } := by
  subst hpc
  exact h.calls fr (by rw [hs]; exact List.mem_cons_self)

/-- **Every undisturbed move keeps all calls in step.** -/
theorem step {i : Input} {evs : List Event} {s' : State} (h : InStep s) (hi : Undisturbed s i)
    (hstep : Step s i evs s') : InStep s' := by
  have hn := s.rules.nodup_nodes
  cases hstep with
  | idle i => exact h
  | addRule hs fd direction =>
    refine ⟨h.defined, fun fr hfr => ?_, h.outer⟩
    rw [RuleList.nodes_pushBack]
    exact (h.calls fr hfr).append (hs.running h.outer fr hfr) (hi fr hfr) _
  | waitNextEvent hs =>
    exact ⟨h.defined, List.forall_mem_cons.2 ⟨Filling.begin _, h.calls⟩, hs.running h.outer⟩
  | setFd fd w => exact ⟨h.defined, h.calls, h.outer⟩
  | throw hs hrun e | exit hs hpc hpoll | timeout hs hpc a ha | interrupted hs hpc a ha
  | success hs hpc | pollError hs hpc hp herr | busyWait hs hpc => exact h.leave hs
  | toPoll hs hpc hpoll => exact h.goto hs (Filling.eq_of_end (h.top hs hpc))
  | callFirstCancel hs hpc hr hover | callFirstInterest hs hpc hr hover
  | callSecondCancel hs hpc hp hr hhup | callCallback hs hpc hp hr hready
  | unserviced hs hpc hr hcount answer => exact h.goto hs (h.top hs hpc :)
  | firstCancelled hs hpc hr answer =>
    exact h.erase hs (hi _ (by simp [State.cancelling, hs, hpc]))
      (Filling.erase (h.top hs hpc) hn)
  | entry hs hpc hr answer events hevents =>
    have htop := Filling.push (h.top hs hpc) hn
    refine h.goto hs ?_
    show Filling _ (List.map _ (_ ++ [_])) _
    rw [List.map_append]
    exact htop
  | polled hs hpc a ha =>
    have hnodes : s.rules.nodes = _ := h.top hs hpc
    refine h.goto hs ?_
    show Reading _ (List.map _ (setRevents _ _)) _ _
    rw [owners_setRevents, RuleList.begin, hnodes]
    exact Reading.begin _
  | notReady hs hpc hp hr hready | serviced hs hpc hr hcount answer | uninterested hs hpc hr =>
    exact h.goto hs (Reading.step (h.top hs hpc) hn)
  | secondCancelled hs hpc hr answer =>
    exact h.erase hs (hi _ (by simp [State.cancelling, hs, hpc]))
      (Reading.erase (h.top hs hpc) hn)
  | dangling hs hpc hr i =>
    exact absurd ((h.top hs rfl).node_mem hpc) ((RuleList.find_eq_none_iff _ _).1 hr)
  | outOfBounds hs hpc hp =>
    have hread := Reading.getElem (h.top hs hpc)
    rw [Frame.owners, List.getElem?_map, hp] at hread
    cases hread

end InStep

lemma inStep_init (fds : ℕ → FDWrapper) : InStep (init fds) :=
  ⟨rfl, fun _ h => absurd h List.not_mem_nil, fun _ h => absurd h List.not_mem_nil⟩

lemma InStep.readsOwnEntry {s : State} (h : InStep s) : ReadsOwnEntry s := by
  intro fr rest id idx hs hpc
  have hread := Reading.getElem (h.top hs hpc)
  obtain ⟨hlt, hid⟩ := List.getElem?_eq_some_iff.1 hread
  refine ⟨by simpa [Frame.owners] using hlt, ?_⟩
  simpa [Frame.owners] using hid

lemma inStep_run {fds : ℕ → FDWrapper} {is : List Input}
    (h : ∀ m ∈ machine.trace (init fds) is, Undisturbed m.before m.input) :
    InStep (machine.run (init fds) is) :=
  machine.invariant_of (P := fun m => Undisturbed m.before m.input) (inStep_init fds)
    (fun t i hi ht => ht.step hi (step_cases t i)) h

end Sponge.EventLoop
