import Sponge.Util.PollOutcome

/-!
# Which entries the second pass reads

The second pass of `wait_next_event` walks the list of rules and, with an index of its own, the
entries that the first pass made. `InTurn` says that it judges every rule by the rule's own entry,
and that a rule which was registered after the beginning of a call is none that the call comes to.

* `Spared` — what the functions of the rules have to leave of the list when they return;
* `Aligned` — the invariant of the calls in such a run;
* `Pc.Strays` — a call that is bound to go wrong, unless an exception ends it;
* `reads_own_entry` — a run is in turn if its returns are spared, and not otherwise.
-/

namespace Sponge.EventLoop

open Lib

/-- How many rules had been registered when each of the calls under way began, the innermost
first. -/
def begunStep (begun : List ℕ) (m : Move State Input (List Event)) : List ℕ :=
  if m.before.stack.length < m.after.stack.length then m.before.rules.registered :: begun
  else if m.after.stack.length < m.before.stack.length then begun.tail
  else begun

def begun (tr : List (Move State Input (List Event))) : List ℕ := tr.foldl begunStep []

/-- Nothing undefined has happened, a rule that is about to be judged by the second pass has an entry
of its own at the index, and the rule that a call has come to, in either pass, was registered before
the call. -/
structure InTurn (begun : List ℕ) (s : State) : Prop where
  defined : s.undefined = false
  own : ReadsOwnEntry s
  waits : List.Forall₂ (fun fr n => ∀ id ∈ fr.pc.node, id < n) s.stack begun

def InTurnAfter (fds : ℕ → FDWrapper) (is : List Input) : Prop :=
  InTurn (begun (machine.trace (init fds) is)) (machine.run (init fds) is)

/-- The call is over when `poll` answers so. -/
def Ends (a : PollAnswer) : Prop := a.returnValue = 0 ∨ (a.returnValue = -1 ∧ a.errno = eintr)

instance (a : PollAnswer) : Decidable (Ends a) := inferInstanceAs (Decidable (_ ∨ _))

/-- What a function may leave of the list when it returns to a call that began after `n`
registrations: its rule `id`, and in the first pass no rule registered since, in the second pass,
from `id` on, the first of the rules whose entries are not used up. -/
def Pc.Spared (nodes owners : List ℕ) (n : ℕ) : Pc → Prop
  | .firstCancel id | .firstInterest id => id ∈ nodes ∧ ∀ x ∈ nodes, x < n
  | .secondCancel id idx | .secondCallback id idx _ | .secondInterest id idx =>
    id ∈ nodes ∧ nodes.dropWhile (· ≠ id) <+: owners.drop idx
  | .first _ | .poll | .second _ _ => True

instance (nodes owners : List ℕ) (n : ℕ) (pc : Pc) : Decidable (pc.Spared nodes owners n) :=
  match pc with
  | .firstCancel _ | .firstInterest _ => inferInstanceAs (Decidable (_ ∧ ∀ x ∈ nodes, x < n))
  | .secondCancel _ _ | .secondCallback _ _ _ | .secondInterest _ _ =>
    inferInstanceAs (Decidable (_ ∧ _ <+: _))
  | .first _ | .poll | .second _ _ => inferInstanceAs (Decidable True)

/-- The functions of the rules leave the list in order for the call they return to; and the list that
`poll` comes back to, if not to the end of the call, has the first of the rules with an entry. -/
def Spared (begun : List ℕ) (s : State) : Input → Prop
  | .ret _ => ∀ fr ∈ s.stack.head?, ∀ n ∈ begun.head?, fr.pc.Spared s.rules.nodes fr.owners n
  | .poll a => ¬ Ends a → ∀ fr ∈ s.stack.head?, fr.pc = .poll → s.rules.nodes <+: fr.owners
  | .addRule _ _ | .waitNextEvent | .setFd _ _ | .throw _ | .tick => True

instance (begun : List ℕ) (s : State) (i : Input) : Decidable (Spared begun s i) :=
  match i with
  | .ret _ => inferInstanceAs (Decidable (∀ fr ∈ s.stack.head?, ∀ n ∈ begun.head?, _))
  | .poll _ => inferInstanceAs (Decidable (_ → ∀ fr ∈ s.stack.head?, fr.pc = .poll → _ <+: _))
  | .addRule _ _ | .waitNextEvent | .setFd _ _ | .throw _ | .tick => inferInstanceAs (Decidable True)

def RunSpared (fds : ℕ → FDWrapper) (is : List Input) : Prop :=
  ∀ k (hk : k < is.length), Spared (begun (machine.trace (init fds) (is.take k)))
    (machine.run (init fds) (is.take k)) is[k]

instance (fds : ℕ → FDWrapper) (is : List Input) : Decidable (RunSpared fds is) :=
  inferInstanceAs (Decidable (∀ k (_ : k < is.length), _))

lemma owners_getElem {s : State} {fr : Frame} {rest : List Frame} {id idx : ℕ} (h : ReadsOwnEntry s)
    (hs : s.stack = fr :: rest) (hpc : fr.pc = .second (some id) idx) :
    fr.owners[idx]? = some id := by
  obtain ⟨hlt, hid⟩ := h fr rest id idx hs hpc
  rw [Frame.owners, List.getElem?_map, List.getElem?_eq_getElem hlt, Option.map_some, hid]

lemma InTurn.node_lt {begun : List ℕ} {s : State} (h : InTurn begun s) (fr : Frame)
    (rest : List Frame) (n : ℕ) (ns : List ℕ) (hs : s.stack = fr :: rest) (hbegun : begun = n :: ns) :
    ∀ id ∈ fr.pc.node, id < n := by
  have hwaits := h.waits
  rw [hs, hbegun] at hwaits
  exact (List.forall₂_cons.1 hwaits).1

/-! ### Calls in a spared run -/

lemma begunStep_enter {begun : List ℕ} {m : Move State Input (List Event)}
    (h : m.before.stack.length < m.after.stack.length) :
    begunStep begun m = m.before.rules.registered :: begun := if_pos h

lemma begunStep_leave {begun : List ℕ} {m : Move State Input (List Event)}
    (h : m.after.stack.length < m.before.stack.length) : begunStep begun m = begun.tail := by
  rw [begunStep, if_neg (Nat.lt_asymm h), if_pos h]

lemma begunStep_stay {begun : List ℕ} {m : Move State Input (List Event)}
    (h : m.after.stack.length = m.before.stack.length) : begunStep begun m = begun := by
  rw [begunStep, h, if_neg (Nat.lt_irrefl _), if_neg (Nat.lt_irrefl _)]

lemma begun_append (tr tr' : List (Move State Input (List Event))) :
    begun (tr ++ tr') = tr'.foldl begunStep (begun tr) := List.foldl_append

/-- Where a call is: the list matters to it while it walks, and its entries while it waits for a
function of its second pass. -/
def Pc.Place (nodes owners : List ℕ) : Pc → Prop
  | .first it => ∀ id ∈ it, id ∈ nodes
  | .second it idx => ∃ rest, Onwards nodes it rest ∧ rest <+: owners.drop idx
  | .secondCancel id idx | .secondCallback id idx _ | .secondInterest id idx =>
    owners[idx]? = some id
  | .firstCancel _ | .firstInterest _ | .poll => True

lemma Pc.Place.mem {nodes owners : List ℕ} {pc : Pc} {id : ℕ} (h : pc.Place nodes owners)
    (hrun : ¬ pc.running.isSome) (hid : pc.node = some id) : id ∈ nodes := by
  cases pc with
  | first it => exact h id hid
  | second it idx =>
    obtain ⟨rest, hon, -⟩ := h
    obtain rfl : it = some id := hid
    exact hon.mem
  | poll => cases hid
  | _ => exact absurd rfl hrun

lemma Pc.Spared.mem {nodes owners : List ℕ} {n : ℕ} {pc : Pc} {id : ℕ}
    (h : pc.Spared nodes owners n) (hplace : pc.Place nodes owners) (hid : pc.node = some id) :
    id ∈ nodes := by
  by_cases hrun : pc.running.isSome
  · cases pc with
    | first it | poll | second it idx => cases hrun
    | _ =>
      obtain rfl := Option.some.inj hid
      exact h.1
  · exact hplace.mem hrun hid

/-- A call that began after `n` registrations has come to earlier rules only. -/
structure Frame.Aligned (nodes : List ℕ) (fr : Frame) (n : ℕ) : Prop where
  owners_lt : ∀ id ∈ fr.owners, id < n
  node_lt : ∀ id ∈ fr.pc.node, id < n
  place : fr.pc.Place nodes fr.owners

/-- **The invariant** of spared runs. -/
structure Aligned (begun : List ℕ) (s : State) : Prop where
  defined : s.undefined = false
  calls : List.Forall₂ (Frame.Aligned s.rules.nodes) s.stack begun
  outer : ∀ fr ∈ s.stack.tail, fr.pc.running.isSome
  le_registered : ∀ n ∈ begun, n ≤ s.rules.registered

namespace Frame.Aligned

variable {nodes nodes' : List ℕ} {fr : Frame} {n : ℕ}

lemma second (h : fr.Aligned nodes n) {it : Option ℕ} {idx : ℕ} {rest : List ℕ}
    (hon : Onwards nodes' it rest) (hrest : rest <+: fr.owners.drop idx) :
    Frame.Aligned nodes' { fr with pc := .second it idx } n := by
  refine ⟨h.owners_lt, fun id hid => ?_, rest, hon, hrest⟩
  obtain rfl : it = some id := hid
  exact h.owners_lt id (List.mem_of_getElem? (hon.getElem hrest))

/-- What a function of the second pass has left is what the walk goes on to. -/
lemma onwards {id idx : ℕ} (hid : fr.owners[idx]? = some id)
    (hspared : id ∈ nodes ∧ nodes.dropWhile (· ≠ id) <+: fr.owners.drop idx) :
    ∃ rest, Onwards nodes (some id) (id :: rest) ∧ rest <+: fr.owners.drop (idx + 1) := by
  obtain ⟨hmem, hahead⟩ := hspared
  have hon := Onwards.of_mem hmem
  obtain ⟨past, rest, -, hdrop⟩ := hon.split
  rw [hdrop] at hon hahead
  exact ⟨rest, hon, (prefix_drop_cons hid).1 hahead⟩

lemma later (h : fr.Aligned nodes n) (hrun : fr.pc.running.isSome) : fr.Aligned nodes' n := by
  refine ⟨h.owners_lt, h.node_lt, ?_⟩
  have hplace := h.place
  revert hplace hrun
  cases fr.pc with
  | first it | second it idx => exact fun hrun => by cases hrun
  | _ => exact fun _ hplace => hplace

/-- **A spared move** of the innermost call. -/
theorem step {s s' : State} {i : Input} {es : List Event} {fr' : Frame} {rest : List Frame}
    {ns : List ℕ} (h : fr.Aligned s.rules.nodes n) (hi : Spared (n :: ns) s i)
    (hdef : s'.undefined = false) (hs : s.stack = fr :: rest) (hs' : s'.stack = fr' :: rest)
    (hstep : Step s i es s') : fr'.Aligned s'.rules.nodes n := by
  have hn := s.rules.nodup_nodes
  have hret : ∀ answer, i = .ret answer → fr.pc.Spared s.rules.nodes fr.owners n := by
    rintro answer rfl
    exact hi fr (by rw [hs]; rfl) n rfl
  have hplace := h.place
  have hnode := h.node_lt
  cases hstep with
  | idle i | setFd fd w =>
    obtain ⟨rfl, -⟩ := List.cons.inj (hs.symm.trans hs')
    exact h
  | addRule huser fd direction =>
    obtain ⟨rfl, -⟩ := List.cons.inj (hs.symm.trans hs')
    exact h.later (huser _ (by rw [hs]; rfl))
  | waitNextEvent huser =>
    rw [hs] at hs'
    exact absurd (List.cons.inj hs').2 (List.cons_ne_self _ _)
  | throw hs₀ hrun e | exit hs₀ hpc hpoll | timeout hs₀ hpc a ha | interrupted hs₀ hpc a ha
  | success hs₀ hpc | pollError hs₀ hpc hp herr | busyWait hs₀ hpc =>
    exact (not_left hs hs₀ hs').elim
  | dangling hs₀ hpc hr i | outOfBounds hs₀ hpc hp => cases hdef
  | toPoll hs₀ hpc hpoll =>
    obtain ⟨rfl, rfl⟩ := List.cons.inj (hs.symm.trans hs₀)
    obtain ⟨rfl, -⟩ := List.cons.inj hs'
    exact ⟨h.owners_lt, fun id hid => (by cases hid), trivial⟩
  | callFirstCancel hs₀ hpc hr hover | callFirstInterest hs₀ hpc hr hover =>
    obtain ⟨rfl, rfl⟩ := List.cons.inj (hs.symm.trans hs₀)
    obtain ⟨rfl, -⟩ := List.cons.inj hs'
    rw [hpc] at hnode
    exact ⟨h.owners_lt, hnode, trivial⟩
  | firstCancelled hs₀ hpc hr answer =>
    obtain ⟨rfl, rfl⟩ := List.cons.inj (hs.symm.trans hs₀)
    obtain ⟨rfl, -⟩ := List.cons.inj hs'
    have hspared := hret answer rfl
    rw [hpc] at hspared
    obtain ⟨hmem, hlt⟩ := hspared
    refine ⟨h.owners_lt, fun x hx => hlt x (next_mem hx), fun x hx => ?_⟩
    obtain ⟨past, t, -, hdrop⟩ := (Onwards.of_mem hmem).split
    have hon := (hdrop ▸ Onwards.of_mem hmem).erase hn
    rw [RuleList.nodes_erase]
    rw [Option.mem_def.1 hx] at hon
    exact hon.mem
  | entry hs₀ hpc hr answer events hevents =>
    obtain ⟨rfl, rfl⟩ := List.cons.inj (hs.symm.trans hs₀)
    obtain ⟨rfl, -⟩ := List.cons.inj hs'
    have hspared := hret answer rfl
    rw [hpc] at hspared hnode
    refine ⟨?_, fun x hx => hspared.2 x (next_mem hx), fun x hx => next_mem hx⟩
    simp only [Frame.owners, List.map_append, List.forall_mem_append]
    exact ⟨h.owners_lt, List.forall_mem_singleton.2 (hnode _ rfl)⟩
  | polled hs₀ hpc a ha =>
    obtain ⟨rfl, rfl⟩ := List.cons.inj (hs.symm.trans hs₀)
    obtain ⟨rfl, -⟩ := List.cons.inj hs'
    have hends : ¬ Ends a := by
      rintro (h0 | ⟨h1, hintr⟩)
      · rcases ha with hpos | ⟨hneg, -⟩ <;> omega
      · rcases ha with hpos | ⟨-, hne⟩
        · omega
        · exact hne hintr
    have hahead := hi hends _ (by rw [hs]; rfl) hpc
    have howners := owners_setRevents fr a.revents
    have hset : Frame.Aligned s.rules.nodes
        ⟨setRevents fr.pollfds a.revents, fr.somethingToPoll, .poll⟩ n :=
      ⟨fun id hid => h.owners_lt id (howners ▸ hid), fun id hid => (by cases hid), trivial⟩
    refine hset.second (Onwards.begin _) ?_
    show _ <+: ((setRevents fr.pollfds a.revents).map Pollfd.owner).drop 0
    rw [howners, List.drop_zero]
    exact hahead
  | callSecondCancel hs₀ hpc hp hr hhup | callCallback hs₀ hpc hp hr hready =>
    obtain ⟨rfl, rfl⟩ := List.cons.inj (hs.symm.trans hs₀)
    obtain ⟨rfl, -⟩ := List.cons.inj hs'
    rw [hpc] at hplace hnode
    obtain ⟨ahead, hon, hahead⟩ := hplace
    exact ⟨h.owners_lt, hnode, hon.getElem hahead⟩
  | notReady hs₀ hpc hp hr hready =>
    obtain ⟨rfl, rfl⟩ := List.cons.inj (hs.symm.trans hs₀)
    obtain ⟨rfl, -⟩ := List.cons.inj hs'
    rw [hpc] at hplace
    obtain ⟨ahead, hon, hahead⟩ := hplace
    obtain ⟨past, t, -, rfl⟩ := hon.split
    exact h.second (hon.step hn) ((prefix_drop_cons (hon.getElem hahead)).1 hahead)
  | secondCancelled hs₀ hpc hr answer =>
    obtain ⟨rfl, rfl⟩ := List.cons.inj (hs.symm.trans hs₀)
    obtain ⟨rfl, -⟩ := List.cons.inj hs'
    have hspared := hret answer rfl
    rw [hpc] at hplace hspared
    obtain ⟨t, hon, hahead⟩ := onwards hplace hspared
    refine h.second ?_ hahead
    rw [RuleList.nodes_erase]
    exact hon.erase hn
  | serviced hs₀ hpc hr hcount answer | uninterested hs₀ hpc hr =>
    obtain ⟨rfl, rfl⟩ := List.cons.inj (hs.symm.trans hs₀)
    obtain ⟨rfl, -⟩ := List.cons.inj hs'
    have hspared := hret _ rfl
    rw [hpc] at hplace hspared
    obtain ⟨t, hon, hahead⟩ := onwards hplace hspared
    exact h.second (hon.step hn) hahead
  | unserviced hs₀ hpc hr hcount answer =>
    obtain ⟨rfl, rfl⟩ := List.cons.inj (hs.symm.trans hs₀)
    obtain ⟨rfl, -⟩ := List.cons.inj hs'
    rw [hpc] at hplace hnode
    exact ⟨h.owners_lt, hnode, hplace⟩

end Frame.Aligned

lemma aligned_init (fds : ℕ → FDWrapper) : Aligned [] (init fds) :=
  ⟨rfl, .nil, fun _ h => absurd h List.not_mem_nil, fun _ h => absurd h List.not_mem_nil⟩

/-- Nothing becomes undefined while a function of a rule is running. -/
lemma defined_of_running {s : State} {fr : Frame} {rest : List Frame} {i : Input}
    (hdef : s.undefined = false) (hs : s.stack = fr :: rest) (hrun : fr.pc.running.isSome)
    (hi : ∀ answer, i ≠ .ret answer) : (step s i).2.undefined = false := by
  obtain ⟨f, hf⟩ := Option.isSome_iff_exists.1 hrun
  unfold step
  rw [hdef, hs]
  simp only [hf]
  cases i with
  | ret answer => exact absurd rfl (hi answer)
  | _ => exact hdef

namespace Aligned

variable {ns : List ℕ} {s : State}

lemma top (h : Aligned ns s) {fr : Frame} {rest : List Frame} (hs : s.stack = fr :: rest) :
    ∃ n ns', ns = n :: ns' ∧ fr.Aligned s.rules.nodes n ∧
      List.Forall₂ (Frame.Aligned s.rules.nodes) rest ns' := by
  have hcalls := h.calls
  rw [hs] at hcalls
  cases hcalls with
  | cons hfr hrest => exact ⟨_, _, rfl, hfr, hrest⟩

lemma inTurn (h : Aligned ns s) : InTurn ns s := by
  refine ⟨h.defined, fun fr rest id idx hs hpc => ?_, h.calls.imp fun _ _ hfr => hfr.node_lt⟩
  obtain ⟨n, ns', -, hfr, -⟩ := h.top hs
  have hplace := hfr.place
  rw [hpc] at hplace
  obtain ⟨ahead, hon, hahead⟩ := hplace
  obtain ⟨hlt, hid⟩ := List.getElem?_eq_some_iff.1 (hon.getElem hahead)
  refine ⟨by simpa [Frame.owners] using hlt, ?_⟩
  simpa [Frame.owners] using hid

/-- **Nothing becomes undefined** by a spared move. -/
lemma defined_step (h : Aligned ns s) {i : Input} (hi : Spared ns s i) :
    (EventLoop.step s i).2.undefined = false := by
  have hstep := step_cases s i
  obtain ⟨es, s', hm⟩ : ∃ es s', EventLoop.step s i = (es, s') := ⟨_, _, rfl⟩
  rw [hm] at hstep ⊢
  cases hstep with
  | @dangling fr rest id hs hpc hr i =>
    obtain ⟨n, ns', rfl, hfr, -⟩ := h.top hs
    have hnot := (RuleList.find_eq_none_iff _ _).1 hr
    have hplace := hfr.place
    by_cases hret : ∃ answer, i = .ret answer
    · obtain ⟨answer, rfl⟩ := hret
      have hspared : fr.pc.Spared s.rules.nodes fr.owners n := hi fr (by rw [hs]; rfl) n rfl
      exact absurd (hspared.mem hplace hpc) hnot
    · by_cases hrun : fr.pc.running.isSome
      · have hdef := defined_of_running h.defined hs hrun fun answer heq => hret ⟨answer, heq⟩
        rwa [hm] at hdef
      · exact absurd (hplace.mem hrun hpc) hnot
  | @outOfBounds fr rest id idx hs hpc hp =>
    obtain ⟨hlt, -⟩ := h.inTurn.own _ _ _ _ hs hpc
    rw [List.getElem?_eq_getElem hlt] at hp
    cases hp
  | _ => exact h.defined

/-- **One spared move** keeps the invariant. -/
theorem step (h : Aligned ns s) {i : Input} (hi : Spared ns s i) :
    Aligned (begunStep ns (machine.move s i)) (machine.step s i).2 := by
  have hdef := h.defined_step hi
  have hstep := step_cases s i
  obtain ⟨es, s', hm⟩ : ∃ es s', EventLoop.step s i = (es, s') := ⟨_, _, rfl⟩
  have hafter : (machine.move s i).after = s' := congrArg Prod.snd hm
  rw [hm] at hstep hdef
  rw [show (machine.step s i).2 = s' from hafter]
  obtain ⟨-, hcalls, houter, hle⟩ := id h
  rcases hstep.stack_cases with ⟨huser, rfl⟩ | ⟨fr, hs, hrules⟩ | ⟨hlen, htail, hlater⟩
  · rw [begunStep_enter (by rw [hafter]; exact Nat.lt_succ_self _)]
    refine ⟨hdef, .cons ⟨fun _ hid => (by cases hid), fun x hx => ?_, fun x hx => ?_⟩ hcalls,
      huser.running houter, List.forall_mem_cons.2 ⟨Nat.le_refl _, hle⟩⟩
    · exact s.rules.lt_registered x (List.mem_of_mem_head? hx)
    · exact List.mem_of_mem_head? hx
  · rw [begunStep_leave (by rw [hafter, Machine.move_before, hs]; exact Nat.lt_succ_self _)]
    rw [hs] at hcalls houter
    cases hcalls with
    | cons _ hcalls =>
      refine ⟨hdef, hrules ▸ hcalls, fun g hg => houter g (List.mem_of_mem_tail hg), ?_⟩
      rw [hrules]
      exact fun n hn => hle n (List.mem_cons_of_mem _ hn)
  · rw [begunStep_stay (by rw [hafter]; exact hlen)]
    refine ⟨hdef, ?_, htail ▸ houter, fun n hn => (hle n hn).trans hlater.registered⟩
    cases hs : s.stack with
    | nil =>
      have hs' : s'.stack = [] := List.eq_nil_of_length_eq_zero (by rw [hlen, hs]; rfl)
      rw [hs, List.forall₂_nil_left_iff] at hcalls
      rw [hcalls, hs']
      exact .nil
    | cons fr rest =>
      obtain ⟨fr', rest', hs'⟩ : ∃ fr' rest', s'.stack = fr' :: rest' :=
        List.exists_cons_of_length_eq_add_one (by rw [hlen, hs]; rfl)
      obtain rfl : rest' = rest := by rwa [hs, hs'] at htail
      obtain ⟨n, ns', rfl, hfr, hrest⟩ := h.top hs
      rw [hs] at houter
      rw [hs']
      refine .cons (hfr.step hi hdef hs hs' hstep) ?_
      -- a function is running in the calls around, so that the list does not matter to them
      refine List.forall₂_iff_zip.2 ⟨hrest.length_eq, fun hmem => ?_⟩
      exact ((List.forall₂_iff_zip.1 hrest).2 hmem).later (houter _ (List.of_mem_zip hmem).1)

end Aligned

lemma aligned_run {fds : ℕ → FDWrapper} {is : List Input} (h : RunSpared fds is) :
    Aligned (begun (machine.trace (init fds) is)) (machine.run (init fds) is) := by
  refine machine.history_along (P := fun tr m => Spared (begun tr) m.before m.input)
    (J := fun tr s => Aligned (begun tr) s) (aligned_init fds) (fun tr s i hi ht => ?_) ?_
  · rw [begun_append]
    exact ht.step hi
  · rintro js i ks rfl
    have hk := h js.length (by rw [List.length_append]; exact Nat.lt_add_of_pos_right (Nat.succ_pos _))
    rw [List.take_left, List.getElem_append_right (Nat.le_refl _)] at hk
    simp only [Nat.sub_self, List.getElem_cons_zero] at hk
    exact hk

lemma RunSpared.front {fds : ℕ → FDWrapper} {js ks : List Input} (h : RunSpared fds (js ++ ks)) :
    RunSpared fds js := by
  intro k hk
  have := h k (hk.trans_le (by rw [List.length_append]; exact Nat.le_add_right ..))
  rwa [List.take_append_of_le_length (Nat.le_of_lt hk), List.getElem_append_left hk] at this

/-! ### What cannot go well -/

/-- Before the walk is a rule registered during the call, or what is before it are not the first of
the rules whose entries are not used up. A function that is running may also have lost its rule. -/
def Pc.Strays (nodes owners : List ℕ) (n : ℕ) : Pc → Prop
  | .first it => ∃ rest, Onwards nodes it rest ∧ ∃ x ∈ rest, n ≤ x
  | .firstCancel id | .firstInterest id =>
    id ∉ nodes ∨ ∃ rest, Onwards nodes (some id) rest ∧ ∃ x ∈ rest, n ≤ x
  | .second it idx => ∃ rest, Onwards nodes it rest ∧ ¬ rest <+: owners.drop idx
  | .secondCancel id idx | .secondCallback id idx _ | .secondInterest id idx =>
    owners[idx]? = some id ∧
      (id ∉ nodes ∨ ∃ rest, Onwards nodes (some id) rest ∧ ¬ rest <+: owners.drop idx)
  | .poll => False

lemma Onwards.exists_le {nodes : List ℕ} {id x n : ℕ} (hsorted : nodes.Pairwise (· < ·))
    (hid : id ∈ nodes) (hlt : id < n) (hx : x ∈ nodes) (hnx : n ≤ x) :
    ∃ rest, Onwards nodes (some id) rest ∧ ∃ x ∈ rest, n ≤ x := by
  have hon := Onwards.of_mem hid
  obtain ⟨past, t, hnodes, hdrop⟩ := hon.split
  refine ⟨_, hon, x, ?_, hnx⟩
  rw [hdrop]
  rw [hnodes] at hx hsorted
  refine (List.mem_append.1 hx).resolve_left fun hpast => ?_
  have hbefore := (List.pairwise_append.1 hsorted).2.2 x hpast id List.mem_cons_self
  omega

/-- A function that returns without leaving the list in order. -/
lemma Frame.Aligned.strays {l : RuleList} {fr : Frame} {n : ℕ} (h : fr.Aligned l.nodes n)
    (hnot : ¬ fr.pc.Spared l.nodes fr.owners n) : fr.pc.Strays l.nodes fr.owners n := by
  have hplace := h.place
  have hnode := h.node_lt
  revert hplace hnode hnot
  cases fr.pc with
  | first it | poll | second it idx => exact fun hnot => absurd trivial hnot
  | firstCancel id | firstInterest id =>
    intro hnot _ hnode
    by_cases hid : id ∈ l.nodes
    · obtain ⟨x, hx, hnx⟩ : ∃ x ∈ l.nodes, n ≤ x := by
        by_contra hall
        exact hnot ⟨hid, fun x hx => Nat.lt_of_not_le fun hle => hall ⟨x, hx, hle⟩⟩
      exact .inr (Onwards.exists_le l.ordered hid (hnode id rfl) hx hnx)
    · exact .inl hid
  | secondCancel id idx | secondCallback id idx count | secondInterest id idx =>
    intro hnot hplace _
    refine ⟨hplace, ?_⟩
    by_cases hid : id ∈ l.nodes
    · exact .inr ⟨_, Onwards.of_mem hid, fun hahead => hnot ⟨hid, hahead⟩⟩
    · exact .inl hid

section Strays

variable {ns : List ℕ} {s s' : State} {fr : Frame} {rest : List Frame} {n : ℕ}

/-- The walk goes on in the first pass, to the new rule in the end. -/
lemma Pc.Strays.first {nodes nodes' : List ℕ} {id : ℕ} {it : Option ℕ} (owners : List ℕ)
    (hid : id < n)
    (h : id ∉ nodes ∨ ∃ rest, Onwards nodes (some id) rest ∧ ∃ x ∈ rest, n ≤ x) (hmem : id ∈ nodes)
    (hnext : ∀ t, Onwards nodes (some id) (id :: t) → Onwards nodes' it t) :
    (Pc.first it).Strays nodes' owners n := by
  obtain ⟨ahead, hon, x, hx, hnx⟩ := h.resolve_left fun hnot => hnot hmem
  obtain ⟨past, t, -, rfl⟩ := hon.split
  refine ⟨t, hnext t hon, x, (List.mem_cons.1 hx).resolve_left ?_, hnx⟩
  omega

lemma Pc.Strays.second {nodes nodes' owners : List ℕ} {id idx : ℕ} {it : Option ℕ}
    (howner : owners[idx]? = some id)
    (h : id ∉ nodes ∨ ∃ rest, Onwards nodes (some id) rest ∧ ¬ rest <+: owners.drop idx)
    (hmem : id ∈ nodes) (hnext : ∀ t, Onwards nodes (some id) (id :: t) → Onwards nodes' it t) :
    (Pc.second it (idx + 1)).Strays nodes' owners n := by
  obtain ⟨ahead, hon, hahead⟩ := h.resolve_left fun hnot => hnot hmem
  obtain ⟨past, t, -, rfl⟩ := hon.split
  exact ⟨t, hnext t hon, fun ht => hahead ((prefix_drop_cons howner).2 ht)⟩

lemma Pc.Strays.append {l : RuleList} {owners : List ℕ} {pc : Pc} (h : pc.Strays l.nodes owners n)
    (hrun : pc.running.isSome) (hnode : ∀ id ∈ pc.node, id < n) (hle : n ≤ l.registered) :
    pc.Strays (l.nodes ++ [l.registered]) owners n := by
  have hnot : ∀ id ∈ pc.node, id ∉ l.nodes → id ∉ l.nodes ++ [l.registered] := by
    intro id hid hnot hmem
    rcases List.mem_append.1 hmem with hmem | hmem
    · exact hnot hmem
    · have hlt := hnode id hid
      rw [List.mem_singleton.1 hmem] at hlt
      omega
  cases pc with
  | first it | poll | second it idx => cases hrun
  | firstCancel id | firstInterest id =>
    refine h.imp (hnot id rfl) ?_
    rintro ⟨ahead, hon, x, hx, hnx⟩
    exact ⟨_, hon.append _, x, List.mem_append_left _ hx, hnx⟩
  | secondCancel id idx | secondCallback id idx count | secondInterest id idx =>
    refine ⟨h.1, h.2.imp (hnot id rfl) ?_⟩
    rintro ⟨ahead, hon, hahead⟩
    exact ⟨_, hon.append _, fun hle => hahead ((List.prefix_append _ _).trans hle)⟩

/-- **A call that strays** goes on straying, has to do what is undefined, or is left without a
result. -/
theorem strays_step {i : Input} {es : List Event} (h : fr.pc.Strays s.rules.nodes fr.owners n)
    (hturn : InTurn (n :: ns) s) (hle : n ≤ s.rules.registered) (hs : s.stack = fr :: rest)
    (hi : i ≠ .waitNextEvent) (hstep : Step s i es s') :
    (∀ r, .result r ∉ es) ∧ (s'.undefined = true ∨ s'.stack = rest ∨
      ∃ fr', s'.stack = fr' :: rest ∧ fr'.pc.Strays s'.rules.nodes fr'.owners n) := by
  have hn := s.rules.nodup_nodes
  have hnode := hturn.node_lt fr rest n ns hs rfl
  have hown := hturn.own
  cases hstep with
  | idle i | setFd fd w => exact ⟨by simp, .inr (.inr ⟨fr, hs, h⟩)⟩
  | addRule huser fd direction =>
    refine ⟨by simp, .inr (.inr ⟨fr, hs, ?_⟩)⟩
    rw [RuleList.nodes_pushBack]
    exact h.append (huser fr (by rw [hs]; rfl)) hnode hle
  | waitNextEvent huser => exact absurd rfl hi
  | dangling hs₀ hpc hr i | outOfBounds hs₀ hpc hp => exact ⟨by simp, .inl rfl⟩
  | throw hs₀ hrun e | pollError hs₀ hpc hp herr | busyWait hs₀ hpc =>
    obtain ⟨rfl, rfl⟩ := List.cons.inj (hs.symm.trans hs₀)
    exact ⟨by simp, .inr (.inl rfl)⟩
  | exit hs₀ hpc hpoll | toPoll hs₀ hpc hpoll =>
    obtain ⟨rfl, rfl⟩ := List.cons.inj (hs.symm.trans hs₀)
    rw [hpc] at h
    obtain ⟨ahead, hon, x, hx, -⟩ := h
    rw [hon.eq_nil] at hx
    cases hx
  | timeout hs₀ hpc a ha | interrupted hs₀ hpc a ha | polled hs₀ hpc a ha =>
    obtain ⟨rfl, rfl⟩ := List.cons.inj (hs.symm.trans hs₀)
    rw [hpc] at h
    exact h.elim
  | success hs₀ hpc =>
    obtain ⟨rfl, rfl⟩ := List.cons.inj (hs.symm.trans hs₀)
    rw [hpc] at h
    obtain ⟨ahead, hon, hahead⟩ := h
    rw [hon.eq_nil] at hahead
    exact absurd List.nil_prefix hahead
  | callFirstCancel hs₀ hpc hr hover | callFirstInterest hs₀ hpc hr hover =>
    obtain ⟨rfl, rfl⟩ := List.cons.inj (hs.symm.trans hs₀)
    rw [hpc] at h
    exact ⟨by simp, .inr (.inr ⟨_, rfl, .inr h⟩)⟩
  | firstCancelled hs₀ hpc hr answer =>
    obtain ⟨rfl, rfl⟩ := List.cons.inj (hs.symm.trans hs₀)
    rw [hpc] at h hnode
    refine ⟨by simp, .inr (.inr ⟨_, rfl, ?_⟩)⟩
    rw [RuleList.nodes_erase]
    exact Pc.Strays.first _ (hnode _ rfl) h (RuleList.find_mem hr) fun _ hon => hon.erase hn
  | entry hs₀ hpc hr answer events hevents =>
    obtain ⟨rfl, rfl⟩ := List.cons.inj (hs.symm.trans hs₀)
    rw [hpc] at h hnode
    refine ⟨by simp, .inr (.inr ⟨_, rfl, ?_⟩)⟩
    exact Pc.Strays.first _ (hnode _ rfl) h (RuleList.find_mem hr) fun _ hon => hon.step hn
  | callSecondCancel hs₀ hpc hp hr hhup | callCallback hs₀ hpc hp hr hready =>
    obtain ⟨rfl, rfl⟩ := List.cons.inj (hs.symm.trans hs₀)
    have howner := owners_getElem hown hs hpc
    rw [hpc] at h
    exact ⟨by simp, .inr (.inr ⟨_, rfl, howner, .inr h⟩)⟩
  | notReady hs₀ hpc hp hr hready =>
    obtain ⟨rfl, rfl⟩ := List.cons.inj (hs.symm.trans hs₀)
    have howner := owners_getElem hown hs hpc
    rw [hpc] at h
    refine ⟨by simp, .inr (.inr ⟨_, rfl, ?_⟩)⟩
    exact Pc.Strays.second howner (.inr h) (RuleList.find_mem hr) fun _ hon => hon.step hn
  | secondCancelled hs₀ hpc hr answer =>
    obtain ⟨rfl, rfl⟩ := List.cons.inj (hs.symm.trans hs₀)
    rw [hpc] at h
    refine ⟨by simp, .inr (.inr ⟨_, rfl, ?_⟩)⟩
    rw [RuleList.nodes_erase]
    exact Pc.Strays.second h.1 h.2 (RuleList.find_mem hr) fun _ hon => hon.erase hn
  | serviced hs₀ hpc hr hcount answer | uninterested hs₀ hpc hr =>
    obtain ⟨rfl, rfl⟩ := List.cons.inj (hs.symm.trans hs₀)
    rw [hpc] at h
    refine ⟨by simp, .inr (.inr ⟨_, rfl, ?_⟩)⟩
    exact Pc.Strays.second h.1 h.2 (RuleList.find_mem hr) fun _ hon => hon.step hn
  | unserviced hs₀ hpc hr hcount answer =>
    obtain ⟨rfl, rfl⟩ := List.cons.inj (hs.symm.trans hs₀)
    rw [hpc] at h
    exact ⟨by simp, .inr (.inr ⟨_, rfl, h⟩)⟩

lemma registered_le {i : Input} {es : List Event} (h : Step s i es s') :
    s.rules.registered ≤ s'.rules.registered := by
  rcases h.stack_cases with ⟨-, rfl⟩ | ⟨fr, -, hrules⟩ | ⟨-, -, hlater⟩
  · exact Nat.le_refl _
  · rw [hrules]
  · exact hlater.registered

lemma length_step {i : Input} {es : List Event} (hi : i ≠ .waitNextEvent) (h : Step s i es s') :
    s'.stack.length ≤ s.stack.length := by
  cases h with
  | waitNextEvent huser => exact absurd rfl hi
  | idle i | addRule huser fd direction | setFd fd w | dangling hs hpc hr i
  | outOfBounds hs hpc hp => exact Nat.le_refl _
  | throw hs hrun e | exit hs hpc hpoll | timeout hs hpc a ha | interrupted hs hpc a ha
  | success hs hpc | pollError hs hpc hp herr | busyWait hs hpc =>
    rw [hs]
    exact Nat.le_succ _
  | toPoll hs hpc hpoll | callFirstCancel hs hpc hr hover | callFirstInterest hs hpc hr hover
  | firstCancelled hs hpc hr answer | entry hs hpc hr answer events hevents | polled hs hpc a ha
  | callSecondCancel hs hpc hp hr hhup | callCallback hs hpc hp hr hready
  | notReady hs hpc hp hr hready | secondCancelled hs hpc hr answer
  | serviced hs hpc hr hcount answer | unserviced hs hpc hr hcount answer
  | uninterested hs hpc hr =>
    rw [hs]
    exact Nat.le_refl _

/-- A call that has been left has no further results. -/
lemma length_trace {js : List Input} (hjs : .waitNextEvent ∉ js) :
    ∀ m ∈ machine.trace s js, m.before.stack.length ≤ s.stack.length := by
  induction js generalizing s with
  | nil => exact fun _ h => absurd h List.not_mem_nil
  | cons i js ih =>
    obtain ⟨hi, hjs⟩ := not_or.1 (mt List.mem_cons.2 hjs)
    refine List.forall_mem_cons.2 ⟨Nat.le_refl _, fun m hm => (ih hjs m hm).trans ?_⟩
    exact length_step (Ne.symm hi) (step_cases s i)

/-- While everything is in turn, a call that strays has no result. -/
lemma strays_trace {js : List Input} (hjs : .waitNextEvent ∉ js)
    (hturn : ∀ ks, ks <+: js →
      InTurn ((machine.trace s ks).foldl begunStep (n :: ns)) (machine.run s ks))
    (hle : n ≤ s.rules.registered) (hs : s.stack = fr :: rest)
    (h : fr.pc.Strays s.rules.nodes fr.owners n) :
    ∀ m ∈ machine.trace s js, m.before.stack.length = s.stack.length → ∀ r, .result r ∉ m.output := by
  induction js generalizing s fr with
  | nil => exact fun _ h => absurd h List.not_mem_nil
  | cons i js ih =>
    obtain ⟨hi, hjs⟩ := not_or.1 (mt List.mem_cons.2 hjs)
    have hstep := step_cases s i
    obtain ⟨hresult, hafter⟩ := strays_step h (hturn [] List.nil_prefix) hle hs (Ne.symm hi) hstep
    have hturn' : ∀ ks, ks <+: js → InTurn
        ((machine.trace (step s i).2 ks).foldl begunStep (begunStep (n :: ns) (machine.move s i)))
        (machine.run (step s i).2 ks) := fun ks hks =>
      hturn (i :: ks) ((List.prefix_cons_inj i).2 hks)
    refine List.forall_mem_cons.2 ⟨fun _ => hresult, fun m hm hlen => ?_⟩
    rcases hafter with hdef | hleft | ⟨fr', hs', h'⟩
    · have hdefined := (hturn' [] List.nil_prefix).defined
      rw [machine.run_nil, hdef] at hdefined
      cases hdefined
    · have hshort := length_trace hjs m hm
      rw [machine_step, hleft, hlen, hs] at hshort
      exact absurd hshort (Nat.not_succ_le_self _)
    · have hlen' : (step s i).2.stack.length = s.stack.length := by rw [hs, hs']; rfl
      have hstay : begunStep (n :: ns) (machine.move s i) = n :: ns := begunStep_stay hlen'
      rw [hstay] at hturn'
      exact ih hjs hturn' (hle.trans (registered_le hstep)) hs' h' m hm (hlen.trans hlen'.symm)

end Strays

/-! ### The result -/

/-- The move after a spared run that is not spared: a call strays from then on. -/
lemma Aligned.strays {ns : List ℕ} {s : State} {i : Input} (h : Aligned ns s)
    (hi : ¬ Spared ns s i) :
    ∃ fr rest n ns', s.stack = fr :: rest ∧ ns = n :: ns' ∧ n ≤ s.rules.registered ∧
      (fr.pc.Strays s.rules.nodes fr.owners n ∨ ∃ a, i = .poll a ∧ ¬ Ends a ∧ fr.pc = .poll ∧
        ¬ s.rules.nodes <+: fr.owners) := by
  have hle := h.le_registered
  cases i with
  | ret answer =>
    simp only [Spared, not_forall] at hi
    obtain ⟨fr, hfr, n, hn, hnot⟩ := hi
    obtain ⟨rest, hs⟩ := List.head?_eq_some_iff.1 hfr
    obtain ⟨m, ns', rfl, halign, -⟩ := h.top hs
    obtain rfl : m = n := Option.some.inj hn
    exact ⟨fr, rest, m, ns', hs, rfl, hle m List.mem_cons_self, .inl (halign.strays hnot)⟩
  | poll a =>
    simp only [Spared, not_forall] at hi
    obtain ⟨hends, fr, hfr, hpc, hnot⟩ := hi
    obtain ⟨rest, hs⟩ := List.head?_eq_some_iff.1 hfr
    obtain ⟨n, ns', rfl, -, -⟩ := h.top hs
    exact ⟨fr, rest, n, ns', hs, rfl, hle n List.mem_cons_self, .inr ⟨a, rfl, hends, hpc, hnot⟩⟩
  | addRule fd direction => exact absurd trivial hi
  | waitNextEvent => exact absurd trivial hi
  | setFd fd w => exact absurd trivial hi
  | throw e => exact absurd trivial hi
  | tick => exact absurd trivial hi

lemma counts_of_not_ends {a : PollAnswer} (h : ¬ Ends a) :
    0 < a.returnValue ∨ (a.returnValue = -1 ∧ a.errno ≠ eintr) := by
  obtain ⟨hzero, hintr⟩ := not_or.1 h
  rcases a.fails_or_counts with ⟨hfail, -⟩ | ⟨hcount, -⟩
  · exact .inr ⟨hfail, fun herrno => hintr ⟨hfail, herrno⟩⟩
  · exact .inl (by omega)

/-- **Which entries the second pass reads.** In a spared run it reads its rules' own ones, in turn, and
nothing undefined happens. And if a move is not spared, then the call that makes it has no result —
an exception ends it, or nothing does — before something is out of turn, as long as no function of
a rule calls `wait_next_event` from there on. -/
theorem reads_own_entry (fds : ℕ → FDWrapper) (is : List Input) (h : RunSpared fds is) :
    (∀ js, js <+: is → InTurnAfter fds js) ∧
    ∀ i js, ¬ Spared (begun (machine.trace (init fds) is)) (machine.run (init fds) is) i →
      .waitNextEvent ∉ i :: js → ∀ m ∈ machine.trace (machine.run (init fds) is) (i :: js),
        m.before.stack.length = (machine.run (init fds) is).stack.length →
          ∀ r, .result r ∈ m.output → ∃ ks, ks <+: i :: js ∧ ¬ InTurnAfter fds (is ++ ks) := by
  constructor
  · rintro js ⟨ks, rfl⟩
    exact (aligned_run h.front).inTurn
  · intro i js hi hjs m hm hlen r hr
    by_contra hnone
    have hturn : ∀ ks, ks <+: i :: js → InTurnAfter fds (is ++ ks) := fun ks hks =>
      not_not.1 fun hnot => hnone ⟨ks, hks, hnot⟩
    simp only [InTurnAfter, machine.trace_append, machine.run_append, begun_append] at hturn
    have halign := aligned_run h
    generalize begun (machine.trace (init fds) is) = ns at hi hturn halign
    generalize machine.run (init fds) is = s at hi hm hlen hturn halign
    obtain ⟨fr, rest, n, ns', hs, rfl, hle, hstray | ⟨a, rfl, hends, hpc, hnot⟩⟩ := halign.strays hi
    · exact strays_trace hjs hturn hle hs hstray m hm hlen r hr
    · -- the second pass begins, in front of the wrong entries
      have hstep : step s (.poll a) = _ := step_poll hs hpc halign.defined a
      rw [afterPoll_go s fr rest (counts_of_not_ends hends)] at hstep
      obtain ⟨-, hjs⟩ := not_or.1 (mt List.mem_cons.2 hjs)
      have hturn' := fun ks (hks : ks <+: js) =>
        hturn (.poll a :: ks) ((List.prefix_cons_inj (Input.poll a)).2 hks)
      have hstay : begunStep (n :: ns') (machine.move s (.poll a)) = n :: ns' := by
        refine begunStep_stay ?_
        rw [Machine.move_after, machine_step, hstep, Machine.move_before, hs]
        rfl
      simp only [machine.trace_cons, machine.run_cons, List.foldl_cons, hstay, machine_step,
        hstep] at hturn' hm
      rcases List.mem_cons.1 hm with rfl | hm
      · rw [Machine.move_output, machine_step, hstep] at hr
        cases List.mem_singleton.1 hr
      · have hstray : (Pc.second s.rules.begin 0).Strays s.rules.nodes
            ((setRevents fr.pollfds a.revents).map Pollfd.owner) n := by
          refine ⟨_, Onwards.begin _, ?_⟩
          rw [owners_setRevents, List.drop_zero]
          exact hnot
        exact strays_trace hjs hturn' hle rfl hstray m hm (hlen.trans (by rw [hs]; rfl)) r hr

/-- A callback waits on the loop, which cancels the last rule of the call around, and that goes on to
the end. -/
theorem reads_own_entry_nested :
    let is : List Input := [.addRule 0 .in_, .addRule 1 .in_, .waitNextEvent, .tick, .ret true,
      .tick, .ret true, .tick,
      .poll ⟨1, 0, fun i => if i = 0 then pollIn else 0, .inr (by decide)⟩, .tick,
      .setFd 1 { fd := 1, closed := true }, .waitNextEvent, .tick, .ret false, .tick, .ret true,
      .tick, .setFd 0 { fd := 0, readCount := 1 }, .ret false, .tick]
    ∀ js, js <+: is → InTurnAfter (fun i => { fd := i }) js := by
  intro is
  exact (reads_own_entry (fun i => { fd := i }) is (by decide)).1

/-- A callback registers a rule and reads from its descriptor: the second pass goes on to the new
rule, with the index 1 into the one entry there is. A rule that an `interest` registers is asked in
the same call. And if a callback waits on the loop, which cancels the second rule of three, the third
is judged by the entry of the second. -/
theorem not_reads_own_entry :
    ¬ InTurnAfter (fun i => { fd := i }) [.addRule 0 .in_, .waitNextEvent, .tick, .ret true, .tick,
      .poll ⟨1, 0, fun _ => pollIn, .inr (by decide)⟩, .tick, .addRule 1 .in_,
      .setFd 0 { fd := 0, readCount := 1 }, .ret false] ∧
    ¬ InTurnAfter (fun i => { fd := i }) [.addRule 0 .in_, .waitNextEvent, .tick, .addRule 1 .in_,
      .ret true] ∧
    ¬ InTurnAfter (fun i => { fd := i }) [.addRule 0 .in_, .addRule 1 .in_, .addRule 2 .in_,
      .waitNextEvent, .tick, .ret true, .tick, .ret true, .tick, .ret true, .tick,
      .poll ⟨1, 0, fun i => if i = 0 then pollIn else 0, .inr (by decide)⟩, .tick,
      .setFd 1 { fd := 1, closed := true }, .waitNextEvent, .tick, .ret false, .tick, .ret true,
      .tick, .ret false, .tick, .setFd 0 { fd := 0, readCount := 1 }, .ret false] := by
  refine ⟨fun h => ?_, fun h => ?_, fun h => ?_⟩
  · obtain ⟨hlt, -⟩ := h.own ⟨[⟨0, pollIn, pollIn, 0⟩], true, .second (some 1) 1⟩ [] 1 1
      (by decide) rfl
    exact absurd hlt (by decide)
  · have hlt := h.node_lt ⟨[⟨0, pollIn, 0, 0⟩], true, .first (some 1)⟩ [] 1 [] (by decide)
      (by decide) 1 rfl
    exact absurd hlt (by decide)
  · obtain ⟨hlt, hid⟩ := h.own ⟨[⟨0, pollIn, pollIn, 0⟩, ⟨1, pollIn, 0, 1⟩, ⟨2, pollIn, 0, 2⟩], true,
      .second (some 2) 1⟩ [] 2 1 (by decide) rfl
    exact absurd (show 1 = 2 from hid) (by decide)

end Sponge.EventLoop
