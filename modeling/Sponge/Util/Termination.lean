import Mathlib.Data.List.Infix
import Sponge.Util.LifeCycle

/-!
# `wait_next_event` comes to an end

A call in which functions only return does no more than five moves for every rule, and three more: a
rule is asked and answers in the first pass, and is called back, asked again and left in the second.
Rules that the functions of the first pass register are asked in the same call, and are counted in.

* `Frame.work` — what is left to do of a call, from the point it is at;
* `Drives` — the moves of the code that is running;
* `drives_moves` — such a move is never lost;
* `wait_terminates` — their number is bounded.
-/

namespace Sponge.EventLoop

open Lib

/-- The moves that are left of a call, if all rules turn out as lengthy as they can. -/
def Frame.work (nodes : List ℕ) (fr : Frame) : ℕ :=
  match fr.pc with
  | .first _ => 5 * (nodes.length - fr.pollfds.length) + 3 * fr.pollfds.length + 3
  | .firstCancel _ | .firstInterest _ =>
    5 * (nodes.length - fr.pollfds.length) + 3 * fr.pollfds.length + 2
  | .poll => 3 * fr.pollfds.length + 2
  | .second _ idx => 3 * (fr.pollfds.length - idx) + 1
  | .secondCancel _ idx | .secondCallback _ idx _ => 3 * (fr.pollfds.length - idx)
  | .secondInterest _ idx => 3 * (fr.pollfds.length - idx) - 1

/-- What is left of the innermost call. -/
def State.work (s : State) : ℕ := (s.stack.head?.map (Frame.work s.rules.nodes)).getD 0

/-- The input is one for the code that is running: a turn of a loop, an answer of `poll`, or the end
of a function. -/
def Drives (s : State) (i : Input) : Bool :=
  match s.stack with
  | [] => false
  | fr :: _ =>
    match fr.pc, i with
    | .first _, .tick => true
    | .second _ _, .tick => true
    | .poll, .poll _ => true
    | pc, .ret _ => pc.running.isSome
    | pc, .throw _ => pc.running.isSome
    | _, _ => false

def Input.registers : Input → Bool
  | .addRule _ _ => true
  | _ => false

section

variable {s : State} {fr : Frame} {rest : List Frame} {i : Input}

lemma goto_ne {fr' : Frame} {pc : Pc} (hpc : fr.pc ≠ pc) :
    (s.goto fr' rest pc).stack ≠ fr :: rest := by
  intro h
  have hfr := (List.cons.inj h).1
  rw [← hfr] at hpc
  exact hpc rfl

lemma leave_ne : (s.leave rest).stack ≠ fr :: rest := fun h => List.cons_ne_self _ _ h.symm

lemma firstPass_moves {it : Option ℕ} (hpc : fr.pc = .first it)
    (hnode : ∀ id ∈ it, s.rules.find id ≠ none) : (firstPass s fr rest it).2.stack ≠ fr :: rest := by
  cases it with
  | none =>
    rw [firstPass]
    split
    · exact goto_ne (by simp [hpc])
    · exact leave_ne
  | some id =>
    rw [firstPass]
    split
    · rename_i hnone
      exact absurd hnone (hnode id rfl)
    · split
      · exact goto_ne (by simp [hpc])
      · split <;> exact goto_ne (by simp [hpc])

lemma afterPoll_moves (hpc : fr.pc = .poll) (a : PollAnswer) :
    (afterPoll s fr rest a).2.stack ≠ fr :: rest := by
  unfold afterPoll
  dsimp only
  split
  · split
    · exact leave_ne
    · exact goto_ne (by simp [hpc])
  · split
    · exact leave_ne
    · exact goto_ne (by simp [hpc])
  · exact leave_ne

lemma secondPass_moves {it : Option ℕ} {idx : ℕ} (hpc : fr.pc = .second it idx)
    (hnode : ∀ id ∈ it, s.rules.find id ≠ none ∧ fr.pollfds[idx]? ≠ none) :
    (secondPass s fr rest it idx).2.stack ≠ fr :: rest := by
  cases it with
  | none => exact leave_ne
  | some id =>
    obtain ⟨hfind, hentry⟩ := hnode id rfl
    rw [secondPass]
    split
    · rename_i hnone
      exact absurd hnone hentry
    · split
      · exact leave_ne
      · split
        · rename_i hnone
          exact absurd hnone hfind
        · dsimp only
          split
          · exact goto_ne (by simp [hpc])
          · split
            · exact goto_ne (by simp [hpc])
            · refine goto_ne ?_
              rw [hpc]
              intro heq
              have := (Pc.second.inj heq).2
              omega

lemma functionReturns_moves (hrun : fr.pc.running.isSome)
    (hnode : ∀ id, fr.pc.node = some id → s.rules.find id ≠ none) (answer : Bool) :
    (functionReturns s fr rest answer).2.stack ≠ fr :: rest := by
  unfold functionReturns
  cases hpc : fr.pc with
  | first it => rw [hpc] at hrun; cases hrun
  | poll => rw [hpc] at hrun; cases hrun
  | second it idx => rw [hpc] at hrun; cases hrun
  | firstCancel id =>
    dsimp only
    split
    · rename_i hnone
      exact absurd hnone (hnode id (by rw [hpc]; rfl))
    · exact goto_ne (s := s) (by simp [hpc])
  | firstInterest id =>
    dsimp only
    split
    · rename_i hnone
      exact absurd hnone (hnode id (by rw [hpc]; rfl))
    · exact goto_ne (by simp [hpc])
  | secondCancel id idx =>
    dsimp only
    split
    · rename_i hnone
      exact absurd hnone (hnode id (by rw [hpc]; rfl))
    · exact goto_ne (s := s) (by simp [hpc])
  | secondCallback id idx count =>
    dsimp only
    split
    · rename_i hnone
      exact absurd hnone (hnode id (by rw [hpc]; rfl))
    · split <;> exact goto_ne (by simp [hpc])
  | secondInterest id idx =>
    dsimp only
    split
    · exact leave_ne
    · split
      · rename_i hnone
        exact absurd hnone (hnode id (by rw [hpc]; rfl))
      · exact goto_ne (by simp [hpc])

/-- In a state in which all calls are in step, the code that is running moves on. -/
lemma drives_moves (hin : InStep s) (h : Drives s i = true) : (step s i).2.stack ≠ s.stack := by
  cases hs : s.stack with
  | nil => simp [Drives, hs] at h
  | cons fr rest =>
    have hnode : ∀ id, fr.pc.node = some id → s.rules.find id ≠ none := by
      intro id hid hnone
      have hmem := (hin.calls fr (by rw [hs]; exact List.mem_cons_self)).node_mem hid
      exact (RuleList.find_eq_none_iff _ _).1 hnone hmem
    unfold step
    rw [hin.defined, hs]
    unfold Drives at h
    rw [hs] at h
    simp only [Bool.false_eq_true, if_false] at h ⊢
    cases hpc : fr.pc with
    | first it =>
      rw [hpc] at h
      cases i with
      | tick => exact firstPass_moves hpc fun id hid => hnode id (by rw [hpc]; exact hid)
      | _ => cases h
    | poll =>
      rw [hpc] at h
      cases i with
      | poll a => exact afterPoll_moves hpc a
      | _ => cases h
    | second it idx =>
      rw [hpc] at h
      cases i with
      | tick =>
        refine secondPass_moves hpc fun id hid => ⟨hnode id (by rw [hpc]; exact hid), ?_⟩
        obtain rfl : it = some id := hid
        obtain ⟨hlt, -⟩ := hin.readsOwnEntry fr rest id idx hs hpc
        rw [List.getElem?_eq_getElem hlt]
        exact Option.some_ne_none _
      | _ => cases h
    | firstCancel id | firstInterest id | secondCancel id idx | secondCallback id idx count
    | secondInterest id idx =>
      rw [hpc] at h
      cases i with
      | ret answer => exact functionReturns_moves (by rw [hpc]; rfl) hnode answer
      | throw e => exact leave_ne
      | _ => cases h

/-! ### What is left to do -/

lemma work_cons (hs : s.stack = fr :: rest) : s.work = fr.work s.rules.nodes := by
  unfold State.work
  rw [hs]
  rfl

lemma work_nil (hs : s.stack = []) : s.work = 0 := by
  unfold State.work
  rw [hs]
  rfl

lemma work_goto (fr' : Frame) (pc : Pc) :
    (s.goto fr' rest pc).work = Frame.work s.rules.nodes { fr' with pc } := rfl

lemma work_pos (hin : InStep s) (hs : s.stack ≠ []) : 0 < s.work := by
  obtain ⟨fr, rest, hs⟩ := List.exists_cons_of_ne_nil hs
  have hfr := hin.calls fr (by rw [hs]; exact List.mem_cons_self)
  rw [work_cons hs]
  unfold Frame.work
  unfold Frame.InStep at hfr
  have hlen : fr.owners.length = fr.pollfds.length := List.length_map _
  cases hpc : fr.pc with
  | first it | firstCancel id | firstInterest id | poll | second it idx => simp only; omega
  | secondCancel id idx | secondCallback id idx c | secondInterest id idx =>
    simp only [hpc] at hfr
    have := hfr.lt_length
    simp only
    omega

lemma stays_alone {es : List Event} {s' : State} (h : s.stack.tail = []) (hi : i ≠ .waitNextEvent)
    (hstep : Step s i es s') : s'.stack.tail = [] := by
  cases hstep with
  | idle | addRule huser fd direction | setFd fd w | dangling hs₀ hpc hr | outOfBounds hs₀ hpc hp =>
    exact h
  | waitNextEvent huser => exact absurd rfl hi
  | throw hs₀ hrun e | exit hs₀ hpc hpoll | timeout hs₀ hpc a ha | interrupted hs₀ hpc a ha
  | success hs₀ hpc | pollError hs₀ hpc hp herr | busyWait hs₀ hpc =>
    obtain rfl := rest_eq_nil h hs₀
    rfl
  | toPoll hs₀ hpc hpoll | callFirstCancel hs₀ hpc hr hover | callFirstInterest hs₀ hpc hr hover
  | firstCancelled hs₀ hpc hr answer | entry hs₀ hpc hr answer events hevents | polled hs₀ hpc a ha
  | callSecondCancel hs₀ hpc hp hr hhup | callCallback hs₀ hpc hp hr hready
  | notReady hs₀ hpc hp hr hready | secondCancelled hs₀ hpc hr answer
  | serviced hs₀ hpc hr hcount answer | unserviced hs₀ hpc hr hcount answer
  | uninterested hs₀ hpc hr => exact rest_eq_nil h hs₀

/-- **Every move of the code that is running leaves less to do**, and no other move more, but for the
registration of a rule. -/
lemma work_step (hin : InStep s) (halone : s.stack.tail = []) (hstack : s.stack ≠ [])
    (hi : Undisturbed s i) (hwait : i ≠ .waitNextEvent) :
    (step s i).2.work + (if Drives s i then 1 else 0) ≤
      s.work + (if i.registers then 5 else 0) := by
  have hstep := step_cases s i
  have hmoves := drives_moves (i := i) hin
  have hpos := work_pos hin hstack
  obtain ⟨es, s', hm⟩ : ∃ es s', step s i = (es, s') := ⟨_, _, rfl⟩
  rw [hm] at hstep hmoves ⊢
  simp only at hstep hmoves ⊢
  have hdrives : (if Drives s i then 1 else 0) ≤ 1 := by split <;> omega
  -- a move that leaves the stack as it is is not one of the code that is running
  have hstay : s'.stack = s.stack → (if Drives s i then 1 else 0) = 0 := fun heq => by
    rw [if_neg fun h => hmoves h heq]
  have hleave : ∀ {fr : Frame} {rest : List Frame}, s.stack = fr :: rest → s' = s.leave rest →
      s'.work = 0 := by
    rintro fr rest hs rfl
    exact work_nil (rest_eq_nil halone hs)
  have hlen : ∀ fr : Frame, fr.owners.length = fr.pollfds.length := fun fr => List.length_map _
  cases hstep with
  | idle i =>
    rw [hstay rfl]
    omega
  | setFd fd w =>
    rw [hstay rfl]
    show s.work + 0 ≤ _
    omega
  | addRule huser fd direction =>
    rw [hstay rfl]
    obtain ⟨fr, rest, hs⟩ := List.exists_cons_of_ne_nil hstack
    have hfirst := hi fr (by rw [hs]; exact List.mem_cons_self)
    have hrun := huser fr (by rw [hs]; rfl)
    rw [work_cons hs, work_cons (s := { s with rules := s.rules.pushBack fd direction }) hs,
      RuleList.nodes_pushBack]
    unfold Frame.work Input.registers
    cases hpc : fr.pc with
    | first it | poll | second it idx => rw [hpc] at hrun; cases hrun
    | firstCancel id | firstInterest id =>
      simp only [List.length_append, List.length_singleton, if_true]
      omega
    | secondCancel id idx | secondCallback id idx c | secondInterest id idx =>
      rw [hpc] at hfirst
      cases hfirst
  | waitNextEvent huser => exact absurd rfl hwait
  | throw hs₀ hrun e | exit hs₀ hpc hpoll | timeout hs₀ hpc a ha | interrupted hs₀ hpc a ha
  | success hs₀ hpc | pollError hs₀ hpc hp herr | busyWait hs₀ hpc =>
    rw [hleave hs₀ rfl]
    omega
  | dangling hs₀ hpc hr i =>
    exact absurd hr fun hnone => (RuleList.find_eq_none_iff _ _).1 hnone
      ((hin.calls _ (by rw [hs₀]; exact List.mem_cons_self)).node_mem hpc)
  | outOfBounds hs₀ hpc hp =>
    obtain ⟨hlt, -⟩ := hin.readsOwnEntry _ _ _ _ hs₀ hpc
    rw [List.getElem?_eq_getElem hlt] at hp
    cases hp
  | @toPoll fr rest hs₀ hpc hpoll =>
    have hfill : Filling s.rules.nodes fr.owners none := hin.top hs₀ hpc
    have heq := congrArg List.length hfill.eq_of_end
    rw [hlen] at heq
    rw [work_goto, work_cons hs₀]
    simp only [Frame.work, hpc]
    omega
  | callFirstCancel hs₀ hpc hr hover | callFirstInterest hs₀ hpc hr hover =>
    rw [work_goto, work_cons hs₀]
    simp only [Frame.work, hpc]
    omega
  | @firstCancelled fr rest id r hs₀ hpc hr answer =>
    have hfill : Filling s.rules.nodes fr.owners (some id) := hin.top hs₀ hpc
    have hlt := hfill.length_lt
    rw [hlen] at hlt
    rw [work_cons hs₀]
    simp only [State.work, State.goto, List.head?_cons, Option.map_some, Option.getD_some,
      Frame.work, hpc, RuleList.nodes_erase, List.length_erase_of_mem hfill.mem]
    omega
  | @entry fr rest id r hs₀ hpc hr answer events hevents =>
    have hfill : Filling s.rules.nodes fr.owners (some id) := hin.top hs₀ hpc
    have hlt := hfill.length_lt
    rw [hlen] at hlt
    rw [work_goto, work_cons hs₀]
    simp only [Frame.work, hpc, List.length_append, List.length_singleton]
    omega
  | polled hs₀ hpc a ha =>
    rw [work_goto, work_cons hs₀]
    simp only [Frame.work, hpc, setRevents, List.length_mapIdx]
    omega
  | @secondCancelled fr rest id idx r hs₀ hpc hr answer =>
    have hread : Reading s.rules.nodes fr.owners (some id) idx := hin.top hs₀ hpc
    have hlt := hread.lt_length
    rw [hlen] at hlt
    rw [work_cons hs₀]
    simp only [State.work, State.goto, List.head?_cons, Option.map_some, Option.getD_some,
      Frame.work, hpc]
    omega
  | @callSecondCancel fr rest id idx p r hs₀ hpc hp hr hhup
  | @callCallback fr rest id idx p r hs₀ hpc hp hr hready
  | @notReady fr rest id idx p r hs₀ hpc hp hr hready
  | @serviced fr rest id idx count r hs₀ hpc hr hcount answer
  | @unserviced fr rest id idx count r hs₀ hpc hr hcount answer
  | @uninterested fr rest id idx r hs₀ hpc hr =>
    -- the entry at the index is one of those that are left
    have hread : Reading s.rules.nodes fr.owners (some id) idx := hin.top hs₀ hpc
    have hlt := hread.lt_length
    rw [hlen] at hlt
    rw [work_goto, work_cons hs₀]
    simp only [Frame.work, hpc]
    omega

lemma countP_registers (s : State) (ks : List Input) :
    (machine.trace s ks).countP (fun m => m.input.registers) = ks.countP Input.registers := by
  rw [← machine.map_input_trace s ks, List.countP_map, machine.map_input_trace]
  rfl

lemma inStep_of_nil (hdef : s.undefined = false) (hs : s.stack = []) : InStep s := by
  refine ⟨hdef, ?_, ?_⟩
  · rw [hs]
    exact fun _ h => absurd h List.not_mem_nil
  · rw [hs]
    exact fun _ h => absurd h List.not_mem_nil

/-- The moves of the only call, as long as it is under way, use up what it has to do. -/
lemma countP_drives_lt {ks : List Input} (hin : InStep s) (halone : s.stack.tail = [])
    (hks : ∀ m ∈ machine.trace s ks, Undisturbed m.before m.input)
    (hwait : .waitNextEvent ∉ ks) (hunder : ∀ js, js <+: ks → (machine.run s js).stack ≠ []) :
    (machine.trace s ks).countP (fun m => Drives m.before m.input) <
      s.work + 5 * ks.countP Input.registers := by
  have hend : InStep (machine.run s ks) :=
    machine.invariant_of (P := fun m => Undisturbed m.before m.input) hin
      (fun t i hi ht => ht.step hi (step_cases t i)) hks
  have hmoves : ∀ m ∈ machine.trace s ks,
      Undisturbed m.before m.input ∧ m.before.stack ≠ [] ∧ m.input ≠ .waitNextEvent := by
    intro m hm
    refine ⟨hks m hm, ?_⟩
    obtain ⟨js, i, ks', rfl, rfl⟩ := machine.mem_trace.1 hm
    refine ⟨hunder js (List.prefix_append _ _), ?_⟩
    rintro (rfl : i = .waitNextEvent)
    exact hwait (List.mem_append_right _ List.mem_cons_self)
  have hcount := machine.countP_le_of (μ := State.work) (c := 5)
    (I := fun t => InStep t ∧ t.stack.tail = [])
    (p := fun m => Drives m.before m.input) (q := fun m => m.input.registers) ⟨hin, halone⟩
    (fun t i ht hI => ?_) hmoves
  · have hpos := work_pos hend (hunder ks (List.prefix_refl _))
    rw [countP_registers] at hcount
    omega
  · obtain ⟨hundisturbed, hstack, hwait⟩ := ht
    have hstep := step_cases t i
    exact ⟨⟨hI.1.step hundisturbed hstep, stays_alone hI.2 hwait hstep⟩,
      work_step hI.1 hI.2 hstack hundisturbed hwait⟩

end

/-- **`wait_next_event` comes to an end.** While a call is under way, in which nothing comes between
it and its entries and no function waits on the same loop, the code that is running has made fewer
than five moves for every rule, those registered in the meantime included, and three more. What was
before the call does not matter. -/
theorem wait_terminates (fds : ℕ → FDWrapper) (is ks : List Input)
    (hdef : (machine.run (init fds) is).undefined = false)
    (hs : (machine.run (init fds) is).stack = [])
    (h : ∀ m ∈ machine.trace (machine.run (init fds) is) (.waitNextEvent :: ks),
      Undisturbed m.before m.input) (halone : .waitNextEvent ∉ ks)
    (hunder : ∀ js, js <+: ks →
      (machine.run (init fds) (is ++ .waitNextEvent :: js)).stack ≠ []) :
    (machine.trace (machine.run (init fds) (is ++ [.waitNextEvent])) ks).countP
        (fun m => Drives m.before m.input) <
      5 * ((machine.run (init fds) is).rules.nodes.length + ks.countP Input.registers) + 3 := by
  rw [machine.trace_cons, List.forall_mem_cons] at h
  obtain ⟨-, hks⟩ := h
  have hrun : ∀ js, machine.run (init fds) (is ++ .waitNextEvent :: js) =
      machine.run (machine.step (machine.run (init fds) is) .waitNextEvent).2 js := fun js => by
    rw [machine.run_append, machine.run_cons]
  simp only [hrun, machine.run_nil] at hunder ⊢
  generalize machine.run (init fds) is = s at hs hdef hks hunder ⊢
  have henter : (machine.step s .waitNextEvent).2 =
      { s with stack := [⟨[], false, .first s.rules.begin⟩] } := by
    rw [machine_step, step, if_neg (by rw [hdef]; exact Bool.false_ne_true), hs]
    simp only [userMove, hs]
  have hstart : InStep (machine.step s .waitNextEvent).2 :=
    (inStep_of_nil hdef hs).step (i := .waitNextEvent) trivial (step_cases s .waitNextEvent)
  rw [henter] at hks hunder hstart ⊢
  have hlt := countP_drives_lt hstart rfl hks halone hunder
  have hwork : State.work { s with stack := [⟨[], false, .first s.rules.begin⟩] } =
      5 * s.rules.nodes.length + 3 := rfl
  rw [hwork] at hlt
  omega

/-- One rule, which is called back and asked again: seven moves, and the call is not yet over. -/
theorem wait_terminates_asked_again :
    let ks : List Input := [.tick, .ret true, .tick,
      .poll ⟨1, 0, fun _ => pollIn, .inr (by decide)⟩, .tick, .ret true, .ret false]
    (machine.trace (machine.run (init fun i => { fd := i }) [.addRule 0 .in_, .waitNextEvent])
        ks).countP (fun m => Drives m.before m.input) <
      5 * ((machine.run (init fun i => { fd := i }) [.addRule 0 .in_]).rules.nodes.length +
        ks.countP Input.registers) + 3 := by
  intro ks
  have hunder : ∀ js ∈ ks.inits, (machine.run (init fun i => { fd := i })
      ([.addRule 0 .in_] ++ .waitNextEvent :: js)).stack ≠ [] := by decide
  exact wait_terminates (fun i => { fd := i }) [.addRule 0 .in_] ks rfl rfl (by decide)
    (by simp [ks]) fun js hjs => hunder js ((List.mem_inits _ _).2 hjs)

end Sponge.EventLoop
