import Mathlib.Data.List.Sort
import Mathlib.Logic.Function.Basic
import Sponge.Lib.Machine
import Sponge.Lib.Walk
import Sponge.Util.FileDescriptor

/-!
# `EventLoop`

The class of `eventloop.hh` and `wait_next_event`, as `eventloop.cc` computes it, together with the
code around it: the functions of the rules and the caller are code of the user, which may register
rules, change the state of descriptors, throw, and call `wait_next_event` again on the same loop.
So a state has a stack of the calls of `wait_next_event` that are under way, each at a point of its
body, and an input is either one move of the user's code, or what `poll` answers, or `tick`, which
lets the loop's own code go on by one turn.

* `RuleList` — the list of rules; a rule is known by the number of its registration;
* `Frame`, `Pc` — a call of `wait_next_event` and the point it is at;
* `firstPass`, `afterPoll`, `secondPass` — the turns of the two loops and what `poll` leads to;
* `functionReturns` — what follows the return of a function of a rule;
* `machine`, `history` — the runs, and the events of a run;
* `Step`, `step_cases` — all that a move can do.
-/

namespace Sponge

open Lib

/-! ### Rules and poll entries -/

inductive Direction where
  | in_
  | out
  deriving DecidableEq, Repr

/-- A rule: the wrapper it shares, by its index, and its direction. The functions are the user's
code and known by the rule; `id` is the number of the registration and stands for the node of the
list. -/
structure Rule where
  id : ℕ
  fd : ℕ
  direction : Direction
  deriving DecidableEq, Repr

/-- The list `_rules`, in the order of registration, and the number of registrations so far. -/
structure RuleList where
  rules : List Rule
  registered : ℕ
  ordered : (rules.map Rule.id).Pairwise (· < ·)
  lt_registered : ∀ id ∈ rules.map Rule.id, id < registered

namespace RuleList

def nodes (l : RuleList) : List ℕ := l.rules.map Rule.id

def empty : RuleList := ⟨[], 0, List.Pairwise.nil, fun _ h => absurd h List.not_mem_nil⟩

/-- The rule that `push_back` would register. -/
def newRule (l : RuleList) (fd : ℕ) (direction : Direction) : Rule := ⟨l.registered, fd, direction⟩

def pushBack (l : RuleList) (fd : ℕ) (direction : Direction) : RuleList where
  rules := l.rules ++ [l.newRule fd direction]
  registered := l.registered + 1
  ordered := by
    rw [List.map_append, List.pairwise_append]
    refine ⟨l.ordered, List.pairwise_singleton _ _, fun a ha b hb => ?_⟩
    rw [List.mem_singleton.1 hb]
    exact l.lt_registered a ha
  lt_registered := by
    rw [List.map_append, List.forall_mem_append]
    refine ⟨fun a ha => Nat.lt_succ_of_lt (l.lt_registered a ha), fun b hb => ?_⟩
    rw [List.mem_singleton.1 hb]
    exact Nat.lt_succ_self _

def erase (l : RuleList) (id : ℕ) : RuleList where
  rules := l.rules.filter fun r => r.id ≠ id
  registered := l.registered
  ordered := l.ordered.sublist (List.filter_sublist.map _)
  lt_registered := fun id hid => l.lt_registered id ((List.filter_sublist.map _).subset hid)

/-- `begin()`, an iterator: a node, or `none` at the end. -/
def begin (l : RuleList) : Option ℕ := l.nodes.head?

/-- The rule at a node, if the node is still in the list. -/
def find (l : RuleList) (id : ℕ) : Option Rule := l.rules.find? fun r => r.id = id

@[simp] lemma nodes_empty : empty.nodes = [] := rfl

lemma nodup_nodes (l : RuleList) : l.nodes.Nodup := l.ordered.imp Nat.ne_of_lt

lemma nodes_sublist (l : RuleList) : l.nodes.Sublist (List.range l.registered) := by
  have hsubset : l.nodes ⊆ List.range l.registered :=
    fun id hid => List.mem_range.2 (l.lt_registered id hid)
  exact List.sublist_of_subperm_of_pairwise (List.subperm_of_subset l.nodup_nodes hsubset) l.ordered
    List.pairwise_lt_range

@[simp] lemma nodes_pushBack (l : RuleList) (fd : ℕ) (d : Direction) :
    (l.pushBack fd d).nodes = l.nodes ++ [l.registered] := by
  unfold nodes pushBack
  rw [List.map_append]
  rfl

@[simp] lemma nodes_erase (l : RuleList) (id : ℕ) : (l.erase id).nodes = l.nodes.erase id := by
  rw [l.nodup_nodes.erase_eq_filter]
  unfold nodes erase
  rw [List.filter_map]
  congr 1
  exact List.filter_congr fun r _ => by by_cases h : r.id = id <;> simp [h]

lemma find_eq_none_iff (l : RuleList) (id : ℕ) : l.find id = none ↔ id ∉ l.nodes := by
  unfold find nodes
  simp

lemma find_spec {l : RuleList} {id : ℕ} {r : Rule} (h : l.find id = some r) :
    r ∈ l.rules ∧ r.id = id :=
  ⟨List.mem_of_find?_eq_some h, by simpa using List.find?_some h⟩

lemma find_mem {l : RuleList} {id : ℕ} {r : Rule} (h : l.find id = some r) : id ∈ l.nodes :=
  List.mem_map.2 ⟨r, find_spec h⟩

end RuleList

/-- The bits of `poll(2)`. -/
def pollIn : UInt16 := 0x001
def pollOut : UInt16 := 0x004
def pollErr : UInt16 := 0x008
def pollHup : UInt16 := 0x010
def pollNval : UInt16 := 0x020

def eintr : ℕ := 4

def Direction.value : Direction → UInt16
  | .in_ => pollIn
  | .out => pollOut

/-- A `pollfd`. The code does not have `owner`, the rule the entry was made for. -/
structure Pollfd where
  fd : ℕ
  events : UInt16
  revents : UInt16
  owner : ℕ
  deriving DecidableEq, Repr

/-- What `poll` answers: it fails with `-1` and a non-zero `errno`, or returns a count; in the entries
it may set any `revents`. -/
structure PollAnswer where
  returnValue : ℤ
  errno : ℕ
  revents : ℕ → UInt16
  fails_or_counts : (returnValue = -1 ∧ errno ≠ 0) ∨ (0 ≤ returnValue ∧ returnValue < 2 ^ 31)

namespace EventLoop

inductive Result where
  | success
  | timeout
  | exit
  deriving DecidableEq, Repr

/-- The functions of a rule. -/
inductive RuleFn where
  | callback
  | interest
  | cancel
  deriving DecidableEq, Repr

/-- The points of `wait_next_event`: the heads of the two loops, with their iterators and the index,
`poll`, and the places where a function of a rule is running. -/
inductive Pc where
  | first (it : Option ℕ)
  | firstCancel (id : ℕ)
  | firstInterest (id : ℕ)
  | poll
  | second (it : Option ℕ) (idx : ℕ)
  | secondCancel (id idx : ℕ)
  | secondCallback (id idx : ℕ) (countBefore : UInt32)
  | secondInterest (id idx : ℕ)
  deriving DecidableEq, Repr

/-- The function of a rule that is running. -/
def Pc.running : Pc → Option (RuleFn × ℕ)
  | .firstCancel id | .secondCancel id _ => some (.cancel, id)
  | .firstInterest id | .secondInterest id _ => some (.interest, id)
  | .secondCallback id _ _ => some (.callback, id)
  | .first _ | .poll | .second _ _ => none

structure Frame where
  pollfds : List Pollfd
  somethingToPoll : Bool
  pc : Pc
  deriving DecidableEq, Repr

/-- A loop, the wrappers that its rules share, and the calls of `wait_next_event` under way, the
innermost first. `undefined` is set when the code has done what C++ leaves undefined. -/
structure State where
  rules : RuleList
  fds : ℕ → FDWrapper
  stack : List Frame
  undefined : Bool

def init (fds : ℕ → FDWrapper) : State := ⟨RuleList.empty, fds, [], false⟩

inductive Input where
  /-- the user's code calls `add_rule` -/
  | addRule (fd : ℕ) (direction : Direction)
  /-- the user's code calls `wait_next_event` -/
  | waitNextEvent
  /-- the user's code reads, writes or closes a descriptor, in whatever way -/
  | setFd (fd : ℕ) (w : FDWrapper)
  /-- the function that is running returns -/
  | ret (answer : Bool)
  /-- the function that is running throws -/
  | throw (e : Exn)
  | poll (answer : PollAnswer)
  | tick

inductive Event where
  | added (rule : Rule)
  | entered
  | called (f : RuleFn) (id : ℕ)
  | returned (f : RuleFn) (id : ℕ) (answer : Bool)
  | polled (pollfds : List Pollfd)
  | result (r : Result)
  | thrown (e : Exn)
  | undefined
  deriving DecidableEq, Repr

/-! ### `wait_next_event` -/

def serviceCount (s : State) (r : Rule) : UInt32 :=
  match r.direction with
  | .in_ => (s.fds r.fd).readCount
  | .out => (s.fds r.fd).writeCount

/-- The call `fr` goes on at another point. -/
def State.goto (s : State) (fr : Frame) (rest : List Frame) (pc : Pc) : State :=
  { s with stack := { fr with pc } :: rest }

/-- The call is left: `rest` are the calls around it. -/
def State.leave (s : State) (rest : List Frame) : State := { s with stack := rest }

def State.crash (s : State) : State := { s with undefined := true }

/-- A turn of the loop that sets up the `pollfd` for each rule, up to the call of a function. -/
def firstPass (s : State) (fr : Frame) (rest : List Frame) : Option ℕ → List Event × State
  | none =>
    if fr.somethingToPoll then ([], s.goto fr rest .poll) else ([.result .exit], s.leave rest)
  | some id =>
    match s.rules.find id with
    | none => ([.undefined], s.crash)
    | some thisRule =>
      if thisRule.direction = .in_ ∧ (s.fds thisRule.fd).eof then
        ([.called .cancel id], s.goto fr rest (.firstCancel id))
      else if (s.fds thisRule.fd).closed then
        ([.called .cancel id], s.goto fr rest (.firstCancel id))
      else ([.called .interest id], s.goto fr rest (.firstInterest id))

def setRevents (pollfds : List Pollfd) (revents : ℕ → UInt16) : List Pollfd :=
  pollfds.mapIdx fun i p => { p with revents := revents i }

/-- What follows `poll`. An error other than `EINTR` is caught and dropped. -/
def afterPoll (s : State) (fr : Frame) (rest : List Frame) (a : PollAnswer) : List Event × State :=
  let pollfds := setRevents fr.pollfds a.revents
  let go := ([.polled pollfds], s.goto { fr with pollfds } rest (.second s.rules.begin 0))
  match systemCall "poll" a.returnValue a.errno 0 with
  | .ok n => if n = 0 then ([.result .timeout], s.leave rest) else go
  | .error (.unixError _ errno) => if errno = eintr then ([.result .exit], s.leave rest) else go
  | .error e => ([.thrown e], s.leave rest)

/-- A turn of the loop that goes through the poll results, up to the call of a function. -/
def secondPass (s : State) (fr : Frame) (rest : List Frame) : Option ℕ → ℕ → List Event × State
  | none, _ => ([.result .success], s.leave rest)
  | some id, idx =>
    match fr.pollfds[idx]? with
    | none => ([.undefined], s.crash)
    | some thisPollfd =>
      if thisPollfd.revents &&& (pollErr ||| pollNval) ≠ 0 then
        ([.thrown (.runtimeError "EventLoop: error on polled file descriptor")], s.leave rest)
      else
        match s.rules.find id with
        | none => ([.undefined], s.crash)
        | some thisRule =>
          let pollReady : Bool := thisPollfd.revents &&& thisPollfd.events ≠ 0
          let pollHup : Bool := thisPollfd.revents &&& pollHup ≠ 0
          if pollHup ∧ thisPollfd.events ≠ 0 ∧ ¬ pollReady then
            ([.called .cancel id], s.goto fr rest (.secondCancel id idx))
          else if pollReady then
            ([.called .callback id],
              s.goto fr rest (.secondCallback id idx (serviceCount s thisRule)))
          else ([], s.goto fr rest (.second (next s.rules.nodes id) (idx + 1)))

/-- What follows the return of the function of a rule. The rule is used again, unless its `interest`
has just answered that the loop is waiting busily. -/
def functionReturns (s : State) (fr : Frame) (rest : List Frame) (answer : Bool) :
    List Event × State :=
  match fr.pc with
  | .firstCancel id =>
    match s.rules.find id with
    | none => ([.undefined], s.crash)
    | some _ => ([.returned .cancel id answer],
        { s.goto fr rest (.first (next s.rules.nodes id)) with rules := s.rules.erase id })
  | .firstInterest id =>
    match s.rules.find id with
    | none => ([.undefined], s.crash)
    | some thisRule =>
      let fd := (s.fds thisRule.fd).fd
      let fr :=
        if answer then
          { fr with
            pollfds := fr.pollfds ++ [⟨fd, thisRule.direction.value, 0, id⟩]
            somethingToPoll := true }
        else { fr with pollfds := fr.pollfds ++ [⟨fd, 0, 0, id⟩] }
      ([.returned .interest id answer], s.goto fr rest (.first (next s.rules.nodes id)))
  | .secondCancel id idx =>
    match s.rules.find id with
    | none => ([.undefined], s.crash)
    | some _ => ([.returned .cancel id answer],
        { s.goto fr rest (.second (next s.rules.nodes id) (idx + 1)) with
          rules := s.rules.erase id })
  | .secondCallback id idx countBefore =>
    match s.rules.find id with
    | none => ([.undefined], s.crash)
    | some thisRule =>
      if countBefore = serviceCount s thisRule then
        ([.returned .callback id answer, .called .interest id],
          s.goto fr rest (.secondInterest id idx))
      else ([.returned .callback id answer],
        s.goto fr rest (.second (next s.rules.nodes id) (idx + 1)))
  | .secondInterest id idx =>
    if answer then
      ([.returned .interest id answer, .thrown (.runtimeError
        "EventLoop: busy wait detected: callback did not read/write fd and is still interested")],
        s.leave rest)
    else
      match s.rules.find id with
      | none => ([.undefined], s.crash)
      | some _ => ([.returned .interest id answer],
          s.goto fr rest (.second (next s.rules.nodes id) (idx + 1)))
  | .first _ | .poll | .second _ _ => ([], s)

/-! ### The machine -/

/-- A move of the user's code that leaves it running. -/
def userMove (s : State) : Input → List Event × State
  | .addRule fd direction =>
    ([.added (s.rules.newRule fd direction)], { s with rules := s.rules.pushBack fd direction })
  | .waitNextEvent => ([.entered], { s with stack := ⟨[], false, .first s.rules.begin⟩ :: s.stack })
  | .setFd fd w => ([], { s with fds := Function.update s.fds fd { w with fd := (s.fds fd).fd } })
  | _ => ([], s)

/-- One move. An input that is not for the code that is running changes nothing. -/
def step (s : State) (i : Input) : List Event × State :=
  if s.undefined then ([], s)
  else
    match s.stack with
    | [] => userMove s i
    | fr :: rest =>
      match fr.pc.running with
      | some _ =>
        match i with
        | .ret answer => functionReturns s fr rest answer
        | .throw e => ([.thrown e], s.leave rest)
        | i => userMove s i
      | none =>
        match fr.pc, i with
        | .first it, .tick => firstPass s fr rest it
        | .poll, .poll answer => afterPoll s fr rest answer
        | .second it idx, .tick => secondPass s fr rest it idx
        | _, _ => ([], s)

def machine : Machine State Input (List Event) := ⟨step⟩

@[simp] lemma machine_step (s : State) (i : Input) : machine.step s i = step s i := rfl

/-- The events of the moves, in order. -/
def history (tr : List (Move State Input (List Event))) : List Event := tr.flatMap Move.output

lemma step_of_undefined {s : State} (h : s.undefined = true) (i : Input) : step s i = ([], s) :=
  if_pos h

/-! ### All that a move can do -/

/-- The user's code is running: the caller's, or a function of a rule. -/
def State.UserRuns (s : State) : Prop := ∀ fr ∈ s.stack.head?, fr.pc.running.isSome

def Pc.node : Pc → Option ℕ
  | .first it | .second it _ => it
  | .poll => none
  | .firstCancel id | .firstInterest id => some id
  | .secondCancel id _ | .secondCallback id _ _ | .secondInterest id _ => some id

/-- The descriptor of a rule cannot become ready again. -/
def State.Over (s : State) (r : Rule) : Prop :=
  (r.direction = .in_ ∧ (s.fds r.fd).eof) ∨ (s.fds r.fd).closed

/-- The moves, one constructor for every way through the code. -/
inductive Step (s : State) : Input → List Event → State → Prop
  | idle (i : Input) : Step s i [] s
  | addRule (hs : s.UserRuns) (fd : ℕ) (direction : Direction) :
      Step s (.addRule fd direction) [.added (s.rules.newRule fd direction)]
        { s with rules := s.rules.pushBack fd direction }
  | waitNextEvent (hs : s.UserRuns) :
      Step s .waitNextEvent [.entered]
        { s with stack := ⟨[], false, .first s.rules.begin⟩ :: s.stack }
  | setFd (fd : ℕ) (w : FDWrapper) : Step s (.setFd fd w) []
      { s with fds := Function.update s.fds fd { w with fd := (s.fds fd).fd } }
  | throw {fr rest} (hs : s.stack = fr :: rest) (hrun : fr.pc.running.isSome) (e : Exn) :
      Step s (.throw e) [.thrown e] (s.leave rest)
  | exit {fr rest} (hs : s.stack = fr :: rest) (hpc : fr.pc = .first none)
      (hpoll : fr.somethingToPoll = false) : Step s .tick [.result .exit] (s.leave rest)
  | toPoll {fr rest} (hs : s.stack = fr :: rest) (hpc : fr.pc = .first none)
      (hpoll : fr.somethingToPoll = true) : Step s .tick [] (s.goto fr rest .poll)
  | callFirstCancel {fr rest id r} (hs : s.stack = fr :: rest) (hpc : fr.pc = .first (some id))
      (hr : s.rules.find id = some r) (hover : s.Over r) :
      Step s .tick [.called .cancel id] (s.goto fr rest (.firstCancel id))
  | callFirstInterest {fr rest id r} (hs : s.stack = fr :: rest) (hpc : fr.pc = .first (some id))
      (hr : s.rules.find id = some r) (hover : ¬ s.Over r) :
      Step s .tick [.called .interest id] (s.goto fr rest (.firstInterest id))
  | firstCancelled {fr rest id r} (hs : s.stack = fr :: rest) (hpc : fr.pc = .firstCancel id)
      (hr : s.rules.find id = some r) (answer : Bool) :
      Step s (.ret answer) [.returned .cancel id answer]
        { s.goto fr rest (.first (next s.rules.nodes id)) with rules := s.rules.erase id }
  | entry {fr rest id r} (hs : s.stack = fr :: rest) (hpc : fr.pc = .firstInterest id)
      (hr : s.rules.find id = some r) (answer : Bool) (events : UInt16)
      (hevents : events = if answer then r.direction.value else 0) :
      Step s (.ret answer) [.returned .interest id answer]
        (s.goto ⟨fr.pollfds ++ [⟨(s.fds r.fd).fd, events, 0, id⟩], answer || fr.somethingToPoll,
          fr.pc⟩ rest (.first (next s.rules.nodes id)))
  | timeout {fr rest} (hs : s.stack = fr :: rest) (hpc : fr.pc = .poll) (a : PollAnswer)
      (ha : a.returnValue = 0) : Step s (.poll a) [.result .timeout] (s.leave rest)
  | interrupted {fr rest} (hs : s.stack = fr :: rest) (hpc : fr.pc = .poll) (a : PollAnswer)
      (ha : a.returnValue = -1 ∧ a.errno = eintr) :
      Step s (.poll a) [.result .exit] (s.leave rest)
  | polled {fr rest} (hs : s.stack = fr :: rest) (hpc : fr.pc = .poll) (a : PollAnswer)
      (ha : a.returnValue > 0 ∨ (a.returnValue = -1 ∧ a.errno ≠ eintr)) :
      Step s (.poll a) [.polled (setRevents fr.pollfds a.revents)]
        (s.goto { fr with pollfds := setRevents fr.pollfds a.revents } rest
          (.second s.rules.begin 0))
  | success {fr rest idx} (hs : s.stack = fr :: rest) (hpc : fr.pc = .second none idx) :
      Step s .tick [.result .success] (s.leave rest)
  | pollError {fr rest id idx p} (hs : s.stack = fr :: rest) (hpc : fr.pc = .second (some id) idx)
      (hp : fr.pollfds[idx]? = some p) (herr : p.revents &&& (pollErr ||| pollNval) ≠ 0) :
      Step s .tick [.thrown (.runtimeError "EventLoop: error on polled file descriptor")]
        (s.leave rest)
  | callSecondCancel {fr rest id idx p r} (hs : s.stack = fr :: rest)
      (hpc : fr.pc = .second (some id) idx) (hp : fr.pollfds[idx]? = some p)
      (hr : s.rules.find id = some r)
      (hhup : p.revents &&& pollHup ≠ 0 ∧ p.events ≠ 0 ∧ p.revents &&& p.events = 0) :
      Step s .tick [.called .cancel id] (s.goto fr rest (.secondCancel id idx))
  | callCallback {fr rest id idx p r} (hs : s.stack = fr :: rest)
      (hpc : fr.pc = .second (some id) idx) (hp : fr.pollfds[idx]? = some p)
      (hr : s.rules.find id = some r) (hready : p.revents &&& p.events ≠ 0) :
      Step s .tick [.called .callback id]
        (s.goto fr rest (.secondCallback id idx (serviceCount s r)))
  | notReady {fr rest id idx p r} (hs : s.stack = fr :: rest) (hpc : fr.pc = .second (some id) idx)
      (hp : fr.pollfds[idx]? = some p) (hr : s.rules.find id = some r)
      (hready : p.revents &&& p.events = 0) :
      Step s .tick [] (s.goto fr rest (.second (next s.rules.nodes id) (idx + 1)))
  | secondCancelled {fr rest id idx r} (hs : s.stack = fr :: rest)
      (hpc : fr.pc = .secondCancel id idx) (hr : s.rules.find id = some r) (answer : Bool) :
      Step s (.ret answer) [.returned .cancel id answer]
        { s.goto fr rest (.second (next s.rules.nodes id) (idx + 1)) with
          rules := s.rules.erase id }
  | serviced {fr rest id idx count r} (hs : s.stack = fr :: rest)
      (hpc : fr.pc = .secondCallback id idx count) (hr : s.rules.find id = some r)
      (hcount : count ≠ serviceCount s r) (answer : Bool) :
      Step s (.ret answer) [.returned .callback id answer]
        (s.goto fr rest (.second (next s.rules.nodes id) (idx + 1)))
  | unserviced {fr rest id idx count r} (hs : s.stack = fr :: rest)
      (hpc : fr.pc = .secondCallback id idx count) (hr : s.rules.find id = some r)
      (hcount : count = serviceCount s r) (answer : Bool) :
      Step s (.ret answer) [.returned .callback id answer, .called .interest id]
        (s.goto fr rest (.secondInterest id idx))
  | busyWait {fr rest id idx} (hs : s.stack = fr :: rest) (hpc : fr.pc = .secondInterest id idx) :
      Step s (.ret true) [.returned .interest id true, .thrown (.runtimeError
        "EventLoop: busy wait detected: callback did not read/write fd and is still interested")]
        (s.leave rest)
  | uninterested {fr rest id idx r} (hs : s.stack = fr :: rest)
      (hpc : fr.pc = .secondInterest id idx) (hr : s.rules.find id = some r) :
      Step s (.ret false) [.returned .interest id false]
        (s.goto fr rest (.second (next s.rules.nodes id) (idx + 1)))
  | dangling {fr rest id} (hs : s.stack = fr :: rest) (hpc : fr.pc.node = some id)
      (hr : s.rules.find id = none) (i : Input) : Step s i [.undefined] s.crash
  | outOfBounds {fr rest id idx} (hs : s.stack = fr :: rest) (hpc : fr.pc = .second (some id) idx)
      (hp : fr.pollfds[idx]? = none) : Step s .tick [.undefined] s.crash

/-- The move made on an input is one of the moves. -/
def Steps (s : State) (i : Input) (m : List Event × State) : Prop := Step s i m.1 m.2

lemma userMove_cases {s : State} (hs : s.UserRuns) (i : Input) : Steps s i (userMove s i) := by
  cases i with
  | addRule fd direction => exact .addRule hs fd direction
  | waitNextEvent => exact .waitNextEvent hs
  | setFd fd w => exact .setFd fd w
  | ret answer => exact .idle _
  | throw e => exact .idle _
  | poll answer => exact .idle _
  | tick => exact .idle _

lemma firstPass_cases {s : State} {fr : Frame} {rest : List Frame} {it : Option ℕ}
    (hs : s.stack = fr :: rest) (hpc : fr.pc = .first it) :
    Steps s .tick (firstPass s fr rest it) := by
  cases it with
  | none =>
    rw [firstPass]
    split
    · rename_i hpoll
      exact .toPoll hs hpc hpoll
    · rename_i hpoll
      exact .exit hs hpc (Bool.eq_false_iff.2 hpoll)
  | some id =>
    rw [firstPass]
    split
    · rename_i hr
      exact .dangling hs (by rw [hpc]; rfl) hr _
    · rename_i r hr
      split
      · rename_i heof
        exact .callFirstCancel hs hpc hr (.inl heof)
      · rename_i heof
        split
        · rename_i hclosed
          exact .callFirstCancel hs hpc hr (.inr hclosed)
        · rename_i hclosed
          exact .callFirstInterest hs hpc hr fun h => h.elim heof hclosed

lemma systemCall_poll (a : PollAnswer) :
    (a.returnValue = -1 ∧ systemCall "poll" a.returnValue a.errno 0 =
      .error (.unixError "poll" a.errno)) ∨
    (0 ≤ a.returnValue ∧ systemCall "poll" a.returnValue a.errno 0 = .ok a.returnValue) := by
  obtain ⟨rv, errno, revents, ⟨rfl, he⟩ | ⟨h0, hmax⟩⟩ := a
  · exact .inl ⟨rfl, systemCall_of_fail he⟩
  · obtain ⟨k, rfl⟩ := Int.eq_ofNat_of_zero_le h0
    exact .inr ⟨h0, systemCall_of_lt (by omega)⟩

lemma afterPoll_cases {s : State} {fr : Frame} {rest : List Frame} (hs : s.stack = fr :: rest)
    (hpc : fr.pc = .poll) (a : PollAnswer) : Steps s (.poll a) (afterPoll s fr rest a) := by
  unfold afterPoll
  rcases systemCall_poll a with ⟨hfail, hcall⟩ | ⟨hcount, hcall⟩
  · rw [hcall]
    simp only
    split
    · rename_i he
      exact .interrupted hs hpc a ⟨hfail, he⟩
    · rename_i he
      exact .polled hs hpc a (.inr ⟨hfail, he⟩)
  · rw [hcall]
    simp only
    split
    · rename_i h0
      exact .timeout hs hpc a h0
    · rename_i h0
      exact .polled hs hpc a (.inl (by omega))

lemma secondPass_cases {s : State} {fr : Frame} {rest : List Frame} {it : Option ℕ} {idx : ℕ}
    (hs : s.stack = fr :: rest) (hpc : fr.pc = .second it idx) :
    Steps s .tick (secondPass s fr rest it idx) := by
  cases it with
  | none => exact .success hs hpc
  | some id =>
    rw [secondPass]
    split
    · rename_i hp
      exact .outOfBounds hs hpc hp
    · rename_i p hp
      split
      · rename_i herr
        exact .pollError hs hpc hp herr
      · split
        · rename_i hr
          exact .dangling hs (by rw [hpc]; rfl) hr _
        · rename_i r hr
          simp only [decide_eq_true_eq]
          split
          · rename_i hhup
            exact .callSecondCancel hs hpc hp hr ⟨hhup.1, hhup.2.1, not_not.1 hhup.2.2⟩
          · split
            · rename_i hready
              exact .callCallback hs hpc hp hr hready
            · rename_i hready
              exact .notReady hs hpc hp hr (not_not.1 hready)

lemma functionReturns_cases {s : State} {fr : Frame} {rest : List Frame}
    (hs : s.stack = fr :: rest) (answer : Bool) :
    Steps s (.ret answer) (functionReturns s fr rest answer) := by
  unfold functionReturns
  cases hpc : fr.pc with
  | first it => exact .idle _
  | poll => exact .idle _
  | second it idx => exact .idle _
  | firstCancel id =>
    dsimp only
    cases hr : s.rules.find id with
    | none => exact .dangling hs (by rw [hpc]; rfl) hr _
    | some r => exact .firstCancelled hs hpc hr answer
  | firstInterest id =>
    dsimp only
    cases hr : s.rules.find id with
    | none => exact .dangling hs (by rw [hpc]; rfl) hr _
    | some r =>
      cases answer with
      | true => exact .entry hs hpc hr true r.direction.value rfl
      | false => exact .entry hs hpc hr false 0 rfl
  | secondCancel id idx =>
    dsimp only
    cases hr : s.rules.find id with
    | none => exact .dangling hs (by rw [hpc]; rfl) hr _
    | some r => exact .secondCancelled hs hpc hr answer
  | secondCallback id idx count =>
    dsimp only
    cases hr : s.rules.find id with
    | none => exact .dangling hs (by rw [hpc]; rfl) hr _
    | some r =>
      dsimp only
      split
      · rename_i hcount
        exact .unserviced hs hpc hr hcount answer
      · rename_i hcount
        exact .serviced hs hpc hr hcount answer
  | secondInterest id idx =>
    cases answer with
    | true => exact .busyWait hs hpc
    | false =>
      dsimp only
      rw [if_neg (by decide)]
      cases hr : s.rules.find id with
      | none => exact .dangling hs (by rw [hpc]; rfl) hr _
      | some r => exact .uninterested hs hpc hr

/-- **All that a move can do.** -/
theorem step_cases (s : State) (i : Input) : Step s i (step s i).1 (step s i).2 := by
  unfold step
  split
  · exact .idle _
  cases hs : s.stack with
  | nil => exact userMove_cases (by simp [State.UserRuns, hs]) i
  | cons fr rest =>
    simp only
    split
    · rename_i hrun
      have hruns : fr.pc.running.isSome := by rw [hrun]; rfl
      have huser : s.UserRuns := by simpa [State.UserRuns, hs] using hruns
      cases i with
      | ret answer => exact functionReturns_cases hs answer
      | throw e => exact .throw hs hruns e
      | addRule fd direction => exact userMove_cases huser _
      | waitNextEvent => exact userMove_cases huser _
      | setFd fd w => exact userMove_cases huser _
      | poll answer => exact userMove_cases huser _
      | tick => exact userMove_cases huser _
    · split
      · rename_i hpc
        exact firstPass_cases hs hpc
      · rename_i hpc
        exact afterPoll_cases hs hpc _
      · rename_i hpc
        exact secondPass_cases hs hpc
      · exact .idle _

end EventLoop

end Sponge
