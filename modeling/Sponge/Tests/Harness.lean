import Sponge.ByteStream.Refines
import Sponge.Lib.CString

/-!
# The test harness of `ByteStream`

A test is a list of steps, each an action on the stream or an expectation about it. The harness runs
them one by one, keeps the text of each step that went well, and on the first that does not it prints
a report and throws. It is compiled against whatever class the header declares, so the stream under
test is a parameter here: `Implementation` lists the methods that the steps call.

What a step should find is said by the bounded FIFO: `Asks f step`. Then

* `harness_verdict` — the harness over `ByteStream` finds what the FIFO has: a test passes if every
  step asks for what is there, and else the report is about the first step that does not;
* `harness_complete` — an implementation passes all the tests that a FIFO meets if and only if it
  answers like the FIFO in every state the actions lead to, up to `peek_output` beyond the end.
-/

namespace Sponge.Tests

open Lib

abbrev Text : Type := List UInt8

/-- `to_string(size_t)`. -/
def sizeText (n : ℕ) : Text := ascii (toString n)

/-- `to_string(bool)`, which is `to_string(int)`. -/
def boolText (b : Bool) : Text := sizeText b.toNat

/-- The class under test: its methods, each of which may throw an exception with a text. -/
structure Implementation (σ : Type*) where
  new : (capacity : UInt64) → σ
  write : σ → Text → Except Text ℕ × σ
  popOutput : σ → ℕ → Except Text Unit × σ
  endInput : σ → Except Text Unit × σ
  peekOutput : σ → ℕ → Except Text Text
  inputEnded : σ → Except Text Bool
  bufferEmpty : σ → Except Text Bool
  eof : σ → Except Text Bool
  bufferSize : σ → Except Text ℕ
  remainingCapacity : σ → Except Text ℕ
  bytesWritten : σ → Except Text ℕ
  bytesRead : σ → Except Text ℕ

def byteStream : Implementation ByteStream where
  new := ByteStream.new
  write s data := (.ok (s.write data).1, (s.write data).2)
  popOutput s len := (.ok (), s.popOutput len)
  endInput s := (.ok (), s.endInput)
  peekOutput s len := .ok (s.peekOutput len)
  inputEnded s := .ok s.inputEnded
  bufferEmpty s := .ok s.bufferEmpty
  eof s := .ok s.eof
  bufferSize s := .ok s.bufferSize
  remainingCapacity s := .ok s.remainingCapacity
  bytesWritten s := .ok s.bytesWritten.toNat
  bytesRead s := .ok s.bytesRead.toNat

/-! ### Steps -/

/-- The classes derived from `ByteStreamTestStep`. -/
inductive ByteStreamTestStep where
  | endInput
  | write (data : Text) (bytesWritten : Option ℕ)
  | pop (len : ℕ)
  | inputEnded (b : Bool)
  | bufferEmpty (b : Bool)
  | eof (b : Bool)
  | bufferSize (n : ℕ)
  | remainingCapacity (n : ℕ)
  | bytesWritten (n : ℕ)
  | bytesRead (n : ℕ)
  | peek (output : Text)
  deriving DecidableEq, Repr

namespace ByteStreamTestStep

def description : ByteStreamTestStep → Text
  | endInput => ascii "end input"
  | write data _ => ascii "write \"" ++ data ++ ascii "\" to the stream"
  | pop len => ascii "pop " ++ sizeText len
  | inputEnded b => ascii "input_ended: " ++ boolText b
  | bufferEmpty b => ascii "buffer_empty: " ++ boolText b
  | eof b => ascii "eof: " ++ boolText b
  | bufferSize n => ascii "buffer_size: " ++ sizeText n
  | remainingCapacity n => ascii "remaining_capacity: " ++ sizeText n
  | bytesWritten n => ascii "bytes_written: " ++ sizeText n
  | bytesRead n => ascii "bytes_read: " ++ sizeText n
  | peek output => ascii "\"" ++ output ++ ascii "\" at the front of the stream"

/-- The classes derived from `ByteStreamAction`. -/
def isAction : ByteStreamTestStep → Bool
  | endInput | write _ _ | pop _ => true
  | _ => false

def text (step : ByteStreamTestStep) : Text :=
  (if step.isAction then ascii "     Action: " else ascii "Expectation: ") ++ step.description

end ByteStreamTestStep

/-- What a step can throw: a `ByteStreamExpectationViolation`, or an exception of the stream. -/
inductive Thrown where
  | violation (what : Text)
  | exception (what : Text)
  deriving DecidableEq, Repr

/-- `ByteStreamExpectationViolation::property`. -/
def property (name : String) (expected actual : Text) : Text :=
  ascii "The ByteStream should have had " ++ ascii name ++ ascii " equal to " ++ expected ++
    ascii " but instead it was " ++ actual

/-- The message of `Peek::execute`. -/
def peekMessage (expected found : Text) : Text :=
  ascii "Expected \"" ++ expected ++ ascii "\" at the front of the stream, but found \"" ++ found ++
    ascii "\""

namespace Implementation

variable {σ : Type*} (I : Implementation σ)

/-- A method was called: an exception that it throws comes out of the step. -/
def called {α : Type*} : Except Text α → Except Thrown α
  | .error e => .error (.exception e)
  | .ok a => .ok a

/-- `if (actual != expected) { throw … }`, with the message of the step. -/
def expect {α : Type*} [DecidableEq α] (message : α → Text) (expected : α) :
    Except Text α → Except Thrown Unit
  | .error e => .error (.exception e)
  | .ok actual => if actual ≠ expected then .error (.violation (message actual)) else .ok ()

/-- `execute` of an expectation about one of the accessors. -/
def expectProperty {α : Type*} [DecidableEq α] (name : String) (toText : α → Text) (expected : α)
    (found : Except Text α) : Except Thrown Unit :=
  expect (fun actual => property name (toText expected) (toText actual)) expected found

/-- `Write::execute`, after the call of `write`. -/
def checkWritten : Option ℕ → Except Text ℕ → Except Thrown Unit
  | none, found => (called found).map fun _ => ()
  | some n, found => expectProperty "bytes_written" sizeText n found

def execute (s : σ) : ByteStreamTestStep → Except Thrown Unit × σ
  | .endInput => (called (I.endInput s).1, (I.endInput s).2)
  | .write data n => (checkWritten n (I.write s data).1, (I.write s data).2)
  | .pop len => (called (I.popOutput s len).1, (I.popOutput s len).2)
  | .inputEnded b => (expectProperty "input_ended" boolText b (I.inputEnded s), s)
  | .bufferEmpty b => (expectProperty "buffer_empty" boolText b (I.bufferEmpty s), s)
  | .eof b => (expectProperty "eof" boolText b (I.eof s), s)
  | .bufferSize n => (expectProperty "buffer_size" sizeText n (I.bufferSize s), s)
  | .remainingCapacity n => (expectProperty "remaining_capacity" sizeText n (I.remainingCapacity s), s)
  | .bytesWritten n => (expectProperty "bytes_written" sizeText n (I.bytesWritten s), s)
  | .bytesRead n => (expectProperty "bytes_read" sizeText n (I.bytesRead s), s)
  | .peek output => (expect (peekMessage output) output (I.peekOutput s output.length), s)

end Implementation

/-! ### The harness -/

/-- `ByteStreamTestHarness`, with what has gone to the standard error. -/
structure ByteStreamTestHarness (σ : Type*) where
  testName : Text
  byteStream : σ
  stepsExecuted : List Text
  cerr : Text

/-- The first entry of `_steps_executed`. -/
def initialized (capacity : UInt64) : Text :=
  ascii "Initialized with (" ++ ascii "capacity=" ++ sizeText capacity.toNat ++ ascii ")"

/-- What a handler prints: the step, the `what()` of the exception under its heading, the steps
before. -/
def report (heading : String) (step what : Text) (stepsExecuted : List Text) : Text :=
  ascii "Test Failure on expectation:\n\t" ++ step ++ ascii heading ++ cStr 0 what ++
    ascii "\n\nList of steps that executed successfully:" ++
    stepsExecuted.flatMap (fun s => ascii "\n\t" ++ s) ++ ascii "\n\n"

def failed (testName : Text) : Text := ascii "The test \"" ++ testName ++ ascii "\" failed"

def threw (testName : Text) : Text :=
  ascii "The test \"" ++ testName ++ ascii "\" caused your implementation to throw an exception!"

namespace ByteStreamTestHarness

variable {σ : Type*} (I : Implementation σ)

/-- `ByteStreamTestHarness(test_name, capacity)`. -/
def new (testName : Text) (capacity : UInt64) : ByteStreamTestHarness σ :=
  ⟨testName, I.new capacity, [initialized capacity], []⟩

def execute (h : ByteStreamTestHarness σ) (step : ByteStreamTestStep) :
    Except Text Unit × ByteStreamTestHarness σ :=
  match I.execute h.byteStream step with
  | (.ok _, s) => (.ok (), { h with byteStream := s, stepsExecuted := h.stepsExecuted ++ [step.text] })
  | (.error (.violation what), s) =>
    (.error (failed h.testName),
      { h with
        byteStream := s
        cerr := h.cerr ++ report "\n\nFailure message:\n\t" step.text what h.stepsExecuted })
  | (.error (.exception what), s) =>
    (.error (threw h.testName),
      { h with
        byteStream := s
        cerr := h.cerr ++ report "\n\nException:\n\t" step.text what h.stepsExecuted })

/-- Calls of `execute` in sequence, up to the first that throws. -/
def run (h : ByteStreamTestHarness σ) : List ByteStreamTestStep →
    Except Text Unit × ByteStreamTestHarness σ
  | [] => (.ok (), h)
  | step :: steps =>
    match h.execute I step with
    | (.ok _, h) => run h steps
    | (.error e, h) => (.error e, h)

end ByteStreamTestHarness

/-! ### What the FIFO says about a test -/

section Fifo

variable {c : ℕ}

/-- What a step leaves of the FIFO. -/
def after (f : Fifo UInt8 c) : ByteStreamTestStep → Fifo UInt8 c
  | .endInput => f.close
  | .write data _ => f.write data
  | .pop len => f.pop len
  | _ => f

/-- The step asks for what the FIFO has. -/
def Asks (f : Fifo UInt8 c) : ByteStreamTestStep → Prop
  | .write data (some n) => min data.length f.room = n
  | .inputEnded b => f.closed = b
  | .bufferEmpty b => f.contents.isEmpty = b
  | .eof b => (f.closed && f.contents.isEmpty) = b
  | .bufferSize n => f.contents.length = n
  | .remainingCapacity n => f.room = n
  | .bytesWritten n => f.accepted.length % 2 ^ 64 = n
  | .bytesRead n => f.removed % 2 ^ 64 = n
  | .peek output => output <+: f.contents
  | _ => True

/-- Every step of a test asks for what the FIFO has by then. -/
def Met (f : Fifo UInt8 c) : List ByteStreamTestStep → Prop
  | [] => True
  | step :: steps => Asks f step ∧ Met (after f step) steps

/-- The message about a step that asks for something else than the FIFO has. -/
def complaint (f : Fifo UInt8 c) : ByteStreamTestStep → Text
  | .write data (some n) =>
    property "bytes_written" (sizeText n) (sizeText (min data.length f.room))
  | .inputEnded b => property "input_ended" (boolText b) (boolText f.closed)
  | .bufferEmpty b => property "buffer_empty" (boolText b) (boolText f.contents.isEmpty)
  | .eof b => property "eof" (boolText b) (boolText (f.closed && f.contents.isEmpty))
  | .bufferSize n => property "buffer_size" (sizeText n) (sizeText f.contents.length)
  | .remainingCapacity n => property "remaining_capacity" (sizeText n) (sizeText f.room)
  | .bytesWritten n =>
    property "bytes_written" (sizeText n) (sizeText (f.accepted.length % 2 ^ 64))
  | .bytesRead n => property "bytes_read" (sizeText n) (sizeText (f.removed % 2 ^ 64))
  | .peek output => peekMessage output (f.contents.take output.length)
  | _ => []

lemma met_append (f : Fifo UInt8 c) (pre post : List ByteStreamTestStep) :
    Met f (pre ++ post) ↔ Met f pre ∧ Met (pre.foldl after f) post := by
  induction pre generalizing f with
  | nil => simp [Met]
  | cons step pre ih => rw [List.cons_append, Met, Met, ih, List.foldl_cons, and_assoc]

end Fifo

/-! ### Implementations that answer like the FIFO -/

namespace Implementation

variable {σ : Type*} (I : Implementation σ) {c : ℕ}

/-- In the state `s` the methods answer like the FIFO, `peek_output` as far as there is something. -/
structure Answers (f : Fifo UInt8 c) (s : σ) : Prop where
  write : ∀ data, (I.write s data).1 = .ok (min data.length f.room)
  popOutput : ∀ len, (I.popOutput s len).1 = .ok ()
  endInput : (I.endInput s).1 = .ok ()
  inputEnded : I.inputEnded s = .ok f.closed
  bufferEmpty : I.bufferEmpty s = .ok f.contents.isEmpty
  eof : I.eof s = .ok (f.closed && f.contents.isEmpty)
  bufferSize : I.bufferSize s = .ok f.contents.length
  remainingCapacity : I.remainingCapacity s = .ok f.room
  bytesWritten : I.bytesWritten s = .ok (f.accepted.length % 2 ^ 64)
  bytesRead : I.bytesRead s = .ok (f.removed % 2 ^ 64)
  peekOutput : ∀ len ≤ f.contents.length, I.peekOutput s len = .ok (f.contents.take len)

/-- Where actions on a new stream of capacity `capacity` lead, and what they leave of the FIFO. -/
inductive Reach (capacity : UInt64) : Fifo UInt8 capacity.toNat → σ → Prop
  | new : Reach capacity (Fifo.empty UInt8 capacity.toNat) (I.new capacity)
  | write {f s} (data : Text) : Reach capacity f s → Reach capacity (f.write data) (I.write s data).2
  | popOutput {f s} (len : ℕ) :
    Reach capacity f s → Reach capacity (f.pop len) (I.popOutput s len).2
  | endInput {f s} : Reach capacity f s → Reach capacity f.close (I.endInput s).2

/-- The implementation answers like the FIFO wherever actions lead. -/
def Conforms (capacity : UInt64) : Prop := ∀ f s, I.Reach capacity f s → I.Answers f s

variable {I}

lemma execute_reach {capacity : UInt64} {f : Fifo UInt8 capacity.toNat} {s : σ}
    (h : I.Reach capacity f s) (step : ByteStreamTestStep) :
    I.Reach capacity (after f step) (I.execute s step).2 := by
  cases step with
  | endInput => exact h.endInput
  | write data n => exact h.write data
  | pop len => exact h.popOutput len
  | _ => exact h

lemma called_eq_ok_iff {α : Type*} {found : Except Text α} {a : α} :
    called found = .ok a ↔ found = .ok a := by
  cases found <;> simp [called]

lemma expect_ok {α : Type*} [DecidableEq α] (message : α → Text) (expected actual : α) :
    expect message expected (.ok actual) =
      if actual = expected then .ok () else .error (.violation (message actual)) := by
  unfold expect
  split_ifs <;> simp_all

lemma expect_eq_ok_iff {α : Type*} [DecidableEq α] {message : α → Text} {expected : α}
    {found : Except Text α} : expect message expected found = .ok () ↔ found = .ok expected := by
  cases found with
  | error e => simp [expect]
  | ok actual =>
    rw [expect_ok]
    split_ifs with h <;> simp [h]

lemma Answers.execute_of_asks {f : Fifo UInt8 c} {s : σ} (h : I.Answers f s)
    {step : ByteStreamTestStep} (hasks : Asks f step) : (I.execute s step).1 = .ok () := by
  cases step with
  | endInput => exact called_eq_ok_iff.2 h.endInput
  | write data n =>
    cases n with
    | none => simp [execute, checkWritten, h.write, called, Except.map]
    | some n => exact expect_eq_ok_iff.2 ((h.write data).trans (congrArg _ hasks))
  | pop len => exact called_eq_ok_iff.2 (h.popOutput len)
  | inputEnded b => exact expect_eq_ok_iff.2 (h.inputEnded.trans (congrArg _ hasks))
  | bufferEmpty b => exact expect_eq_ok_iff.2 (h.bufferEmpty.trans (congrArg _ hasks))
  | eof b => exact expect_eq_ok_iff.2 (h.eof.trans (congrArg _ hasks))
  | bufferSize n => exact expect_eq_ok_iff.2 (h.bufferSize.trans (congrArg _ hasks))
  | remainingCapacity n => exact expect_eq_ok_iff.2 (h.remainingCapacity.trans (congrArg _ hasks))
  | bytesWritten n => exact expect_eq_ok_iff.2 (h.bytesWritten.trans (congrArg _ hasks))
  | bytesRead n => exact expect_eq_ok_iff.2 (h.bytesRead.trans (congrArg _ hasks))
  | peek output =>
    have hprefix : output <+: f.contents := hasks
    refine expect_eq_ok_iff.2 ((h.peekOutput _ hprefix.length_le).trans (congrArg _ ?_))
    exact (List.prefix_iff_eq_take.1 hprefix).symm

end Implementation

namespace ByteStreamTestHarness

variable {σ : Type*} {I : Implementation σ}

lemma execute_ok {h : ByteStreamTestHarness σ} {step : ByteStreamTestStep}
    (hok : (I.execute h.byteStream step).1 = .ok ()) :
    h.execute I step = (.ok (), { h with
      byteStream := (I.execute h.byteStream step).2
      stepsExecuted := h.stepsExecuted ++ [step.text] }) := by
  unfold execute
  split
  · rename_i heq
    rw [heq]
  · rename_i heq
    rw [heq] at hok
    cases hok
  · rename_i heq
    rw [heq] at hok
    cases hok

lemma run_cons_ok {h : ByteStreamTestHarness σ} {step : ByteStreamTestStep}
    (hok : (I.execute h.byteStream step).1 = .ok ()) (steps : List ByteStreamTestStep) :
    h.run I (step :: steps) = { h with
      byteStream := (I.execute h.byteStream step).2
      stepsExecuted := h.stepsExecuted ++ [step.text] }.run I steps := by
  rw [run, execute_ok hok]

lemma run_cons_violation {h : ByteStreamTestHarness σ} {step : ByteStreamTestStep} {what : Text}
    (hviolated : (I.execute h.byteStream step).1 = .error (.violation what))
    (steps : List ByteStreamTestStep) :
    h.run I (step :: steps) = (.error (failed h.testName), { h with
      byteStream := (I.execute h.byteStream step).2
      cerr := h.cerr ++ report "\n\nFailure message:\n\t" step.text what h.stepsExecuted }) := by
  have hexec : I.execute h.byteStream step =
      (.error (.violation what), (I.execute h.byteStream step).2) := Prod.ext hviolated rfl
  rw [run, execute, hexec]

/-- If the steps of a test go well, what follows runs from where they lead. -/
lemma run_append {h h' : ByteStreamTestHarness σ} {pre : List ByteStreamTestStep}
    (hpre : h.run I pre = (.ok (), h')) (post : List ByteStreamTestStep) :
    h.run I (pre ++ post) = h'.run I post := by
  induction pre generalizing h with
  | nil =>
    cases hpre
    rfl
  | cons step pre ih =>
    rw [List.cons_append, run]
    rw [run] at hpre
    split at hpre
    · exact ih hpre
    · cases hpre

lemma execute_of_run_ok {h : ByteStreamTestHarness σ} {step : ByteStreamTestStep}
    (hok : (h.run I [step]).1 = .ok ()) : (I.execute h.byteStream step).1 = .ok () := by
  cases hr : (I.execute h.byteStream step).1 with
  | ok u => rfl
  | error e =>
    have hrun : (h.run I [step]).1 = (h.execute I step).1 := by
      rw [run]
      cases hx : h.execute I step with
      | mk r h' => cases r <;> rfl
    rw [hrun, execute] at hok
    obtain ⟨s, hs⟩ : ∃ s, I.execute h.byteStream step = (.error e, s) := ⟨_, Prod.ext hr rfl⟩
    rw [hs] at hok
    cases e <;> cases hok

/-- **Tests that the FIFO meets**, run on an implementation that answers like the FIFO. -/
theorem run_of_met {capacity : UInt64} (hI : I.Conforms capacity) {f : Fifo UInt8 capacity.toNat}
    {h : ByteStreamTestHarness σ} (hreach : I.Reach capacity f h.byteStream)
    {steps : List ByteStreamTestStep} (hmet : Met f steps) :
    ∃ s, I.Reach capacity (steps.foldl after f) s ∧
      h.run I steps = (.ok (), { h with
        byteStream := s
        stepsExecuted := h.stepsExecuted ++ steps.map ByteStreamTestStep.text }) := by
  induction steps generalizing f h with
  | nil => exact ⟨h.byteStream, hreach, by simp [run]⟩
  | cons step steps ih =>
    obtain ⟨hasks, hmet⟩ := hmet
    have hok := (hI f _ hreach).execute_of_asks hasks
    obtain ⟨s, hs, hrun⟩ := ih (h := { h with
      byteStream := (I.execute h.byteStream step).2
      stepsExecuted := h.stepsExecuted ++ [step.text] }) (Implementation.execute_reach hreach step) hmet
    refine ⟨s, hs, ?_⟩
    rw [run_cons_ok hok, hrun]
    simp

end ByteStreamTestHarness

/-! ### What passing every test says about an implementation -/

section Complete

variable {σ : Type*} {I : Implementation σ} {capacity : UInt64}

/-- The implementation passes each test that the FIFO meets. -/
def PassesAll (I : Implementation σ) (capacity : UInt64) : Prop :=
  ∀ testName steps, Met (Fifo.empty UInt8 capacity.toNat) steps →
    ((ByteStreamTestHarness.new I testName capacity).run I steps).1 = .ok ()

/-- A test that the FIFO meets brings the harness to the state `s` and the FIFO to `f`. -/
structure Leads (I : Implementation σ) (capacity : UInt64) (f : Fifo UInt8 capacity.toNat) (s : σ)
    (steps : List ByteStreamTestStep) (h : ByteStreamTestHarness σ) : Prop where
  met : Met (Fifo.empty UInt8 capacity.toNat) steps
  after_eq : steps.foldl after (Fifo.empty UInt8 capacity.toNat) = f
  run_eq : (ByteStreamTestHarness.new I [] capacity).run I steps = (.ok (), h)
  byteStream_eq : h.byteStream = s

namespace Leads

variable {f : Fifo UInt8 capacity.toNat} {s : σ} {steps : List ByteStreamTestStep}
  {h : ByteStreamTestHarness σ} (hl : Leads I capacity f s steps h) (hI : PassesAll I capacity)
include hl hI

lemma execute_ok {step : ByteStreamTestStep} (hasks : Asks f step) :
    (I.execute s step).1 = .ok () := by
  have hmet : Met (Fifo.empty UInt8 capacity.toNat) (steps ++ [step]) := by
    rw [met_append, hl.after_eq]
    exact ⟨hl.met, hasks, trivial⟩
  have hpass := hI [] _ hmet
  rw [ByteStreamTestHarness.run_append hl.run_eq] at hpass
  rw [← hl.byteStream_eq]
  exact ByteStreamTestHarness.execute_of_run_ok hpass

lemma snoc (step : ByteStreamTestStep) (hasks : Asks f step) :
    ∃ h', Leads I capacity (after f step) (I.execute s step).2 (steps ++ [step]) h' := by
  have hok := hl.execute_ok hI hasks
  rw [← hl.byteStream_eq] at hok ⊢
  refine ⟨{ h with
    byteStream := (I.execute h.byteStream step).2
    stepsExecuted := h.stepsExecuted ++ [step.text] }, ?_, ?_, ?_, rfl⟩
  · rw [met_append, hl.after_eq]
    exact ⟨hl.met, hasks, trivial⟩
  · rw [List.foldl_append, hl.after_eq]
    rfl
  · rw [ByteStreamTestHarness.run_append hl.run_eq, ByteStreamTestHarness.run_cons_ok hok]
    rfl

lemma answers : I.Answers f s := by
  have hok (step : ByteStreamTestStep) (hasks : Asks f step) := hl.execute_ok hI hasks
  refine ⟨?_, ?_, ?_, ?_, ?_, ?_, ?_, ?_, ?_, ?_, ?_⟩
  · intro data
    have hwrite := hok (.write data (some (min data.length f.room))) rfl
    exact Implementation.expect_eq_ok_iff.1 hwrite
  · intro len
    exact Implementation.called_eq_ok_iff.1 (hok (.pop len) trivial)
  · exact Implementation.called_eq_ok_iff.1 (hok .endInput trivial)
  · exact Implementation.expect_eq_ok_iff.1 (hok (.inputEnded f.closed) rfl)
  · exact Implementation.expect_eq_ok_iff.1 (hok (.bufferEmpty f.contents.isEmpty) rfl)
  · have heof := hok (.eof (f.closed && f.contents.isEmpty)) rfl
    exact Implementation.expect_eq_ok_iff.1 heof
  · exact Implementation.expect_eq_ok_iff.1 (hok (.bufferSize f.contents.length) rfl)
  · exact Implementation.expect_eq_ok_iff.1 (hok (.remainingCapacity f.room) rfl)
  · have hwritten := hok (.bytesWritten (f.accepted.length % 2 ^ 64)) rfl
    exact Implementation.expect_eq_ok_iff.1 hwritten
  · exact Implementation.expect_eq_ok_iff.1 (hok (.bytesRead (f.removed % 2 ^ 64)) rfl)
  · intro len hlen
    have hpeek := Implementation.expect_eq_ok_iff.1
      (hok (.peek (f.contents.take len)) (List.take_prefix _ _))
    rwa [List.length_take, Nat.min_eq_left hlen] at hpeek

end Leads

lemma exists_leads (hI : PassesAll I capacity) {f : Fifo UInt8 capacity.toNat} {s : σ}
    (hreach : I.Reach capacity f s) : ∃ steps h, Leads I capacity f s steps h := by
  induction hreach with
  | new => exact ⟨[], _, trivial, rfl, rfl, rfl⟩
  | write data _ ih =>
    obtain ⟨steps, h, hl⟩ := ih
    obtain ⟨h', hl'⟩ := hl.snoc hI (.write data none) trivial
    exact ⟨_, h', hl'⟩
  | popOutput len _ ih =>
    obtain ⟨steps, h, hl⟩ := ih
    obtain ⟨h', hl'⟩ := hl.snoc hI (.pop len) trivial
    exact ⟨_, h', hl'⟩
  | endInput _ ih =>
    obtain ⟨steps, h, hl⟩ := ih
    obtain ⟨h', hl'⟩ := hl.snoc hI .endInput trivial
    exact ⟨_, h', hl'⟩

/-- **The harness is complete.** An implementation passes every test that the FIFO meets if and only
if, wherever actions lead, its methods answer like the FIFO. -/
theorem harness_complete (I : Implementation σ) (capacity : UInt64) :
    PassesAll I capacity ↔ I.Conforms capacity := by
  constructor
  · intro hI f s hreach
    obtain ⟨steps, h, hl⟩ := exists_leads hI hreach
    exact hl.answers hI
  · intro hI testName steps hmet
    obtain ⟨s, -, hrun⟩ := ByteStreamTestHarness.run_of_met hI
      (h := ByteStreamTestHarness.new I testName capacity) .new hmet
    rw [hrun]

end Complete

/-! ### The verdict on `ByteStream` -/

section Verdict

variable {capacity : UInt64} {f : Fifo UInt8 capacity.toNat} {s : ByteStream}

lemma shows_of_reach (h : byteStream.Reach capacity f s) : ByteStream.Shows f s := by
  induction h with
  | new => exact ByteStream.shows_new capacity
  | write data _ ih => exact ih.write data
  | popOutput len _ ih => exact ih.popOutput len
  | endInput _ ih => exact ih.step .endInput

lemma peekOutput_of_shows (h : ByteStream.Shows f s) (len : ℕ) :
    s.peekOutput len = f.contents.take len := by
  rw [ByteStream.peekOutput_eq, h.bufferSize_eq, h.buffer, ← List.take_eq_take_min]

lemma answers_of_shows (h : ByteStream.Shows f s) : byteStream.Answers f s := by
  have hwrite (data : Text) : (s.write data).1 = min data.length f.room := by
    rw [ByteStream.write_count, h.remainingCapacity_eq]
  have hempty : s.bufferEmpty = f.contents.isEmpty := by
    rw [ByteStream.bufferEmpty, h.buffer]
  have heof : s.eof = (f.closed && f.contents.isEmpty) := by
    rw [ByteStream.eof, ByteStream.inputEnded, h.ended, hempty]
  have hwritten : s.bytesWritten.toNat = f.accepted.length % 2 ^ 64 := by
    rw [ByteStream.bytesWritten, h.written, UInt64.toNat_ofNat']
  have hread : s.bytesRead.toNat = f.removed % 2 ^ 64 := by
    rw [ByteStream.bytesRead, h.read, UInt64.toNat_ofNat']
  exact {
    write := fun data => congrArg _ (hwrite data)
    popOutput := fun _ => rfl
    endInput := rfl
    inputEnded := congrArg _ h.ended
    bufferEmpty := congrArg _ hempty
    eof := congrArg _ heof
    bufferSize := congrArg _ h.bufferSize_eq
    remainingCapacity := congrArg _ h.remainingCapacity_eq
    bytesWritten := congrArg _ hwritten
    bytesRead := congrArg _ hread
    peekOutput := fun len _ => congrArg _ (peekOutput_of_shows h len) }

theorem byteStream_conforms (capacity : UInt64) : byteStream.Conforms capacity :=
  fun _ _ h => answers_of_shows (shows_of_reach h)

lemma expect_of_ne {α : Type*} [DecidableEq α] {message : α → Text} {expected actual : α}
    {found : Except Text α} (hfound : found = .ok actual) (hne : actual ≠ expected) :
    Implementation.expect message expected found = .error (.violation (message actual)) := by
  rw [hfound, Implementation.expect_ok, if_neg hne]

lemma expectProperty_of_ne {α : Type*} [DecidableEq α] {name : String} {toText : α → Text}
    {expected actual : α} {found : Except Text α} (hfound : found = .ok actual)
    (hne : actual ≠ expected) :
    Implementation.expectProperty name toText expected found =
      .error (.violation (property name (toText expected) (toText actual))) :=
  expect_of_ne hfound hne

/-- A step that asks for something else than the FIFO has throws, and says what the FIFO has. -/
lemma execute_of_not_asks (h : ByteStream.Shows f s) {step : ByteStreamTestStep}
    (hasks : ¬ Asks f step) :
    (byteStream.execute s step).1 = .error (.violation (complaint f step)) := by
  have ha := answers_of_shows h
  cases step with
  | endInput => exact absurd trivial hasks
  | write data n =>
    cases n with
    | none => exact absurd trivial hasks
    | some n => exact expectProperty_of_ne (ha.write data) hasks
  | pop len => exact absurd trivial hasks
  | inputEnded b => exact expectProperty_of_ne ha.inputEnded hasks
  | bufferEmpty b => exact expectProperty_of_ne ha.bufferEmpty hasks
  | eof b => exact expectProperty_of_ne ha.eof hasks
  | bufferSize n => exact expectProperty_of_ne ha.bufferSize hasks
  | remainingCapacity n => exact expectProperty_of_ne ha.remainingCapacity hasks
  | bytesWritten n => exact expectProperty_of_ne ha.bytesWritten hasks
  | bytesRead n => exact expectProperty_of_ne ha.bytesRead hasks
  | peek output =>
    refine expect_of_ne (congrArg _ (peekOutput_of_shows h _)) ?_
    intro htake
    exact hasks (List.prefix_iff_eq_take.2 htake.symm)

/-- How a test ends: every step asked for what was there, and all of them are noted; or the first one
that did not is reported, with the message about it and the steps before. -/
inductive Verdict (testName : Text) (capacity : UInt64) (steps : List ByteStreamTestStep) :
    Except Text Unit × ByteStreamTestHarness ByteStream → Prop
  | passes (s : ByteStream) : Met (Fifo.empty UInt8 capacity.toNat) steps →
    Verdict testName capacity steps
      (.ok (), ⟨testName, s, initialized capacity :: steps.map ByteStreamTestStep.text, []⟩)
  | fails (s : ByteStream) (pre post : List ByteStreamTestStep) (step : ByteStreamTestStep) :
    steps = pre ++ step :: post → Met (Fifo.empty UInt8 capacity.toNat) pre →
    ¬ Asks (pre.foldl after (Fifo.empty UInt8 capacity.toNat)) step →
    Verdict testName capacity steps
      (.error (failed testName),
        ⟨testName, s, initialized capacity :: pre.map ByteStreamTestStep.text,
          report "\n\nFailure message:\n\t" step.text
            (complaint (pre.foldl after (Fifo.empty UInt8 capacity.toNat)) step)
            (initialized capacity :: pre.map ByteStreamTestStep.text)⟩)

/-- Either a test is met, or one of its steps is the first to ask for something else. -/
lemma met_or_first {c : ℕ} (f : Fifo UInt8 c) (steps : List ByteStreamTestStep) :
    Met f steps ∨ ∃ pre step post, steps = pre ++ step :: post ∧ Met f pre ∧
      ¬ Asks (pre.foldl after f) step := by
  induction steps generalizing f with
  | nil => exact .inl trivial
  | cons step steps ih =>
    by_cases hasks : Asks f step
    · obtain hmet | ⟨pre, step', post, rfl, hpre, hstep'⟩ := ih (after f step)
      · exact .inl ⟨hasks, hmet⟩
      · exact .inr ⟨step :: pre, step', post, rfl, ⟨hasks, hpre⟩, hstep'⟩
    · exact .inr ⟨[], step, steps, rfl, trivial, hasks⟩

/-- **The verdict of the harness on `ByteStream`** is that of the FIFO, over every test. -/
theorem harness_verdict (testName : Text) (capacity : UInt64) (steps : List ByteStreamTestStep) :
    Verdict testName capacity steps
      ((ByteStreamTestHarness.new byteStream testName capacity).run byteStream steps) := by
  obtain hmet | ⟨pre, step, post, rfl, hpre, hasks⟩ :=
    met_or_first (Fifo.empty UInt8 capacity.toNat) steps
  · obtain ⟨s, -, hrun⟩ := ByteStreamTestHarness.run_of_met (byteStream_conforms capacity)
      (h := ByteStreamTestHarness.new byteStream testName capacity) .new hmet
    rw [hrun]
    exact .passes s hmet
  · obtain ⟨s, hs, hrun⟩ := ByteStreamTestHarness.run_of_met (byteStream_conforms capacity)
      (h := ByteStreamTestHarness.new byteStream testName capacity) .new hpre
    have hthrow := execute_of_not_asks (shows_of_reach hs) hasks
    rw [ByteStreamTestHarness.run_append hrun,
      ByteStreamTestHarness.run_cons_violation (h := { ByteStreamTestHarness.new byteStream testName
        capacity with byteStream := s, stepsExecuted := _ }) hthrow]
    exact .fails _ pre post step rfl hpre hasks

end Verdict

end Sponge.Tests
