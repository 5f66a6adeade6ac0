import Mathlib.Algebra.Ring.Nat
import Mathlib.Data.List.Basic
import Mathlib.Data.List.Count
import Mathlib.Data.List.Induction

/-!
# Runs of machines and of labelled steps

* `Machine σ ι ω` — a machine that answers every input: `run` is the state a list of inputs leads
  to, `trace` the list of its moves;
* `Machine.invariant`, `Machine.history` — the two induction rules: what every move keeps holds
  after a whole run, for a property of the state alone and for one that also reads the trace; with
  `_of`, for runs whose moves all satisfy a condition, with `_iff`, for the exact condition;
* `Machine.countP_le_of` — a measure bounds the number of moves that lower it;
* `Machine.forall₂_trace` — two machines side by side on the same inputs;
* `Path step` — runs of a relation with labels, with the rule `Path.invariant` and the counting
  rule `Path.countP_le`: a measure bounds the number of steps that lower it.
-/

namespace Sponge.Lib

/-- A machine: in a state it takes an input, answers and moves on. -/
structure Machine (σ ι ω : Type*) where
  step : σ → ι → ω × σ

/-- One move of a machine. -/
structure Move (σ ι ω : Type*) where
  before : σ
  input : ι
  output : ω
  after : σ

namespace Machine

variable {σ ι ω : Type*} (M : Machine σ ι ω)

/-- The move the machine makes from a state on an input. -/
def move (s : σ) (i : ι) : Move σ ι ω := ⟨s, i, (M.step s i).1, (M.step s i).2⟩

@[simp] lemma move_before (s : σ) (i : ι) : (M.move s i).before = s := rfl
@[simp] lemma move_input (s : σ) (i : ι) : (M.move s i).input = i := rfl
@[simp] lemma move_output (s : σ) (i : ι) : (M.move s i).output = (M.step s i).1 := rfl
@[simp] lemma move_after (s : σ) (i : ι) : (M.move s i).after = (M.step s i).2 := rfl

lemma move_eq {s s' : σ} {i : ι} {o : ω} (h : M.step s i = (o, s')) : M.move s i = ⟨s, i, o, s'⟩ := by
  rw [move, h]

def run : σ → List ι → σ
  | s, [] => s
  | s, i :: is => run (M.step s i).2 is

/-- The moves made on a list of inputs, in order. -/
def trace : σ → List ι → List (Move σ ι ω)
  | _, [] => []
  | s, i :: is => M.move s i :: trace (M.step s i).2 is

@[simp] lemma run_nil (s : σ) : M.run s [] = s := rfl
@[simp] lemma run_cons (s : σ) (i : ι) (is : List ι) :
    M.run s (i :: is) = M.run (M.step s i).2 is := rfl
@[simp] lemma trace_nil (s : σ) : M.trace s [] = [] := rfl
@[simp] lemma trace_cons (s : σ) (i : ι) (is : List ι) :
    M.trace s (i :: is) = M.move s i :: M.trace (M.step s i).2 is := rfl

lemma run_append (s : σ) (is js : List ι) : M.run s (is ++ js) = M.run (M.run s is) js := by
  induction is generalizing s with
  | nil => rfl
  | cons i is ih => exact ih _

lemma trace_append (s : σ) (is js : List ι) :
    M.trace s (is ++ js) = M.trace s is ++ M.trace (M.run s is) js := by
  induction is generalizing s with
  | nil => rfl
  | cons i is ih => simp only [List.cons_append, trace_cons, run_cons, ih]

lemma map_input_trace (s : σ) (is : List ι) : (M.trace s is).map Move.input = is := by
  induction is generalizing s with
  | nil => rfl
  | cons i is ih => simp only [trace_cons, List.map_cons, move_input, ih]

/-- The move at a position of the trace starts where the inputs before it lead. -/
lemma getElem_trace (s : σ) (is : List ι) (k : ℕ) (h : k < is.length) :
    (M.trace s is)[k]? = some (M.move (M.run s (is.take k)) is[k]) := by
  induction is generalizing s k with
  | nil => simp at h
  | cons i is ih =>
    cases k with
    | zero => rfl
    | succ k => exact ih _ k (by simpa using h)

lemma mem_trace {s : σ} {is : List ι} {m : Move σ ι ω} :
    m ∈ M.trace s is ↔ ∃ js i ks, is = js ++ i :: ks ∧ m = M.move (M.run s js) i := by
  induction is generalizing s with
  | nil => simp
  | cons a is ih =>
    rw [trace_cons, List.mem_cons, ih]
    constructor
    · rintro (rfl | ⟨js, i, ks, rfl, rfl⟩)
      · exact ⟨[], a, is, rfl, rfl⟩
      · exact ⟨a :: js, i, ks, rfl, rfl⟩
    · rintro ⟨js, i, ks, h, rfl⟩
      cases js with
      | nil =>
        obtain ⟨rfl, rfl⟩ := List.cons.inj h
        exact Or.inl rfl
      | cons b js =>
        obtain ⟨rfl, rfl⟩ := List.cons.inj h
        exact Or.inr ⟨js, i, ks, rfl, rfl⟩

variable {M}

/-- **Histories under a condition** that may read the trace so far as well. -/
theorem history_along {J : List (Move σ ι ω) → σ → Prop} {P : List (Move σ ι ω) → Move σ ι ω → Prop}
    {s : σ} (h : J [] s)
    (step : ∀ tr t i, P tr (M.move t i) → J tr t → J (tr ++ [M.move t i]) (M.step t i).2)
    {is : List ι}
    (hP : ∀ js i ks, is = js ++ i :: ks → P (M.trace s js) (M.move (M.run s js) i)) :
    J (M.trace s is) (M.run s is) := by
  induction is using List.reverseRecOn with
  | nil => exact h
  | append_singleton is i ih =>
    rw [trace_append, run_append]
    refine step _ _ i (hP is i [] rfl) (ih ?_)
    rintro js j ks rfl
    exact hP js j (ks ++ [i]) (by rw [List.append_assoc, List.cons_append])

/-- **Histories under a condition.** A property of the trace so far and of the state, kept by every
move that satisfies `P`, holds of the trace and the state of every run whose moves all do. -/
theorem history_of {J : List (Move σ ι ω) → σ → Prop} {P : Move σ ι ω → Prop} {s : σ} (h : J [] s)
    (step : ∀ tr t i, P (M.move t i) → J tr t → J (tr ++ [M.move t i]) (M.step t i).2) {is : List ι}
    (hP : ∀ m ∈ M.trace s is, P m) : J (M.trace s is) (M.run s is) :=
  history_along (P := fun _ => P) h step fun js i ks his =>
    hP _ (M.mem_trace.2 ⟨js, i, ks, his, rfl⟩)

/-- **Invariants under a condition.** What holds at the start and is kept by every move that
satisfies `P` holds after every run whose moves all do. -/
theorem invariant_of {I : σ → Prop} {P : Move σ ι ω → Prop} {s : σ} (h : I s)
    (step : ∀ t i, P (M.move t i) → I t → I (M.step t i).2) {is : List ι}
    (hP : ∀ m ∈ M.trace s is, P m) : I (M.run s is) :=
  history_of (J := fun _ => I) h (fun _ => step) hP

/-- **Histories.** A property of the trace so far and of the state, kept by every move, holds of
the trace and the state of every run. -/
theorem history {J : List (Move σ ι ω) → σ → Prop} {s : σ} (h : J [] s)
    (step : ∀ tr t i, J tr t → J (tr ++ [M.move t i]) (M.step t i).2) (is : List ι) :
    J (M.trace s is) (M.run s is) :=
  history_of (P := fun _ => True) h (fun tr t i _ => step tr t i) fun _ _ => trivial

/-- **Invariants.** What holds at the start and is kept by every move holds after every run. -/
theorem invariant {I : σ → Prop} {s : σ} (h : I s) (step : ∀ t i, I t → I (M.step t i).2)
    (is : List ι) : I (M.run s is) :=
  history (J := fun _ => I) h (fun _ => step) is

/-- **Invariants, exactly.** If the moves that keep an invariant are those that satisfy `P`, then it
holds at every point of a run exactly if all moves of the run satisfy `P`. -/
theorem invariant_iff {I : σ → Prop} {P : Move σ ι ω → Prop} {s : σ} (h : I s)
    (step : ∀ t i, I t → (I (M.step t i).2 ↔ P (M.move t i))) (is : List ι) :
    (∀ js, js <+: is → I (M.run s js)) ↔ ∀ m ∈ M.trace s is, P m := by
  induction is generalizing s with
  | nil =>
    refine ⟨fun _ m hm => (by cases hm), fun _ js hjs => ?_⟩
    rw [List.prefix_nil.1 hjs]
    exact h
  | cons i is ih =>
    rw [trace_cons, List.forall_mem_cons, ← step s i h]
    constructor
    · intro hall
      have hi : I (M.step s i).2 := hall [i] (List.prefix_append [i] is)
      exact ⟨hi, (ih hi).1 fun js hjs => hall (i :: js) ((List.prefix_cons_inj i).2 hjs)⟩
    · rintro ⟨hi, htail⟩ js hjs
      cases js with
      | nil => exact h
      | cons j js =>
        obtain ⟨rfl, hprefix⟩ := List.cons_prefix_cons.1 hjs
        exact (ih hi).2 htail js hprefix

/-- **Counting.** If every move that satisfies `p` lowers a measure, and no move raises it, but for
those that satisfy `q`, by at most `c`, then the measure at the start and the moves that satisfy `q`
bound the number of the moves that satisfy `p`. -/
theorem countP_le_of {I : σ → Prop} {P : Move σ ι ω → Prop} {μ : σ → ℕ} {p q : Move σ ι ω → Bool}
    {c : ℕ} {s : σ} (h : I s) (step : ∀ t i, P (M.move t i) → I t → I (M.step t i).2 ∧
      μ (M.step t i).2 + (if p (M.move t i) then 1 else 0) ≤
        μ t + (if q (M.move t i) then c else 0)) {is : List ι} (hP : ∀ m ∈ M.trace s is, P m) :
    (M.trace s is).countP p + μ (M.run s is) ≤ μ s + c * (M.trace s is).countP q := by
  induction is generalizing s with
  | nil => simp
  | cons i is ih =>
    rw [trace_cons, List.forall_mem_cons] at hP
    obtain ⟨hI, hμ⟩ := step s i hP.1 h
    have htail := ih hI hP.2
    have hc : c * (if q (M.move s i) then 1 else 0) = if q (M.move s i) then c else 0 := by
      split <;> simp
    rw [trace_cons, run_cons, List.countP_cons, List.countP_cons, Nat.mul_add, hc]
    omega

/-- **Lockstep.** Two machines on the same inputs: if a pair of moves from related states has
answers that agree and leads to related states, this holds of all pairs of moves of their runs. -/
theorem forall₂_trace {τ υ : Type*} {N : Machine τ ι υ} {R : σ → τ → Prop} {E : ω → υ → Prop}
    (step : ∀ s t i, R s t → E (M.step s i).1 (N.step t i).1 ∧ R (M.step s i).2 (N.step t i).2)
    {s : σ} {t : τ} (h : R s t) (is : List ι) :
    List.Forall₂ (fun m n => E m.output n.output ∧ R m.after n.after) (M.trace s is)
      (N.trace t is) := by
  induction is generalizing s t with
  | nil => exact .nil
  | cons i is ih =>
    have hi := step s t i h
    exact .cons hi (ih hi.2)

end Machine

lemma filterMap_snoc {α β : Type*} (f : α → Option β) (l : List α) (a : α) :
    (l ++ [a]).filterMap f = l.filterMap f ++ (f a).toList := by
  rw [List.filterMap_append]
  cases h : f a <;> simp [h]

/-! ### Labelled steps -/

/-- A run of the relation `step`, with the list of its labels. -/
inductive Path {σ ι : Type*} (step : σ → ι → σ → Prop) : σ → List ι → σ → Prop
  | nil (s : σ) : Path step s [] s
  | snoc {s t u : σ} {is : List ι} {i : ι} : Path step s is t → step t i u →
      Path step s (is ++ [i]) u

namespace Path

variable {σ ι : Type*} {step : σ → ι → σ → Prop}

/-- **Invariants.** What holds at the start and is kept by every step holds at the end. -/
theorem invariant {I : σ → Prop} {s t : σ} {is : List ι} (h : Path step s is t) (hs : I s)
    (hI : ∀ a i b, step a i b → I a → I b) : I t := by
  induction h with
  | nil => exact hs
  | snoc _ hst ih => exact hI _ _ _ hst ih

/-- **Counting.** If a measure never grows, and falls at every step whose label satisfies `p`, then
a run has at most as many such steps as the measure says at its start. -/
theorem countP_le {μ : σ → ℕ} {I : σ → Prop} {p : ι → Bool} {s t : σ} {is : List ι}
    (h : Path step s is t) (hs : I s) (hI : ∀ a i b, step a i b → I a → I b)
    (hμ : ∀ a i b, step a i b → I a → μ b + (if p i then 1 else 0) ≤ μ a) :
    is.countP p + μ t ≤ μ s := by
  induction h with
  | nil => simp
  | @snoc t u is i hp hst ih =>
    have h1 := hμ _ _ _ hst (hp.invariant hs hI)
    rw [List.countP_append, List.countP_singleton]
    omega

end Path

end Sponge.Lib
