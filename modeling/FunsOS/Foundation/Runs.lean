import Mathlib.Data.List.Basic

/-!
# Runs of a state machine and what they preserve

A machine is a step function on states. A total machine always has a next
state; a partial machine may get stuck, because a loop of the modelled code does
not end or because a pointer it follows is not valid.

A run is a list of operations. An invariant of a run is proved from two facts,
that it holds of the start and that a step keeps it. The step fact may use a
condition on the operation and on the state the operation starts from; the run
then has to meet the condition at every step (`Meets`, `MeetsPartial`).

* `Meets.invariant`: a total run that meets the condition keeps the invariant.
* `meets_iff_invariant`: when a step keeps the invariant only if it meets the
  condition, a run that keeps the invariant throughout meets the condition.
* `MeetsPartial.invariant`: a partial run that meets the condition never gets
  stuck, and keeps the invariant.

`Returns` is the same for one computation: it ends, and its result has a property.
-/

set_option autoImplicit false

namespace FunsOS.Foundation

open List

universe u v

variable {State : Type u} {Op : Type v}

/-! ## Total machines -/

/-- Every operation of a run meets the condition in the state it starts from. -/
def Meets (step : State → Op → State) (condition : State → Op → Prop) : State → List Op → Prop
  | _, [] => True
  | s, op :: ops => condition s op ∧ Meets step condition (step s op) ops

instance Meets.decidable (step : State → Op → State) (condition : State → Op → Prop)
    [∀ s op, Decidable (condition s op)] :
    ∀ (s : State) (ops : List Op), Decidable (Meets step condition s ops)
  | _, [] => inferInstanceAs (Decidable True)
  | s, op :: ops =>
    have := Meets.decidable step condition (step s op) ops
    inferInstanceAs (Decidable (condition s op ∧ Meets step condition (step s op) ops))

variable {step f : State → Op → State} {condition other : State → Op → Prop} {s : State}
  {ops : List Op} {result : Option State} {P : State → Prop} {Next : Type v} {Q : Next → Prop}

/-- **A run that meets the condition keeps what its steps keep.** -/
theorem Meets.invariant (keeps : ∀ s op, P s → condition s op → P (step s op)) (start : P s)
    (meets : Meets step condition s ops) : P (ops.foldl step s) := by
  induction ops generalizing s with
  | nil => exact start
  | cons op ops ih => exact ih (keeps s op start meets.1) meets.2

/-- A run that meets the condition also meets every other condition that follows from it in
states with an invariant its steps keep. -/
theorem Meets.of_invariant (keeps : ∀ s op, P s → condition s op → P (step s op))
    (gives : ∀ s op, P s → condition s op → other s op) (start : P s)
    (meets : Meets step condition s ops) : Meets step other s ops := by
  induction ops generalizing s with
  | nil => exact trivial
  | cons op ops ih =>
    exact ⟨gives s op start meets.1, ih (keeps s op start meets.1) meets.2⟩

/-- Where a step keeps the invariant exactly if it meets the condition, a run has the
invariant in all its states exactly if all its steps meet the condition. -/
theorem meets_iff_invariant (exact_ : ∀ s op, P s → (P (step s op) ↔ condition s op))
    (start : P s) :
    Meets step condition s ops ↔ ∀ before, before <+: ops → P (before.foldl step s) := by
  induction ops generalizing s with
  | nil =>
    refine ⟨fun _ before isPrefix => ?_, fun _ => trivial⟩
    rw [prefix_nil.mp isPrefix]
    exact start
  | cons op ops ih =>
    constructor
    · rintro ⟨here, later⟩ before isPrefix
      cases before with
      | nil => exact start
      | cons first before =>
        obtain ⟨rfl, rest⟩ := cons_prefix_cons.mp isPrefix
        exact (ih ((exact_ s first start).mpr here)).mp later before rest
    · intro always
      have next : P (step s op) := always [op] (by simp)
      refine ⟨(exact_ s op start).mp next, (ih next).mpr fun before isPrefix => ?_⟩
      exact always (op :: before) (cons_prefix_cons.mpr ⟨rfl, isPrefix⟩)

/-- Two conditions that agree in states with the invariant, which steps that meet them keep,
are met by the same runs. -/
theorem meets_congr (same : ∀ s op, P s → (condition s op ↔ other s op))
    (keeps : ∀ s op, P s → other s op → P (step s op)) (start : P s) :
    Meets step condition s ops ↔ Meets step other s ops := by
  induction ops generalizing s with
  | nil => exact Iff.rfl
  | cons op ops ih =>
    rw [Meets, same s op start]
    exact and_congr_right fun here => ih (keeps s op start here)

/-- What the steps of a run keep, the run keeps. -/
theorem foldl_invariant_of_mem (keeps : ∀ s, ∀ op ∈ ops, P s → P (f s op)) (start : P s) :
    P (ops.foldl f s) :=
  foldlRecOn ops f start fun s holds op member => keeps s op member holds

/-- What every step keeps, every run keeps. -/
theorem foldl_invariant (keeps : ∀ s op, P s → P (f s op)) (start : P s) (ops : List Op) :
    P (ops.foldl f s) :=
  foldl_invariant_of_mem (fun s op _ => keeps s op) start

/-- A run of steps that each leave the state alone leaves it alone. -/
theorem foldl_of_fixed (fixed : ∀ op ∈ ops, f s op = s) : ops.foldl f s = s := by
  induction ops with
  | nil => rfl
  | cons op ops ih =>
    rw [foldl_cons, fixed op mem_cons_self]
    exact ih (forall_mem_cons.mp fixed).2

/-- A scan that keeps the best entry so far picks one exactly if some entry is better than
what it starts from. -/
theorem foldl_best_isSome {Key Entry Pick : Type} (take : Key × Option Pick → Entry → Bool)
    (key : Entry → Key) (pick : Entry → Pick) (best : Key × Option Pick) (entries : List Entry) :
    (entries.foldl (fun best entry =>
      if take best entry then (key entry, some (pick entry)) else best) best).2.isSome ↔
      best.2.isSome ∨ ∃ entry ∈ entries, take best entry := by
  induction entries generalizing best with
  | nil => simp
  | cons entry entries ih =>
    rw [foldl_cons, ih]
    by_cases taken : take best entry
    · simp [taken]
    · simp [taken]

/-! ## Computations that return -/

/-- The computation returns, and its result has the property. -/
def Returns (result : Option State) (P : State → Prop) : Prop := ∃ s, result = some s ∧ P s

theorem Returns.of_some (holds : P s) : Returns (some s) P := ⟨s, rfl, holds⟩

theorem Returns.mono {Q : State → Prop} (returns : Returns result P) (weaker : ∀ s, P s → Q s) :
    Returns result Q := by
  obtain ⟨s, isResult, holds⟩ := returns
  exact ⟨s, isResult, weaker s holds⟩

/-- What a closed computation returns is known from a value that can be evaluated. -/
theorem Returns.of_map {Value : Type v} {f : State → Value} {v : Value}
    (computed : result.map f = some v) (holds : ∀ s, f s = v → P s) : Returns result P := by
  obtain ⟨s, isResult, isValue⟩ := Option.map_eq_some_iff.mp computed
  exact ⟨s, isResult, holds s isValue⟩

theorem Returns.bind {f : State → Option Next} (returns : Returns result P)
    (continues : ∀ s, P s → Returns (f s) Q) : Returns (result.bind f) Q := by
  obtain ⟨s, rfl, holds⟩ := returns
  exact continues s holds

theorem Returns.map {f : State → Next} (returns : Returns result P)
    (continues : ∀ s, P s → Q (f s)) : Returns (result.map f) Q := by
  obtain ⟨s, rfl, holds⟩ := returns
  exact ⟨f s, rfl, continues s holds⟩

/-! ## Partial machines -/

/-- The state a list of operations leads to, if none of them gets stuck. -/
def runPartial (step : State → Op → Option State) : State → List Op → Option State
  | s, [] => some s
  | s, op :: ops => (step s op).bind fun next => runPartial step next ops

/-- Every operation of a partial run meets the condition in the state it starts
from. -/
def MeetsPartial (step : State → Op → Option State) (condition : State → Op → Prop) :
    State → List Op → Prop
  | _, [] => True
  | s, op :: ops =>
    condition s op ∧ ∀ next, step s op = some next → MeetsPartial step condition next ops

instance MeetsPartial.decidable (step : State → Op → Option State)
    (condition : State → Op → Prop) [∀ s op, Decidable (condition s op)] :
    ∀ (s : State) (ops : List Op), Decidable (MeetsPartial step condition s ops)
  | _, [] => inferInstanceAs (Decidable True)
  | s, op :: ops =>
    match stepped : step s op with
    | none => decidable_of_iff (condition s op) (by simp [MeetsPartial, stepped])
    | some next =>
      have := MeetsPartial.decidable step condition next ops
      decidable_of_iff (condition s op ∧ MeetsPartial step condition next ops)
        (by simp [MeetsPartial, stepped])

variable {stepP : State → Op → Option State}

/-- **A partial run that meets the condition ends, in a state with the
invariant**, when a step that meets the condition does. -/
theorem MeetsPartial.invariant (keeps : ∀ s op, P s → condition s op → Returns (stepP s op) P)
    (start : P s) (meets : MeetsPartial stepP condition s ops) :
    Returns (runPartial stepP s ops) P := by
  induction ops generalizing s with
  | nil => exact ⟨s, rfl, start⟩
  | cons op ops ih =>
    obtain ⟨next, stepped, kept⟩ := keeps s op start meets.1
    obtain ⟨last, ran, holds⟩ := ih kept (meets.2 next stepped)
    exact ⟨last, by simp [runPartial, stepped, ran], holds⟩

/-- A partial run that meets the condition also meets every other condition that follows from
it in states with an invariant its steps keep. -/
theorem MeetsPartial.of_invariant
    (keeps : ∀ s op next, P s → condition s op → stepP s op = some next → P next)
    (gives : ∀ s op, P s → condition s op → other s op) (start : P s)
    (meets : MeetsPartial stepP condition s ops) : MeetsPartial stepP other s ops := by
  induction ops generalizing s with
  | nil => exact trivial
  | cons op ops ih =>
    refine ⟨gives s op start meets.1, fun next stepped => ?_⟩
    exact ih (keeps s op next start meets.1 stepped) (meets.2 next stepped)

/-- What holds of every operation of a run can be added to the condition it meets. -/
theorem MeetsPartial.and_of_mem {Q : Op → Prop} (all : ∀ op ∈ ops, Q op)
    (meets : MeetsPartial stepP condition s ops) :
    MeetsPartial stepP (fun s op => Q op ∧ condition s op) s ops := by
  induction ops generalizing s with
  | nil => exact trivial
  | cons op ops ih =>
    refine ⟨⟨all op mem_cons_self, meets.1⟩, fun next stepped => ?_⟩
    exact ih (forall_mem_cons.mp all).2 (meets.2 next stepped)

theorem MeetsPartial.invariant_of_some
    (keeps : ∀ s op next, P s → condition s op → stepP s op = some next → P next) {last : State}
    (start : P s) (meets : MeetsPartial stepP condition s ops)
    (ran : runPartial stepP s ops = some last) : P last := by
  induction ops generalizing s with
  | nil =>
    cases ran
    exact start
  | cons op ops ih =>
    obtain ⟨next, stepped, rest⟩ := Option.bind_eq_some_iff.mp ran
    exact ih (keeps s op next start meets.1 stepped) (meets.2 next stepped) rest

end FunsOS.Foundation
