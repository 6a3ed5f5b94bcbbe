import Mathlib.Data.List.Basic

namespace Run

variable {σ ι : Type}

/-- The state a sequence of inputs leads to. -/
def exec (step : σ → ι → σ) (s : σ) (inputs : List ι) : σ := inputs.foldl step s

/-- Every state a run goes through, the first one included. -/
def visited (step : σ → ι → σ) (s : σ) : List ι → List σ
  | [] => [s]
  | i :: rest => s :: visited step (step s i) rest

/-- The guard holds at every step, in the state the step starts from. -/
def Along (step : σ → ι → σ) (guard : σ → ι → Prop) (s : σ) : List ι → Prop
  | [] => True
  | i :: rest => guard s i ∧ Along step guard (step s i) rest

variable (step : σ → ι → σ)

@[simp] theorem exec_nil (s : σ) : exec step s [] = s := rfl

@[simp] theorem exec_cons (s : σ) (i : ι) (rest : List ι) :
    exec step s (i :: rest) = exec step (step s i) rest := rfl

theorem mem_visited_self (s : σ) (inputs : List ι) : s ∈ visited step s inputs := by
  cases inputs <;> simp [visited]

theorem exec_mem_visited (s : σ) (inputs : List ι) :
    exec step s inputs ∈ visited step s inputs := by
  induction inputs generalizing s with
  | nil => simp [visited]
  | cons i rest ih => exact List.mem_cons_of_mem _ (ih (step s i))

variable (inv : σ → Prop)

/-- An invariant kept by every step holds where a run ends. -/
theorem invariant_exec {step : σ → ι → σ}
    (keep : ∀ s i, inv s → inv (step s i)) {s : σ} (start : inv s) (inputs : List ι) :
    inv (exec step s inputs) := by
  induction inputs generalizing s with
  | nil => exact start
  | cons i rest ih => exact ih (keep s i start)

variable {inputs : List ι} {guard : σ → ι → Prop}

/-- An invariant kept by every guarded step holds in every state of a guarded run. -/
theorem invariant_visited {step : σ → ι → σ} (keep : ∀ s i, inv s → guard s i → inv (step s i))
    {s : σ} (start : inv s) (guarded : Along step guard s inputs) :
    ∀ t ∈ visited step s inputs, inv t := by
  induction inputs generalizing s with
  | nil =>
    intro t ht
    rw [visited, List.mem_singleton] at ht
    exact ht ▸ start
  | cons i rest ih =>
    exact List.forall_mem_cons.mpr ⟨start, ih (keep s i start guarded.1) guarded.2⟩

/-- Two step functions that keep a relation lead to related states. -/
theorem related_exec {τ : Type} {step : σ → ι → σ} {step' : τ → ι → τ} (related : σ → τ → Prop)
    (keep : ∀ s t i, related s t → guard s i → related (step s i) (step' t i)) {s : σ} {t : τ}
    (start : related s t) (guarded : Along step guard s inputs) :
    related (exec step s inputs) (exec step' t inputs) := by
  induction inputs generalizing s t with
  | nil => exact start
  | cons i rest ih => exact ih (keep s t i start guarded.1) guarded.2

/-- A guard that is exact for one step is exact for whole runs within a domain. -/
theorem visited_iff_along_within {step : σ → ι → σ} {domain : σ → ι → Prop} {good : σ → Prop} (sound : ∀ s, inv s → good s)
    (keep : ∀ s i, inv s → domain s i → guard s i → inv (step s i))
    (exact_step : ∀ s i, inv s → domain s i → good (step s i) → guard s i)
    {s : σ} (start : inv s) (within : Along step domain s inputs) :
    (∀ t ∈ visited step s inputs, good t) ↔ Along step guard s inputs := by
  induction inputs generalizing s with
  | nil => simpa [visited, Along] using sound s start
  | cons i rest ih =>
    rw [visited, List.forall_mem_cons]
    constructor
    · rintro ⟨-, all⟩
      have allowed := exact_step s i start within.1 (all _ (mem_visited_self step _ rest))
      exact ⟨allowed, (ih (keep s i start within.1 allowed) within.2).mp all⟩
    · rintro ⟨allowed, later⟩
      exact ⟨sound s start, (ih (keep s i start within.1 allowed) within.2).mpr later⟩

theorem along_true (s : σ) (inputs : List ι) : Along step (fun _ _ => True) s inputs := by
  induction inputs generalizing s with
  | nil => trivial
  | cons i rest ih => exact ⟨trivial, ih _⟩

theorem visited_iff_along {step : σ → ι → σ} {good : σ → Prop} (sound : ∀ s, inv s → good s)
    (keep : ∀ s i, inv s → guard s i → inv (step s i))
    (exact_step : ∀ s i, inv s → good (step s i) → guard s i) {s : σ} (start : inv s) :
    (∀ t ∈ visited step s inputs, good t) ↔ Along step guard s inputs :=
  visited_iff_along_within inv sound (fun s i held _ => keep s i held)
    (fun s i held _ => exact_step s i held) start (along_true step s inputs)

end Run
