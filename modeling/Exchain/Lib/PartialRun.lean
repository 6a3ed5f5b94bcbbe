import Exchain.Lib.Fallible

namespace PartialRun

variable {ε σ τ ι : Type}

def run (step : σ → ι → Except ε σ) (s : σ) (is : List ι) : Except ε σ := is.foldlM step s

variable {guard : σ → ι → Prop} {i : ι} {is js : List ι} {related : σ → τ → Prop} {s t : σ}
  {step : σ → ι → Except ε σ}

@[simp] theorem run_nil : run step s [] = .ok s := rfl

theorem run_cons : run step s (i :: is) = (step s i >>= fun t => run step t is) := by
  simp [run]

theorem run_cons_ok (done : run step s (i :: is) = .ok t) :
    ∃ u, step s i = .ok u ∧ run step u is = .ok t := by
  rw [run_cons] at done
  exact Fallible.bind_eq_ok.mp done

theorem run_append : run step s (is ++ js) = (run step s is >>= fun t => run step t js) :=
  List.foldlM_append

theorem run_append_ok (done : run step s (is ++ js) = .ok t) :
    ∃ u, run step s is = .ok u ∧ run step u js = .ok t := by
  rw [run_append] at done
  exact Fallible.bind_eq_ok.mp done

/-- Every step of the run meets the condition in the state it is taken in. -/
def Guarded (step : σ → ι → Except ε σ) (guard : σ → ι → Prop) : σ → List ι → Prop
  | _, [] => True
  | s, i :: is => guard s i ∧ ∀ t, step s i = .ok t → Guarded step guard t is

theorem Guarded.cons_ok (meets : guard s i) (first : step s i = .ok t) (rest : Guarded step guard t is) :
    Guarded step guard s (i :: is) := by
  refine ⟨meets, fun u done => ?_⟩
  cases first.symm.trans done
  exact rest

theorem Guarded.mono {guard' : σ → ι → Prop}
    (guarded : Guarded step guard s is) (weaker : ∀ s i, guard s i → guard' s i) :
    Guarded step guard' s is := by
  induction is generalizing s with
  | nil => trivial
  | cons i rest ih => exact ⟨weaker s i guarded.1, fun t done => ih (guarded.2 t done)⟩

theorem Guarded.of_append (guarded : Guarded step guard s (is ++ js)) : Guarded step guard s is := by
  induction is generalizing s with
  | nil => trivial
  | cons i rest ih => exact ⟨guarded.1, fun t done => ih (guarded.2 t done)⟩

instance decidableGuarded (step : σ → ι → Except ε σ) (guard : σ → ι → Prop)
    [∀ s i, Decidable (guard s i)] : ∀ s is, Decidable (Guarded step guard s is)
  | _, [] => .isTrue trivial
  | s, i :: is =>
    match first : step s i with
    | .error _ => decidable_of_iff (guard s i) (by simp [Guarded, first])
    | .ok t =>
      have := decidableGuarded step guard t is
      decidable_of_iff (guard s i ∧ Guarded step guard t is) (by simp [Guarded, first])

/-- What every step that meets the condition keeps holds after the run. -/
theorem Guarded.keeps {step : σ → ι → Except ε σ} {guard : σ → ι → Prop} {inv : σ → Prop}
    (keep : ∀ s t i, inv s → guard s i → step s i = .ok t → inv t) {s t : σ} {is : List ι}
    (guarded : Guarded step guard s is) (start : inv s) (done : run step s is = .ok t) : inv t := by
  induction is generalizing s with
  | nil => exact Except.ok.inj done ▸ start
  | cons i rest ih =>
    obtain ⟨u, first, done⟩ := run_cons_ok done
    exact ih (guarded.2 u first) (keep s u i start guarded.1 first) done

/-- An invariant under which every step meets the condition. -/
theorem Guarded.of_invariant {inv : σ → Prop}
    (keep : ∀ s t i, inv s → step s i = .ok t → inv t) (meets : ∀ s i, inv s → guard s i)
    (start : inv s) (is : List ι) : Guarded step guard s is := by
  induction is generalizing s with
  | nil => trivial
  | cons i rest ih => exact ⟨meets s i start, fun t done => ih (keep s t i start done)⟩

theorem guarded_of_mem (meets : ∀ i ∈ is, ∀ s, guard s i) : Guarded step guard s is := by
  induction is generalizing s with
  | nil => trivial
  | cons i rest ih =>
    exact ⟨meets i List.mem_cons_self s,
      fun t _ => ih fun j inside => meets j (List.mem_cons_of_mem i inside)⟩

theorem guarded_true (step : σ → ι → Except ε σ) (s : σ) (is : List ι) :
    Guarded step (fun _ _ => True) s is := by
  have keep (s t : σ) (i : ι) (start : True) (_ : step s i = .ok t) : True := start
  exact Guarded.of_invariant keep (fun _ _ _ => trivial) trivial is

theorem run_keeps (inv : σ → Prop) (keep : ∀ s t i, inv s → step s i = .ok t → inv t) (start : inv s)
    (done : run step s is = .ok t) : inv t :=
  (guarded_true step s is).keeps (fun s t i inv _ first => keep s t i inv first) start done

def Agree (related : σ → τ → Prop) : Except ε σ → Except ε τ → Prop
  | .ok s, .ok t => related s t
  | .error e, .error f => e = f
  | _, _ => False

theorem Agree.imp {related' : σ → τ → Prop} {a : Except ε σ} {b : Except ε τ}
    (agree : Agree related a b) (weaken : ∀ s t, related s t → related' s t) : Agree related' a b := by
  cases a with
  | error e =>
    cases b with
    | error | ok => exact agree
  | ok s =>
    cases b with
    | error f => exact agree
    | ok t => exact weaken s t agree

theorem Agree.bind {σ' τ' : Type} {related' : σ' → τ' → Prop}
    {a : Except ε σ} {b : Except ε τ} {f : σ → Except ε σ'} {g : τ → Except ε τ'}
    (agree : Agree related a b)
    (rest : ∀ s t, a = .ok s → related s t → Agree related' (f s) (g t)) :
    Agree related' (a >>= f) (b >>= g) := by
  cases a with
  | error e =>
    cases b with
    | error f => exact agree
    | ok t => exact agree.elim
  | ok s =>
    cases b with
    | error f => exact agree.elim
    | ok t => exact rest s t rfl agree

/-- Step functions that agree on related states agree on runs. -/
theorem Guarded.agree {step₁ : σ → ι → Except ε σ} {step₂ : τ → ι → Except ε τ}
    (keep : ∀ s t i, related s t → guard s i → Agree related (step₁ s i) (step₂ t i)) {t : τ}
    (guarded : Guarded step₁ guard s is) (start : related s t) :
    Agree related (run step₁ s is) (run step₂ t is) := by
  induction is generalizing s t with
  | nil => exact start
  | cons i rest ih =>
    exact (keep s t i start guarded.1).bind fun u v done related =>
      ih (guarded.2 u done) related

end PartialRun
