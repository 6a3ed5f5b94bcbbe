import Exchain.Lib.Run

namespace Interleaving

variable {σ π : Type}

structure State (σ π : Type) where
  shared : σ
  programs : Nat → π

/-- One instruction of the thread, which may change the shared state and what is left
of the thread's own program. -/
def step (exec : Nat → σ → π → σ × π) (s : State σ π) (i : Nat) : State σ π :=
  let r := exec i s.shared (s.programs i)
  ⟨r.1, Function.update s.programs i r.2⟩

variable (exec : Nat → σ → π → σ × π) {s : State σ π} {i : Nat}

@[simp] theorem step_programs_self (s : State σ π) (i : Nat) :
    (step exec s i).programs i = (exec i s.shared (s.programs i)).2 := by
  simp [step]

theorem step_programs_of_ne (s : State σ π) {j : Nat} (other : j ≠ i) :
    (step exec s i).programs j = s.programs j := by
  simp [step, other]

theorem fits_step {fits : Nat → σ → π → Prop} {rely : Nat → σ → σ → Prop}
    (stable : ∀ j s s' p, fits j s p → rely j s s' → fits j s' p)
    (own : fits i (exec i s.shared (s.programs i)).1 (exec i s.shared (s.programs i)).2)
    (others : ∀ j, j ≠ i → rely j s.shared (exec i s.shared (s.programs i)).1)
    (before : ∀ j, fits j s.shared (s.programs j)) :
    ∀ j, fits j (step exec s i).shared ((step exec s i).programs j) := by
  intro j
  by_cases same : j = i
  · subst same
    rw [step_programs_self]
    exact own
  · rw [step_programs_of_ne exec s same]
    exact stable j _ _ _ (before j) (others j same)

end Interleaving
