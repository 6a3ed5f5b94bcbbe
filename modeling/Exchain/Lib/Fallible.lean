import Mathlib.Order.Basic

namespace Fallible

variable {ε α β σ : Type}

@[simp] theorem ok_bind (x : α) (f : α → Except ε β) : (Except.ok x >>= f) = f x := rfl

@[simp] theorem error_bind (e : ε) (f : α → Except ε β) : (Except.error e >>= f) = .error e := rfl

variable {f : σ → α → Except ε σ} {x : Except ε α}

theorem bind_eq_ok {f : α → Except ε β} {b : β} :
    (x >>= f) = .ok b ↔ ∃ a, x = .ok a ∧ f a = .ok b := by
  cases x with
  | error e => simp
  | ok a => simp

/-- What comes after a part that succeeded. -/
theorem of_bind {f : α → Except ε β} {b : β} (done : (x >>= f) = .ok b) : ∃ a, f a = .ok b := by
  obtain ⟨a, -, after⟩ := bind_eq_ok.mp done
  exact ⟨a, after⟩

theorem exists_eq_ok (ok : x.isOk = true) : ∃ a, x = .ok a := by
  cases x with
  | error e => cases ok
  | ok a => exact ⟨a, rfl⟩

/-- A result that is computed and looked at. -/
theorem exists_ok_of_map {f : α → β} {b : β} (seen : x.toOption.map f = some b) :
    ∃ a, x = .ok a ∧ f a = b := by
  cases x with
  | error e => cases seen
  | ok a => exact ⟨a, rfl, Option.some.inj seen⟩

theorem foldlM_cons_ok {a : α} {l : List α} {s t : σ} :
    (a :: l).foldlM f s = .ok t ↔ ∃ u, f s a = .ok u ∧ l.foldlM f u = .ok t := by
  rw [List.foldlM_cons, bind_eq_ok]

/-- A loop whose steps do not fail. -/
theorem foldlM_ok (f : σ → α → σ) (s : σ) (l : List α) :
    l.foldlM (fun s a => (Except.ok (f s a) : Except ε σ)) s = .ok (l.foldl f s) := by
  induction l generalizing s with
  | nil => rfl
  | cons a rest ih => exact ih (f s a)

/-- What holds between the states around every element holds around the whole list. -/
theorem foldlM_within {R : σ → σ → Prop} (refl : ∀ s, R s s)
    (trans : ∀ {s t u}, R s t → R t u → R s u) {l : List α}
    (each : ∀ a ∈ l, ∀ s t, f s a = .ok t → R s t) {s t : σ} (done : l.foldlM f s = .ok t) :
    R s t := by
  induction l generalizing s with
  | nil =>
    obtain rfl := Except.ok.inj done
    exact refl s
  | cons a rest ih =>
    obtain ⟨u, first, later⟩ := foldlM_cons_ok.mp done
    exact trans (each a List.mem_cons_self s u first)
      (ih (fun b inside => each b (List.mem_cons_of_mem a inside)) later)

end Fallible
