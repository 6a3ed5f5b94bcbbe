import Mathlib.Logic.Function.Basic

/-! A cache in front of a map, which may lose any entry at any time. -/

namespace ReadThrough

open Function

variable {κ ν : Type} {cache base : κ → Option ν} {key : κ} {value : ν}

/-- What the cache holds, the map behind it holds too. -/
def Agrees (cache base : κ → Option ν) : Prop := ∀ key value, cache key = some value → base key = some value

def drop (dropped : κ → Bool) (cache : κ → Option ν) : κ → Option ν :=
  fun key => if dropped key then none else cache key

theorem agrees_empty (base : κ → Option ν) : Agrees (fun _ => none) base := by
  intro key value held
  cases held

variable (agrees : Agrees cache base)

include agrees

theorem Agrees.drop (dropped : κ → Bool) : Agrees (ReadThrough.drop dropped cache) base := by
  intro key value held
  unfold ReadThrough.drop at held
  split at held
  · cases held
  exact agrees key value held

variable [DecidableEq κ]

/-- The same is written on both sides. -/
theorem Agrees.write (key : κ) (written : Option ν) :
    Agrees (update cache key written) (update base key written) := by
  intro other value held
  by_cases same : other = key
  · subst same
    rw [update_self] at held ⊢
    exact held
  · rw [update_of_ne same] at held ⊢
    exact agrees other value held

theorem Agrees.fill (found : base key = some value) :
    Agrees (update cache key (some value)) base := by
  have filled := agrees.write key (some value)
  rwa [← found, update_eq_self, found] at filled

/-- The map is written, and the cache holds nothing else under the key. -/
theorem Agrees.behind (fresh : ∀ held, cache key = some held → held = value) :
    Agrees cache (update base key (some value)) := by
  intro other held found
  by_cases same : other = key
  · subst same
    rw [update_self, fresh held found]
  · rw [update_of_ne same]
    exact agrees other held found

end ReadThrough
