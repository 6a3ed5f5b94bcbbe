import Mathlib.Order.Basic

namespace Overlay

variable {κ ν : Type}

/-- What a change says about a key: nothing, or what the key maps to now. -/
abbrev Delta (κ ν : Type) := κ → Option (Option ν)

/-- A newer change in front of an older one. -/
def atop (newer older : Delta κ ν) : Delta κ ν := fun k => (newer k).or (older k)

/-- The map that a change turns another one into. -/
def on (change : Delta κ ν) (base : κ → Option ν) : κ → Option ν := fun k => (change k).getD (base k)

def silent : Delta κ ν := fun _ => none

variable (change : Delta κ ν)

@[simp] theorem atop_silent : atop change silent = change := by
  funext k
  simp [atop, silent]

@[simp] theorem silent_on (base : κ → Option ν) : on silent base = base := rfl

theorem atop_on (newer older : Delta κ ν) (base : κ → Option ν) :
    on (atop newer older) base = on newer (on older base) := by
  funext k
  cases said : newer k <;> simp [on, atop, said]

theorem on_on (base : κ → Option ν) : on change (on change base) = on change base := by
  funext k
  cases said : change k <;> simp [on, said]

end Overlay
