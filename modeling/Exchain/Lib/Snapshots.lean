import Mathlib.Data.List.Basic

namespace Snapshots

open List

structure Mark where
  id : Nat
  length : Nat
  deriving DecidableEq

/-- Ids and lengths grow towards the newer marks, and stay below the next id and the log. -/
structure Stacked (next length : Nat) (marks : List Mark) : Prop where
  ordered : marks.Pairwise fun newer older => older.id < newer.id ∧ older.length ≤ newer.length
  bounded : ∀ mark ∈ marks, mark.id < next ∧ mark.length ≤ length

/-- The mark of an id with the marks below it. -/
def find (id : Nat) : List Mark → Option (Mark × List Mark)
  | [] => none
  | mark :: older =>
    if id < mark.id then find id older
    else if mark.id = id then some (mark, older)
    else none

theorem stacked_nil (next length : Nat) : Stacked next length [] := ⟨List.Pairwise.nil, by simp⟩

variable {id : Nat}

theorem find_eq_some {marks older : List Mark} {mark : Mark}
    (found : find id marks = some (mark, older)) :
    mark.id = id ∧ ∃ newer, marks = newer ++ mark :: older := by
  induction marks with
  | nil => simp [find] at found
  | cons first rest ih =>
    rw [find] at found
    split at found
    · obtain ⟨same, newer, rfl⟩ := ih found
      exact ⟨same, first :: newer, rfl⟩
    split at found
    · rename_i same
      obtain ⟨rfl, rfl⟩ := Prod.mk.injEq .. ▸ Option.some.inj found
      exact ⟨same, [], rfl⟩
    · simp at found

namespace Stacked

variable {next length : Nat} {marks older : List Mark} {mark : Mark}

theorem find_append {newer : List Mark} (stacked : Stacked next length (newer ++ mark :: older)) :
    find mark.id (newer ++ mark :: older) = some (mark, older) := by
  obtain ⟨ordered, -⟩ := stacked
  induction newer with
  | nil => simp [find]
  | cons _ _ ih =>
    obtain ⟨above, below⟩ := pairwise_cons.mp ordered
    rw [cons_append, find, if_pos (above mark (by simp)).1, ih below]

variable (stacked : Stacked next length marks)

include stacked

theorem push : Stacked (next + 1) length (⟨next, length⟩ :: marks) := by
  refine ⟨pairwise_cons.mpr ⟨fun other inside => stacked.bounded other inside,
    stacked.ordered⟩, ?_⟩
  intro other inside
  rcases mem_cons.mp inside with rfl | old
  · exact ⟨Nat.lt_succ_self _, Nat.le_refl _⟩
  · have bound := stacked.bounded other old
    exact ⟨by omega, bound.2⟩

theorem grow {longer : Nat} (le : length ≤ longer) : Stacked next longer marks :=
  ⟨stacked.ordered, fun other inside =>
    ⟨(stacked.bounded other inside).1, Nat.le_trans (stacked.bounded other inside).2 le⟩⟩

theorem find_mem (inside : mark ∈ marks) : ∃ older, find mark.id marks = some (mark, older) := by
  obtain ⟨_, older, rfl⟩ := append_of_mem inside
  exact ⟨older, find_append stacked⟩

theorem find_next : find next marks = none := by
  cases marks with
  | nil => rfl
  | cons first rest =>
    have below := (stacked.bounded first mem_cons_self).1
    rw [find, if_neg (by omega), if_neg (by omega)]

variable (found : find id marks = some (mark, older))
include found

/-- Going back to a mark leaves a stack over the shorter log. -/
theorem rewind : Stacked next mark.length older := by
  obtain ⟨-, _, rfl⟩ := find_eq_some found
  have ordered := (pairwise_append.mp stacked.ordered).2.1
  obtain ⟨above, below⟩ := pairwise_cons.mp ordered
  refine ⟨below, fun other inside => ⟨(stacked.bounded other ?_).1, (above other inside).2⟩⟩
  simp [inside]

theorem found_bounded : mark.id < next ∧ mark.length ≤ length := by
  obtain ⟨-, _, rfl⟩ := find_eq_some found
  exact stacked.bounded mark (by simp)

/-- A mark left by going back lies below the one gone back to. -/
theorem below_found {other : Mark} (left : other ∈ older) :
    other ∈ marks ∧ other.length ≤ mark.length := by
  obtain ⟨-, _, rfl⟩ := find_eq_some found
  have ordered := (pairwise_append.mp stacked.ordered).2.1
  exact ⟨by simp [left], ((pairwise_cons.mp ordered).1 other left).2⟩

end Stacked

end Snapshots
