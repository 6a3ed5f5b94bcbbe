import Exchain.Evm.JournalRevert

namespace Exchain.Evm

open Snapshots CommitStateDB

/-- The part of the state database on which the validity of snapshots depends. -/
structure Revisions where
  nextRevisionID : Nat
  entries : Nat
  validRevisions : List Mark

namespace Revisions

variable {s t : Revisions}

def Stacked (s : Revisions) : Prop := Snapshots.Stacked s.nextRevisionID s.entries s.validRevisions

def snapshot (s : Revisions) : Revisions :=
  ⟨s.nextRevisionID + 1, s.entries, ⟨s.nextRevisionID, s.entries⟩ :: s.validRevisions⟩

/-- No result is the panic for an id that is not valid, or no longer. -/
def revertToSnapshot (s : Revisions) (revID : Nat) : Option Revisions :=
  (find revID s.validRevisions).map fun found => ⟨s.nextRevisionID, found.1.length, found.2⟩

def clearJournalAndRefund (s : Revisions) : Revisions := ⟨s.nextRevisionID, 0, []⟩

theorem revertToSnapshot_own (stacked : t.Stacked)
    (kept : s.snapshot.validRevisions <:+ t.validRevisions) :
    ∃ u, t.revertToSnapshot s.nextRevisionID = some u ∧ u.Stacked ∧
      u.validRevisions = s.validRevisions := by
  obtain ⟨_, split⟩ := kept
  have found : find s.nextRevisionID t.validRevisions =
      some (⟨s.nextRevisionID, s.entries⟩, s.validRevisions) := by
    unfold Revisions.Stacked at stacked
    rw [← split] at stacked ⊢
    exact stacked.find_append
  exact ⟨_, congrArg _ found, stacked.rewind found, rfl⟩

end Revisions

def CommitStateDB.revisions (s : CommitStateDB) : Revisions :=
  ⟨s.nextRevisionID, s.journal.entries.length, s.validRevisions⟩

/-- After any operations, the state database reverts the same ids, to the same valid ones, and panics
for the others. -/
theorem revisions_revertToSnapshot {cfg : Config} {db : Db} {ops : List Op} {s : CommitStateDB}
    (ran : (newCommitStateDB db 0 0 0).run cfg ops = .ok s) (revID : Nat) :
    s.revisions.Stacked ∧ (∀ t, s.revertToSnapshot cfg revID = .ok t →
      s.revisions.revertToSnapshot revID = some t.revisions) ∧
    (s.revisions.revertToSnapshot revID = none →
      s.revertToSnapshot cfg revID = .error .revisionCannotBeReverted) := by
  have empty : (newCommitStateDB db 0 0 0).Stacked := stacked_nil 0 0
  have stacked := PartialRun.run_keeps CommitStateDB.Stacked (fun _ _ _ => stacked_step) empty ran
  refine ⟨stacked, ?_, ?_⟩
  · intro t done
    obtain ⟨_, _, _, found, unwound, rfl⟩ := revertToSnapshot_eq_ok done
    have bound := (stacked.found_bounded found).2
    simp [Revisions.revertToSnapshot, revisions, found, unwind_nextRevisionID unwound]
    omega
  · intro invalid
    have missing : find revID s.validRevisions = none := Option.map_eq_none_iff.mp invalid
    rw [CommitStateDB.revertToSnapshot, missing]

theorem revisions_reverted_twice : let cfg : Config := ⟨false, fun _ => 0, fun _ => false⟩
    let db : Db := ⟨⟨fun _ => none, fun _ _ => 0, fun _ => none⟩, ⟨fun _ _ => 0, fun _ => none⟩⟩
    ∃ s, (newCommitStateDB db 0 0 0).run cfg [.snapshot, .revertToSnapshot 0] = .ok s ∧
      s.revertToSnapshot cfg 0 = .error .revisionCannotBeReverted := by
  intro cfg db
  have ran : (newCommitStateDB db 0 0 0).run cfg [.snapshot, .revertToSnapshot 0] = .ok _ := rfl
  exact ⟨_, ran, (revisions_revertToSnapshot ran 0).2.2 rfl⟩

/-- What a run of the interpreter does: entries in the journal, and calls with their own snapshot,
reverted when they fail. A panic ends the run within calls that are not reverted. -/
inductive CallTree
  | done
  | entry (rest : CallTree)
  | call (body : CallTree) (fails : Bool) (rest : CallTree)

def CallTree.run : CallTree → Revisions → Option Revisions
  | done, s => some s
  | entry rest, s => rest.run { s with entries := s.entries + 1 }
  | call body fails rest, s => do
    let t ← body.run s.snapshot
    let u ← if fails then t.revertToSnapshot s.nextRevisionID else some t
    rest.run u

/-- Nested calls revert live ids only, and leave the snapshots taken before them. -/
theorem CallTree.run_spec (calls : CallTree) {s : Revisions} (stacked : s.Stacked) :
    ∃ t, calls.run s = some t ∧ t.Stacked ∧ s.validRevisions <:+ t.validRevisions := by
  induction calls generalizing s with
  | done => exact ⟨s, rfl, stacked, List.suffix_rfl⟩
  | entry rest ih => exact ih (stacked.grow (Nat.le_succ _))
  | call _ fails _ ihBody ihRest =>
    obtain ⟨_, ran, stackedBody, kept⟩ := ihBody (s := s.snapshot) stacked.push
    cases fails with
    | false =>
      obtain ⟨u, later, stackedRest, keptRest⟩ := ihRest stackedBody
      exact ⟨u, by simp [run, ran, later], stackedRest,
        ((List.suffix_cons _ _).trans kept).trans keptRest⟩
    | true =>
      obtain ⟨_, reverted, stackedBack, back⟩ := Revisions.revertToSnapshot_own stackedBody kept
      obtain ⟨v, later, stackedRest, keptRest⟩ := ihRest stackedBack
      exact ⟨v, by simp [run, ran, reverted, later], stackedRest, back ▸ keptRest⟩

/-- How the body of `TransitionDb` ends: refused for its intrinsic gas or overrides, disabled by the
params or the whitelist, by a panic, or with the interpreter's result. -/
inductive Ending
  | refused
  | disabled
  | panics
  | returns (fails : Bool)

structure Execution where
  simulate : Bool
  calls : CallTree
  ending : Ending
  gasLimit : Nat
  /-- The gas used, times the factor of the contract. -/
  gasConsumed : Nat
  /-- What the gas meter of the transaction has left before the gas used is charged. -/
  gasLeft : Nat
  hasTxHash : Bool
  /-- The state is committed, or in serial delivery its root computed. -/
  finalises : Bool

namespace Execution

variable (e : Execution) (fails : Bool)

def failed : Bool := fails || e.gasLimit < e.gasConsumed

/-- A panic that reaches the deferred recover after the body: out of gas by the factor or the meter,
in the deferred functions, or a missing transaction hash. -/
def latePanic : Bool :=
  fails && e.gasLimit < e.gasConsumed || e.gasLeft < min e.gasConsumed e.gasLimit ||
    !e.failed fails && !e.hasTxHash

def undo (preSSId : Nat) (s : Revisions) : Option Revisions :=
  if e.simulate then some s else s.revertToSnapshot preSSId

def transitionDb (s : Revisions) : Option Revisions := do
  let t ← e.calls.run s.snapshot
  match e.ending with
  | .refused => some t
  | .disabled | .panics => e.undo s.nextRevisionID t
  | .returns fails =>
    let u ← if e.failed fails then e.undo s.nextRevisionID t
      else some (if e.finalises && !e.simulate then t.clearJournalAndRefund else t)
    if e.latePanic fails then e.undo s.nextRevisionID u else some u

/-- No revert meets an invalid id, unless a late panic finds the snapshot reverted or cleared. -/
theorem transitionDb_isSome_iff {s : Revisions} (stacked : s.Stacked) :
    (e.transitionDb s).isSome ↔ e.simulate = true ∨ ∀ fails, e.ending = .returns fails →
      e.latePanic fails = true → e.failed fails = false ∧ e.finalises = false := by
  obtain ⟨t, ran, stackedRun, kept⟩ := e.calls.run_spec (s := s.snapshot) stacked.push
  obtain ⟨u, reverted, -, back⟩ := Revisions.revertToSnapshot_own stackedRun kept
  have twice : u.revertToSnapshot s.nextRevisionID = none := by
    rw [Revisions.revertToSnapshot, back, stacked.find_next, Option.map_none]
  have cleared : t.clearJournalAndRefund.revertToSnapshot s.nextRevisionID = none := rfl
  rw [transitionDb, ran]
  cases simulated : e.simulate <;> cases ends : e.ending with
  | refused | disabled | panics => simp [undo, simulated, reverted]
  | returns fails =>
    cases failed : e.failed fails <;> cases late : e.latePanic fails <;>
      cases finalises : e.finalises <;>
      simp [undo, simulated, reverted, twice, cleared, failed, late]

/-- A failed call, 2 gas used of 2, with a factor of 2. -/
def failedCall : Execution := ⟨false, .call .done true .done, .returns true, 2, 4, 2, true, true⟩

theorem failedCall_reverts_twice : failedCall.transitionDb ⟨0, 0, []⟩ = none := rfl

theorem transitionDb_isSome_iff_unscaled : Revisions.Stacked ⟨0, 0, []⟩ ∧
      (transitionDb { failedCall with gasConsumed := 2 } ⟨0, 0, []⟩).isSome := by
  have empty : Revisions.Stacked ⟨0, 0, []⟩ := stacked_nil 0 0
  refine ⟨empty, (transitionDb_isSome_iff _ empty).mpr (.inr ?_)⟩
  intro fails ends late
  cases ends
  exact absurd late (by decide)

end Execution

end Exchain.Evm
