import Exchain.Iavl.FastIndexRun

/-! Rollback to the copy of the tree that the last save left. The two ways to save take that copy
after or before the version is set. -/

namespace Exchain.Iavl

open PartialRun

variable {κ ν : Type} [LinearOrder κ]

def Op.Mutates : Op κ ν → Prop
  | .set _ _ | .remove _ => True
  | _ => False

namespace MutableTree

/-- SaveVersionSync. It fails unless versions are consecutive. -/
def saveVersionSync (cfg : Config κ) (tree : MutableTree κ ν) : Option (MutableTree κ ν) :=
  let version := tree.nextVersion cfg
  let (latest, ndb) := tree.ndb.getLatestVersion
  if 0 < latest ∧ version ≠ latest + 1 then none
  else
    let root := tree.root.map Node.updateBranch
    let ndb := (ndb.updateLatestVersion version).updateLatestMemoryVersion version
    let ndb := tree.unsavedFastNodes.writes.foldl (NodeDB.noteWrite cfg) ndb
    let disk := ndb.disk.writeBatch ⟨version, root, tree.unsavedFastNodes, .received⟩
    some { tree with
      root := root
      version := version
      unsavedFastNodes := .new
      ndb := { ndb with storageVersion := .fast version, disk := disk } }

/-- SaveVersion: the saved tree, and lastSaved. -/
def save (cfg : Config κ) (async : Bool) (tree : MutableTree κ ν) :
    Option (MutableTree κ ν × ImmutableTree κ ν) :=
  if async then
    -- setNewWorkingTree copies the tree before it sets the version
    (tree.saveVersion cfg).toOption.map fun saved => (saved, ⟨saved.root, tree.version⟩)
  else (tree.saveVersionSync cfg).map fun saved => (saved, saved.immutable)

def rollback (tree : MutableTree κ ν) (lastSaved : ImmutableTree κ ν) : MutableTree κ ν :=
  let last := if 0 < tree.version then lastSaved else ⟨none, 0⟩
  { tree with root := last.root, version := last.version, unsavedFastNodes := .new }

/-- A tree is the saved one again, and a further save makes the next version of it. -/
def Restored (cfg : Config κ) (async : Bool) (saved tree : MutableTree κ ν) : Prop :=
  tree.immutable = saved.immutable ∧ tree.unsavedFastNodes = saved.unsavedFastNodes ∧
    ∃ next last, tree.save cfg async = some (next, last) ∧ next.version = saved.version + 1

variable {cfg : Config κ} {tree saved changed : MutableTree κ ν} {lastSaved : ImmutableTree κ ν}
  {async : Bool} {ops : List (Op κ ν)}

theorem save_spec (saves : tree.save cfg async = some (saved, lastSaved)) :
    saved.version = tree.nextVersion cfg ∧
      lastSaved = ⟨saved.root, if async then tree.version else saved.version⟩ ∧
      (async = false → saved.unsavedFastNodes = .new ∧
        saved.ndb.latestPersistedVersion = saved.version) := by
  unfold save at saves
  split at saves
  · rename_i later
    obtain ⟨_, made, eq⟩ := Option.map_eq_some_iff.mp saves
    cases eq
    refine ⟨?_, by rw [if_pos later], fun sync => absurd later (by simp [sync])⟩
    simp only [saveVersion] at made
    split at made
    · generalize persist cfg _ _ = result at made
      cases result <;> cases made
      rfl
    · cases made
      rfl
  · rename_i now
    obtain ⟨_, made, eq⟩ := Option.map_eq_some_iff.mp saves
    cases eq
    simp only [saveVersionSync] at made
    split at made
    · cases made
    rename_i consecutive
    cases made
    refine ⟨rfl, by rw [if_neg now]; rfl, fun _ => ⟨rfl, ?_⟩⟩
    have kept (writes : List (κ × Option (FastNode ν))) (ndb : NodeDB κ ν) :
        (writes.foldl (NodeDB.noteWrite cfg) ndb).latestPersistedVersion =
          ndb.latestPersistedVersion := by
      induction writes generalizing ndb with
      | nil => rfl
      | cons _ _ ih =>
        refine (ih _).trans ?_
        unfold NodeDB.noteWrite
        split <;> rfl
    refine (kept _ _).trans (max_eq_right ?_)
    simp only [NodeDB.getLatestVersion] at consecutive ⊢
    omega

theorem kept_of_mutations (mutations : Guarded (step cfg) (fun _ op => op.Mutates) saved ops)
    (done : run (step cfg) saved ops = .ok changed) :
    changed.version = saved.version ∧ changed.ndb = saved.ndb := by
  refine @Guarded.keeps _ _ _ _ _ (fun tree => tree.version = saved.version ∧ tree.ndb = saved.ndb)
    (fun tree next op same mutates done => ?_) _ _ _ mutations ⟨rfl, rfl⟩ done
  rw [← same.1, ← same.2]
  cases op with
  | set key value =>
    cases value with
    | none => cases done
    | some =>
      cases done
      exact ⟨rfl, rfl⟩
  | remove key =>
    cases done
    simp only [remove]
    repeat' split
    all_goals exact ⟨rfl, rfl⟩
  | _ => cases mutates

/-- Whatever is changed after a save, Rollback goes back to the saved tree if and only if the save
was synchronous. -/
theorem restored_iff_sync (saves : tree.save cfg async = some (saved, lastSaved))
    (mutations : Guarded (step cfg) (fun _ op => op.Mutates) saved ops)
    (done : run (step cfg) saved ops = .ok changed) :
    Restored cfg async saved (changed.rollback lastSaved) ↔ async = false := by
  obtain ⟨_, rfl, clean⟩ := save_spec saves
  have newer := tree.lt_nextVersion cfg
  obtain ⟨same, ndb⟩ := kept_of_mutations mutations done
  have later : 0 < changed.version := by omega
  cases async with
  | false =>
    obtain ⟨quiet, latest⟩ := clean rfl
    refine iff_of_true ?_ rfl
    simp only [Restored, rollback, if_pos later, immutable, Bool.false_eq_true, if_false]
    refine ⟨trivial, quiet.symm, ?_⟩
    have positive : saved.version ≠ 0 := by omega
    simp [save, saveVersionSync, NodeDB.getLatestVersion, nextVersion, ndb, latest, positive]
  | true =>
    refine iff_of_false (fun restored => ?_) Bool.noConfusion
    simp only [Restored, rollback, if_pos later, immutable] at restored
    have same : tree.version = saved.version := congrArg ImmutableTree.version restored.1
    omega

/-- A key is set and saved as version one; Rollback makes that version zero, so the next save asks
for version one again. -/
theorem rollback_async_behind : ∃ changed saved lastSaved,
    (load blank).set 1 (some 10) = .ok changed ∧
      changed.save pairwise true = some (saved, lastSaved) ∧
      saved.version = 1 ∧ (saved.rollback lastSaved).version = 0 ∧
      (saved.rollback lastSaved).nextVersion pairwise = 1 :=
  ⟨_, _, _, rfl, rfl, rfl, rfl, rfl⟩

theorem restored_iff_sync_blank : ∃ saved lastSaved changed,
    (load blank).save pairwise false = some (saved, lastSaved) ∧
      saved.set 1 (some 10) = .ok changed ∧
      (Restored pairwise false saved (changed.rollback lastSaved) ↔ false = false) :=
  have saves := rfl
  have mutations := (.cons_ok trivial rfl trivial : Guarded _ _ _ [.set 1 (some 10)])
  ⟨_, _, _, saves, rfl, restored_iff_sync saves mutations rfl⟩

end MutableTree

end Exchain.Iavl
