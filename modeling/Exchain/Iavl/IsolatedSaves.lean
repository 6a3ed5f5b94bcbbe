import Exchain.Iavl.Isolation

namespace Exchain.Iavl

open Overlay SortedPairs FastNodeChanges List

variable {κ ν : Type} [LinearOrder κ]

namespace SharedTree

theorem updateBranchFastNode_ndb (tree : MutableTree κ ν) :
    tree.updateBranchFastNode.version = tree.version ∧
      tree.updateBranchFastNode.stopped = tree.stopped ∧
      tree.updateBranchFastNode.commitEvent = tree.commitEvent ∧
      tree.updateBranchFastNode.committedHeightQueue = tree.committedHeightQueue ∧
      tree.updateBranchFastNode.ndb.disk = tree.ndb.disk ∧
      tree.updateBranchFastNode.ndb.latestMemoryVersion = tree.ndb.latestMemoryVersion := by
  unfold MutableTree.updateBranchFastNode
  cases tree.root <;> exact ⟨rfl, rfl, rfl, rfl, rfl, rfl⟩

variable {shared : SharedTree κ ν} {tree' : MutableTree κ ν} {version : Nat}

/-- The merge of the changes. An empty tree has only removals, and keeps them. -/
theorem Coherent.merge (cfg : Config κ) (coherent : shared.Coherent)
    (idle : shared.saving = .idle) : Coherent { shared with
      tree := shared.tree.updateBranchFastNode
      saving := .merged (shared.tree.nextVersion cfg) } := by
  have newer := shared.tree.lt_nextVersion cfg
  obtain ⟨version, stopped, event, queue, disk, latestMemory⟩ := updateBranchFastNode_ndb shared.tree
  have ahead : shared.ahead = shared.tree := by
    simp only [SharedTree.ahead, target, idle]
  have flow := coherent.flow
  rw [ahead] at flow
  have announced : announced { shared with
      tree := shared.tree.updateBranchFastNode
      saving := .merged (shared.tree.nextVersion cfg) } = shared.announced := by
    simp only [SharedTree.announced, idle, version]
  have now : shared.announced = shared.tree.version := by simp only [SharedTree.announced, idle]
  have unmerged : ¬ shared.Merging := by simp [Merging, idle]
  have below : shared.tree.updateBranchFastNode.Below shared.tree.version := by
    unfold MutableTree.Below
    rw [event, queue]
    exact flow.below
  refine ⟨⟨[], flow.updateBranch newer, ?_, fun _ => rfl⟩, stopped.trans coherent.running, ?_, ?_, ?_,
    ?_, ?_, ?_, coherent.zero, by simp, ?_, ?_, ?_, ?_, ?_, ?_⟩
  · intro e busy phase
    simp only [SharedTree.ahead, event, queue] at busy ⊢
    exact coherent.fresh e busy phase
  · intro version' saving
    simp only [Saving.merged.injEq, reduceCtorEq, or_false] at saving
    rw [version, ← saving]
    exact ⟨newer, below⟩
  · intro _ present
    unfold MutableTree.updateBranchFastNode at present ⊢
    cases root : shared.tree.root with
    | none => simp [root] at present
    | some node => exact get_new
  · intro k node added
    unfold MutableTree.updateBranchFastNode at added
    cases root : shared.tree.root with
    | none =>
      simp only [root] at added
      have mirrors := flow.mirrors k
      simp [root, rootContents, MutableTree.live, on, added] at mirrors
    | some old => simp [root, silent] at added
  · rw [announced, ← coherent.latest]
    simp only [NodeDB.getLatestMemoryVersion, latestMemory, disk]
  · rw [latestMemory, event]
    exact fun zero => ⟨(coherent.lookedUp zero).1, by simp⟩
  · rw [announced]
    exact coherent.saved
  · -- a change that is merged carries a version above the saved ones
    intro p inside present k node found old
    unfold MutableTree.updateBranchFastNode at found
    cases root : shared.tree.root with
    | none =>
      simp only [root] at found
      exact coherent.truthful p inside present k node found old
    | some top =>
      simp only [root, NodeDB.live, NodeDB.updateBranchForFastNode,
        get_mergeLater, atop_on] at found
      cases said : shared.tree.unsavedFastNodes.get k with
      | none =>
        simp only [on, said] at found
        exact coherent.truthful p inside present k node found old
      | some now =>
        have same : now = some node := by simpa [on, said] using found
        have stamp := (coherent.stamped k node (said.trans (congrArg some same))).2
        have reached := (coherent.saved p inside).1
        omega
  · exact fun settled => absurd ⟨_, rfl⟩ settled
  · rw [disk]
    exact coherent.disk
  · rw [disk]
    exact coherent.roots
  · rw [disk, event]
    exact coherent.event
  · intro reading inside
    obtain ⟨found, known⟩ := coherent.readings reading inside
    refine ⟨found, known.imp (fun key absent newest held => ?_)
      fun changes expanded => ⟨?_, ?_, fun _ settled => absurd ⟨_, rfl⟩ settled⟩⟩
    · rw [announced] at newest
      exact absurd (absent newest held).1 unmerged
    · rw [disk]
      exact expanded.mirrors
    · rw [event]
      exact expanded.event

variable (coherent : shared.Coherent)

include coherent

theorem Coherent.mirrors_live (saving : shared.saving ≠ .idle) (present : shared.tree.root ≠ none) :
    Mirrors shared.tree.ndb.live shared.tree.root := by
  refine coherent.flow.mirrors.congr ?_ rfl
  rw [MutableTree.live, ahead]
  rw [coherent.quiet saving present, silent_on]

/-- The merged version becomes the newest in memory. -/
theorem Coherent.announce (merged : shared.saving = .merged version) : Coherent { shared with
      tree := shared.tree.setNdb (shared.tree.ndb.updateLatestMemoryVersion version)
      saving := .announced version
      saved := (version, shared.tree.root) :: shared.saved } := by
  obtain ⟨newer, below⟩ := coherent.newer version (.inl merged)
  have busy : shared.saving ≠ .idle := by simp [merged]
  have now : shared.announced = shared.tree.version := by simp only [SharedTree.announced, merged]
  have older : ∀ p ∈ shared.saved, p.1 < version := fun p inside => by
    have := (coherent.saved p inside).1
    omega
  have reached : shared.tree.ndb.latestMemoryVersion ≤ version := by
    have latest := coherent.latest
    unfold NodeDB.getLatestMemoryVersion at latest
    dsimp only at latest
    split at latest <;> omega
  have largest := max_eq_right reached
  have flow := coherent.flow.announce version
  simp only [ahead, target, merged] at flow
  refine ⟨⟨[], flow, coherent.fresh, fun _ => rfl⟩, coherent.running, ?_, fun _ => coherent.quiet busy,
    ?_, ?_, ?_, ?_, ?_, ?_, ?_, ?_, coherent.disk, ?_, ?_, ?_⟩
  · intro version' saving
    simp only [reduceCtorEq, Saving.announced.injEq, false_or] at saving
    exact saving ▸ ⟨newer, below⟩
  · intro k node added
    exact absurd (coherent.stamped k node added).1 busy
  · simp only [NodeDB.getLatestMemoryVersion, NodeDB.updateLatestMemoryVersion, MutableTree.setNdb,
      largest, SharedTree.announced]
    rw [if_neg (by omega)]
  · simp only [NodeDB.updateLatestMemoryVersion, MutableTree.setNdb]
    omega
  · simp only [forall_mem_cons]
    exact ⟨⟨le_rfl, coherent.flow.sorted⟩,
      fun p inside => ⟨(older p inside).le, (coherent.saved p inside).2⟩⟩
  · simp only [forall_mem_cons]
    exact ⟨fun zero => by omega, coherent.zero⟩
  · intro version' saving
    simp only [Saving.announced.injEq] at saving
    rw [← saving]
    exact mem_cons_self
  · exact coherent.truthful.cons version (coherent.mirrors_live busy)
  · simp only [forall_mem_cons]
    exact fun _ => ⟨fun _ => coherent.mirrors_live busy,
      fun p inside same => absurd same (older p inside).ne⟩
  · exact fun p inside => mem_cons_of_mem _ (coherent.roots p inside)
  · intro event busy
    exact ⟨mem_cons_of_mem _ (coherent.event event busy).1, (coherent.event event busy).2⟩
  · intro reading inside
    obtain ⟨found, known⟩ := coherent.readings reading inside
    have past := older _ found
    refine ⟨mem_cons_of_mem _ found, known.imp (fun key absent newest => ?_)
      fun changes expanded => ⟨expanded.mirrors, expanded.event, fun newest => ?_⟩⟩
    all_goals exact absurd newest past.ne'

/-- A step of a save that has its number announced and changes nothing but how far it is. -/
theorem Coherent.proceed {next : Saving} {treeVersion : Nat}
    (busy : shared.saving ≠ .idle) (unmerged : ¬ shared.Merging)
    (steady : ahead { shared with tree := { shared.tree with version := treeVersion }, saving := next } =
      shared.ahead)
    (same : SharedTree.announced
      { shared with tree := { shared.tree with version := treeVersion }, saving := next } = shared.announced)
    (closed : ∀ version, next ≠ .merged version ∧ next ≠ .announced version) :
    Coherent { shared with tree := { shared.tree with version := treeVersion }, saving := next } := by
  refine ⟨steady ▸ coherent.steady, coherent.running, ?_, fun _ => coherent.quiet busy, ?_,
    coherent.latest.trans same.symm,
    fun zero => ⟨(coherent.lookedUp zero).1, fun version => (closed version).2⟩, same ▸ coherent.saved,
    coherent.zero, fun version is => absurd is (closed version).2, coherent.truthful,
    fun _ => same ▸ coherent.current unmerged, coherent.disk, coherent.roots, coherent.event, ?_⟩
  · intro version phase
    exact absurd phase (not_or.mpr (closed version))
  · intro k node added
    exact absurd (coherent.stamped k node added).1 busy
  · intro reading inside
    obtain ⟨found, known⟩ := coherent.readings reading inside
    refine ⟨found, known.imp (fun key absent newest held => ?_)
      fun changes expanded => ⟨expanded.mirrors, expanded.event, fun newest _ => ?_⟩⟩
    · exact absurd (absent (same.symm.trans newest) held).1 unmerged
    · exact expanded.prePersist (same.symm.trans newest) unmerged

theorem Coherent.skipPersist (announced : shared.saving = .announced version) :
    Coherent { shared with saving := .persisted version } := by
  apply coherent.proceed
  · simp [announced]
  · simp [Merging, announced]
  · simp only [ahead, target, announced]
  · simp only [SharedTree.announced, announced]
  · simp

theorem Coherent.finish (persisted : shared.saving = .persisted version) :
    Coherent { shared with tree := { shared.tree with version := version }, saving := .idle } := by
  apply coherent.proceed
  · simp [persisted]
  · simp [Merging, persisted]
  · simp only [ahead, target, persisted]
  · simp only [SharedTree.announced, persisted]
  · simp

omit coherent

theorem Coherent.awaitCommit (cfg : Config κ) (coherent : shared.Coherent) :
    Coherent { shared with tree := shared.tree.awaitCommit cfg } :=
  MutableTree.keeps_awaitCommit cfg (fun tree => Coherent { shared with tree := tree })
    (fun _ coherent => coherent.commitStep cfg) coherent

/-- What persist changes once the commit goroutine is idle: the event is sent,
with the changes in memory unless the tree is empty. -/
structure Sent (tree tree' : MutableTree κ ν) (event : CommitEvent κ ν) : Prop where
  root : tree'.root = tree.root
  version : tree'.version = tree.version
  unsaved : tree'.unsavedFastNodes = tree.unsavedFastNodes
  stopped : tree'.stopped = tree.stopped
  disk : tree'.ndb.disk = tree.ndb.disk
  latestMemory : tree'.ndb.latestMemoryVersion = tree.ndb.latestMemoryVersion
  live : tree.ndb.tpfv.versions = [] → tree'.ndb.live = tree.ndb.live
  prePersist : ∀ k, tree.ndb.prePersistFastNode.get k = none →
    tree'.ndb.prePersistFastNode.get k = none
  sent : tree'.commitEvent = some event
  rooted : event.root = tree.root
  changes : tree.root ≠ none → event.fnc = tree.ndb.prePersistFastNode
  unchanged : tree.root = none → event.fnc.get = silent

theorem sent_persist {cfg : Config κ} {tree : MutableTree κ ν}
    (done : tree.persist cfg version = .ok tree') :
    ∃ event, event.version = version ∧ Sent (tree.awaitCommit cfg) tree' event := by
  unfold MutableTree.persist at done
  split at done
  · simp at done
  generalize tree.awaitCommit cfg = waiting at done ⊢
  dsimp only at done
  split at done
  · rename_i empty
    cases done
    exact ⟨_, rfl, rfl, rfl, rfl, rfl, rfl, rfl, fun _ => rfl, fun _ => id, rfl, empty.symm,
      fun present => absurd empty present, fun _ => get_new⟩
  rename_i node rooted
  split at done
  · simp at done
  cases done
  refine ⟨_, rfl, rfl, rfl, rfl, rfl, rfl, rfl, fun versions => ?_, ?_, rfl, rooted.symm,
    fun _ => rfl, fun empty => by simp [rooted] at empty⟩
  · simp only [NodeDB.asyncPersistTppStart, NodeDB.updateLatestVersion, NodeDB.live]
    rw [FastNodeChangesWithVersion.said_add (by simp [versions]), get_new, silent_on, atop_on]
  · intro k _
    simp [NodeDB.asyncPersistTppStart, silent]

theorem Coherent.persist (cfg : Config κ) (coherent : shared.Coherent)
    (announced : shared.saving = .announced version)
    (done : shared.tree.persist cfg version = .ok tree') :
    Coherent { shared with tree := tree', saving := .persisted version } := by
  obtain ⟨newer, below⟩ := coherent.newer version (.inr announced)
  have busy : shared.saving ≠ .idle := by simp [announced]
  have unmerged : ¬ shared.Merging := by simp [Merging, announced]
  have steady : MutableTree.Steady { tree' with version := version } := by
    have flow := coherent.flow
    simp only [ahead, target, announced] at flow
    have again := MutableTree.persist_setVersion cfg shared.tree version
    rw [done] at again
    exact MutableTree.Steady.persist cfg flow coherent.fresh (fun _ => rfl) below newer
      (coherent.quiet busy) again.symm
  obtain ⟨_, versioned, sent⟩ := sent_persist done
  have idle := MutableTree.idle_awaitCommit cfg shared.tree
  have waited := coherent.awaitCommit cfg
  generalize shared.tree.awaitCommit cfg = waiting at sent idle waited
  have now : SharedTree.announced { shared with tree := waiting } = version := by
    simp only [SharedTree.announced, announced]
  have versions : waiting.ndb.tpfv.versions = [] := (waited.flow.idle idle).1
  have live := sent.live versions
  have latest := waited.latest
  have saved := waited.saved
  have current := waited.current unmerged
  rw [now] at latest saved current
  -- with nothing else in memory, the changes over the disk are the index
  have onDisk : waiting.ndb.live =
      on waiting.ndb.prePersistFastNode.get waiting.ndb.disk.fast.lookup := by
    rw [NodeDB.live, FastNodeChangesWithVersion.said, versions]
    exact congrArg _ (silent_on _)
  refine ⟨steady, sent.stopped.trans waited.running, by simp, ?_, ?_, ?_, ?_, saved, coherent.zero,
    by simp, ?_, fun _ => ?_, ?_, ?_, ?_, ?_⟩
  · intro _
    rw [sent.root, sent.unsaved]
    exact waited.quiet busy
  · intro k node added
    rw [sent.unsaved] at added
    exact absurd (waited.stamped k node added).1 busy
  · refine Eq.trans ?_ latest
    simp only [NodeDB.getLatestMemoryVersion, sent.latestMemory, sent.disk]
  · intro zero
    rw [sent.latestMemory] at zero
    exact absurd announced ((waited.lookedUp zero).2 version)
  · exact live ▸ waited.truthful
  · exact live ▸ current
  · rw [sent.disk]
    exact waited.disk
  · rw [sent.disk]
    exact waited.roots
  · intro event' busy'
    cases sent.sent.symm.trans busy'
    rw [sent.disk, versioned, sent.rooted]
    refine ⟨waited.recorded version announced, ?_⟩
    by_cases present : waiting.root = none
    · rw [sent.unchanged present]
      exact waited.disk.cons version fun filled => absurd present filled
    · rw [sent.changes present, ← onDisk]
      exact (waited.truthful.subset waited.roots).cons version (waited.mirrors_live busy)
  · intro reading inside
    obtain ⟨found, known⟩ := waited.readings reading inside
    refine ⟨found, known.imp (fun key absent newest held => ?_)
      fun changes expanded => ⟨?_, ?_, fun newest _ k nothing => ?_⟩⟩
    · exact absurd (absent (now.trans newest) held).1 unmerged
    · rw [sent.disk]
      exact expanded.mirrors
    · intro event' busy' early k nothing
      cases sent.sent.symm.trans busy'
      have newest : SharedTree.announced { shared with tree := waiting } = reading.tree.version := by
        have reached := (saved _ found).1
        omega
      have uncovered := expanded.prePersist newest unmerged k nothing
      by_cases present : waiting.root = none
      · rw [sent.unchanged present]
        rfl
      · rw [sent.changes present]
        exact uncovered
    · exact sent.prePersist k (expanded.prePersist (now.trans newest) unmerged k nothing)

theorem ahead_of_idle (idle : shared.saving = .idle) : shared.ahead = shared.tree := by
  simp only [ahead, target, idle]

/-- Set and Remove change the working tree; no saved version sees them. -/
theorem Coherent.edit (coherent : shared.Coherent)
    (idle : shared.saving = .idle) {root : Option (Node κ ν)} {unsaved : FastNodeChanges κ ν}
    (steady : MutableTree.Steady { shared.tree with root := root, unsavedFastNodes := unsaved })
    (stamped : ∀ k node, unsaved.get k = some (some node) →
      shared.tree.version < node.versionLastUpdatedAt) :
    Coherent { shared with tree := { shared.tree with root := root, unsavedFastNodes := unsaved } } := by
  refine ⟨?_, coherent.running, coherent.newer, fun busy => absurd idle busy,
    fun k node added => ⟨idle, stamped k node added⟩, coherent.latest, coherent.lookedUp,
    coherent.saved, coherent.zero, fun version announced => by simp [idle] at announced,
    coherent.truthful, coherent.current, coherent.disk, coherent.roots, coherent.event, ?_⟩
  · rw [ahead_of_idle]
    · exact steady
    · exact idle
  · intro reading inside
    obtain ⟨found, known⟩ := coherent.readings reading inside
    exact ⟨found, known.imp (fun key absent => absent)
      fun changes expanded => ⟨expanded.mirrors, expanded.event, expanded.prePersist⟩⟩

theorem Coherent.set (coherent : shared.Coherent)
    (idle : shared.saving = .idle) {key : κ} {value : Option ν}
    (done : shared.tree.set key value = .ok tree') : Coherent { shared with tree := tree' } := by
  have steady : tree'.Steady := by
    have before := coherent.steady
    rw [ahead_of_idle idle] at before
    exact before.set done
  cases value with
  | none => simp [MutableTree.set] at done
  | some =>
    cases done
    refine coherent.edit idle steady fun k node added => ?_
    rw [get_add] at added
    split at added
    · cases Option.some.inj added
      exact Nat.lt_succ_self _
    · exact (coherent.stamped k node added).2

theorem Coherent.remove {shared : SharedTree κ ν} (coherent : shared.Coherent)
    (idle : shared.saving = .idle) (key : κ) :
    Coherent { shared with tree := shared.tree.remove key } := by
  have steady : (shared.tree.remove key).Steady := by
    have before := coherent.steady
    rw [ahead_of_idle idle] at before
    exact before.remove key
  revert steady
  unfold MutableTree.remove
  split
  · exact fun _ => coherent
  dsimp only
  split
  · exact fun _ => coherent
  intro steady
  refine coherent.edit idle steady fun k node added => ?_
  rw [get_remove] at added
  split at added
  · simp at added
  exact (coherent.stamped k node added).2

end SharedTree

end Exchain.Iavl
