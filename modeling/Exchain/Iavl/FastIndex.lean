import Exchain.Iavl.CommitFlow
import Exchain.Lib.PartialRun

namespace Exchain.Iavl

open Overlay SortedPairs FastNodeChanges MutableTree

variable {κ ν : Type} [LinearOrder κ]

inductive Op (κ ν : Type) where
  | set (key : κ) (value : Option ν)
  | remove (key : κ)
  | get (key : κ)
  | iterate (start stop : Option κ) (ascending : Bool)
  | saveVersion
  | commit
  | stopTree
  | reload
deriving Repr, DecidableEq

namespace MutableTree

/-- One operation of the main goroutine, one step of the commit goroutine, or a new process that
loads the tree from the disk. -/
def step (cfg : Config κ) (tree : MutableTree κ ν) : Op κ ν → Except Halt (MutableTree κ ν)
  | .set key value => tree.set key value
  | .remove key => .ok (tree.remove key)
  | .get key => (tree.get cfg key).map Prod.snd
  | .iterate start stop ascending => (tree.iterator start stop ascending).map Prod.snd
  | .saveVersion => tree.saveVersion cfg
  | .commit => .ok (tree.commitStep cfg)
  | .stopTree => tree.stopTree cfg
  | .reload => .ok (load tree.ndb.disk)

/-- Nothing of the tree's own version is being written when it stops, and no unsaved change is lost:
the version is on disk, the tree is empty, or there are none. A tree is loaded from a version that
is not empty or has no index. -/
def Careful (tree : MutableTree κ ν) : Op κ ν → Prop
  | .stopTree =>
    (∀ event, tree.commitEvent = some event → event.version ≠ tree.version) ∧
      (tree.version ∈ tree.committedHeightQueue ∨ tree.root = none ∨
        ∀ key, tree.unsavedFastNodes.get key = none)
  | .reload => tree.ndb.disk.latestRoot ≠ none ∨ ∀ key, tree.ndb.disk.fast.lookup key = none
  | _ => True

/-- Reads give what the walk from the root gives. -/
structure Faithful (cfg : Config κ) (tree : MutableTree κ ν) : Prop where
  get : ∀ key, ∃ tree', tree.get cfg key = .ok ((tree.immutable.getWithIndex key).2, tree')
  iterator : ∀ start stop ascending, ∃ tree', tree.iterator start stop ascending =
    .ok (newIterator start stop ascending tree.root, tree')

/-- What holds between the operations of a run. -/
def Steady (tree : MutableTree κ ν) : Prop :=
  ∃ behind, tree.Flow behind ∧ tree.Fresh ∧ (tree.stopped = false → behind = [])

variable {behind : List Nat} {bound : Nat} {tree tree' : MutableTree κ ν} {version : Nat}

theorem Steady.faithful (cfg : Config κ) (steady : tree.Steady) : tree.Faithful cfg := by
  obtain ⟨_, flow, -⟩ := steady
  constructor
  · intro key
    obtain ⟨_, done, -⟩ := flow.mirrored.get_eq cfg key
    exact ⟨_, done⟩
  · intro start stop ascending
    obtain ⟨_, done, -⟩ := flow.mirrored.iterator_eq start stop ascending
    exact ⟨_, done⟩

variable {changes unsaved : FastNodeChanges κ ν}

section

variable {root : Option (Node κ ν)} (sorted : ∀ node, root = some node → node.Sorted)
  (mirrors : Mirrors (on unsaved.get tree.ndb.live) root)

include sorted mirrors

theorem Flow.edit (flow : tree.Flow behind) :
    Flow { tree with root := root, unsavedFastNodes := unsaved } behind :=
  { flow with
    sorted := sorted
    mirrors := mirrors
    busy := fun event busy => { flow.busy event busy with } }

theorem Steady.edit (steady : tree.Steady) :
    Steady { tree with root := root, unsavedFastNodes := unsaved } := by
  obtain ⟨behind, flow, fresh, running⟩ := steady
  exact ⟨behind, flow.edit sorted mirrors, fresh, running⟩

end

theorem Steady.set (steady : tree.Steady) {key : κ}
    {value : Option ν} (done : tree.set key value = .ok tree') : tree'.Steady := by
  obtain ⟨_, flow, -⟩ := id steady
  unfold MutableTree.set at done
  cases value with
  | none => simp at done
  | some value =>
    cases done
    -- both the tree and its changes map the key to the value
    have mirrors : ∀ root, rootContents root = put key value (rootContents tree.root) →
        Mirrors (on (tree.unsavedFastNodes.add key ⟨tree.version + 1, value⟩).get tree.ndb.live)
          root := by
      intro root contents k
      rw [contents, lookup_put, flow.mirrors k, on, get_add]
      by_cases same : k = key
      · simp [same]
      · simp only [if_neg same]
        rfl
    cases root : tree.root with
    | none =>
      refine steady.edit ?_ (mirrors _ ?_)
      · rintro node ⟨⟩
        exact Node.sorted_leaf ..
      · simp [rootContents, root, put]
    | some node =>
      have sorted := flow.sorted node root
      have updated := Node.updated_recursiveSet (tree.version + 1) key value node [] sorted
      refine steady.edit ?_ (mirrors _ ?_)
      · rintro _ ⟨⟩
        exact updated.sorted sorted
      · rw [root]
        exact updated.contents

theorem Steady.remove {tree : MutableTree κ ν} (steady : tree.Steady) (key : κ) :
    (tree.remove key).Steady := by
  obtain ⟨_, flow, -⟩ := id steady
  unfold MutableTree.remove
  cases root : tree.root with
  | none => exact steady
  | some node =>
    have sorted := flow.sorted node root
    rcases Node.recursiveRemove_spec (tree.version + 1) key node sorted with removed | missed
    · dsimp only
      rw [if_neg (by simpa using removed.found)]
      refine steady.edit (fun node' self => removed.sorted sorted self) ?_
      have contents : rootContents (node.recursiveRemove (tree.version + 1) key []).newSelf =
          cut key (rootContents tree.root) := by
        rw [root]
        cases self : (node.recursiveRemove (tree.version + 1) key []).newSelf with
        | none => exact (removed.nothing self).symm
        | some node' => exact removed.contents node' self
      intro k
      rw [contents, lookup_cut, flow.mirrors k, on, get_remove]
      by_cases same : k = key
      · simp [same]
      · simp only [if_neg same]
        rfl
    · dsimp only
      rw [if_pos (by simp [missed.eq])]
      exact steady

theorem Flow.setNdb (flow : tree.Flow behind)
    {ndb : NodeDB κ ν} (same : tree.ndb.SameLayers ndb) : (tree.setNdb ndb).Flow behind := by
  have lives : (tree.setNdb ndb).live = tree.live := by
    exact congrArg (on tree.unsavedFastNodes.get) same.live
  refine ⟨flow.sorted, lives ▸ flow.mirrors, same.tpfv ▸ flow.whole, same.disk ▸ flow.disk,
    same.disk ▸ flow.newest, flow.committed, same.prePersist ▸ flow.zero, ?_, ?_⟩
  · intro idle
    obtain ⟨versions, cached⟩ := flow.idle idle
    refine ⟨same.tpfv ▸ versions, fun p inside => ?_⟩
    change ndb.disk.fast.lookup p.1 = some p.2
    rw [same.disk]
    rcases same.cached p inside with listed | both
    · exact cached p listed
    · exact both.2
  intro event busy
  have underway := flow.busy event busy
  refine ⟨underway.reached, underway.apart, same.tpfv ▸ underway.held, same.disk ▸ underway.newest,
    underway.committed, underway.zero, underway.sorted, same.disk ▸ underway.mirrors, ?_⟩
  have holds := underway.phase
  change event.PhaseHolds ndb
  unfold CommitEvent.PhaseHolds NodeDB.CacheOnDisk at holds ⊢
  rw [same.disk]
  split at holds
  · intro p inside
    rcases same.cached p inside with listed | both
    · exact holds p listed
    · exact both.2
  · refine ⟨holds.1, fun p inside => ?_⟩
    rcases same.cached p inside with listed | both
    · exact holds.2 p listed
    · exact .inr (by simpa [on, underway.quiet both.1] using both.2)
  · refine ⟨holds.1, fun p inside => ?_⟩
    rcases same.cached p inside with listed | both
    · exact holds.2 p listed
    · exact both.2

theorem Steady.setNdb (steady : tree.Steady) {ndb : NodeDB κ ν}
    (same : tree.ndb.SameLayers ndb) : (tree.setNdb ndb).Steady := by
  obtain ⟨behind, flow, fresh, running⟩ := steady
  exact ⟨behind, flow.setNdb same, fresh, running⟩

theorem Steady.get (cfg : Config κ) (steady : tree.Steady) {key : κ}
    (done : (tree.get cfg key).map Prod.snd = .ok tree') : tree'.Steady := by
  obtain ⟨_, flow, -⟩ := id steady
  obtain ⟨_, answered, same⟩ := flow.mirrored.get_eq cfg key
  rw [answered] at done
  cases done
  exact steady.setNdb same

theorem Steady.iterator (steady : tree.Steady) {start stop : Option κ} {ascending : Bool}
    (done : (tree.iterator start stop ascending).map Prod.snd = .ok tree') : tree'.Steady := by
  obtain ⟨_, flow, -⟩ := id steady
  obtain ⟨_, answered, same⟩ := flow.mirrored.iterator_eq start stop ascending
  rw [answered] at done
  cases done
  exact steady.setNdb same

theorem Steady.commitStep (cfg : Config κ) (steady : tree.Steady) :
    (tree.commitStep cfg).Steady := by
  obtain ⟨behind, flow, fresh, running⟩ := steady
  refine ⟨behind, flow.commitStep cfg fresh, fresh.commitStep cfg, fun going => running ?_⟩
  rw [← (sameTree_commitStep cfg tree).stopped]
  exact going

/-- No version above a bound has been committed or is being committed. -/
def Below (tree : MutableTree κ ν) (bound : Nat) : Prop :=
  (∀ version ∈ tree.committedHeightQueue, version ≤ bound) ∧
    ∀ event, tree.commitEvent = some event → event.version ≤ bound

theorem Flow.below (flow : tree.Flow behind) : tree.Below tree.version :=
  ⟨flow.committed, fun event busy => (flow.busy event busy).reached⟩

section

variable (cfg : Config κ)

include cfg

theorem Below.commitStep (below : tree.Below bound) : (tree.commitStep cfg).Below bound := by
  refine ⟨?_, fun event' busy' => ?_⟩
  · unfold MutableTree.commitStep
    repeat' split
    all_goals try exact below.1
    rename_i event busy _ _ _
    intro version inside
    rcases mem_pushCommitted inside with listed | rfl
    · exact below.1 version listed
    · exact below.2 event busy
  · obtain ⟨event, busy, version, -⟩ := (commitStep_disk cfg tree).2 event' busy'
    exact version ▸ below.2 event busy

theorem Below.awaitCommit (below : tree.Below bound) : (tree.awaitCommit cfg).Below bound :=
  keeps_awaitCommit cfg (Below · bound) (fun _ below => below.commitStep cfg) below

variable (tree : MutableTree κ ν)

theorem commitStep_setVersion (version : Nat) :
    MutableTree.commitStep cfg { tree with version := version } =
      { tree.commitStep cfg with version := version } := by
  unfold MutableTree.commitStep
  dsimp only
  split
  · rfl
  split
  · split <;> rfl
  · rfl
  · rfl
  · rfl

theorem awaitCommit_setVersion (version : Nat) :
    MutableTree.awaitCommit cfg { tree with version := version } =
      { tree.awaitCommit cfg with version := version } := by
  have alike : Function.Semiconj (fun tree : MutableTree κ ν => { tree with version := version })
      (MutableTree.commitStep cfg) (MutableTree.commitStep cfg) :=
    fun tree => (commitStep_setVersion cfg tree version).symm
  exact (alike.iterate_right tree.stepsLeft tree).symm

theorem persist_setVersion (version : Nat) :
    (tree.persist cfg version).map (fun tree => { tree with version := version }) =
      MutableTree.persist cfg { tree with version := version } version := by
  unfold persist
  dsimp only
  split
  · rfl
  rw [awaitCommit_setVersion cfg tree version]
  cases (tree.awaitCommit cfg).root with
  | none => rfl
  | some node =>
    dsimp only
    split <;> rfl

end

def merged (tree : MutableTree κ ν) (version : Nat) : MutableTree κ ν :=
  let tree := tree.updateBranchFastNode
  { tree with ndb := tree.ndb.updateLatestMemoryVersion version, version := version }

theorem saveVersion_eq (cfg : Config κ) (tree : MutableTree κ ν) : tree.saveVersion cfg =
      if shouldPersist cfg (tree.nextVersion cfg) then
        (tree.merged (tree.nextVersion cfg)).persist cfg (tree.nextVersion cfg)
      else .ok (tree.merged (tree.nextVersion cfg)) := by
  simp only [saveVersion, persist_setVersion]
  rfl

theorem lt_nextVersion (cfg : Config κ) (tree : MutableTree κ ν) :
    tree.version < tree.nextVersion cfg := by
  unfold nextVersion
  split <;> omega

section

variable (flow : tree.Flow behind)

include flow

theorem Flow.grown (newer : tree.version < tree'.version) (disk : tree'.ndb.disk = tree.ndb.disk)
    (tpfv : tree'.ndb.tpfv = tree.ndb.tpfv)
    (cache : tree'.ndb.fastNodeCache = tree.ndb.fastNodeCache)
    (queue : tree'.committedHeightQueue = tree.committedHeightQueue)
    (event : tree'.commitEvent = tree.commitEvent)
    (sorted : ∀ node, tree'.root = some node → node.Sorted)
    (mirrors : Mirrors tree'.live tree'.root) : tree'.Flow behind := by
  have cacheOnDisk : tree.ndb.CacheOnDisk → tree'.ndb.CacheOnDisk := by
    unfold NodeDB.CacheOnDisk
    rw [disk, cache]
    exact id
  refine ⟨sorted, mirrors, tpfv ▸ flow.whole, disk ▸ flow.disk, ?_, ?_, ?_, ?_, ?_⟩
  · rw [disk]
    exact flow.newest.trans newer.le
  · rw [queue]
    exact fun v inside => (flow.committed v inside).trans newer.le
  · intro zero
    omega
  · intro idle
    rw [event] at idle
    exact ⟨tpfv ▸ (flow.idle idle).1, cacheOnDisk (flow.idle idle).2⟩
  · intro e busy
    rw [event] at busy
    have underway := flow.busy e busy
    refine ⟨underway.reached.trans newer.le, underway.apart, tpfv ▸ underway.held,
      disk ▸ underway.newest, queue ▸ underway.committed, underway.zero, underway.sorted,
      disk ▸ underway.mirrors, ?_⟩
    have holds := underway.phase
    unfold CommitEvent.PhaseHolds NodeDB.CacheOnDisk at holds ⊢
    rw [disk, cache]
    exact holds

theorem Flow.updateBranch (newer : tree.version < version) :
    Flow { tree.updateBranchFastNode with version := version } behind := by
  unfold updateBranchFastNode
  cases root : tree.root with
  | none => exact flow.grown newer rfl rfl rfl rfl rfl flow.sorted flow.mirrors
  | some node =>
    have same := node.reshaped_updateBranch
    refine flow.grown newer rfl rfl rfl rfl rfl ?_ ?_
    · rintro _ ⟨⟩
      exact same.sorted (flow.sorted node root)
    have mirrors := flow.mirrors
    rw [root] at mirrors
    refine mirrors.congr ?_ same.contents
    simp only [live, NodeDB.live, NodeDB.updateBranchForFastNode,
      get_mergeLater, atop_on, get_new, silent_on]

theorem Flow.announce (version : Nat) : (tree.setNdb (tree.ndb.updateLatestMemoryVersion version)).Flow behind :=
  { flow with busy := fun event busy => { flow.busy event busy with } }

theorem Flow.merged (newer : tree.version < version) : (tree.merged version).Flow behind :=
  (flow.updateBranch newer).announce version

end

variable (cfg : Config κ)

include cfg

theorem Steady.persist (flow : tree.Flow behind) (fresh : tree.Fresh)
    (running : tree.stopped = false → behind = []) (below : tree.Below bound)
    (newer : bound < tree.version) (unsaved : tree.root ≠ none → tree.unsavedFastNodes.get = silent)
    (done : tree.persist cfg tree.version = .ok tree') : tree'.Steady := by
  unfold MutableTree.persist at done
  cases going : tree.stopped with
  | true => simp [going] at done
  | false =>
    rw [going, if_neg Bool.false_ne_true] at done
    obtain rfl := running going
    have same := sameTree_awaitCommit cfg tree
    have waited := flow.awaitCommit cfg fresh
    have bounded := below.awaitCommit cfg
    have idle := idle_awaitCommit cfg tree
    generalize tree.awaitCommit cfg = waiting at same waited bounded idle done
    obtain ⟨versions, cached⟩ := waited.idle idle
    have uncommitted : tree.version ∉ waiting.committedHeightQueue := fun inside => by
      have := bounded.1 _ inside
      omega
    have said : waiting.ndb.tpfv.said = silent := by
      rw [FastNodeChangesWithVersion.said, versions]
      rfl
    have queue := fun v inside => (bounded.1 v inside).trans newer.le
    have latest := same.version ▸ waited.newest
    have positive : tree.version ≠ 0 := by omega
    dsimp only at done
    split at done
    · -- an empty version: no changes go with it
      cases done
      refine ⟨[], { waited with idle := by simp, busy := ?_ }, ?_, fun _ => rfl⟩
      · rintro _ ⟨⟩
        exact ⟨same.version.ge, by simp, .inr ⟨versions, get_new⟩, latest, queue,
          fun zero => absurd zero positive, by simp, fun present => absurd rfl present, cached⟩
      · rintro _ ⟨⟩ -
        exact uncommitted
    rename_i node rooted
    split at done
    · simp at done
    cases done
    have quiet : waiting.unsavedFastNodes.get = silent := by
      rw [same.unsaved]
      exact unsaved (by simp [← same.root, rooted])
    have onDisk : waiting.live =
        on waiting.ndb.prePersistFastNode.get waiting.ndb.disk.fast.lookup := by
      rw [live, quiet, silent_on, NodeDB.live, said, silent_on]
    have mirrors := waited.mirrors
    rw [onDisk, rooted] at mirrors
    have saidNow : (waiting.ndb.tpfv.add tree.version waiting.ndb.prePersistFastNode).said =
        waiting.ndb.prePersistFastNode.get := by
      rw [FastNodeChangesWithVersion.said_add (by simp [versions]), said, atop_silent]
    refine ⟨[], ⟨waited.sorted, ?_, waited.whole.add _ _, waited.disk, waited.newest,
      waited.committed, ?_, by simp, ?_⟩, ?_, fun _ => rfl⟩
    · refine waited.mirrors.congr ?_ rfl
      rw [onDisk]
      simp only [live, NodeDB.live, NodeDB.asyncPersistTppStart,
        NodeDB.updateLatestVersion, quiet, silent_on, get_new, saidNow]
    · exact fun _ => get_new
    · rintro _ ⟨⟩
      refine ⟨same.version.ge, by simp, .inl ⟨?_, ?_⟩, latest, queue,
        fun zero => absurd zero positive, ?_, fun _ => mirrors, cached⟩
      · simp [NodeDB.asyncPersistTppStart, NodeDB.updateLatestVersion,
          FastNodeChangesWithVersion.add, versions]
      · simp [NodeDB.asyncPersistTppStart, FastNodeChangesWithVersion.add]
      · rintro _ ⟨⟩
        exact waited.sorted node rooted
    · rintro _ ⟨⟩ -
      exact uncommitted

theorem Steady.saveVersion (steady : tree.Steady)
    (done : tree.saveVersion cfg = .ok tree') : tree'.Steady := by
  obtain ⟨behind, flow, fresh, running⟩ := steady
  have newer := tree.lt_nextVersion cfg
  have merged := flow.merged newer
  rw [saveVersion_eq] at done
  set next := tree.merged (tree.nextVersion cfg) with nextIs
  have kept : next.committedHeightQueue = tree.committedHeightQueue ∧ next.commitEvent = tree.commitEvent ∧
      next.stopped = tree.stopped ∧ (next.root ≠ none → next.unsavedFastNodes.get = silent) := by
    rw [nextIs, MutableTree.merged, updateBranchFastNode]
    cases root : tree.root with
    | none => exact ⟨rfl, rfl, rfl, fun present => absurd root present⟩
    | some node => exact ⟨rfl, rfl, rfl, fun _ => get_new⟩
  have freshMerged : next.Fresh := by
    intro event busy phase
    rw [kept.1]
    exact fresh event (kept.2.1 ▸ busy) phase
  have runningMerged := fun going => running (kept.2.2.1 ▸ going)
  have below : next.Below tree.version := by
    refine ⟨?_, ?_⟩
    · rw [kept.1]
      exact flow.below.1
    · rw [kept.2.1]
      exact flow.below.2
  split at done
  · exact Steady.persist cfg merged freshMerged runningMerged below newer kept.2.2.2 done
  · rw [← Except.ok.inj done]
    exact ⟨behind, merged, freshMerged, runningMerged⟩

omit cfg in
theorem handOver_tpfv (tree : MutableTree κ ν) :
    tree.handOver.ndb.tpfv = tree.ndb.tpfv.add tree.version tree.ndb.prePersistFastNode := rfl

omit cfg in
/-- The changes of the tree's version join those in memory, behind the version being written. -/
theorem Flow.handOver (flow : tree.Flow [])
    (apart : ∀ event, tree.commitEvent = some event → event.version ≠ tree.version) :
    tree.handOver.Flow [tree.version] := by
  have absent : tree.version ∉ tree.ndb.tpfv.versions := by
    cases busy : tree.commitEvent with
    | none => simp [(flow.idle busy).1]
    | some event =>
      rcases (flow.busy event busy).held with ⟨versions, -⟩ | ⟨versions, -⟩
      · simpa [versions] using (apart event busy).symm
      · simp [versions]
  refine ⟨flow.sorted, flow.mirrors.congr ?_ rfl, flow.whole.add _ _, flow.disk, flow.newest,
    flow.committed, fun _ => get_new, ?_, ?_⟩
  · simp only [MutableTree.handOver, MutableTree.setNdb, live, NodeDB.live,
      NodeDB.asyncPersistTppStart, NodeDB.updateLatestVersion,
      FastNodeChangesWithVersion.said_add absent, get_new, silent_on, atop_on]
  · intro idle
    obtain ⟨versions, cached⟩ := flow.idle idle
    refine ⟨?_, cached⟩
    simp [handOver_tpfv, FastNodeChangesWithVersion.add, versions]
  · intro event busy
    have underway := flow.busy event busy
    have other : event.version ∉ [tree.version] := by simpa using apart event busy
    refine { underway with apart := other, held := ?_ }
    rcases underway.held with ⟨versions, found⟩ | ⟨versions, nothing⟩
    · refine .inl ⟨?_, ?_⟩
      · simp [handOver_tpfv, FastNodeChangesWithVersion.add, versions]
      · simpa [handOver_tpfv, FastNodeChangesWithVersion.add, AList.lookup_insert_if, apart event busy] using found
    · refine .inr ⟨?_, nothing⟩
      simp [handOver_tpfv, FastNodeChangesWithVersion.add, versions]

theorem awaitCommit_skipped {event : CommitEvent κ ν}
    (busy : tree.commitEvent = some event) (phase : event.phase = .received)
    (committed : event.version ∈ tree.committedHeightQueue) :
    tree.awaitCommit cfg = { tree with commitEvent := none } := by
  have first : tree.commitStep cfg = { tree with commitEvent := none } := by
    simp [MutableTree.commitStep, busy, phase, committed]
  have rest : ∀ steps, (MutableTree.commitStep cfg)^[steps] { tree with commitEvent := none } =
      { tree with commitEvent := none } := fun steps => Function.iterate_fixed rfl steps
  have count : tree.stepsLeft = event.fnc.writes.length + 2 + 1 := by
    simp [stepsLeft, busy, phase]
  rw [awaitCommit, count, Function.iterate_succ_apply, first, rest]

/-- Changes in memory that are not those of the event. -/
def Holds (tree : MutableTree κ ν) (version : Nat) (changes : FastNodeChanges κ ν) : Prop :=
  (∀ event, tree.commitEvent = some event → event.version ≠ version) ∧
    tree.ndb.tpfv.fncMap.lookup version = some changes

theorem Holds.commitStep (holds : tree.Holds version changes) :
    (tree.commitStep cfg).Holds version changes := by
  refine ⟨fun event' busy' => ?_, ?_⟩
  · obtain ⟨event, busy, same, -⟩ := (commitStep_disk cfg tree).2 event' busy'
    exact same ▸ holds.1 event busy
  unfold MutableTree.commitStep NodeDB.noteWrite FastNodeChangesWithVersion.remove
  repeat' split
  all_goals try exact holds.2
  rename_i event busy _ _ _
  rw [AList.lookup_erase_if, if_neg (holds.1 event busy).symm]
  exact holds.2

theorem Holds.awaitCommit (holds : tree.Holds version changes) :
    (tree.awaitCommit cfg).Holds version changes :=
  keeps_awaitCommit cfg (Holds · version changes) (fun _ holds => holds.commitStep cfg) holds

theorem Steady.stopTree (steady : tree.Steady)
    (apart : ∀ event, tree.commitEvent = some event → event.version ≠ tree.version)
    (kept : tree.version ∈ tree.committedHeightQueue ∨ tree.root = none ∨
      ∀ key, tree.unsavedFastNodes.get key = none)
    (done : tree.stopTree cfg = .ok tree') : tree'.Steady := by
  obtain ⟨_, flow, fresh, running⟩ := steady
  unfold MutableTree.stopTree at done
  by_cases halted : tree.stopped = true
  · simp [halted] at done
  rw [if_neg halted] at done
  obtain rfl := running (by simpa using halted)
  split at done
  · simp at done
  have same := sameTree_awaitCommit cfg tree.handOver
  have waited := (flow.handOver apart).awaitCommit cfg fresh
  have idle := idle_awaitCommit cfg tree.handOver
  -- a version that was on disk before is still known to be there
  have known : tree.version ∈ tree.committedHeightQueue →
      tree.version ∈ (tree.handOver.awaitCommit cfg).committedHeightQueue := by
    intro inside
    have none_busy : tree.handOver.commitEvent = none := by
      cases busy : tree.commitEvent with
      | none => exact busy
      | some event =>
        have underway := flow.busy event busy
        exact absurd (le_antisymm underway.reached (underway.committed _ inside)) (apart event busy)
    have still : tree.handOver.awaitCommit cfg = tree.handOver := by
      simp [MutableTree.awaitCommit, stepsLeft, none_busy]
    rw [still]
    exact inside
  have holds : tree.handOver.Holds tree.version tree.ndb.prePersistFastNode := by
    refine ⟨apart, ?_⟩
    simp [handOver_tpfv, FastNodeChangesWithVersion.add]
  have held := holds.awaitCommit cfg
  generalize tree.handOver.awaitCommit cfg = waiting at same waited idle known held done
  obtain ⟨versions, cached⟩ := waited.idle idle
  have version : waiting.version = tree.version := same.version
  have root : waiting.root = tree.root := same.root
  cases done
  by_cases committed : tree.version ∈ waiting.committedHeightQueue
  · rw [awaitCommit_skipped cfg rfl rfl committed]
    refine ⟨[tree.version], ?_, ?_, by simp⟩
    · exact { waited with idle := fun _ => ⟨versions, cached⟩, busy := by simp }
    · intro event busy
      simp at busy
  have said : waiting.ndb.tpfv.said = tree.ndb.prePersistFastNode.get := by
    rw [FastNodeChangesWithVersion.said, versions]
    simp [FastNodeChangesWithVersion.saidBy, held.2]
  have emptied : waiting.ndb.prePersistFastNode.get = silent := by
    rw [same.prePersist]
    exact get_new
  have last : Flow { waiting with commitEvent := some tree.lastEvent } [] := by
    refine { waited with idle := by simp, busy := ?_ }
    rintro _ ⟨⟩
    refine ⟨version.ge, by simp, .inl ⟨versions, held.2⟩, version ▸ waited.newest,
      version ▸ waited.committed, flow.zero, flow.sorted, fun present => ?_, cached⟩
    have quiet : waiting.unsavedFastNodes.get = silent := by
      rw [same.unsaved]
      rcases kept with inside | empty | nothing
      · exact absurd (known inside) committed
      · exact absurd empty present
      · exact funext nothing
    refine waited.mirrors.congr ?_ (congrArg rootContents root.symm)
    rw [live, quiet, NodeDB.live, emptied, silent_on, said]
    rfl
  have freshLast : Fresh { waiting with commitEvent := some tree.lastEvent } := by
    rintro _ ⟨⟩ -
    exact committed
  have ended := last.awaitCommit cfg freshLast
  have finished := idle_awaitCommit cfg { waiting with commitEvent := some tree.lastEvent }
  refine ⟨[], ?_, ?_, fun _ => rfl⟩
  · exact { ended with busy := fun event busy => by simp [finished] at busy }
  · intro event busy
    simp [finished] at busy

end MutableTree

end Exchain.Iavl
