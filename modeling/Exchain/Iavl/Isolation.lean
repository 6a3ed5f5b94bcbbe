import Exchain.Iavl.HistoryReads

namespace Exchain.Iavl

open Overlay SortedPairs MutableTree List

variable {κ ν : Type} [LinearOrder κ]

/-- What the index says was last changed by one of the versions or before is what
that version holds. -/
def Truthful (index : κ → Option (FastNode ν)) (versions : List (Nat × Option (Node κ ν))) : Prop :=
  ∀ p ∈ versions, p.2 ≠ none → ∀ k node, index k = some node →
    node.versionLastUpdatedAt ≤ p.1 → (rootContents p.2).lookup k = some node.value

variable {index : κ → Option (FastNode ν)} {root : Option (Node κ ν)}

theorem Truthful.cons {versions : List (Nat × Option (Node κ ν))}
    (truthful : Truthful index versions) (version : Nat)
    (mirrors : root ≠ none → Mirrors index root) : Truthful index ((version, root) :: versions) := by
  intro p inside present k node found old
  rcases mem_cons.mp inside with rfl | inside
  · rw [mirrors present k, found]
    rfl
  · exact truthful p inside present k node found old

theorem Truthful.subset
    {versions versions' : List (Nat × Option (Node κ ν))} (truthful : Truthful index versions)
    (fewer : ∀ p ∈ versions', p ∈ versions) : Truthful index versions' :=
  fun p inside => truthful p (fewer p inside)

theorem Disk.mem_versions_writeBatch {disk : Disk κ ν} {event : CommitEvent κ ν}
    {p : Nat × Option (Node κ ν)} (inside : p ∈ (disk.writeBatch event).versions) :
    p ∈ (event.version, event.root) :: disk.versions := by
  obtain ⟨_, _⟩ := p
  rw [mem_versions, writeBatch, AList.lookup_insert_if] at inside
  split at inside
  · rename_i same
    cases inside
    rw [same]
    exact mem_cons_self
  · exact mem_cons_of_mem _ ((disk.mem_versions _ _).mpr inside)

namespace SharedTree

/-- The version that the tree has or is about to have. -/
def target (shared : SharedTree κ ν) : Nat := match shared.saving with
  | .idle => shared.tree.version
  | .merged version => version
  | .announced version => version
  | .persisted version => version

/-- The tree with the version that it is about to have. -/
def ahead (shared : SharedTree κ ν) : MutableTree κ ν :=
  { shared.tree with version := shared.target }

/-- The changes an iterator has collected: with the disk they make up the index of its version,
until a later version is on disk. -/
structure Expanded (shared : SharedTree κ ν) (tree : ImmutableTree κ ν)
    (changes : FastNodeChanges κ ν) : Prop where
  mirrors : shared.tree.ndb.disk.latestVersion ≤ tree.version →
    Mirrors (on changes.get shared.tree.ndb.disk.fast.lookup) tree.root
  event : ∀ event, shared.tree.commitEvent = some event → event.version ≤ tree.version →
    ∀ k, changes.get k = none → event.fnc.get k = none
  prePersist : shared.announced = tree.version → ¬ shared.Merging →
    ∀ k, changes.get k = none → shared.tree.ndb.prePersistFastNode.get k = none

/-- An absent fast node tells the truth about the newest version, unless the next one is being
merged. -/
def Absent (shared : SharedTree κ ν) (tree : ImmutableTree κ ν) (key : κ) : Prop :=
  shared.announced = tree.version → (rootContents tree.root).lookup key ≠ none →
    shared.Merging ∧ shared.tree.ndb.live key = none

def Knows (shared : SharedTree κ ν) (tree : ImmutableTree κ ν) : Query κ ν → Prop
  | .get _ => True
  | .told _ none => True
  | .told key (some (some node)) =>
    node.versionLastUpdatedAt ≤ tree.version → (rootContents tree.root).lookup key = some node.value
  | .told key (some none) => shared.Absent tree key
  | .iterator _ _ _ => True
  | .trusted _ _ _ => True
  | .expanded _ _ _ changes => shared.Expanded tree changes
  | .value key result => result = .ok (tree.getWithIndex key).2
  | .pairs start stop ascending result => result = .ok (newIterator start stop ascending tree.root)

/-- What holds between the steps. -/
structure Coherent (shared : SharedTree κ ν) : Prop where
  steady : shared.ahead.Steady
  running : shared.tree.stopped = false
  newer : ∀ version, shared.saving = .merged version ∨ shared.saving = .announced version →
    shared.tree.version < version ∧ shared.tree.Below shared.tree.version
  quiet : shared.saving ≠ .idle → shared.tree.root ≠ none →
    shared.tree.unsavedFastNodes.get = silent
  stamped : ∀ k node, shared.tree.unsavedFastNodes.get k = some (some node) →
    shared.saving = .idle ∧ shared.tree.version < node.versionLastUpdatedAt
  latest : shared.tree.ndb.getLatestMemoryVersion.1 = shared.announced
  lookedUp : shared.tree.ndb.latestMemoryVersion = 0 → shared.tree.commitEvent = none ∧
    ∀ version, shared.saving ≠ .announced version
  saved : ∀ p ∈ shared.saved, p.1 ≤ shared.announced ∧ ∀ node, p.2 = some node → node.Sorted
  zero : ∀ p ∈ shared.saved, p.1 = 0 → p.2 = none
  recorded : ∀ version, shared.saving = .announced version →
    (version, shared.tree.root) ∈ shared.saved
  truthful : Truthful shared.tree.ndb.live shared.saved
  current : ¬ shared.Merging → ∀ p ∈ shared.saved, p.1 = shared.announced → p.2 ≠ none →
    Mirrors shared.tree.ndb.live p.2
  disk : Truthful shared.tree.ndb.disk.fast.lookup shared.tree.ndb.disk.versions
  roots : ∀ p ∈ shared.tree.ndb.disk.versions, p ∈ shared.saved
  event : ∀ event, shared.tree.commitEvent = some event → (event.version, event.root) ∈ shared.saved ∧
    Truthful (on event.fnc.get shared.tree.ndb.disk.fast.lookup)
      ((event.version, event.root) :: shared.tree.ndb.disk.versions)
  readings : ∀ reading ∈ shared.readings,
    (reading.tree.version, reading.tree.root) ∈ shared.saved ∧ shared.Knows reading.tree reading.query

variable {query : Query κ ν} {shared : SharedTree κ ν} {tree : ImmutableTree κ ν}

theorem Coherent.flow (coherent : shared.Coherent) : shared.ahead.Flow [] := by
  obtain ⟨_, flow, -, running⟩ := coherent.steady
  obtain rfl := running coherent.running
  exact flow

theorem Coherent.fresh (coherent : shared.Coherent) : shared.tree.Fresh := by
  obtain ⟨_, -, fresh, -⟩ := coherent.steady
  exact fresh

theorem Coherent.readable (coherent : shared.Coherent) :
    shared.tree.ndb.Readable := coherent.flow.readable

theorem Knows.imp {shared' : SharedTree κ ν} (knows : shared.Knows tree query)
    (absent : ∀ key, shared.Absent tree key → shared'.Absent tree key)
    (expanded : ∀ changes, shared.Expanded tree changes → shared'.Expanded tree changes) :
    shared'.Knows tree query := by
  match query, knows with
  | .get _, _ => trivial
  | .told _ none, _ => trivial
  | .told _ (some (some _)), knows => exact knows
  | .told key (some none), knows => exact absent key knows
  | .iterator _ _ _, _ => trivial
  | .trusted _ _ _, _ => trivial
  | .expanded _ _ _ changes, knows => exact expanded changes knows
  | .value _ _, knows => exact knows
  | .pairs _ _ _ _, knows => exact knows

theorem Knows.setNdb
    (knows : shared.Knows tree query) {ndb : NodeDB κ ν} (same : shared.tree.ndb.SameLayers ndb)
    (readings : List (Reading κ ν)) :
    Knows { shared with tree := shared.tree.setNdb ndb, readings := readings } tree query := by
  refine knows.imp (fun key absent newest held => ?_) fun changes expanded => ⟨?_, expanded.event, ?_⟩
  · obtain ⟨merging, gone⟩ := absent newest held
    exact ⟨merging, (congrFun same.live key).trans gone⟩
  · rw [MutableTree.setNdb, same.disk]
    exact expanded.mirrors
  · rw [MutableTree.setNdb, same.prePersist]
    exact expanded.prePersist

theorem Coherent.setNdb (coherent : shared.Coherent) {ndb : NodeDB κ ν}
    (same : shared.tree.ndb.SameLayers ndb) {readings : List (Reading κ ν)}
    (known : ∀ reading ∈ readings, (reading.tree.version, reading.tree.root) ∈ shared.saved ∧
      Knows { shared with tree := shared.tree.setNdb ndb, readings := readings } reading.tree
        reading.query) :
    Coherent { shared with tree := shared.tree.setNdb ndb, readings := readings } := by
  refine ⟨coherent.steady.setNdb same, coherent.running, coherent.newer, coherent.quiet,
    coherent.stamped, same.latest.trans coherent.latest, fun zero => coherent.lookedUp (same.lookedUp zero),
    coherent.saved, coherent.zero, coherent.recorded, ?_, ?_, ?_, ?_, ?_, known⟩
  · exact same.live ▸ coherent.truthful
  · exact same.live ▸ coherent.current
  · exact same.disk ▸ coherent.disk
  · exact same.disk ▸ coherent.roots
  · exact same.disk ▸ coherent.event

/-- The steps that leave the queries undisturbed. Get does not act on an absent
fast node between the merge of the next version and its announcement if that
version removes the key. Iterator collects the changes before the next version is
merged, of a version that is not empty or has no index, and opens the disk before
a later version is there. A tree is loaded as it has to be. -/
def Undisturbed (shared : SharedTree κ ν) : Action κ ν → Prop
  | .read index => ∀ reading, shared.readings[index]? = some reading → match reading.query with
      | .told key (some none) =>
        shared.Merging → reading.tree.version = shared.announced →
          (rootContents reading.tree.root).lookup key ≠ none → shared.tree.ndb.live key ≠ none
      | .trusted _ _ _ =>
        ¬ shared.Merging ∧ reading.tree.version = shared.announced ∧
          (reading.tree.root ≠ none ∨ ∀ key, shared.tree.ndb.live key = none)
      | .expanded _ _ _ _ => shared.tree.ndb.disk.latestVersion ≤ reading.tree.version
      | _ => True
  | .reload => shared.tree.ndb.disk.latestRoot ≠ none ∨ ∀ key, shared.tree.ndb.disk.fast.lookup key = none
  | _ => True

section

variable (coherent : shared.Coherent) (found : (tree.version, tree.root) ∈ shared.saved)

include coherent found

theorem Coherent.knows_told (present : tree.root ≠ none) (key : κ) :
    shared.Knows tree (.told key (some (shared.tree.ndb.live key))) := by
  cases live : shared.tree.ndb.live key with
  | some node =>
    intro old
    exact coherent.truthful _ found present key node live old
  | none =>
    intro newest held
    refine ⟨?_, live⟩
    by_contra settled
    have mirrors := coherent.current settled _ found newest.symm present
    apply held
    rw [mirrors key, live]
    rfl

theorem Coherent.settleGet_eq {key : κ}
    {fast : Option (Option (FastNode ν))} (knows : shared.Knows tree (.told key fast))
    (undisturbed : fast = some none → shared.Merging → tree.version = shared.announced →
      (rootContents tree.root).lookup key ≠ none → shared.tree.ndb.live key ≠ none) :
    ∃ ndb', tree.settleGet key fast shared.tree.ndb = ((tree.getWithIndex key).2, ndb') ∧
      shared.tree.ndb.SameLayers ndb' := by
  have walk := getWithIndex_eq (coherent.saved _ found).2 tree.version key
  match fast, knows with
  | none, _ => exact ⟨_, rfl, .refl _⟩
  | some (some node), knows =>
    refine ⟨_, ?_, .refl _⟩
    simp only [ImmutableTree.settleGet]
    split
    · rename_i old
      rw [walk, knows old]
    · rfl
  | some none, knows =>
    refine ⟨_, ?_, shared.tree.ndb.sameLayers_getLatestMemoryVersion⟩
    simp only [ImmutableTree.settleGet]
    split
    · rename_i newest
      rw [coherent.latest] at newest
      have absent : (rootContents tree.root).lookup key = none := by
        by_contra held
        obtain ⟨merging, gone⟩ := knows newest.symm held
        exact undisturbed rfl merging newest held gone
      rw [walk, absent]
    · rfl

theorem Coherent.expanded (settled : ¬ shared.Merging) (newest : tree.version = shared.announced)
    (indexed : tree.root ≠ none ∨ ∀ key, shared.tree.ndb.live key = none)
    {changes : FastNodeChanges κ ν}
    (said : changes.get = atop shared.tree.ndb.prePersistFastNode.get shared.tree.ndb.tpfv.said) :
    shared.Expanded tree changes := by
  refine ⟨fun _ => ?_, fun event busy _ k nothing => ?_, fun _ _ k nothing => ?_⟩
  · rw [said, atop_on]
    change Mirrors shared.tree.ndb.live tree.root
    by_cases present : tree.root = none
    · intro k
      simp [present, rootContents, indexed.resolve_left (not_not.mpr present) k]
    · exact coherent.current settled _ found newest present
  · rw [said, atop, Option.or_eq_none_iff] at nothing
    exact (coherent.flow.busy event busy).quiet nothing.2
  · rw [said, atop, Option.or_eq_none_iff] at nothing
    exact nothing.1

end

variable (cfg : Config κ) (coherent : shared.Coherent)

include coherent

theorem Coherent.knows_readStep {index : Nat} {reading : Reading κ ν}
    (listed : shared.readings[index]? = some reading) (undisturbed : shared.Undisturbed (.read index)) :
    shared.tree.ndb.SameLayers (reading.tree.readStep cfg shared.tree.ndb reading.query).2 ∧
      shared.Knows reading.tree (reading.tree.readStep cfg shared.tree.ndb reading.query).1 := by
  obtain ⟨found, knows⟩ := coherent.readings reading (mem_of_getElem? listed)
  have guard := undisturbed reading listed
  obtain ⟨tree, query⟩ := reading
  cases query with
  | get key =>
    unfold ImmutableTree.readStep
    cases root : tree.root with
    | none =>
      refine ⟨.refl _, ?_⟩
      simp [Knows, ImmutableTree.getWithIndex, root]
    | some node =>
      obtain ⟨_, _, done, answer, same⟩ :=
        shared.tree.ndb.getFastNode_spec cfg coherent.readable key
      simp only [done]
      refine ⟨same, ?_⟩
      rcases answer with rfl | rfl
      · trivial
      · exact coherent.knows_told found (by simp [root]) key
  | told key fast =>
    have careful : fast = some none → shared.Merging → tree.version = shared.announced →
        (rootContents tree.root).lookup key ≠ none → shared.tree.ndb.live key ≠ none := by
      rintro rfl
      exact guard
    obtain ⟨_, done, same⟩ := coherent.settleGet_eq found knows careful
    simp only [ImmutableTree.readStep, done]
    exact ⟨same, rfl⟩
  | iterator =>
    have same := shared.tree.ndb.sameLayers_getLatestMemoryVersion
    simp only [ImmutableTree.readStep]
    split
    · rename_i ndb' enabled
      obtain rfl := congrArg Prod.snd enabled
      exact ⟨same, trivial⟩
    · rename_i ndb' disabled
      obtain rfl := congrArg Prod.snd disabled
      exact ⟨same, rfl⟩
  | trusted =>
    obtain ⟨_, expanded, said⟩ :=
      coherent.readable.whole.expand_eq shared.tree.ndb.prePersistFastNode
    simp only [ImmutableTree.readStep, expanded]
    exact ⟨.refl _, coherent.expanded found guard.1 guard.2.1 guard.2.2 said⟩
  | expanded start stop ascending changes =>
    refine ⟨.refl _, ?_⟩
    have sorted := (coherent.saved _ found).2
    simp only [Knows, newIterator_eq sorted]
    exact congrArg Except.ok (UnsavedFastIterator.items_eq start stop ascending _ changes
      (ordered_rootContents sorted) (knows.mirrors guard))
  | value | pairs => exact ⟨.refl _, knows⟩

theorem Coherent.readStep {index : Nat} (undisturbed : shared.Undisturbed (.read index)) :
    (shared.readStep cfg index).Coherent := by
  unfold SharedTree.readStep
  cases listed : shared.readings[index]? with
  | none => exact coherent
  | some reading =>
    obtain ⟨same, knows⟩ := coherent.knows_readStep cfg listed undisturbed
    refine coherent.setNdb same fun other inside => ?_
    rcases mem_or_eq_of_mem_set inside with inside | rfl
    · obtain ⟨found, known⟩ := coherent.readings other inside
      exact ⟨found, known.setNdb same _⟩
    · obtain ⟨found, -⟩ := coherent.readings reading (mem_of_getElem? listed)
      exact ⟨found, knows.setNdb same _⟩

theorem Coherent.ask {version : Nat} (found : shared.saved.lookup version = some root)
    (asked : query.Asked) :
    Coherent { shared with readings := shared.readings ++ [⟨⟨root, version⟩, query⟩] } := by
  refine coherent.setNdb (.refl _) fun reading inside => ?_
  rcases mem_append.mp inside with inside | inside
  · obtain ⟨found, known⟩ := coherent.readings reading inside
    exact ⟨found, known.setNdb (.refl _) _⟩
  obtain rfl := mem_singleton.mp inside
  refine ⟨mem_of_lookup found, ?_⟩
  cases query with
  | get | iterator => trivial
  | _ => exact asked.elim

theorem Coherent.live_commitStep :
    (shared.tree.commitStep cfg).ndb.live = shared.tree.ndb.live := by
  have moved := coherent.flow.live_commitStep cfg
  rw [ahead, commitStep_setVersion] at moved
  exact moved

omit coherent in
theorem announced_commitStep (shared : SharedTree κ ν) :
    announced { shared with tree := shared.tree.commitStep cfg } = shared.announced := by
  simp only [announced, (sameTree_commitStep cfg shared.tree).version]

theorem Coherent.knows_commitStep (knows : shared.Knows tree query) :
    Knows { shared with tree := shared.tree.commitStep cfg } tree query := by
  have same := sameTree_commitStep cfg shared.tree
  have live := coherent.live_commitStep cfg
  have announced := shared.announced_commitStep cfg
  obtain ⟨disk, event⟩ := commitStep_disk cfg shared.tree
  refine knows.imp (fun key absent newest held => ?_) fun changes expanded => ⟨?_, ?_, ?_⟩
  · obtain ⟨merging, gone⟩ := absent (announced ▸ newest) held
    exact ⟨merging, (congrFun live key).trans gone⟩
  · intro early
    rcases disk with disk | ⟨event, busy, disk⟩
    · rw [disk] at early ⊢
      exact expanded.mirrors early
    rw [disk, Disk.latestVersion_writeBatch, Nat.max_le] at early
    refine (expanded.mirrors early.1).congr ?_ rfl
    funext k
    rw [disk, Disk.lookup_writeBatch]
    -- the changes cover what is written
    cases covered : changes.get k with
    | some now => simp [on, covered]
    | none => simp [on, covered, expanded.event event busy early.2 k covered]
  · intro event' busy' early k nothing
    obtain ⟨before, busy, version, -, fnc⟩ := event event' busy'
    rw [fnc]
    exact expanded.event before busy (version ▸ early) k nothing
  · intro newest settled k nothing
    rw [same.prePersist]
    exact expanded.prePersist (announced ▸ newest) settled k nothing

theorem Coherent.commitStep : Coherent { shared with tree := shared.tree.commitStep cfg } := by
  have same := sameTree_commitStep cfg shared.tree
  have ahead : ahead { shared with tree := shared.tree.commitStep cfg } =
      shared.ahead.commitStep cfg := by
    simp only [SharedTree.ahead, target, commitStep_setVersion, same.version]
  have live := coherent.live_commitStep cfg
  have announced := shared.announced_commitStep cfg
  have idle : shared.tree.ndb.latestMemoryVersion = 0 → shared.tree.commitStep cfg = shared.tree := by
    intro zero
    simp [MutableTree.commitStep, (coherent.lookedUp zero).1]
  obtain ⟨disk, event⟩ := commitStep_disk cfg shared.tree
  refine ⟨ahead ▸ coherent.steady.commitStep cfg, same.stopped.trans coherent.running, ?_, ?_, ?_, ?_,
    ?_, ?_, coherent.zero, ?_, ?_, ?_, ?_, ?_, ?_, ?_⟩
  · intro version saving
    obtain ⟨newer, below⟩ := coherent.newer version saving
    rw [same.version]
    exact ⟨newer, below.commitStep cfg⟩
  · rw [same.root, same.unsaved]
    exact coherent.quiet
  · rw [same.version, same.unsaved]
    exact coherent.stamped
  · rw [announced, ← coherent.latest]
    by_cases zero : shared.tree.ndb.latestMemoryVersion = 0
    · rw [idle zero]
    · simp [NodeDB.getLatestMemoryVersion, same.latestMemory, zero]
  · intro zero
    rw [same.latestMemory] at zero
    rw [idle zero]
    exact coherent.lookedUp zero
  · rw [announced]
    exact coherent.saved
  · rw [same.root]
    exact coherent.recorded
  · exact live ▸ coherent.truthful
  · rw [announced]
    exact live ▸ coherent.current
  · rcases disk with disk | ⟨event, busy, disk⟩
    · rw [disk]
      exact coherent.disk
    · rw [disk, Disk.lookup_writeBatch]
      exact (coherent.event event busy).2.subset fun p => Disk.mem_versions_writeBatch
  · rcases disk with disk | ⟨event, busy, disk⟩
    · rw [disk]
      exact coherent.roots
    intro p written
    rw [disk] at written
    rcases mem_cons.mp (Disk.mem_versions_writeBatch written) with rfl | stored
    · exact (coherent.event event busy).1
    · exact coherent.roots p stored
  · intro event' busy'
    obtain ⟨before, busy, version, root, fnc⟩ := event event' busy'
    obtain ⟨listed, truthful⟩ := coherent.event before busy
    rw [version, root, fnc]
    refine ⟨listed, ?_⟩
    rcases disk with disk | ⟨written, busyToo, disk⟩
    · rw [disk]
      exact truthful
    cases busy.symm.trans busyToo
    rw [disk, Disk.lookup_writeBatch_again, Disk.lookup_writeBatch]
    refine truthful.subset fun p inside => ?_
    rcases mem_cons.mp inside with rfl | inside
    · exact mem_cons_self
    · exact Disk.mem_versions_writeBatch inside
  · intro reading inside
    obtain ⟨found, known⟩ := coherent.readings reading inside
    exact ⟨found, coherent.knows_commitStep cfg known⟩

end SharedTree

end Exchain.Iavl
