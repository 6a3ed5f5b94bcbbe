import Exchain.Iavl.Layers

namespace Exchain.Iavl

open Overlay List

variable {κ ν : Type} [LinearOrder κ]

theorem FastNodeChanges.mem_writes (changes : FastNodeChanges κ ν) (k : κ)
    (write : Option (FastNode ν)) : (k, write) ∈ changes.writes ↔ changes.get k = some write := by
  rw [writes, mem_append, mem_insertionSort, mem_insertionSort, mem_map,
    mem_map]
  cases write with
  | none =>
    rw [changes.get_eq_removed_iff]
    constructor
    · rintro (⟨entry, -, eq⟩ | ⟨entry, inside, eq⟩)
      · simp at eq
      · obtain ⟨rfl, -⟩ := Prod.mk.inj eq
        exact mem_map_of_mem inside
    · intro removed
      obtain ⟨entry, inside, rfl⟩ := mem_map.mp (show k ∈ changes.removals.entries.map _ from removed)
      exact .inr ⟨entry, inside, rfl⟩
  | some node =>
    rw [changes.get_eq_added_iff, AList.lookup_eq_some_iff]
    constructor
    · rintro (⟨entry, inside, eq⟩ | ⟨entry, -, eq⟩)
      · obtain ⟨rfl, same⟩ := Prod.mk.inj eq
        cases same
        exact inside
      · simp at eq
    · exact fun inside => .inl ⟨⟨k, node⟩, inside, rfl⟩

theorem lookup_writeFast (fast : AssocMap κ (FastNode ν)) (write : κ × Option (FastNode ν)) (k : κ) :
    (writeFast fast write).lookup k = if k = write.1 then write.2 else fast.lookup k := by
  obtain ⟨key, said⟩ := write
  cases said with
  | none => exact AList.lookup_erase_if fast k key
  | some node => exact AList.lookup_insert_if fast k key node

theorem lookup_foldl_writeFast (said : Delta κ (FastNode ν)) (writes : List (κ × Option (FastNode ν)))
    (fast : AssocMap κ (FastNode ν)) (agree : ∀ w ∈ writes, said w.1 = some w.2) (k : κ) :
    (writes.foldl writeFast fast).lookup k =
      if k ∈ writes.map Prod.fst then (said k).join else fast.lookup k := by
  induction writes generalizing fast with
  | nil => rfl
  | cons write rest ih =>
    rw [foldl_cons, ih _ fun w inside => agree w (mem_cons_of_mem _ inside),
      lookup_writeFast]
    by_cases later : k ∈ rest.map Prod.fst
    · simp [later]
    by_cases same : k = write.1
    · subst same
      simp [agree write mem_cons_self]
    · simp [later, same]

variable (disk : Disk κ ν)

theorem Disk.lookup_writeBatch (event : CommitEvent κ ν) :
    (disk.writeBatch event).fast.lookup = on event.fnc.get disk.fast.lookup := by
  funext k
  have agree : ∀ w ∈ event.fnc.writes, event.fnc.get w.1 = some w.2 := fun w inside =>
    (event.fnc.mem_writes w.1 w.2).mp inside
  rw [writeBatch, lookup_foldl_writeFast event.fnc.get _ _ agree, on]
  cases said : event.fnc.get k with
  | none =>
    have unlisted : k ∉ event.fnc.writes.map Prod.fst := by
      rw [mem_map]
      rintro ⟨w, inside, rfl⟩
      simp [agree w inside] at said
    simp [unlisted]
  | some now =>
    have listed : k ∈ event.fnc.writes.map Prod.fst :=
      mem_map.mpr ⟨(k, now), (event.fnc.mem_writes k now).mpr said, rfl⟩
    simp [listed]

theorem Disk.lookup_writeBatch_again (event : CommitEvent κ ν) :
    on event.fnc.get (disk.writeBatch event).fast.lookup = (disk.writeBatch event).fast.lookup := by
  rw [disk.lookup_writeBatch event, on_on]

theorem foldl_max_le_iff (l : List Nat) (base bound : Nat) :
    l.foldl max base ≤ bound ↔ base ≤ bound ∧ ∀ n ∈ l, n ≤ bound := by
  induction l generalizing base with
  | nil => simp
  | cons n rest ih =>
    rw [foldl_cons, ih]
    simp only [Nat.max_le, forall_mem_cons]
    tauto

namespace Disk

theorem latestVersion_le_iff (bound : Nat) :
    disk.latestVersion ≤ bound ↔ ∀ version ∈ disk.roots, version ≤ bound := by
  rw [latestVersion, foldl_max_le_iff]
  exact ⟨fun both => both.2, fun all => ⟨Nat.zero_le _, all⟩⟩

theorem latestVersion_writeBatch (event : CommitEvent κ ν) :
    (disk.writeBatch event).latestVersion = max disk.latestVersion event.version := by
  refine eq_of_forall_ge_iff fun bound => ?_
  rw [latestVersion_le_iff, Nat.max_le, latestVersion_le_iff]
  simp only [writeBatch, AList.mem_insert, forall_eq_or_imp]
  tauto

def latestRoot (disk : Disk κ ν) : Option (Node κ ν) :=
  if disk.latestVersion = 0 then none else (disk.roots.lookup disk.latestVersion).join

theorem latestRoot_writeBatch {disk : Disk κ ν} {event : CommitEvent κ ν}
    (newest : disk.latestVersion ≤ event.version) (positive : event.version ≠ 0) :
    (disk.writeBatch event).latestRoot = event.root := by
  rw [latestRoot, latestVersion_writeBatch, max_eq_right newest, if_neg positive]
  simp [writeBatch]

/-- The disk holds the newest version and its index. An empty version may have
left an older index behind. -/
structure Sound (disk : Disk κ ν) : Prop where
  stamped : disk.storageVersion = .fast disk.latestVersion
  sorted : ∀ node, disk.latestRoot = some node → node.Sorted
  mirrors : disk.latestRoot ≠ none → Mirrors disk.fast.lookup disk.latestRoot

end Disk

def NodeDB.CacheOnDisk (ndb : NodeDB κ ν) : Prop :=
  ∀ p ∈ ndb.fastNodeCache, ndb.disk.fast.lookup p.1 = some p.2

/-- What the cache and the disk hold in each phase of an event. -/
def CommitEvent.PhaseHolds (event : CommitEvent κ ν) (ndb : NodeDB κ ν) : Prop :=
  match event.phase with
  | .received => ndb.CacheOnDisk
  | .writing todo =>
    (∃ done, event.fnc.writes = done ++ todo) ∧ ∀ p ∈ ndb.fastNodeCache, p.1 ∈ todo.map Prod.fst ∨
        on event.fnc.get ndb.disk.fast.lookup p.1 = some p.2
  | .written => ndb.disk.fast.lookup = on event.fnc.get ndb.disk.fast.lookup ∧ ndb.CacheOnDisk

namespace MutableTree

/-- The event that the commit goroutine is busy with. Its changes are none or those of the oldest
version in memory; the versions behind it are given. -/
structure Underway (tree : MutableTree κ ν) (event : CommitEvent κ ν) (behind : List Nat) : Prop where
  reached : event.version ≤ tree.version
  apart : event.version ∉ behind
  held : (tree.ndb.tpfv.versions = event.version :: behind ∧
      tree.ndb.tpfv.fncMap.lookup event.version = some event.fnc) ∨
    (tree.ndb.tpfv.versions = behind ∧ event.fnc.get = silent)
  newest : tree.ndb.disk.latestVersion ≤ event.version
  committed : ∀ version ∈ tree.committedHeightQueue, version ≤ event.version
  zero : event.version = 0 → event.fnc.get = silent
  sorted : ∀ node, event.root = some node → node.Sorted
  mirrors : event.root ≠ none → Mirrors (on event.fnc.get tree.ndb.disk.fast.lookup) event.root
  phase : event.PhaseHolds tree.ndb

/-- What holds at every moment, with the versions in memory behind the one being written. -/
structure Flow (tree : MutableTree κ ν) (behind : List Nat) : Prop where
  sorted : ∀ node, tree.root = some node → node.Sorted
  mirrors : Mirrors tree.live tree.root
  whole : tree.ndb.tpfv.Whole
  disk : tree.ndb.disk.Sound
  newest : tree.ndb.disk.latestVersion ≤ tree.version
  committed : ∀ version ∈ tree.committedHeightQueue, version ≤ tree.version
  zero : tree.version = 0 → tree.ndb.prePersistFastNode.get = silent
  idle : tree.commitEvent = none → tree.ndb.tpfv.versions = behind ∧ tree.ndb.CacheOnDisk
  busy : ∀ event, tree.commitEvent = some event → tree.Underway event behind

variable {behind : List Nat} {tree : MutableTree κ ν} {event : CommitEvent κ ν}

theorem Underway.said (underway : tree.Underway event behind) :
    tree.ndb.tpfv.said = atop (FastNodeChangesWithVersion.saidBy tree.ndb.tpfv.fncMap behind.reverse)
      event.fnc.get := by
  rcases underway.held with ⟨versions, found⟩ | ⟨versions, nothing⟩
  · rw [FastNodeChangesWithVersion.said, versions, reverse_cons,
      FastNodeChangesWithVersion.saidBy_append]
    simp [FastNodeChangesWithVersion.saidBy, found]
  · rw [FastNodeChangesWithVersion.said, versions, nothing, atop_silent]

/-- A key that no change in memory speaks about is not being written. -/
theorem Underway.quiet
    (underway : tree.Underway event behind) {k : κ} (nothing : tree.ndb.tpfv.said k = none) :
    event.fnc.get k = none := by
  rw [underway.said, atop, Option.or_eq_none_iff] at nothing
  exact nothing.2

theorem Flow.readable (flow : tree.Flow behind) : tree.ndb.Readable := by
  refine ⟨flow.whole, fun p inside nothing => ?_⟩
  cases busy : tree.commitEvent with
  | none => exact (flow.idle busy).2 p inside
  | some event =>
    have underway := flow.busy event busy
    have quiet := underway.quiet nothing
    have holds := underway.phase
    unfold CommitEvent.PhaseHolds at holds
    split at holds
    · exact holds p inside
    · obtain ⟨⟨_, writes⟩, cached⟩ := holds
      rcases cached p inside with listed | stored
      · obtain ⟨w, member, same⟩ := mem_map.mp listed
        have written : w ∈ event.fnc.writes := by simp [writes, member]
        have said := (event.fnc.mem_writes w.1 w.2).mp written
        rw [same, quiet] at said
        simp at said
      · simpa [on, quiet] using stored
    · exact holds.2 p inside

theorem Flow.mirrored (flow : tree.Flow behind) :
    tree.Mirrored := ⟨flow.sorted, flow.mirrors, flow.readable⟩

/-- The event was not committed before. -/
def Fresh (tree : MutableTree κ ν) : Prop :=
  ∀ event, tree.commitEvent = some event → event.phase = .received →
    event.version ∉ tree.committedHeightQueue

omit [LinearOrder κ] in
theorem mem_pushCommitted {cfg : Config κ} {queue : List Nat} {version v : Nat}
    (inside : v ∈ pushCommitted cfg queue version) : v ∈ queue ∨ v = version := by
  unfold pushCommitted at inside
  dsimp only at inside
  split at inside
  · simpa using mem_of_mem_tail inside
  · simpa using inside

theorem Flow.received
    (cfg : Config κ) (flow : tree.Flow behind) (busy : tree.commitEvent = some event)
    (phase : event.phase = .received) : Flow { tree with
      committedHeightQueue := pushCommitted cfg tree.committedHeightQueue event.version
      ndb := { tree.ndb with storageVersion := .fast event.version }
      commitEvent := some { event with phase := .writing event.fnc.writes } } behind := by
  have underway := flow.busy event busy
  have cached := underway.phase
  rw [CommitEvent.PhaseHolds, phase] at cached
  refine { flow with committed := ?_, idle := by simp, busy := ?_ }
  · intro version inside
    rcases mem_pushCommitted inside with listed | rfl
    · exact flow.committed version listed
    · exact underway.reached
  rintro _ ⟨⟩
  refine { underway with committed := ?_, phase := ⟨⟨[], rfl⟩, fun p inside => ?_⟩ }
  · intro version inside
    rcases mem_pushCommitted inside with listed | rfl
    · exact underway.committed version listed
    · exact le_rfl
  · cases said : event.fnc.get p.1 with
    | none => exact .inr (by simpa [on, said] using cached p inside)
    | some now =>
      exact .inl (mem_map.mpr ⟨(p.1, now), (event.fnc.mem_writes p.1 now).mpr said, rfl⟩)

theorem Flow.noteWrite
    {write : κ × Option (FastNode ν)} {todo : List (κ × Option (FastNode ν))} (cfg : Config κ)
    (flow : tree.Flow behind) (busy : tree.commitEvent = some event)
    (phase : event.phase = .writing (write :: todo)) : Flow { tree with
      ndb := tree.ndb.noteWrite cfg write
      commitEvent := some { event with phase := .writing todo } } behind := by
  have underway := flow.busy event busy
  have holds := underway.phase
  rw [CommitEvent.PhaseHolds, phase] at holds
  obtain ⟨⟨done, writes⟩, cached⟩ := holds
  have said : event.fnc.get write.1 = some write.2 :=
    (event.fnc.mem_writes write.1 write.2).mp (by simp [writes])
  have same : (tree.ndb.noteWrite cfg write).disk = tree.ndb.disk ∧
      (tree.ndb.noteWrite cfg write).tpfv = tree.ndb.tpfv ∧
      (tree.ndb.noteWrite cfg write).prePersistFastNode = tree.ndb.prePersistFastNode := by
    unfold NodeDB.noteWrite
    split <;> exact ⟨rfl, rfl, rfl⟩
  -- what stays cached besides the node itself is cached under another key
  have listed : ∀ p ∈ (tree.ndb.noteWrite cfg write).fastNodeCache,
      (p.1 = write.1 ∧ write.2 = some p.2) ∨ (p ∈ tree.ndb.fastNodeCache ∧ p.1 ≠ write.1) := by
    intro p inside
    unfold NodeDB.noteWrite at inside
    split at inside
    · rename_i node saved
      rcases FastNodeCache.mem_cache inside with rfl | other
      · exact .inl ⟨rfl, saved⟩
      · exact .inr other
    · exact .inr (FastNodeCache.mem_uncache.mp inside)
  have lives : MutableTree.live { tree with
      ndb := tree.ndb.noteWrite cfg write
      commitEvent := some { event with phase := .writing todo } } = tree.live := by
    rw [MutableTree.live, MutableTree.live, NodeDB.live, NodeDB.live, same.1, same.2.1, same.2.2]
  refine ⟨flow.sorted, lives ▸ flow.mirrors, same.2.1 ▸ flow.whole, same.1 ▸ flow.disk,
    same.1 ▸ flow.newest, flow.committed, same.2.2 ▸ flow.zero, by simp, ?_⟩
  rintro _ ⟨⟩
  refine ⟨underway.reached, underway.apart, same.2.1 ▸ underway.held, same.1 ▸ underway.newest,
    underway.committed, underway.zero, underway.sorted, same.1 ▸ underway.mirrors,
    ⟨done ++ [write], by simp [writes]⟩, fun p inside => ?_⟩
  rcases listed p inside with ⟨sameKey, saved⟩ | ⟨before, apart⟩
  · right
    simp [on, sameKey, said, saved]
  rcases cached p before with waiting | stored
  · rw [map_cons, mem_cons] at waiting
    rcases waiting with sameKey | waiting
    · exact absurd sameKey apart
    · exact .inl waiting
  · right
    rw [same.1]
    exact stored

theorem Underway.live_writeBatch (underway : tree.Underway event behind) :
    NodeDB.live { tree.ndb with disk := tree.ndb.disk.writeBatch event } = tree.ndb.live := by
  simp only [NodeDB.live]
  rw [underway.said, atop_on, atop_on, Disk.lookup_writeBatch_again, Disk.lookup_writeBatch]

theorem Flow.writeBatch (flow : tree.Flow behind) (busy : tree.commitEvent = some event)
    (phase : event.phase = .writing []) : Flow { tree with
      ndb := { tree.ndb with disk := tree.ndb.disk.writeBatch event }
      commitEvent := some { event with phase := .written } } behind := by
  have underway := flow.busy event busy
  have holds := underway.phase
  rw [CommitEvent.PhaseHolds, phase] at holds
  have written := tree.ndb.disk.lookup_writeBatch event
  have latest := tree.ndb.disk.latestVersion_writeBatch event
  rw [max_eq_right underway.newest] at latest
  have again := tree.ndb.disk.lookup_writeBatch_again event
  have lives : MutableTree.live { tree with
      ndb := { tree.ndb with disk := tree.ndb.disk.writeBatch event }
      commitEvent := some { event with phase := .written } } = tree.live :=
    congrArg (on tree.unsavedFastNodes.get) underway.live_writeBatch
  have sound : (tree.ndb.disk.writeBatch event).Sound := by
    by_cases zero : event.version = 0
    · have empty : (tree.ndb.disk.writeBatch event).latestRoot = none := by
        rw [Disk.latestRoot, latest, if_pos zero]
      exact ⟨by rw [latest]; rfl, by simp [empty], fun present => absurd empty present⟩
    have root := Disk.latestRoot_writeBatch underway.newest zero
    refine ⟨by rw [latest]; rfl, root ▸ underway.sorted, fun present => ?_⟩
    rw [root] at present ⊢
    rw [written]
    exact underway.mirrors present
  refine ⟨flow.sorted, lives ▸ flow.mirrors, flow.whole, sound, latest ▸ underway.reached,
    flow.committed, flow.zero, by simp, ?_⟩
  rintro _ ⟨⟩
  refine ⟨underway.reached, underway.apart, underway.held, latest.le, underway.committed,
    underway.zero, underway.sorted, ?_, again.symm, fun p inside => ?_⟩
  · intro present
    rw [again, written]
    exact underway.mirrors present
  · rcases holds.2 p inside with waiting | stored
    · simp at waiting
    · exact (congrFun written p.1).trans stored

theorem Underway.removed (underway : tree.Underway event behind) :
    (tree.ndb.tpfv.remove event.version).versions = behind ∧
      ∀ version ∈ behind, (tree.ndb.tpfv.remove event.version).fncMap.lookup version =
        tree.ndb.tpfv.fncMap.lookup version := by
  unfold FastNodeChangesWithVersion.remove
  rcases underway.held with ⟨versions, -⟩ | ⟨versions, -⟩
  · rw [if_pos (by simp [versions])]
    refine ⟨by simp [versions], fun version inside => ?_⟩
    rw [AList.lookup_erase_if, if_neg]
    rintro rfl
    exact underway.apart inside
  · rw [if_neg]
    · exact ⟨versions, fun _ _ => rfl⟩
    intro first
    rw [versions] at first
    exact underway.apart (mem_of_mem_head? first)

theorem Underway.live_finish
    (underway : tree.Underway event behind) (phase : event.phase = .written) :
    NodeDB.live { tree.ndb with tpfv := tree.ndb.tpfv.remove event.version } = tree.ndb.live := by
  have holds := underway.phase
  rw [CommitEvent.PhaseHolds, phase] at holds
  have said : (tree.ndb.tpfv.remove event.version).said =
      FastNodeChangesWithVersion.saidBy tree.ndb.tpfv.fncMap behind.reverse := by
    rw [FastNodeChangesWithVersion.said, underway.removed.1]
    exact FastNodeChangesWithVersion.saidBy_congr
      fun version inside => underway.removed.2 version (mem_reverse.mp inside)
  simp only [NodeDB.live]
  rw [said, underway.said, atop_on, ← holds.1]

theorem Flow.finish (flow : tree.Flow behind) (busy : tree.commitEvent = some event)
    (phase : event.phase = .written) : Flow { tree with
      ndb := { tree.ndb with tpfv := tree.ndb.tpfv.remove event.version }
      commitEvent := none } behind := by
  have underway := flow.busy event busy
  have holds := underway.phase
  rw [CommitEvent.PhaseHolds, phase] at holds
  obtain ⟨versions, kept⟩ := underway.removed
  have lives : MutableTree.live { tree with
      ndb := { tree.ndb with tpfv := tree.ndb.tpfv.remove event.version }
      commitEvent := none } = tree.live :=
    congrArg (on tree.unsavedFastNodes.get) (underway.live_finish phase)
  have inMemory : ∀ version ∈ behind, version ∈ tree.ndb.tpfv.versions := by
    rcases underway.held with ⟨versions, -⟩ | ⟨versions, -⟩
    · simp only [versions, mem_cons]
      exact fun version inside => .inr inside
    · simp [versions]
  refine ⟨flow.sorted, lives ▸ flow.mirrors, fun version inside => ?_, flow.disk, flow.newest,
    flow.committed, flow.zero, fun _ => ⟨versions, holds.2⟩, by simp⟩
  rw [versions] at inside
  rw [kept version inside]
  exact flow.whole version (inMemory version inside)

section

variable (cfg : Config κ)

include cfg

theorem Flow.commitStep (flow : tree.Flow behind) (fresh : tree.Fresh) : (tree.commitStep cfg).Flow behind := by
  unfold MutableTree.commitStep
  split
  · exact flow
  rename_i event busy
  split
  · rename_i phase
    rw [if_neg (fresh event busy phase)]
    exact flow.received cfg busy phase
  · rename_i write todo phase
    exact flow.noteWrite cfg busy phase
  · rename_i phase
    exact flow.writeBatch busy phase
  · rename_i phase
    exact flow.finish busy phase

theorem Flow.live_commitStep (flow : tree.Flow behind) : (tree.commitStep cfg).ndb.live = tree.ndb.live := by
  unfold MutableTree.commitStep
  split
  · rfl
  rename_i event busy
  have underway := flow.busy event busy
  split
  · split <;> rfl
  · simp only [NodeDB.noteWrite]
    split <;> rfl
  · exact underway.live_writeBatch
  · rename_i phase
    exact underway.live_finish phase

theorem commitStep_disk (tree : MutableTree κ ν) :
    ((tree.commitStep cfg).ndb.disk = tree.ndb.disk ∨ ∃ event, tree.commitEvent = some event ∧
      (tree.commitStep cfg).ndb.disk = tree.ndb.disk.writeBatch event) ∧
    ∀ event', (tree.commitStep cfg).commitEvent = some event' → ∃ event,
      tree.commitEvent = some event ∧ event'.version = event.version ∧ event'.root = event.root ∧
        event'.fnc = event.fnc := by
  unfold MutableTree.commitStep
  split
  · rename_i idle
    exact ⟨.inl rfl, fun event' busy => by simp [idle] at busy⟩
  rename_i event busy
  split
  · split
    · exact ⟨.inl rfl, by simp⟩
    refine ⟨.inl rfl, ?_⟩
    rintro _ ⟨⟩
    exact ⟨event, busy, rfl, rfl, rfl⟩
  · refine ⟨.inl ?_, ?_⟩
    · unfold NodeDB.noteWrite
      split <;> rfl
    · rintro _ ⟨⟩
      exact ⟨event, busy, rfl, rfl, rfl⟩
  · refine ⟨.inr ⟨event, busy, rfl⟩, ?_⟩
    rintro _ ⟨⟩
    exact ⟨event, busy, rfl, rfl, rfl⟩
  · exact ⟨.inl rfl, by simp⟩

theorem Fresh.commitStep (fresh : tree.Fresh) : (tree.commitStep cfg).Fresh := by
  intro event busy phase
  unfold MutableTree.commitStep at busy
  split at busy
  · simp_all
  rename_i before was
  split at busy
  · rename_i received
    rw [if_neg (fresh before was received)] at busy
    cases busy
    simp at phase
  · cases busy
    simp at phase
  · cases busy
    simp at phase
  · simp at busy

theorem stepsLeft_commitStep (tree : MutableTree κ ν) :
    (tree.commitStep cfg).stepsLeft ≤ tree.stepsLeft - 1 := by
  unfold MutableTree.commitStep
  split
  · rename_i idle
    simp [stepsLeft, idle]
  rename_i event busy
  split
  · rename_i phase
    split <;> simp [stepsLeft, busy, phase]
  · rename_i phase
    simp [stepsLeft, busy, phase]
  · rename_i phase
    simp [stepsLeft, busy, phase]
  · simp [stepsLeft]

end

theorem commitEvent_eq_none_of_stepsLeft (finished : tree.stepsLeft = 0) :
    tree.commitEvent = none := by
  unfold stepsLeft at finished
  split at finished
  · assumption
  · split at finished <;> omega

variable (cfg : Config κ)

include cfg

theorem idle_iterate_commitStep (steps : Nat) (tree : MutableTree κ ν)
    (enough : tree.stepsLeft ≤ steps) :
    ((MutableTree.commitStep cfg)^[steps] tree).commitEvent = none := by
  induction steps generalizing tree with
  | zero => exact commitEvent_eq_none_of_stepsLeft (Nat.le_zero.mp enough)
  | succ steps ih =>
    have fewer := stepsLeft_commitStep cfg tree
    exact ih _ (by omega)

theorem idle_awaitCommit (tree : MutableTree κ ν) : (tree.awaitCommit cfg).commitEvent = none :=
  idle_iterate_commitStep cfg _ tree (Nat.le_refl _)

/-- What one step of the commit goroutine leaves alone. -/
structure SameTree (tree tree' : MutableTree κ ν) : Prop where
  root : tree'.root = tree.root
  version : tree'.version = tree.version
  unsaved : tree'.unsavedFastNodes = tree.unsavedFastNodes
  prePersist : tree'.ndb.prePersistFastNode = tree.ndb.prePersistFastNode
  latestMemory : tree'.ndb.latestMemoryVersion = tree.ndb.latestMemoryVersion
  stopped : tree'.stopped = tree.stopped

theorem sameTree_commitStep (tree : MutableTree κ ν) : tree.SameTree (tree.commitStep cfg) := by
  unfold MutableTree.commitStep
  split
  · exact ⟨rfl, rfl, rfl, rfl, rfl, rfl⟩
  split
  · split <;> exact ⟨rfl, rfl, rfl, rfl, rfl, rfl⟩
  · refine ⟨rfl, rfl, rfl, ?_, ?_, rfl⟩ <;> unfold NodeDB.noteWrite <;> split <;> rfl
  all_goals exact ⟨rfl, rfl, rfl, rfl, rfl, rfl⟩

/-- What every step of the commit goroutine keeps holds when it is idle. -/
theorem keeps_awaitCommit (inv : MutableTree κ ν → Prop)
    (step : ∀ tree, inv tree → inv (tree.commitStep cfg)) (start : inv tree) :
    inv (tree.awaitCommit cfg) := Function.Iterate.rec inv start step tree.stepsLeft

theorem sameTree_awaitCommit (tree : MutableTree κ ν) : tree.SameTree (tree.awaitCommit cfg) := by
  refine keeps_awaitCommit cfg tree.SameTree (fun between first => ?_) ⟨rfl, rfl, rfl, rfl, rfl, rfl⟩
  have next := sameTree_commitStep cfg between
  exact ⟨next.root.trans first.root, next.version.trans first.version,
    next.unsaved.trans first.unsaved, next.prePersist.trans first.prePersist,
    next.latestMemory.trans first.latestMemory, next.stopped.trans first.stopped⟩

theorem Flow.awaitCommit
    (flow : tree.Flow behind) (fresh : tree.Fresh) : (tree.awaitCommit cfg).Flow behind := by
  have both : (tree.awaitCommit cfg).Flow behind ∧ (tree.awaitCommit cfg).Fresh := by
    apply keeps_awaitCommit cfg (fun tree => tree.Flow behind ∧ tree.Fresh) _ ⟨flow, fresh⟩
    exact fun _ both => ⟨both.1.commitStep cfg both.2, both.2.commitStep cfg⟩
  exact both.1

end MutableTree

end Exchain.Iavl
