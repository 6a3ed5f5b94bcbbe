import Exchain.Iavl.FastIndexRun

/-! Queries of saved versions while the next one is saved. SaveVersionAsync, the commit goroutine
and every query take their steps one at a time, in any order. -/

namespace Exchain.Iavl

variable {κ ν : Type} [LinearOrder κ]

/-- How far a query has come. Get looks up the fast node and then decides about it; Iterator
compares the versions, collects the changes in memory and opens the disk's iterator. -/
inductive Query (κ ν : Type) [DecidableEq κ] where
  | get (key : κ)
  | told (key : κ) (fast : Option (Option (FastNode ν)))
  | iterator (start stop : Option κ) (ascending : Bool)
  | trusted (start stop : Option κ) (ascending : Bool)
  | expanded (start stop : Option κ) (ascending : Bool) (changes : FastNodeChanges κ ν)
  | value (key : κ) (result : Except Halt (Option ν))
  | pairs (start stop : Option κ) (ascending : Bool) (result : Except Halt (List (κ × ν)))

/-- A query of the tree that GetImmutable gave. -/
structure Reading (κ ν : Type) [DecidableEq κ] where
  tree : ImmutableTree κ ν
  query : Query κ ν

def ImmutableTree.readStep (cfg : Config κ) (tree : ImmutableTree κ ν) (ndb : NodeDB κ ν) :
    Query κ ν → Query κ ν × NodeDB κ ν
  | .get key =>
    match tree.root with
    | none => (.value key (.ok none), ndb)
    | some _ =>
      match ndb.getFastNode cfg key with
      | .error halt => (.value key (.error halt), ndb)
      | .ok (fast, ndb) => (.told key fast, ndb)
  | .told key fast =>
    let (value, ndb) := tree.settleGet key fast ndb
    (.value key (.ok value), ndb)
  | .iterator start stop ascending =>
    match tree.isFastCacheEnabled ndb with
    | (true, ndb) => (.trusted start stop ascending, ndb)
    | (false, ndb) =>
      (.pairs start stop ascending (.ok (newIterator start stop ascending tree.root)), ndb)
  | .trusted start stop ascending =>
    match ndb.tpfv.expand ndb.prePersistFastNode with
    | .error halt => (.pairs start stop ascending (.error halt), ndb)
    | .ok changes => (.expanded start stop ascending changes, ndb)
  | .expanded start stop ascending changes =>
    (.pairs start stop ascending
      (.ok (UnsavedFastIterator.items start stop ascending ndb.disk.fast changes)), ndb)
  | .value key result => (.value key result, ndb)
  | .pairs start stop ascending result => (.pairs start stop ascending result, ndb)

/-- How far SaveVersionAsync has come: the version's changes are merged, its number is the newest in
memory, it is handed to the commit goroutine. -/
inductive Saving where
  | idle
  | merged (version : Nat)
  | announced (version : Nat)
  | persisted (version : Nat)
deriving Repr, DecidableEq

/-- A tree that is queried while it changes, with the roots that GetImmutable finds. -/
structure SharedTree (κ ν : Type) [DecidableEq κ] where
  tree : MutableTree κ ν
  saving : Saving
  saved : List (Nat × Option (Node κ ν))
  readings : List (Reading κ ν)

inductive Action (κ ν : Type) [DecidableEq κ] where
  | set (key : κ) (value : Option ν)
  | remove (key : κ)
  | save
  | commit
  | ask (version : Nat) (query : Query κ ν)
  | read (index : Nat)
  | reload

/-- The call of Get or Iterator. -/
def Query.Asked : Query κ ν → Prop
  | .get _ => True
  | .iterator _ _ _ => True
  | _ => False

instance (query : Query κ ν) : Decidable query.Asked := match query with
  | .get _ => isTrue trivial
  | .told _ _ => isFalse id
  | .iterator _ _ _ => isTrue trivial
  | .trusted _ _ _ => isFalse id
  | .expanded _ _ _ _ => isFalse id
  | .value _ _ => isFalse id
  | .pairs _ _ _ _ => isFalse id

def Disk.versions (disk : Disk κ ν) : List (Nat × Option (Node κ ν)) :=
  disk.roots.entries.map (fun entry => (entry.1, entry.2))

theorem Disk.mem_versions (disk : Disk κ ν) (version : Nat) (root : Option (Node κ ν)) :
    (version, root) ∈ disk.versions ↔ disk.roots.lookup version = some root := by
  rw [versions, List.mem_map, AList.lookup_eq_some_iff]
  constructor
  · rintro ⟨entry, inside, eq⟩
    cases eq
    exact inside
  · intro inside
    exact ⟨_, inside, rfl⟩

namespace SharedTree

def start (disk : Disk κ ν) : SharedTree κ ν where
  tree := .load disk
  saving := .idle
  saved := disk.versions
  readings := []

/-- One step of SaveVersionAsync. A version can be queried once its number is the newest in memory.
-/
def saveStep (cfg : Config κ) (shared : SharedTree κ ν) : Except Halt (SharedTree κ ν) :=
  match shared.saving with
  | .idle =>
    .ok { shared with
      tree := shared.tree.updateBranchFastNode
      saving := .merged (shared.tree.nextVersion cfg) }
  | .merged version =>
    .ok { shared with
      tree := shared.tree.setNdb (shared.tree.ndb.updateLatestMemoryVersion version)
      saving := .announced version
      saved := (version, shared.tree.root) :: shared.saved }
  | .announced version =>
    if MutableTree.shouldPersist cfg version then
      (shared.tree.persist cfg version).map
        (fun tree => { shared with tree := tree, saving := .persisted version })
    else .ok { shared with saving := .persisted version }
  | .persisted version =>
    .ok { shared with tree := { shared.tree with version := version }, saving := .idle }

def readStep (cfg : Config κ) (shared : SharedTree κ ν) (index : Nat) : SharedTree κ ν :=
  match shared.readings[index]? with
  | none => shared
  | some reading =>
    let (query, ndb) := reading.tree.readStep cfg shared.tree.ndb reading.query
    { shared with
      tree := shared.tree.setNdb ndb
      readings := shared.readings.set index { reading with query := query } }

/-- One step. The tree is edited between two calls of SaveVersion only. -/
def step (cfg : Config κ) (shared : SharedTree κ ν) : Action κ ν → Except Halt (SharedTree κ ν)
  | .set key value =>
    if shared.saving = .idle then
      (shared.tree.set key value).map (fun tree => { shared with tree := tree })
    else .ok shared
  | .remove key =>
    if shared.saving = .idle then .ok { shared with tree := shared.tree.remove key } else .ok shared
  | .save => shared.saveStep cfg
  | .commit => .ok { shared with tree := shared.tree.commitStep cfg }
  | .ask version query =>
    match shared.saved.lookup version with
    | none => .ok shared
    | some root =>
      if query.Asked then
        .ok { shared with readings := shared.readings ++ [⟨⟨root, version⟩, query⟩] }
      else .ok shared
  | .read index => .ok (shared.readStep cfg index)
  | .reload => .ok (start shared.tree.ndb.disk)

/-- The version whose number is the newest in memory. -/
def announced (shared : SharedTree κ ν) : Nat := match shared.saving with
  | .idle => shared.tree.version
  | .merged _ => shared.tree.version
  | .announced version => version
  | .persisted version => version

/-- The index already holds the changes of a version not yet the newest in memory. -/
def Merging (shared : SharedTree κ ν) : Prop := ∃ version, shared.saving = .merged version

end SharedTree

end Exchain.Iavl
