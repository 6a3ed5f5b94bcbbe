import Exchain.Store.StackContent

/-! Cache contexts of a multi-store. Committing one returns what the keys it writes held before, so
that it can be undone. -/

namespace Exchain.Store

variable {N K : Type} [DecidableEq N] [LinearOrder K]

/-- SnapshotWSet: under each written key its PrevValue. -/
abbrev SnapshotWSet (K : Type) [LinearOrder K] := AssocMap K Content

/-- A cached write that restores a value. -/
def CValue.restoring : Content → CValue
  | none => .deleted
  | some bytes => .value bytes

namespace Layers

/-- Set or Delete of the innermost store. -/
def setTop (key : K) (value : CValue) : Layers K → Layers K
  | [] => []
  | store :: below => store.setDirty key value :: below

/-- One turn of the loop of writeToCacheKvWithSnapShotWSet. -/
def writeItem (base : Base K) (written : SnapshotWSet K × Layers K) (item : Σ _ : K, CValue) :
    SnapshotWSet K × Layers K :=
  let answer := written.2.get (base.lookup item.1) item.1
  (written.1.insert item.1 answer.1, setTop item.1 item.2 answer.2)

end Layers

/-- One turn of the loop of WriteWithSnapshotWSet over a parent that is no cache. -/
def Base.writeItem (written : SnapshotWSet K × Base K) (item : Σ _ : K, CValue) :
    SnapshotWSet K × Base K :=
  (written.1.insert item.1 (written.2.lookup item.1), written.2.setValue item.1 item.2)

namespace Stack

/-- WriteWithSnapshotWSet of the innermost store. -/
def writeWithSnapshotWSet (stack : Stack K) : SnapshotWSet K × Stack K := match stack.layers with
  | [] => (∅, stack)
  | [store] =>
    let (set, base) := (store.dirty.entries.insertionSort (fun a b => a.1 ≤ b.1)).foldl
      Base.writeItem (∅, stack.base)
    (set, ⟨base, [store.clearCache]⟩)
  | store :: parent :: below =>
    let (set, layers) := store.dirty.entries.foldl (Layers.writeItem stack.base)
      (∅, parent :: below)
    (set, ⟨stack.base, store.clearCache :: layers⟩)

def revertSnapshotWSet (stack : Stack K) (set : SnapshotWSet K) : Stack K :=
  set.entries.foldl (fun stack item => stack.setValue 0 item.1 (.restoring item.2)) stack

end Stack

/-- The stores of a multi-store by their names, the db under none, each with the stores that it is a
cache of. -/
abbrev MultiStore (N K : Type) [LinearOrder K] := AssocMap (Option N) (Stack K)

/-- MultiSnapshotWSet, Root under none. -/
abbrev MultiSnapshotWSet (N K : Type) [LinearOrder K] := AssocMap (Option N) (SnapshotWSet K)

/-- A store that is not registered, and a set without the store. -/
inductive StorePanic where
  | noStore
  | noSnapshot
deriving Repr, DecidableEq

namespace MultiStore

variable (multi : MultiStore N K)

def cacheMultiStore : MultiStore N K :=
  multi.mapValues fun _ stack => stack.cacheWrap 0

/-- A cache that is no longer used. -/
def discard : MultiStore N K :=
  multi.mapValues fun _ stack => stack.discard 0

def write : MultiStore N K := multi.mapValues fun _ stack => stack.write 0

def writeGetMultiSnapshotWSet : MultiSnapshotWSet N K × MultiStore N K :=
  (multi.mapValues fun _ stack => stack.writeWithSnapshotWSet.1,
    multi.mapValues fun _ stack => stack.writeWithSnapshotWSet.2)

/-- RevertDBWithMultiSnapshotRWSet of the cache. -/
def revertCache (set : MultiSnapshotWSet N K) : Except StorePanic (MultiStore N K) :=
  if multi.entries.all (fun item => (set.lookup item.1).isSome) then
    .ok (multi.mapValues fun name stack => stack.revertSnapshotWSet ((set.lookup name).getD ∅))
  else .error .noSnapshot

/-- RevertDBWithMultiSnapshotRWSet of a context: in a cache, which is then written. -/
def revertDBWithMultiSnapshotRWSet (set : MultiSnapshotWSet N K) :
    Except StorePanic (MultiStore N K) :=
  (multi.cacheMultiStore.revertCache set).map fun cms => cms.write.discard

end MultiStore

/-- What is done with the innermost open context. -/
inductive ContextOp (N K : Type) where
  | cacheContext
  | get (name : N) (key : K)
  | set (name : N) (key : K) (value : Bytes)
  | delete (name : N) (key : K)
  | commit
  | discard
  | revert
deriving Repr, DecidableEq

/-- The open contexts, each with the sets that commits into it returned, the innermost context and
the last commit first. The outermost is the multi-store itself. -/
structure Contexts (N K : Type) [LinearOrder K] where
  multi : MultiStore N K
  sets : List (List (MultiSnapshotWSet N K))

namespace Contexts

/-- A store of the innermost context. -/
def access (contexts : Contexts N K) (name : N) (f : Stack K → Stack K) :
    Except StorePanic (Contexts N K) :=
  match contexts.multi.lookup (some name) with
  | none => .error .noStore
  | some stack => .ok { contexts with multi := contexts.multi.insert (some name) (f stack) }

/-- The multi-store itself is neither committed nor dropped. -/
def step (contexts : Contexts N K) : ContextOp N K → Except StorePanic (Contexts N K)
  | .cacheContext => .ok ⟨contexts.multi.cacheMultiStore, [] :: contexts.sets⟩
  | .get name key => contexts.access name fun stack => (stack.get 0 key).2
  | .set name key value => contexts.access name fun stack => stack.setValue 0 key (.value value)
  | .delete name key => contexts.access name fun stack => stack.setValue 0 key .deleted
  | .commit =>
    match contexts.sets with
    | _ :: sets :: outer =>
      let (set, multi) := contexts.multi.writeGetMultiSnapshotWSet
      .ok ⟨multi.discard, (set :: sets) :: outer⟩
    | _ => .ok contexts
  | .discard =>
    match contexts.sets with
    | _ :: sets :: outer => .ok ⟨contexts.multi.discard, sets :: outer⟩
    | _ => .ok contexts
  | .revert =>
    match contexts.sets with
    | (set :: sets) :: outer =>
      (contexts.multi.revertDBWithMultiSnapshotRWSet set).map fun multi => ⟨multi, sets :: outer⟩
    | _ => .ok contexts

end Contexts

end Exchain.Store
