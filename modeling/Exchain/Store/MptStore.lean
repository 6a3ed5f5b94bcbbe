import Exchain.Lib.ReadThrough
import Exchain.Lib.Run

/-! The account store over a trie. Every operation goes to the trie and, on its own, to a cache in
front; a commit may continue on the prefetcher's trie. -/

namespace Exchain.Mpt

open ReadThrough Function

abbrev Bytes := List UInt8

/-- A trie is the map it holds, and holds no empty value. -/
structure Trie where
  tryGet : Bytes → Option Bytes
  filled : ∀ key, tryGet key ≠ some []

namespace Trie

def tryDelete (trie : Trie) (key : Bytes) : Trie where
  tryGet := update trie.tryGet key none
  filled other := by
    by_cases same : other = key
    · simp [same]
    · simpa [same] using trie.filled other

/-- Updating with an empty value deletes. -/
def tryUpdate (trie : Trie) (key value : Bytes) : Trie :=
  if empty : value = [] then trie.tryDelete key
  else
    { tryGet := update trie.tryGet key (some value)
      filled := fun other => by
        by_cases same : other = key
        · simpa [same] using empty
        · simpa [same] using trie.filled other }

end Trie

abbrev Cache := Bytes → Option Bytes

/-- The cache does not take an entry of 64 KiB or more. -/
def tooLarge (key value : Bytes) : Prop := 65536 ≤ key.length + value.length

instance (key value : Bytes) : Decidable (tooLarge key value) := inferInstanceAs (Decidable (_ ≤ _))

def Cache.set (cache : Cache) (key value : Bytes) : Cache :=
  if tooLarge key value then cache else update cache key (some value)

structure MptStore where
  kvCache : Option Cache
  trie : Trie
  /-- What the trie was at the root that was committed last. -/
  originalRoot : Trie

namespace MptStore

variable (ms : MptStore)

def cached (key : Bytes) : Option Bytes := ms.kvCache.bind (· key)

def get (key : Bytes) : Option Bytes × MptStore := match ms.cached key with
  | some (byte :: rest) => (some (byte :: rest), ms)
  -- also an empty value is looked up in the trie
  | _ =>
    match ms.trie.tryGet key with
    | none => (none, ms)
    | some value => (some value, { ms with kvCache := ms.kvCache.map (·.set key value) })

def has (key : Bytes) : Bool × MptStore :=
  if (ms.cached key).isSome then (true, ms) else ((ms.get key).1.isSome, (ms.get key).2)

def set (key value : Bytes) : MptStore :=
  { ms with kvCache := ms.kvCache.map (·.set key value), trie := ms.trie.tryUpdate key value }

def delete (key : Bytes) : MptStore :=
  { ms with kvCache := ms.kvCache.map (update · key none), trie := ms.trie.tryDelete key }

def committerCommit : MptStore := { ms with originalRoot := ms.trie }

/-- prefetchData: the prefetcher has opened its trie at the original root. -/
def tryUpdateTrie : MptStore := { ms with trie := ms.originalRoot }

end MptStore

inductive Op where
  | set (key value : Bytes)
  | delete (key : Bytes)
  | get (key : Bytes)
  | has (key : Bytes)
  | committerCommit
  | tryUpdateTrie
  | evict (dropped : Bytes → Bool)

def MptStore.step (ms : MptStore) : Op → MptStore
  | .set key value => ms.set key value
  | .delete key => ms.delete key
  | .get key => (ms.get key).2
  | .has key => (ms.has key).2
  | .committerCommit => ms.committerCommit
  | .tryUpdateTrie => ms.tryUpdateTrie
  | .evict dropped => { ms with kvCache := ms.kvCache.map (drop dropped) }

/-- The map that the store is for. -/
def mapStep (map : Bytes → Option Bytes) : Op → Bytes → Option Bytes
  | .set key value => update map key (some value)
  | .delete key => update map key none
  | _ => map

/-- A store, the same one without a cache, the map, and whether anything was written since the
commit. -/
structure World where
  ms : MptStore
  uncached : MptStore
  map : Bytes → Option Bytes
  written : Bool

namespace World

def start (trie : Trie) : World :=
  ⟨⟨some fun _ => none, trie, trie⟩, ⟨none, trie, trie⟩, trie.tryGet, false⟩

def step (w : World) (op : Op) : World where
  ms := w.ms.step op
  uncached := w.uncached.step op
  map := mapStep w.map op
  written := match op with
    | .set .. | .delete _ => true
    | .committerCommit => false
    | _ => w.written

/-- A trie is handed over before the writes of its block. -/
def InTime (w : World) : Op → Prop
  | .tryUpdateTrie => w.written = false
  | _ => True

def Faithful (w : World) : Prop :=
  ∀ key, (w.ms.get key).1 = w.map key ∧ (w.ms.has key).1 = (w.map key).isSome ∧
    (w.uncached.get key).1 = w.map key ∧ (w.uncached.has key).1 = (w.map key).isSome

/-- No empty value is set, and no large one over another one that is cached. -/
def Kept (w : World) : Op → Prop
  | .set key value => value ≠ [] ∧ (tooLarge key value → ∀ held, w.ms.cached key = some held → held = value)
  | _ => True

structure Sound (w : World) (cache : Cache) : Prop where
  ms : w.ms = ⟨some cache, w.uncached.trie, w.uncached.originalRoot⟩
  uncached : w.uncached.kvCache = none
  agrees : Agrees cache w.uncached.trie.tryGet
  map : w.map = w.uncached.trie.tryGet
  clean : w.written = false → w.uncached.originalRoot = w.uncached.trie

end World

theorem Trie.tryUpdate_of_ne (trie : Trie) (key : Bytes) {value : Bytes} (full : value ≠ []) :
    (trie.tryUpdate key value).tryGet = update trie.tryGet key (some value) := by
  rw [tryUpdate, dif_neg full]

theorem agrees_cache_set {cache : Cache} {trie : Trie} (agrees : Agrees cache trie.tryGet) {key value : Bytes}
    (found : trie.tryGet key = some value) : Agrees (cache.set key value) trie.tryGet := by
  unfold Cache.set
  split
  · exact agrees
  · exact agrees.fill found

variable {cache : Cache} {trie : Trie}

/-- What Get answers, and that it leaves a cache that agrees. -/
theorem get_spec (root : Trie) (agrees : Agrees cache trie.tryGet) (key : Bytes) :
    ∃ cache', (MptStore.mk (some cache) trie root).get key = (trie.tryGet key, ⟨some cache', trie, root⟩) ∧
      Agrees cache' trie.tryGet := by
  unfold MptStore.get
  split
  · rename_i byte rest held
    exact ⟨cache, by rw [agrees key _ held], agrees⟩
  · cases found : trie.tryGet key with
    | none => exact ⟨cache, rfl, agrees⟩
    | some value => exact ⟨cache.set key value, rfl, agrees_cache_set agrees found⟩

theorem has_spec (root : Trie) (agrees : Agrees cache trie.tryGet) (key : Bytes) :
    ∃ cache', (MptStore.mk (some cache) trie root).has key =
      ((trie.tryGet key).isSome, ⟨some cache', trie, root⟩) ∧ Agrees cache' trie.tryGet := by
  unfold MptStore.has
  split
  · rename_i held
    obtain ⟨value, held⟩ := Option.isSome_iff_exists.mp held
    exact ⟨cache, by rw [agrees key value held]; rfl, agrees⟩
  · obtain ⟨cache', answer, agrees'⟩ := get_spec root agrees key
    rw [answer]
    exact ⟨cache', rfl, agrees'⟩

theorem get_cached {ms : MptStore} {key rest : Bytes} {byte : UInt8} (held : ms.cached key = some (byte :: rest)) :
    (ms.get key).1 = some (byte :: rest) := by
  rw [MptStore.get, held]

/-- Get never answers with an empty value. -/
theorem get_ne_empty (ms : MptStore) (key : Bytes) : (ms.get key).1 ≠ some [] := by
  unfold MptStore.get
  split
  · simp
  have filled := ms.trie.filled key
  split
  · simp
  · rename_i found
    rwa [found] at filled

theorem get_uncached (ms : MptStore) (disabled : ms.kvCache = none) (key : Bytes) :
    ms.get key = (ms.trie.tryGet key, ms) ∧ ms.has key = ((ms.trie.tryGet key).isSome, ms) := by
  obtain ⟨kvCache, trie, root⟩ := ms
  obtain rfl : kvCache = none := disabled
  have answer : (MptStore.mk none trie root).get key = (trie.tryGet key, ⟨none, trie, root⟩) := by
    unfold MptStore.get
    cases trie.tryGet key <;> rfl
  refine ⟨answer, ?_⟩
  unfold MptStore.has
  rw [answer]
  rfl

namespace World

variable {w : World}

section

variable (sound : Sound w cache)

include sound

theorem Sound.faithful : Faithful w := by
  intro key
  obtain ⟨_, got, -⟩ := get_spec w.uncached.originalRoot sound.agrees key
  obtain ⟨_, has, -⟩ := has_spec w.uncached.originalRoot sound.agrees key
  obtain ⟨got', has'⟩ := get_uncached w.uncached sound.uncached key
  rw [sound.ms, got, has, got', has', sound.map]
  exact ⟨rfl, rfl, rfl, rfl⟩

theorem Sound.set {key value : Bytes} (kept : Kept w (.set key value)) :
    Agrees (cache.set key value) (w.uncached.trie.tryUpdate key value).tryGet := by
  obtain ⟨full, fresh⟩ := kept
  rw [Trie.tryUpdate_of_ne _ _ full]
  unfold Cache.set
  split
  · rename_i large
    refine sound.agrees.behind fun held found => fresh large held ?_
    rw [sound.ms]
    exact found
  · exact sound.agrees.write key (some value)

theorem Sound.ms_step (op : Op) :
    (w.step op).ms = MptStore.step ⟨some cache, w.uncached.trie, w.uncached.originalRoot⟩ op :=
  congrArg (MptStore.step · op) sound.ms

theorem Sound.step {op : Op} (inTime : InTime w op) (kept : Kept w op) :
    ∃ cache', Sound (w.step op) cache' := by
  have ms := sound.ms_step op
  cases op with
  | set key value =>
    refine ⟨cache.set key value, ms, congrArg (Option.map _) sound.uncached, sound.set kept, ?_,
      fun clean => Bool.noConfusion clean⟩
    exact (congrArg (update · key (some value)) sound.map).trans
      (Trie.tryUpdate_of_ne _ _ kept.1).symm
  | delete key =>
    refine ⟨update cache key none, ms, congrArg (Option.map _) sound.uncached,
      sound.agrees.write key none, ?_, fun clean => Bool.noConfusion clean⟩
    exact congrArg (fun map : Bytes → Option Bytes => update map key none) sound.map
  | get key =>
    obtain ⟨cache', got, agrees⟩ := get_spec w.uncached.originalRoot sound.agrees key
    have same : (w.step (.get key)).uncached = w.uncached :=
      congrArg Prod.snd (get_uncached w.uncached sound.uncached key).1
    refine ⟨cache', ?_, same ▸ sound.uncached, same ▸ agrees, same ▸ sound.map, same ▸ sound.clean⟩
    rw [ms, same, MptStore.step, got]
  | has key =>
    obtain ⟨cache', got, agrees⟩ := has_spec w.uncached.originalRoot sound.agrees key
    have same : (w.step (.has key)).uncached = w.uncached :=
      congrArg Prod.snd (get_uncached w.uncached sound.uncached key).2
    refine ⟨cache', ?_, same ▸ sound.uncached, same ▸ agrees, same ▸ sound.map, same ▸ sound.clean⟩
    rw [ms, same, MptStore.step, got]
  | committerCommit => exact ⟨cache, ms, sound.uncached, sound.agrees, sound.map, fun _ => rfl⟩
  | tryUpdateTrie =>
    have same := congrArg Trie.tryGet (sound.clean inTime)
    refine ⟨cache, ms, sound.uncached, ?_, sound.map.trans same.symm, fun _ => rfl⟩
    change Agrees cache w.uncached.originalRoot.tryGet
    rw [same]
    exact sound.agrees
  | evict dropped =>
    exact ⟨drop dropped cache, ms, congrArg (Option.map _) sound.uncached, sound.agrees.drop dropped,
      sound.map, sound.clean⟩

/-- A Set that is not kept is answered wrongly at once. -/
theorem Sound.kept {op : Op} (faithful : Faithful (w.step op)) : Kept w op := by
  cases op with
  | set key value =>
    have answer := (faithful key).1
    have expected : (w.step (.set key value)).map key = some value := update_self key _ _
    rw [expected, World.step, sound.ms] at answer
    have full : value ≠ [] := by
      rintro rfl
      exact get_ne_empty _ key answer
    refine ⟨full, fun large held found => ?_⟩
    rw [sound.ms] at found
    have stale : cache.set key value = cache := if_pos large
    cases held with
    | nil => exact absurd (sound.agrees key [] found) (w.uncached.trie.filled key)
    | cons =>
      have shown := get_cached (show MptStore.cached ⟨some (cache.set key value),
        w.uncached.trie.tryUpdate key value, w.uncached.originalRoot⟩ key = _ from (congrFun stale key).trans found)
      exact Option.some.inj (shown.symm.trans answer)
  | _ => trivial

end

def emptyTrie : Trie := ⟨fun _ => none, fun _ => by simp⟩

def oneCommit : List Op := [.set [1] [2], .committerCommit, .tryUpdateTrie]

end World

end Exchain.Mpt
