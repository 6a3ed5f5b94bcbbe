import Exchain.Evm.MirrorOps

namespace Exchain.Evm

open CommitStateDB List

/-- What the cache and the stores hold for one address. -/
@[ext] structure Spot where
  object : Option StateObject
  account : Option Account
  slots : Hash → Hash
  root : Hash → Hash

def CommitStateDB.spot (s : CommitStateDB) (addr : Address) : Spot where
  object := s.stateObjects.lookup addr
  account := s.db.kv.accounts addr
  slots := s.db.kv.storage addr
  root := s.db.mpt.storageTries addr

/-- A loop body that changes the spot of its address and no other. -/
def Local (body : CommitStateDB → Address → CommitStateDB) (change : Address → Spot → Spot) : Prop :=
  ∀ s addr other, (body s addr).spot other =
    if other = addr then change addr (s.spot addr) else s.spot other

variable {body : CommitStateDB → Address → CommitStateDB}

theorem Local.foldl {change : Address → Spot → Spot}
    (isLocal : Local body change) {addrs : List Address} (nodup : addrs.Nodup) (s : CommitStateDB)
    (addr : Address) : (addrs.foldl body s).spot addr =
      if addr ∈ addrs then change addr (s.spot addr) else s.spot addr := by
  apply AList.foldl_keys CommitStateDB.spot change (fun s a k => ?_) nodup
  rw [isLocal]
  split
  case isTrue same => rw [same]
  case isFalse => rfl

def StateObject.cleanCode (so : StateObject) : StateObject :=
  if so.code.isSome && so.dirtyCode then { so with dirtyCode := false } else so

namespace Spot

variable (cfg : Config)

def finalise (deleteEmptyObjects : Bool) (spot : Spot) : Spot :=
  { spot with object := spot.object.map (finaliseObject cfg deleteEmptyObjects) }

def commitSlots (spot : Spot) : Spot := match spot.object with
  | some so =>
    if so.deleted then spot
    else if cfg.higherThanMars then { spot with object := some so.updateTrie }
    else { spot with object := some so.settleSlots, slots := so.overlay spot.slots }
  | none => spot

def commitAccount (addr : Address) (spot : Spot) : Spot := match spot.object with
  | some so =>
    if so.deleted then { spot with account := none }
    else if cfg.blacklistedAddr addr then spot
    else { spot with account := some so.account }
  | none => spot

def commitObject (spot : Spot) : Spot := match spot.object with
  | some so =>
    if so.deleted then
      if cfg.higherThanMars then { spot with root := emptyTrie } else spot
    else
      { spot with
        object := some so.cleanCode
        root := if cfg.higherThanMars && so.codeHash cfg ≠ cfg.emptyCodeHash then so.trie else spot.root }
  | none => spot

/-- What a commit makes of the spot of a dirty address. -/
def commit (deleteEmptyObjects : Bool) (addr : Address) (spot : Spot) : Spot :=
  ((((spot.finalise cfg deleteEmptyObjects).commitSlots cfg).commitAccount cfg addr).commitObject cfg)

end Spot

section

variable {cfg : Config} (s : CommitStateDB)

theorem spot_setStateObject (addr other : Address) (so : StateObject) :
    (s.setStateObject addr so).spot other =
      if other = addr then { s.spot addr with object := some so } else s.spot other := by
  by_cases same : other = addr
  · subst same
    simp [CommitStateDB.spot, CommitStateDB.setStateObject]
  · simp [CommitStateDB.spot, CommitStateDB.setStateObject, same]

theorem local_finalise (deleteEmptyObjects : Bool) :
    Local (fun s addr => s.mapObject addr (finaliseObject cfg deleteEmptyObjects))
      fun _ => Spot.finalise cfg deleteEmptyObjects := by
  intro s addr other
  cases cached : s.stateObjects.lookup addr with
  | none =>
    by_cases same : other = addr
    · subst same
      simp [mapObject, cached, Spot.finalise, CommitStateDB.spot]
    · simp [mapObject, cached, same]
  | some so =>
    simp only [mapObject, cached, spot_setStateObject]
    simp [Spot.finalise, CommitStateDB.spot, cached]

theorem local_commitSlots : Local (CommitStateDB.commitSlots cfg) fun _ => Spot.commitSlots cfg := by
  intro s addr other
  by_cases same : other = addr
  · subst same
    simp only [CommitStateDB.commitSlots, Spot.commitSlots, CommitStateDB.spot]
    cases cached : s.stateObjects.lookup other with
    | none => simp [cached]
    | some so => cases gone : so.deleted <;> cases mars : cfg.higherThanMars <;>
        simp [cached, gone, CommitStateDB.setStateObject, withKV]
  · rw [if_neg same]
    simp only [CommitStateDB.commitSlots, CommitStateDB.spot]
    cases cached : s.stateObjects.lookup addr with
    | none => simp
    | some so => cases gone : so.deleted <;> cases mars : cfg.higherThanMars <;>
        simp [gone, CommitStateDB.setStateObject, withKV, same]

theorem local_commitAccount : Local (CommitStateDB.commitAccount cfg) (Spot.commitAccount cfg) := by
  intro s addr other
  by_cases same : other = addr
  · subst same
    simp only [CommitStateDB.commitAccount, Spot.commitAccount, CommitStateDB.spot]
    cases cached : s.stateObjects.lookup other with
    | none => simp [cached]
    | some so => cases gone : so.deleted <;> cases listed : cfg.blacklistedAddr other <;>
        simp [cached, gone, withKV]
  · rw [if_neg same]
    simp only [CommitStateDB.commitAccount, CommitStateDB.spot]
    cases cached : s.stateObjects.lookup addr with
    | none => simp
    | some so => cases gone : so.deleted <;> cases listed : cfg.blacklistedAddr addr <;>
        simp [gone, withKV, same]

theorem spot_withStorageTrie (addr other : Address) (trie : Hash → Hash) :
    (s.withStorageTrie addr trie).spot other =
      if other = addr then { s.spot addr with root := trie } else s.spot other := by
  by_cases same : other = addr
  · subst same
    simp [CommitStateDB.spot, withStorageTrie]
  · simp [CommitStateDB.spot, withStorageTrie, same]

theorem spot_commitCode {s : CommitStateDB} {addr : Address} {so : StateObject}
    (cached : s.stateObjects.lookup addr = some so) (other : Address) :
    (s.commitCode cfg addr so).spot other =
      if other = addr then { s.spot addr with object := some so.cleanCode } else s.spot other := by
  have written := spot_setStateObject s addr other
  unfold CommitStateDB.commitCode StateObject.cleanCode
  split
  · split
    all_goals exact written _
  · by_cases same : other = addr
    · subst same
      simp [CommitStateDB.spot, cached]
    · simp [same]

theorem local_commitObject : Local (CommitStateDB.commitObject cfg) fun _ => Spot.commitObject cfg := by
  intro s addr other
  have here : (s.spot addr).object = s.stateObjects.lookup addr := rfl
  simp only [CommitStateDB.commitObject, Spot.commitObject, here]
  cases cached : s.stateObjects.lookup addr with
  | none =>
    by_cases same : other = addr <;> simp [same]
  | some so =>
    have coded := @spot_commitCode cfg s addr so cached
    cases gone : so.deleted with
    | true =>
      simp only [gone]
      cases mars : cfg.higherThanMars with
      | true =>
        simp only [if_true, spot_withStorageTrie]
        by_cases same : other = addr <;> simp [same, here, cached]
      | false => by_cases same : other = addr <;> simp [same]
    | false =>
      simp only [gone, Bool.false_eq_true, updateAccountStorageInfo]
      cases mars : cfg.higherThanMars with
      | false => simpa [mars] using coded other
      | true =>
        by_cases bare : so.codeHash cfg = cfg.emptyCodeHash
        · simpa [bare] using coded other
        · simp only [bare, if_true, if_false, spot_withStorageTrie, coded]
          by_cases same : other = addr <;> simp [same, bare]

theorem dirtyObjects_nodup (order : List Address) : (s.dirtyObjects order).Nodup :=
  (s.journal.dirties.visit_nodup order).filter _

theorem spot_clearJournalAndRefund (addr : Address) :
    s.clearJournalAndRefund.spot addr = s.spot addr := by
  unfold clearJournalAndRefund
  split <;> rfl

theorem spot_commit (order : List Address) (deleteEmptyObjects : Bool)
    (addr : Address) : (s.commit cfg order deleteEmptyObjects).spot addr =
      if addr ∈ s.dirtyObjects order then (s.spot addr).commit cfg deleteEmptyObjects addr
      else s.spot addr := by
  have nodup := dirtyObjects_nodup s order
  simp only [CommitStateDB.commit, intermediateRoot, CommitStateDB.finalise]
  rw [local_commitObject.foldl nodup, local_commitAccount.foldl nodup, local_commitSlots.foldl nodup,
    spot_clearJournalAndRefund, (local_finalise deleteEmptyObjects).foldl nodup]
  split <;> rfl

end

structure TwinSpot (cfg : Config) (left right : Spot) : Prop where
  account : right.account = left.account
  root : right.root = left.slots ∨ right.root = emptyTrie
  stored : left.account ≠ none → right.root = left.slots
  object : Option.Rel (TwinOver cfg left.slots right.root) left.object right.object

/-- An object that a commit keeps although it has no code writes no slot. -/
def KeepsBareSlots (cfg : Config) (so : StateObject) : Prop :=
  (finaliseObject cfg true so).deleted = false → so.codeHash cfg = cfg.emptyCodeHash →
    ∀ key, so.writtenSlots key = none

section

variable {cfg : Config} {left right : StateObject}

theorem Sibling.finaliseObject (sibling : Sibling cfg left right) (deleteEmptyObjects : Bool) :
    Sibling cfg (finaliseObject cfg deleteEmptyObjects left)
      (finaliseObject cfg deleteEmptyObjects right) ∧
      (CommitStateDB.finaliseObject cfg deleteEmptyObjects right).trie = right.trie := by
  have deleted := sibling.change (fun so => { so with deleted := true }) (fun _ _ _ _ => rfl)
    (fun _ => rfl)
  have finalised := sibling.change StateObject.finalise (fun _ _ _ _ => rfl) (fun _ => rfl)
  have test : (right.suicided || (deleteEmptyObjects && right.empty cfg)) =
      (left.suicided || (deleteEmptyObjects && left.empty cfg)) := by
    rw [sibling.suicided, sibling.empty]
  unfold CommitStateDB.finaliseObject
  rw [test]
  split
  · exact deleted
  · exact finalised

theorem writtenSlots_finalise (so : StateObject) : so.finalise.writtenSlots = so.writtenSlots := by
  funext key
  simp [StateObject.writtenSlots, StateObject.finalise]

section

variable (sibling : Sibling cfg left right)

include sibling

theorem Sibling.writtenSlots : right.writtenSlots = left.writtenSlots := by
  rw [sibling.same]
  rfl

theorem Sibling.updateTrie : Sibling cfg left.settleSlots right.updateTrie := by
  refine ⟨?_, sibling.code, sibling.dirtyCode, sibling.leftCode, sibling.rightCode⟩
  rw [sibling.same]
  rfl

theorem Sibling.code_eq (coded : left.codeHash cfg ≠ cfg.emptyCodeHash) : right.code = left.code := by
  have codes := sibling.code
  have leftCode : left.code ≠ some [] := fun bare => coded (sibling.leftCode bare)
  have rightCode : right.code ≠ some [] := fun bare => coded (sibling.rightCode bare)
  cases here : left.code <;> cases there : right.code <;> simp_all

end

theorem cleanCode_eq (so : StateObject) : ∃ dirty, so.cleanCode = { so with dirtyCode := dirty } := by
  unfold StateObject.cleanCode
  split
  · exact ⟨false, rfl⟩
  · exact ⟨so.dirtyCode, rfl⟩

theorem Sibling.cleanCode (sibling : Sibling cfg left right) :
    Sibling cfg left.cleanCode right.cleanCode := by
  have dirty (coded : left.codeHash cfg ≠ cfg.emptyCodeHash) :
      right.cleanCode.dirtyCode = left.cleanCode.dirtyCode := by
    simp only [StateObject.cleanCode, sibling.code_eq coded, sibling.dirtyCode coded]
    split <;> simp [sibling.dirtyCode coded]
  obtain ⟨_, cleaned⟩ := cleanCode_eq left
  obtain ⟨_, cleaned'⟩ := cleanCode_eq right
  rw [cleaned, cleaned'] at dirty ⊢
  refine ⟨?_, sibling.code, dirty, sibling.leftCode, sibling.rightCode⟩
  rw [sibling.same]

theorem Spot.commit_of_deleted {other : Config} {spot : Spot} {so : StateObject} (addr : Address)
    (cached : spot.object = some so) (gone : (CommitStateDB.finaliseObject other true so).deleted = true) :
    spot.commit other true addr =
      { spot with
        object := some (CommitStateDB.finaliseObject other true so)
        account := none
        root := if other.higherThanMars then emptyTrie else spot.root } := by
  cases mars : other.higherThanMars <;>
    simp [Spot.commit, Spot.finalise, Spot.commitSlots, Spot.commitAccount, Spot.commitObject, cached, gone,
      mars]

theorem Spot.commit_of_kept {other : Config} {spot : Spot} {so final : StateObject} (addr : Address)
    (cached : spot.object = some so) (finalised : CommitStateDB.finaliseObject other true so = final)
    (kept : final.deleted = false) : spot.commit other true addr =
      { object := some (if other.higherThanMars then final.updateTrie else final.settleSlots).cleanCode
        account := if other.blacklistedAddr addr then spot.account else some final.account
        slots := if other.higherThanMars then spot.slots else final.overlay spot.slots
        root := if other.higherThanMars && final.codeHash other ≠ other.emptyCodeHash then
          final.overlay final.trie else spot.root } := by
  have settled : final.settleSlots.deleted = false := kept
  have updated : final.updateTrie.deleted = false := kept
  have hash : final.updateTrie.codeHash other = final.codeHash other := rfl
  have trie : final.updateTrie.trie = final.overlay final.trie := rfl
  cases mars : other.higherThanMars <;> cases listed : other.blacklistedAddr addr <;>
    simp [Spot.commit, Spot.finalise, Spot.commitSlots, Spot.commitAccount, Spot.commitObject, cached,
      finalised, kept, settled, updated, mars, listed, hash, trie] <;> rfl

theorem finaliseObject_of_kept {deleteEmptyObjects : Bool} {so : StateObject}
    (kept : (CommitStateDB.finaliseObject cfg deleteEmptyObjects so).deleted = false) :
    CommitStateDB.finaliseObject cfg deleteEmptyObjects so = so.finalise ∧ so.deleted = false := by
  unfold CommitStateDB.finaliseObject at kept ⊢
  split at kept
  · simp at kept
  rename_i staying
  rw [if_neg staying]
  exact ⟨rfl, kept⟩

theorem TwinSpot.commit {left right : Spot} (twin : TwinSpot cfg left right) (addr : Address)
    (bare : ∀ so, left.object = some so → KeepsBareSlots cfg so) :
    TwinSpot cfg (left.commit cfg.kv true addr) (right.commit cfg.mpt true addr) := by
  rcases rel_cases twin.object with ⟨here, there⟩ | ⟨a, b, here, there, pair⟩
  · have same : left.commit cfg.kv true addr = left ∧ right.commit cfg.mpt true addr = right := by
      simp [Spot.commit, Spot.finalise, Spot.commitSlots, Spot.commitAccount, Spot.commitObject, here, there,
        Spot.ext_iff]
    rw [same.1, same.2]
    exact twin
  · obtain ⟨sibling, _⟩ := pair.toSibling.finaliseObject true
    cases gone : (finaliseObject cfg true a).deleted with
    | true =>
      have gone' := sibling.deleted.trans gone
      have deleted : left.commit cfg.kv true addr = _ := Spot.commit_of_deleted addr here gone
      have deleted' : right.commit cfg.mpt true addr = _ := Spot.commit_of_deleted addr there gone'
      rw [deleted, deleted']
      exact ⟨rfl, .inr rfl, fun stored => absurd rfl stored,
        .some ⟨sibling, fun kept => absurd (gone.symm.trans kept) (by simp),
          fun kept => absurd (gone.symm.trans kept) (by simp)⟩⟩
    | false =>
      obtain ⟨final, alive⟩ := finaliseObject_of_kept gone
      have gone' := sibling.deleted.trans gone
      obtain ⟨final', -⟩ := finaliseObject_of_kept gone'
      rw [final, final'] at sibling
      have kept : left.commit cfg.kv true addr = _ := Spot.commit_of_kept addr here final alive
      have kept' : right.commit cfg.mpt true addr = _ :=
        Spot.commit_of_kept addr there final' (pair.deleted.trans alive)
      have slots : b.finalise.overlay b.finalise.trie = a.finalise.overlay left.slots := by
        have held : b.finalise.trie = left.slots := pair.trie alive
        funext key
        rw [held, StateObject.overlay, StateObject.overlay, sibling.writtenSlots]
      have hash : b.finalise.codeHash cfg.mpt = a.codeHash cfg := sibling.codeHash
      have emptyHash : cfg.mpt.emptyCodeHash = cfg.emptyCodeHash := rfl
      have home : (if cfg.mpt.higherThanMars && b.finalise.codeHash cfg.mpt ≠ cfg.mpt.emptyCodeHash then
          b.finalise.overlay b.finalise.trie else right.root) = a.finalise.overlay left.slots := by
        by_cases coded : a.codeHash cfg = cfg.emptyCodeHash
        · -- the root is not recorded, but nothing was written either
          have unwritten : a.finalise.overlay left.slots = left.slots := by
            funext key
            rw [StateObject.overlay, writtenSlots_finalise, bare a here gone coded key]
            rfl
          have skipped : ¬(cfg.mpt.higherThanMars &&
              b.finalise.codeHash cfg.mpt ≠ cfg.mpt.emptyCodeHash) = true := by
            simp [hash, coded, emptyHash]
          rw [if_neg skipped, unwritten]
          exact pair.stored alive
        · have recorded : (cfg.mpt.higherThanMars &&
              b.finalise.codeHash cfg.mpt ≠ cfg.mpt.emptyCodeHash) = true := by
            simpa [hash, emptyHash] using coded
          rw [if_pos recorded, slots]
      obtain ⟨_, cleaned⟩ := cleanCode_eq b.finalise.updateTrie
      rw [kept, kept']
      refine ⟨?_, .inl home, fun _ => home, .some ⟨sibling.updateTrie.cleanCode, fun _ => ?_, fun _ => home⟩⟩
      · simp only [twin.account]
        rw [sibling.account]
      · show b.finalise.updateTrie.cleanCode.trie = a.finalise.overlay left.slots
        rw [cleaned, ← slots]
        rfl

end

/-- Cached objects that are siblings, over the same code. -/
structure InStep (cfg : Config) (s t : CommitStateDB) : Prop where
  objects : ∀ addr, Option.Rel (Sibling cfg) (s.stateObjects.lookup addr) (t.stateObjects.lookup addr)
  code : ∀ hash, hash ≠ cfg.emptyCodeHash → t.db.mpt.code hash = s.db.kv.code hash
  codeful : ∀ hash, hash ≠ cfg.emptyCodeHash → s.db.kv.code hash ≠ some []

section InStep

variable {cfg : Config} {s t : CommitStateDB}

namespace InStep

variable (inStep : InStep cfg s t)

include inStep

variable (addr : Address)

theorem lookup : s.stateObjects.lookup addr = none ∧ t.stateObjects.lookup addr = none ∨
      ∃ left right, s.stateObjects.lookup addr = some left ∧ t.stateObjects.lookup addr = some right ∧
        Sibling cfg left right :=
  rel_cases (inStep.objects addr)

theorem setStateObject {left right : StateObject} (sibling : Sibling cfg left right) :
    InStep cfg (s.setStateObject addr left) (t.setStateObject addr right) := by
  refine ⟨fun other => ?_, inStep.code, inStep.codeful⟩
  simp only [CommitStateDB.setStateObject, AList.lookup_insert_if]
  split
  · exact .some sibling
  · exact inStep.objects other

theorem finalise (deleteEmptyObjects : Bool) :
    InStep cfg (s.mapObject addr (finaliseObject cfg.kv deleteEmptyObjects))
      (t.mapObject addr (finaliseObject cfg.mpt deleteEmptyObjects)) := by
  unfold mapObject
  rcases inStep.lookup addr with ⟨here, there⟩ | ⟨left, right, here, there, sibling⟩
  · simpa [here, there] using inStep
  · simp only [here, there]
    exact inStep.setStateObject addr (sibling.finaliseObject deleteEmptyObjects).1

theorem commitSlots : InStep cfg (s.commitSlots cfg.kv addr) (t.commitSlots cfg.mpt addr) := by
  unfold CommitStateDB.commitSlots
  rcases inStep.lookup addr with ⟨here, there⟩ | ⟨left, right, here, there, sibling⟩
  · simpa [here, there] using inStep
  simp only [here, there, sibling.deleted]
  split
  · exact inStep
  · have updated := inStep.setStateObject addr sibling.updateTrie
    exact ⟨updated.objects, updated.code, updated.codeful⟩

theorem commitAccount :
    InStep cfg (s.commitAccount cfg.kv addr) (t.commitAccount cfg.mpt addr) := by
  unfold CommitStateDB.commitAccount
  rcases inStep.lookup addr with ⟨here, there⟩ | ⟨left, right, here, there, sibling⟩
  · simpa [here, there] using inStep
  simp only [here, there, sibling.deleted]
  split
  · exact ⟨inStep.objects, inStep.code, inStep.codeful⟩
  split
  · exact inStep
  · exact ⟨inStep.objects, inStep.code, inStep.codeful⟩

theorem commitCode {left right : StateObject}
    (here : s.stateObjects.lookup addr = some left) (there : t.stateObjects.lookup addr = some right)
    (sibling : Sibling cfg left right) :
    InStep cfg (s.commitCode cfg.kv addr left) (t.commitCode cfg.mpt addr right) := by
  have written : (s.commitCode cfg.kv addr left).db.kv.code =
      if left.code.isSome && left.dirtyCode then
        Function.update s.db.kv.code (left.codeHash cfg) left.code else s.db.kv.code := by
    unfold CommitStateDB.commitCode
    split <;> rfl
  have written' : (t.commitCode cfg.mpt addr right).db.mpt.code =
      if right.code.isSome && right.dirtyCode then
        Function.update t.db.mpt.code (left.codeHash cfg) right.code else t.db.mpt.code := by
    rw [← sibling.codeHash]
    unfold CommitStateDB.commitCode
    split <;> rfl
  refine ⟨fun other => ?_, fun hash coded => ?_, fun hash coded => ?_⟩
  · have spot := congrArg Spot.object (@spot_commitCode cfg.kv s addr left here other)
    have spot' := congrArg Spot.object (@spot_commitCode cfg.mpt t addr right there other)
    have same : ((s.commitCode cfg.kv addr left).spot other).object =
      (s.commitCode cfg.kv addr left).stateObjects.lookup other := rfl
    have same' : ((t.commitCode cfg.mpt addr right).spot other).object =
      (t.commitCode cfg.mpt addr right).stateObjects.lookup other := rfl
    rw [← same, ← same', spot, spot']
    split
    · exact .some sibling.cleanCode
    · exact inStep.objects other
  · rw [written, written']
    by_cases own : hash = left.codeHash cfg
    · subst own
      rw [sibling.code_eq coded, sibling.dirtyCode coded]
      split
      · simp
      · exact inStep.code _ coded
    · have agree := inStep.code hash coded
      split <;> split <;> simpa [own] using agree
  · rw [written]
    by_cases own : hash = left.codeHash cfg
    · subst own
      split
      · simpa using fun bare => coded (sibling.leftCode bare)
      · exact inStep.codeful _ coded
    · have codeful := inStep.codeful hash coded
      split <;> simpa [own] using codeful

theorem commitObject : InStep cfg (s.commitObject cfg.kv addr) (t.commitObject cfg.mpt addr) := by
  unfold CommitStateDB.commitObject
  rcases inStep.lookup addr with ⟨here, there⟩ | ⟨left, right, here, there, sibling⟩
  · simpa [here, there] using inStep
  have coded := inStep.commitCode addr here there sibling
  simp only [here, there, sibling.deleted, Bool.false_eq_true, if_false, if_true]
  split
  · exact ⟨inStep.objects, inStep.code, inStep.codeful⟩
  unfold updateAccountStorageInfo
  split
  · exact coded
  · exact ⟨coded.objects, coded.code, coded.codeful⟩

theorem clearJournalAndRefund : InStep cfg s.clearJournalAndRefund t.clearJournalAndRefund := by
  unfold CommitStateDB.clearJournalAndRefund
  split <;> split <;> exact ⟨inStep.objects, inStep.code, inStep.codeful⟩

theorem commit (order : List Address) (deleteEmptyObjects : Bool)
    (dirty : t.dirtyObjects order = s.dirtyObjects order) :
    InStep cfg (s.commit cfg.kv order deleteEmptyObjects) (t.commit cfg.mpt order deleteEmptyObjects) := by
  simp only [CommitStateDB.commit, intermediateRoot, dirty]
  refine foldl_rel (foldl_rel (foldl_rel (InStep.clearJournalAndRefund (foldl_rel inStep ?_)) ?_) ?_) ?_
  · exact fun addr _ s t inStep => inStep.finalise addr deleteEmptyObjects
  · exact fun addr _ s t inStep => inStep.commitSlots addr
  · exact fun addr _ s t inStep => inStep.commitAccount addr
  · exact fun addr _ s t inStep => inStep.commitObject addr

end InStep

end InStep

/-- The state differs in its cached objects and its stores only. -/
def Framed (s t : CommitStateDB) : Prop :=
  ∃ objects db, t = { s with stateObjects := objects, db := db }

section Framed

variable {cfg : Config} {s t : CommitStateDB}

namespace Framed

theorem refl (s : CommitStateDB) : Framed s s := ⟨s.stateObjects, s.db, rfl⟩

theorem trans {u : CommitStateDB} (first : Framed s t) (second : Framed t u) : Framed s u := by
  obtain ⟨_, _, rfl⟩ := first
  obtain ⟨objects, db, rfl⟩ := second
  exact ⟨objects, db, rfl⟩

theorem foldl (framed : ∀ s addr, Framed s (body s addr))
    (addrs : List Address) (s : CommitStateDB) : Framed s (addrs.foldl body s) := by
  induction addrs generalizing s with
  | nil => exact .refl s
  | cons addr rest ih => exact (framed s addr).trans (ih (body s addr))

theorem mapObject (s : CommitStateDB) (addr : Address) (change : StateObject → StateObject) :
    Framed s (s.mapObject addr change) := by
  unfold CommitStateDB.mapObject
  split
  · exact ⟨_, _, rfl⟩
  · exact .refl s

theorem commitSlots (s : CommitStateDB) (addr : Address) : Framed s (s.commitSlots cfg addr) := by
  unfold CommitStateDB.commitSlots
  repeat' split
  all_goals exact ⟨_, _, rfl⟩

theorem commitAccount (s : CommitStateDB) (addr : Address) : Framed s (s.commitAccount cfg addr) := by
  unfold CommitStateDB.commitAccount
  repeat' split
  all_goals exact ⟨_, _, rfl⟩

theorem commitCode (s : CommitStateDB) (addr : Address) (so : StateObject) :
    Framed s (s.commitCode cfg addr so) := by
  unfold CommitStateDB.commitCode
  repeat' split
  all_goals exact ⟨_, _, rfl⟩

theorem commitObject (s : CommitStateDB) (addr : Address) : Framed s (s.commitObject cfg addr) := by
  unfold CommitStateDB.commitObject
  split
  · rename_i so _
    have coded : Framed s (s.commitCode cfg addr so) := .commitCode s addr so
    simp only [updateAccountStorageInfo]
    repeat' split
    · exact ⟨_, _, rfl⟩
    · exact .refl s
    · exact coded
    · exact coded.trans ⟨_, _, rfl⟩
    · exact coded
  · exact .refl s

/-- Beside the objects and the stores, a commit clears the journal and the refund. -/
theorem commit (s : CommitStateDB) (order : List Address) (deleteEmptyObjects : Bool) :
    Framed s.clearJournalAndRefund (s.commit cfg order deleteEmptyObjects) := by
  have finalised := foldl (fun s addr => mapObject s addr (finaliseObject cfg deleteEmptyObjects))
    (s.dirtyObjects order) s
  have cleared : Framed s.clearJournalAndRefund
      (s.finalise cfg (s.dirtyObjects order) deleteEmptyObjects) := by
    obtain ⟨objects, db, same⟩ := finalised
    refine ⟨objects, db, ?_⟩
    rw [CommitStateDB.finalise, same]
    unfold clearJournalAndRefund
    split <;> rfl
  exact cleared.trans ((foldl commitSlots _ _).trans ((foldl commitAccount _ _).trans
    (foldl commitObject _ _)))

end Framed

end Framed

structure Mirrored (cfg : Config) (s t : CommitStateDB) : Prop where
  dbs : MirrorDb cfg s.db t.db
  states : Mirror cfg s.db t.db s t

/-- A commit keeps an object without code only where it writes no slot of it. -/
def CommitsBare (cfg : Config) (s : CommitStateDB) : Prop :=
  ∀ addr so, addr ∈ s.journal.dirties → s.stateObjects.lookup addr = some so → KeepsBareSlots cfg so

variable {cfg : Config} {s t : CommitStateDB}

variable (mirrored : Mirrored cfg s t)
include mirrored

theorem Mirrored.twinSpot (addr : Address) :
    TwinSpot cfg (s.spot addr) (t.spot addr) :=
  ⟨congrFun mirrored.dbs.accounts addr, mirrored.dbs.tries addr, mirrored.dbs.stored addr,
    mirrored.states.objects addr⟩

theorem Mirrored.inStep : InStep cfg s t := by
  refine ⟨fun addr => ?_, mirrored.dbs.code, mirrored.dbs.codeful⟩
  rcases rel_cases (mirrored.states.objects addr) with ⟨here, there⟩ | ⟨_, _, here, there, twin⟩ <;>
    rw [here, there]
  · exact .none
  · exact .some twin.toSibling

theorem Mirrored.dirtyObjects (order : List Address) :
    t.dirtyObjects order = s.dirtyObjects order := by
  have cached : (fun addr => (t.stateObjects.lookup addr).isSome) =
      fun addr => (s.stateObjects.lookup addr).isSome := by
    funext addr
    rcases mirrored.inStep.lookup addr with ⟨here, there⟩ | ⟨left, right, here, there, -⟩ <;>
      rw [here, there]
    rfl
  rw [CommitStateDB.dirtyObjects, CommitStateDB.dirtyObjects, mirrored.states.dirties, cached]

omit mirrored

theorem Mirror.clearJournalAndRefund {l r : Db} (mirror : Mirror cfg l r s t) :
    Mirror cfg l r s.clearJournalAndRefund t.clearJournalAndRefund := by
  have entries := mirror.entries
  unfold CommitStateDB.clearJournalAndRefund
  cases here : s.journal.entries <;> cases there : t.journal.entries <;> rw [here, there] at entries
  · exact { mirror with validRevisions := rfl }
  · cases entries
  · cases entries
  · simp only [reduceCtorEq, if_false]
    exact { mirror with
      entries := .nil, dirties := rfl, validRevisions := rfl, substate := by simp only [mirror.substate] }

/-- Other objects and stores, once no entry refers to the old ones. -/
theorem Mirror.reframe {l r : Db} {s' t' : CommitStateDB} (mirror : Mirror cfg l r s t)
    (left : Framed s s') (right : Framed t t') (empty : s.journal.entries = [])
    (objects : ∀ addr, Option.Rel (Twin cfg s'.db t'.db addr) (s'.stateObjects.lookup addr)
      (t'.stateObjects.lookup addr)) : Mirror cfg s'.db t'.db s' t' := by
  obtain ⟨_, _, rfl⟩ := left
  obtain ⟨_, _, rfl⟩ := right
  have entries := mirror.entries
  rw [empty, forall₂_nil_left_iff] at entries
  exact { mirror with
    left := rfl, right := rfl, objects := objects, entries := by simp [empty, entries] }

theorem Mirrored.commit (mirrored : Mirrored cfg s t) (order : List Address) (bare : CommitsBare cfg s) :
    Mirrored cfg (s.commit cfg.kv order true) (t.commit cfg.mpt order true) := by
  have dirty := mirrored.dirtyObjects order
  have inStep := mirrored.inStep.commit order true dirty
  have spots (addr : Address) : TwinSpot cfg ((s.commit cfg.kv order true).spot addr)
      ((t.commit cfg.mpt order true).spot addr) := by
    rw [spot_commit, spot_commit, dirty]
    split
    · rename_i inside
      refine (mirrored.twinSpot addr).commit addr fun so here => bare addr so ?_ here
      have visited := (mem_filter.mp inside).1
      rwa [AList.mem_visit] at visited
    · exact mirrored.twinSpot addr
  have empty : s.clearJournalAndRefund.journal.entries = [] := by
    unfold CommitStateDB.clearJournalAndRefund
    split <;> simp_all
  refine ⟨⟨funext fun addr => (spots addr).account, inStep.code, inStep.codeful, fun addr => (spots addr).root,
    fun addr => (spots addr).stored⟩, ?_⟩
  exact mirrored.states.clearJournalAndRefund.reframe (.commit s order true) (.commit t order true) empty
    fun addr => (spots addr).object

end Exchain.Evm
