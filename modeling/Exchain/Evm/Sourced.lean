import Exchain.Evm.Bridge

namespace Exchain.Evm

open CommitStateDB

/-- The store's code: each is stored under its hash, and that of every account is stored. -/
structure KV.Coded (cfg : Config) (codes : Set Code) (kv : KV) : Prop where
  hashed : ∀ hash code, kv.code hash = some code → code ∈ codes ∧ cfg.keccak code = hash
  stored : ∀ addr account, kv.accounts addr = some account →
    account.codeHash.getD cfg.emptyCodeHash = cfg.emptyCodeHash ∨
      (kv.code (account.codeHash.getD cfg.emptyCodeHash)).isSome = true

/-- A cached object whose slots and code come from the store or from the transaction. -/
structure Sourced (cfg : Config) (codes : Set Code) (db : Db) (addr : Address) (so : StateObject) :
    Prop where
  alive : so.deleted = false
  hash : so.account.codeHash.isSome = true
  origin : ∀ key value, so.originStorage key = some value → value = db.kv.storage addr key
  dirty : ∀ key value, so.dirtyStorage key = some value → (so.originStorage key).isSome = true
  pending : ∀ key, so.pendingStorage key = none
  held : ∀ code, so.code = some code → code ∈ codes ∧ cfg.keccak code = so.codeHash cfg
  changed : so.dirtyCode = true →
    so.code.getD [] ∈ codes ∧ cfg.keccak (so.code.getD []) = so.codeHash cfg
  stored : so.dirtyCode = false → so.codeHash cfg = cfg.emptyCodeHash ∨
    (db.kv.code (so.codeHash cfg)).isSome = true

namespace Sourced

variable {cfg : Config} {codes : Set Code} {db : Db} {addr : Address} {so : StateObject}

theorem load (coded : db.kv.Coded cfg codes) {account : Account}
    (found : db.kv.accounts addr = some account) :
    Sourced cfg codes db addr (loadObject cfg db addr account) where
  alive := rfl
  hash := rfl
  origin := by simp [loadObject, newStateObject]
  dirty := by simp [loadObject, newStateObject]
  pending := fun _ => rfl
  held := by simp [loadObject, newStateObject]
  changed := by simp [loadObject, newStateObject]
  stored := fun _ => coded.stored addr account found

theorem fresh : Sourced cfg codes db addr (freshObject cfg) where
  alive := rfl
  hash := rfl
  origin := by simp [newStateObject]
  dirty := by simp [newStateObject]
  pending := fun _ => rfl
  held := by simp [newStateObject]
  changed := by simp [newStateObject]
  stored := fun _ => .inl rfl

variable (sourced : Sourced cfg codes db addr so)

include sourced

theorem withAccount {other : StateObject}
    (same : other = { so with account := other.account, suicided := other.suicided })
    (hash : other.account.codeHash = so.account.codeHash) : Sourced cfg codes db addr other := by
  have codeHash : other.codeHash cfg = so.codeHash cfg := by
    unfold StateObject.codeHash
    rw [hash]
  rw [same]
  exact ⟨sourced.alive, hash ▸ sourced.hash, sourced.origin, sourced.dirty, sourced.pending,
    codeHash ▸ sourced.held, codeHash ▸ sourced.changed, codeHash ▸ sourced.stored⟩

theorem getCommittedState (kv : cfg.higherThanMars = false) (key : Hash) :
    Sourced cfg codes db addr (so.getCommittedState cfg db addr key).2 ∧
      ((so.getCommittedState cfg db addr key).2.originStorage key).isSome = true ∧
      ∀ other, (so.originStorage other).isSome = true →
        ((so.getCommittedState cfg db addr key).2.originStorage other).isSome = true := by
  have read : so.readSlot cfg db addr key = db.kv.storage addr key := by
    simp [StateObject.readSlot, kv]
  simp only [StateObject.getCommittedState, sourced.pending key, read]
  cases origin : so.originStorage key with
  | some => exact ⟨sourced, by simp [origin], fun _ => id⟩
  | none =>
    have more (other : Hash) (known : (so.originStorage other).isSome = true) :
        ((Function.update so.originStorage key (some (db.kv.storage addr key))) other).isSome =
          true := by
      by_cases same : other = key
      · simp [same]
      · simpa [same] using known
    refine ⟨⟨sourced.alive, sourced.hash, fun other value remembered => ?_,
      fun other value dirty => more other (sourced.dirty other value dirty), sourced.pending,
      sourced.held, sourced.changed, sourced.stored⟩, by simp, more⟩
    by_cases same : other = key
    · simp only [same, Function.update_self, Option.some.injEq] at remembered
      rw [same, remembered]
    · simp only [ne_eq, same, not_false_eq_true, Function.update_of_ne] at remembered
      exact sourced.origin other value remembered

theorem getState (kv : cfg.higherThanMars = false) (key : Hash) :
    Sourced cfg codes db addr (so.getState cfg db addr key).2 ∧
      ((so.getState cfg db addr key).2.originStorage key).isSome = true ∧
      ∀ other, (so.originStorage other).isSome = true →
        ((so.getState cfg db addr key).2.originStorage other).isSome = true := by
  unfold StateObject.getState
  cases dirty : so.dirtyStorage key with
  | some value => exact ⟨sourced, sourced.dirty key value dirty, fun _ => id⟩
  | none => exact sourced.getCommittedState kv key

theorem setState {key : Hash} (known : (so.originStorage key).isSome = true) (value : Hash) :
    Sourced cfg codes db addr (so.setState key value) := by
  refine ⟨sourced.alive, sourced.hash, sourced.origin, fun other written dirty => ?_, sourced.pending,
    sourced.held, sourced.changed, sourced.stored⟩
  by_cases same : other = key
  · rw [same]
    exact known
  · simp only [StateObject.setState, ne_eq, same, not_false_eq_true, Function.update_of_ne] at dirty
    exact sourced.dirty other written dirty

theorem read_back (kv : cfg.higherThanMars = false) (key : Hash) :
    (so.writtenSlots key).getD (db.kv.storage addr key) = (so.getState cfg db addr key).1 := by
  have pending := sourced.pending key
  simp only [StateObject.writtenSlots, StateObject.finalise, StateObject.getState,
    StateObject.getCommittedState, StateObject.readSlot, kv, pending]
  cases dirty : so.dirtyStorage key with
  | none =>
    cases origin : so.originStorage key with
    | none => simp
    | some value => simp [sourced.origin key value origin]
  | some value =>
    obtain ⟨loaded, origin⟩ := Option.isSome_iff_exists.mp (sourced.dirty key value dirty)
    by_cases same : value = loaded
    · simp [origin, same, sourced.origin key loaded origin]
    · simp [origin, same]

theorem getCode (coded : db.kv.Coded cfg codes)
    (kv : cfg.higherThanMars = false) (nil : [] ∈ codes) :
    Sourced cfg codes db addr (so.getCode cfg db).2 ∧ (so.getCode cfg db).1.getD [] ∈ codes ∧
      cfg.keccak ((so.getCode cfg db).1.getD []) = so.codeHash cfg := by
  simp only [StateObject.getCode, kv, Bool.false_eq_true, if_false]
  split
  · rename_i loaded
    cases found : so.code with
    | none => simp [found] at loaded
    | some code => exact ⟨sourced, sourced.held code found⟩
  rename_i unloaded
  split
  · rename_i bare
    exact ⟨sourced, nil, bare.symm⟩
  rename_i bare
  -- the code was not changed: it would be empty then, and its hash the one of no code
  have clean : so.dirtyCode = false := by
    by_contra changed
    simp only [Bool.not_eq_false] at changed
    simp only [not_not] at unloaded
    have hashes := (sourced.changed changed).2
    rw [unloaded] at hashes
    exact bare hashes.symm
  have found := (sourced.stored clean).resolve_left bare
  obtain ⟨code, stored⟩ := Option.isSome_iff_exists.mp found
  have hashed := coded.hashed _ code stored
  rw [stored]
  refine ⟨?_, hashed⟩
  split
  · exact sourced
  refine ⟨sourced.alive, sourced.hash, sourced.origin, sourced.dirty, sourced.pending, ?_, ?_,
    sourced.stored⟩
  · intro held same
    rw [← Option.some.inj same]
    exact hashed
  · intro changed
    exact absurd changed (by simp [clean])

theorem setCode {hash : Hash} {code : Option Code}
    (known : code.getD [] ∈ codes) (hashes : cfg.keccak (code.getD []) = hash) :
    Sourced cfg codes db addr (so.setCode hash code) where
  alive := sourced.alive
  hash := rfl
  origin := sourced.origin
  dirty := sourced.dirty
  pending := sourced.pending
  held := by
    intro held same
    have same : code = some held := same
    rw [same] at known hashes
    exact ⟨known, hashes⟩
  changed := fun _ => ⟨known, hashes⟩
  stored := by simp [StateObject.setCode]

end Sourced

/-- What the entries of the journal put back is sourced as well, and none is for the bridge. -/
def JournalEntry.Sourced (cfg : Config) (codes : Set Code) (db : Db) : JournalEntry → Prop
  | resetObjectChange account prev => Evm.Sourced cfg codes db account prev
  | codeChange _ prevHash prevCode =>
    prevCode.getD [] ∈ codes ∧ cfg.keccak (prevCode.getD []) = prevHash
  | cmChange _ => False
  | _ => True

/-- Every slot that an entry puts back is remembered by the object it goes back into: the cached
one, or one that an older entry brings back first. -/
def Remembered (addr : Address) : Option StateObject → List JournalEntry → Prop
  | _, [] => True
  | cell, .storageChange account key _ :: older =>
    (addr = account → ∃ so, cell = some so ∧ (so.originStorage key).isSome = true) ∧
      Remembered addr cell older
  | cell, .resetObjectChange account prev :: older =>
    Remembered addr (if addr = account then some prev else cell) older
  | cell, .createObjectChange account :: older =>
    Remembered addr (if addr = account then none else cell) older
  | cell, _ :: older => Remembered addr cell older

/-- The second object remembers every slot that the first does. -/
def Recalls (cell other : Option StateObject) : Prop :=
  ∀ so, cell = some so → ∃ more, other = some more ∧
    ∀ key, (so.originStorage key).isSome = true → (more.originStorage key).isSome = true

theorem Remembered.mono {addr : Address} {cell other : Option StateObject}
    {entries : List JournalEntry} (remembered : Remembered addr cell entries)
    (recalls : Recalls cell other) : Remembered addr other entries := by
  induction entries generalizing cell other with
  | nil => trivial
  | cons entry older ih =>
    cases entry with
    | storageChange _ key =>
      refine ⟨fun same => ?_, ih remembered.2 recalls⟩
      obtain ⟨so, cached, known⟩ := remembered.1 same
      obtain ⟨more, found, keeps⟩ := recalls so cached
      exact ⟨more, found, keeps key known⟩
    | resetObjectChange | createObjectChange =>
      refine ih remembered ?_
      split
      · exact fun so same => ⟨so, same, fun _ => id⟩
      · exact recalls
    | _ => exact ih remembered recalls

theorem Recalls.none (cell : Option StateObject) : Recalls .none cell := fun _ absent => by contradiction

/-- A state of a transaction before Mars, with the entries that are still to be undone. -/
structure Coherent (cfg : Config) (codes : Set Code) (start : Db) (entries : List JournalEntry)
    (s : CommitStateDB) : Prop where
  db : s.db = start
  unmarked : ∀ addr, s.updatedAccount addr = false
  objects : ∀ addr so, s.stateObjects.lookup addr = some so → Sourced cfg codes start addr so
  journaled : ∀ entry ∈ entries, entry.Sourced cfg codes start
  remembered : ∀ addr, Remembered addr (s.stateObjects.lookup addr) entries

end Exchain.Evm
