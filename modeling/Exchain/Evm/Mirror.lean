import Exchain.Evm.Commit
import Exchain.Evm.ObjectView

namespace Exchain.Evm

open CommitStateDB

abbrev Config.kv (cfg : Config) : Config := { cfg with higherThanMars := false }

abbrev Config.mpt (cfg : Config) : Config := { cfg with higherThanMars := true }

/-- The stores of the two back ends: the same accounts, the same code under every hash but that
of no code, and under a stored account the same slots. -/
structure MirrorDb (cfg : Config) (l r : Db) : Prop where
  accounts : r.kv.accounts = l.kv.accounts
  code : ∀ hash, hash ≠ cfg.emptyCodeHash → r.mpt.code hash = l.kv.code hash
  codeful : ∀ hash, hash ≠ cfg.emptyCodeHash → l.kv.code hash ≠ some []
  tries : ∀ addr, r.mpt.storageTries addr = l.kv.storage addr ∨ r.mpt.storageTries addr = emptyTrie
  stored : ∀ addr, l.kv.accounts addr ≠ none → r.mpt.storageTries addr = l.kv.storage addr

/-- Objects that hold the same code and differ in the back end's own fields only. Without code, one
may hold nil and the other an empty slice, counted as changed or not. -/
structure Sibling (cfg : Config) (left right : StateObject) : Prop where
  same : right = { left with code := right.code, trie := right.trie, dirtyCode := right.dirtyCode }
  code : left.code.getD [] = right.code.getD []
  dirtyCode : left.codeHash cfg ≠ cfg.emptyCodeHash → right.dirtyCode = left.dirtyCode
  leftCode : left.code = some [] → left.codeHash cfg = cfg.emptyCodeHash
  rightCode : right.code = some [] → left.codeHash cfg = cfg.emptyCodeHash

/-- The objects of one address in the two caches, over its slots and its trie in the stores. -/
structure TwinOver (cfg : Config) (slots root : Hash → Hash) (left right : StateObject) : Prop
    extends Sibling cfg left right where
  trie : left.deleted = false → right.trie = slots
  stored : left.deleted = false → root = slots

abbrev Twin (cfg : Config) (l r : Db) (addr : Address) : StateObject → StateObject → Prop :=
  TwinOver cfg (l.kv.storage addr) (r.mpt.storageTries addr)

theorem rel_cases {α β : Type} {R : α → β → Prop} {a : Option α} {b : Option β}
    (related : Option.Rel R a b) :
    (a = none ∧ b = none) ∨ ∃ x y, a = some x ∧ b = some y ∧ R x y := by
  cases related with
  | none => exact .inl ⟨rfl, rfl⟩
  | some holds => exact .inr ⟨_, _, rfl, rfl, holds⟩

/-- The entries that hold nothing of the back end. -/
def JournalEntry.shared : JournalEntry → Bool
  | resetObjectChange _ _ | codeChange _ _ _ | cmChange _ => false
  | _ => true

/-- Entries that undo the same, on either side to its own object or code. -/
inductive TwinEntry (cfg : Config) (l r : Db) : JournalEntry → JournalEntry → Prop
  | reset (account : Address) {left right : StateObject} : Twin cfg l r account left right →
      TwinEntry cfg l r (.resetObjectChange account left) (.resetObjectChange account right)
  | code (account : Address) (prevHash : Hash) {left right : Option Code} :
      left.getD [] = right.getD [] → (left = some [] → prevHash = cfg.emptyCodeHash) →
      (right = some [] → prevHash = cfg.emptyCodeHash) →
      TwinEntry cfg l r (.codeChange account prevHash left) (.codeChange account prevHash right)
  | same (entry : JournalEntry) : entry.shared = true → TwinEntry cfg l r entry entry

structure Mirror (cfg : Config) (l r : Db) (s t : CommitStateDB) : Prop where
  left : s.db = l
  right : t.db = r
  objects : ∀ addr, Option.Rel (Twin cfg l r addr) (s.stateObjects.lookup addr)
    (t.stateObjects.lookup addr)
  leftMarks : ∀ addr, s.updatedAccount addr = false
  rightMarks : ∀ addr, t.updatedAccount addr = false
  entries : List.Forall₂ (TwinEntry cfg l r) s.journal.entries t.journal.entries
  dirties : t.journal.dirties = s.journal.dirties
  substate : t.substate = s.substate
  thash : t.thash = s.thash
  bhash : t.bhash = s.bhash
  txIndex : t.txIndex = s.txIndex
  validRevisions : t.validRevisions = s.validRevisions
  nextRevisionID : t.nextRevisionID = s.nextRevisionID

section

variable {cfg : Config} {l r : Db} {addr : Address} {left right : StateObject}

namespace Sibling

variable (sibling : Sibling cfg left right)

include sibling

theorem account : right.account = left.account := by
  rw [sibling.same]

theorem deleted : right.deleted = left.deleted := by
  rw [sibling.same]

theorem suicided : right.suicided = left.suicided := by
  rw [sibling.same]

theorem codeHash : right.codeHash cfg = left.codeHash cfg := by
  rw [sibling.same]
  rfl

theorem empty : right.empty cfg = left.empty cfg := by
  rw [sibling.same]
  rfl

theorem change (change : StateObject → StateObject)
    (apart : ∀ so code trie dirty, change { so with code := code, trie := trie, dirtyCode := dirty } =
      { change so with code := code, trie := trie, dirtyCode := dirty })
    (hash : ∀ so, (change so).codeHash cfg = so.codeHash cfg) :
    Sibling cfg (change left) (change right) ∧ (change right).trie = right.trie := by
  have kept (so : StateObject) : (change so).code = so.code ∧ (change so).trie = so.trie ∧
      (change so).dirtyCode = so.dirtyCode := by
    have same := apart so so.code so.trie so.dirtyCode
    exact ⟨by rw [same], by rw [same], by rw [same]⟩
  obtain ⟨same, codes, dirty, leftCode, rightCode⟩ := sibling
  refine ⟨⟨?_, ?_, ?_, ?_, ?_⟩, (kept right).2.1⟩
  · rw [(kept right).1, (kept right).2.2, same, apart]
  · rw [(kept left).1, (kept right).1, codes]
  · rw [(kept left).2.2, (kept right).2.2, hash]
    exact dirty
  · rw [(kept left).1, hash]
    exact leftCode
  · rw [(kept right).1, hash]
    exact rightCode

end Sibling

namespace TwinOver

variable (twin : Twin cfg l r addr left right)

include twin

theorem change (change : StateObject → StateObject)
    (apart : ∀ so code trie dirty, change { so with code := code, trie := trie, dirtyCode := dirty } =
      { change so with code := code, trie := trie, dirtyCode := dirty })
    (hash : ∀ so, (change so).codeHash cfg = so.codeHash cfg)
    (deleted : ∀ so, (change so).deleted = so.deleted) :
    Twin cfg l r addr (change left) (change right) := by
  obtain ⟨sibling, trie⟩ := twin.toSibling.change change apart hash
  refine ⟨sibling, fun kept => trie.trans (twin.trie ?_), fun kept => twin.stored ?_⟩
  all_goals rwa [← deleted]

theorem setBalance (amount : Nat) :
    Twin cfg l r addr (left.setBalance amount) (right.setBalance amount) :=
  twin.change (·.setBalance amount) (fun _ _ _ _ => rfl) (fun _ => rfl) (fun _ => rfl)

theorem setNonce (nonce : UInt64) :
    Twin cfg l r addr (left.setNonce nonce) (right.setNonce nonce) :=
  twin.change (·.setNonce nonce) (fun _ _ _ _ => rfl) (fun _ => rfl) (fun _ => rfl)

theorem setState (key value : Hash) :
    Twin cfg l r addr (left.setState key value) (right.setState key value) :=
  twin.change (·.setState key value) (fun _ _ _ _ => rfl) (fun _ => rfl) (fun _ => rfl)

theorem setSuicided (mark : Bool) :
    Twin cfg l r addr (left.setSuicided mark) (right.setSuicided mark) :=
  twin.change (·.setSuicided mark) (fun _ _ _ _ => rfl) (fun _ => rfl) (fun _ => rfl)

theorem setCode {hash : Hash} {leftCode rightCode : Option Code}
    (code : leftCode.getD [] = rightCode.getD []) (leftEmpty : leftCode = some [] → hash = cfg.emptyCodeHash)
    (rightEmpty : rightCode = some [] → hash = cfg.emptyCodeHash) :
    Twin cfg l r addr (left.setCode hash leftCode) (right.setCode hash rightCode) := by
  refine ⟨⟨?_, code, fun _ => rfl, leftEmpty, rightEmpty⟩, twin.trie, twin.stored⟩
  rw [twin.same]
  rfl

theorem getCommittedState (alive : left.deleted = false) (key : Hash) :
    (right.getCommittedState cfg.mpt r addr key).1 = (left.getCommittedState cfg.kv l addr key).1 ∧
      Twin cfg l r addr (left.getCommittedState cfg.kv l addr key).2
        (right.getCommittedState cfg.mpt r addr key).2 := by
  have trie := twin.trie alive
  have pending : right.pendingStorage key = left.pendingStorage key := by rw [twin.same]
  have origin : right.originStorage key = left.originStorage key := by rw [twin.same]
  cases written : left.pendingStorage key with
  | some =>
    simp only [StateObject.getCommittedState, written, pending]
    exact ⟨trivial, twin⟩
  | none =>
    cases loaded : left.originStorage key with
    | some =>
      simp only [StateObject.getCommittedState, written, pending, loaded, origin]
      exact ⟨trivial, twin⟩
    | none =>
      have read : right.readSlot cfg.mpt r addr key = left.readSlot cfg.kv l addr key :=
        congrFun trie key
      simp only [StateObject.getCommittedState, written, pending, loaded, origin, read]
      exact ⟨trivial, twin.change (fun so => { so with
        originStorage := Function.update so.originStorage key (some (left.readSlot cfg.kv l addr key)) })
        (fun _ _ _ _ => rfl) (fun _ => rfl) (fun _ => rfl)⟩

theorem getState (alive : left.deleted = false) (key : Hash) :
    (right.getState cfg.mpt r addr key).1 = (left.getState cfg.kv l addr key).1 ∧
      Twin cfg l r addr (left.getState cfg.kv l addr key).2 (right.getState cfg.mpt r addr key).2 := by
  have dirty : right.dirtyStorage key = left.dirtyStorage key := by rw [twin.same]
  cases changed : left.dirtyStorage key with
  | some =>
    simp only [StateObject.getState, changed, dirty]
    exact ⟨trivial, twin⟩
  | none =>
    simp only [StateObject.getState, changed, dirty]
    exact twin.getCommittedState alive key

theorem loadCode {code : Option Code} (found : code.getD [] ≠ []) :
    Twin cfg l r addr { left with code := code } { right with code := code } := by
  have nonempty : code ≠ some [] := by
    rintro rfl
    exact found rfl
  refine ⟨⟨?_, rfl, twin.dirtyCode, fun bare => absurd bare nonempty,
    fun bare => absurd bare nonempty⟩, twin.trie, twin.stored⟩
  rw [twin.same]

theorem getCode (dbs : MirrorDb cfg l r) :
    (left.getCode cfg.kv l).1.getD [] = (right.getCode cfg.mpt r).1.getD [] ∧
      ((left.getCode cfg.kv l).1 = some [] → left.codeHash cfg = cfg.emptyCodeHash) ∧
      ((right.getCode cfg.mpt r).1 = some [] → left.codeHash cfg = cfg.emptyCodeHash) ∧
      Twin cfg l r addr (left.getCode cfg.kv l).2 (right.getCode cfg.mpt r).2 := by
  have leftHash : left.codeHash cfg.kv = left.codeHash cfg := rfl
  have rightHash : right.codeHash cfg.mpt = left.codeHash cfg := twin.codeHash
  have emptyHash : cfg.kv.emptyCodeHash = cfg.emptyCodeHash ∧
      cfg.mpt.emptyCodeHash = cfg.emptyCodeHash := ⟨rfl, rfl⟩
  simp only [StateObject.getCode, StateObject.codeInRawDB, leftHash, rightHash, emptyHash.1,
    emptyHash.2, Bool.false_eq_true, if_true]
  have codes := twin.code
  cases held : right.code with
  | some code =>
    rw [held] at codes
    by_cases bare : code = []
    · -- empty code on the right: its hash says so, and the left finds none
      have hash := twin.rightCode (held.trans (congrArg some bare))
      simp [codes, bare, hash, twin]
    have same : left.code = some code := by
      cases other : left.code with
      | none => simp [other, Ne.symm bare] at codes
      | some => simpa [other] using codes
    simp [same, bare, twin]
  | none =>
    rw [held] at codes
    by_cases bare : left.codeHash cfg = cfg.emptyCodeHash
    · simp [codes, bare, twin]
    have stored := dbs.code _ bare
    have codeful := dbs.codeful _ bare
    by_cases missing : (l.kv.code (left.codeHash cfg)).getD [] = []
    · simp [codes, bare, stored, missing, codeful, twin]
    · have loaded := twin.loadCode missing
      simp [codes, bare, stored, missing, codeful, loaded]

end TwinOver

end

section Mirror

variable {cfg : Config} {l r : Db} {s t : CommitStateDB} {addr : Address}

theorem getStateObject_unmarked {other : Config} (unmarked : s.updatedAccount addr = false) :
    s.getStateObject other addr = match s.stateObjects.lookup addr with
      | some so => (if so.deleted then none else some so, s)
      | none =>
        match s.db.kv.accounts addr with
        | some account =>
          (some (loadObject other s.db addr account),
            s.setStateObject addr (loadObject other s.db addr account))
        | none => (none, s) := by
  unfold CommitStateDB.getStateObject getDeletedStateObject
  cases cached : s.stateObjects.lookup addr with
  | some so => cases gone : so.deleted <;> simp [unmarked, Option.filter, gone]
  | none => cases stored : s.db.kv.accounts addr <;> simp [loadObject, newStateObject]

theorem TwinEntry.dirtied {left right : JournalEntry} (twin : TwinEntry cfg l r left right) :
    right.dirtied = left.dirtied := by
  cases twin <;> rfl

namespace Mirror

variable (mirror : Mirror cfg l r s t)

include mirror

theorem setStateObject {left right : StateObject} (twin : Twin cfg l r addr left right) :
    Mirror cfg l r (s.setStateObject addr left) (t.setStateObject addr right) := by
  refine { mirror with objects := fun account => ?_ }
  simp only [CommitStateDB.setStateObject, AList.lookup_insert_if]
  split
  · rename_i same
    exact .some (same ▸ twin)
  · exact mirror.objects account

theorem erase (addr : Address) : Mirror cfg l r { s with stateObjects := s.stateObjects.erase addr }
      { t with stateObjects := t.stateObjects.erase addr } := by
  refine { mirror with objects := fun account => ?_ }
  simp only [AList.lookup_erase_if]
  split
  · exact .none
  · exact mirror.objects account

theorem append {left right : JournalEntry}
    (twin : TwinEntry cfg l r left right) : Mirror cfg l r (s.append left) (t.append right) := by
  refine { mirror with entries := ?_, dirties := ?_ }
  · simp only [CommitStateDB.append, Journal.entries_append]
    exact .cons twin mirror.entries
  have dirties := mirror.dirties
  simp only [CommitStateDB.append, Journal.append, twin.dirtied]
  split
  · simp only [Journal.dirty, dirties]
  · exact dirties

theorem dirty (addr : Address) : Mirror cfg l r { s with journal := s.journal.dirty addr }
      { t with journal := t.journal.dirty addr } := by
  refine { mirror with entries := mirror.entries, dirties := ?_ }
  simp only [Journal.dirty, mirror.dirties]

theorem withSubstate (sub : Substate) :
    Mirror cfg l r { s with substate := sub } { t with substate := sub } :=
  { mirror with substate := rfl }

/-- An access finds twins on the two sides, or nothing. -/
theorem getStateObject (dbs : MirrorDb cfg l r) (addr : Address) :
    ∃ found other s' t', s.getStateObject cfg.kv addr = (found, s') ∧
      t.getStateObject cfg.mpt addr = (other, t') ∧ Mirror cfg l r s' t' ∧
      Option.Rel (Twin cfg l r addr) found other ∧ ∀ so, found = some so → so.deleted = false := by
  have accounts := dbs.accounts
  rw [getStateObject_unmarked (mirror.leftMarks addr), getStateObject_unmarked (mirror.rightMarks addr)]
  rcases rel_cases (mirror.objects addr) with ⟨cached, looked⟩ | ⟨_, _, cached, looked, twin⟩ <;>
    simp only [cached, looked]
  rotate_left
  · simp only [twin.deleted]
    refine ⟨_, _, s, t, rfl, rfl, mirror, ?_, ?_⟩
    · split
      · exact .none
      · exact .some twin
    intro so found
    split at found
    · simp at found
    rename_i kept
    cases found
    simpa using kept
  · simp only [mirror.left, mirror.right, accounts]
    cases stored : l.kv.accounts addr with
    | none => exact ⟨_, _, s, t, rfl, rfl, mirror, .none, by simp⟩
    | some account =>
      have home := dbs.stored addr (by simp [stored])
      have twin : Twin cfg l r addr (loadObject cfg.kv l addr account)
          (loadObject cfg.mpt r addr account) :=
        ⟨⟨rfl, rfl, fun _ => rfl, by simp [loadObject, newStateObject],
            by simp [loadObject, newStateObject]⟩,
          fun _ => home, fun _ => home⟩
      refine ⟨_, _, _, _, rfl, rfl, mirror.setStateObject twin, .some twin, ?_⟩
      rintro so ⟨⟩
      rfl

end Mirror

end Mirror

end Exchain.Evm
