import Exchain.Evm.Mirror
import Exchain.Evm.JournaledOps

namespace Exchain.Evm

open CommitStateDB PartialRun

def Op.creates (cfg : Config) (s : CommitStateDB) : Op → Option Address
  | .setBalance addr _ | .addBalance addr _ | .subBalance addr _ | .setNonce addr _
  | .setState addr _ _ | .setCode addr _ => if s.exist cfg addr then none else some addr
  | .createAccount addr => some addr
  | _ => none

/-- An object is created only where the key-value store holds no slot. -/
def CreatesBare (cfg : Config) (s : CommitStateDB) (op : Op) : Prop :=
  ∀ addr, op.creates cfg.kv s = some addr → s.db.kv.storage addr = emptyTrie

variable {cfg : Config} {l r : Db} {s t : CommitStateDB} {addr : Address}

namespace Mirror

variable (mirror : Mirror cfg l r s t) (dbs : MirrorDb cfg l r)

include mirror dbs

theorem createObject (bare : l.kv.storage addr = emptyTrie) :
    ∃ prev other s' t', s.createObject cfg.kv addr = (freshObject cfg, prev, s') ∧
      t.createObject cfg.mpt addr = (freshObject cfg, other, t') ∧ Mirror cfg l r s' t' ∧
      Option.Rel (Twin cfg l r addr) prev other ∧
      Twin cfg l r addr (freshObject cfg) (freshObject cfg) := by
  have fresh : Twin cfg l r addr (freshObject cfg) (freshObject cfg) := by
    refine ⟨⟨rfl, rfl, fun _ => rfl, by simp [newStateObject], by simp [newStateObject]⟩,
      fun _ => bare.symm, fun _ => ?_⟩
    rcases dbs.tries addr with same | none
    · exact same
    · exact none.trans bare.symm
  obtain ⟨_, _, _, _, got, got', mirror, twins, -⟩ := mirror.getStateObject dbs addr
  cases twins with
  | none =>
    refine ⟨none, none, _, _, ?_, ?_,
      (mirror.append (.same (.createObjectChange addr) rfl)).setStateObject fresh, .none, fresh⟩
    · simp only [CommitStateDB.createObject, got]
      rfl
    · simp only [CommitStateDB.createObject, got']
      rfl
  | some twin =>
    refine ⟨some _, some _, _, _, ?_, ?_, (mirror.append (.reset addr twin)).setStateObject fresh,
      .some twin, fresh⟩
    · simp only [CommitStateDB.createObject, got]
      rfl
    · simp only [CommitStateDB.createObject, got']
      rfl

theorem getOrNewStateObject (bare : s.exist cfg.kv addr = false → l.kv.storage addr = emptyTrie) :
    ∃ left right s' t', s.getOrNewStateObject cfg.kv addr = (left, s') ∧
      t.getOrNewStateObject cfg.mpt addr = (right, t') ∧ Mirror cfg l r s' t' ∧
      Twin cfg l r addr left right ∧ left.deleted = false := by
  obtain ⟨_, other, s', t', got, got', kept, twins, alive⟩ := mirror.getStateObject dbs addr
  cases twins with
  | some twin =>
    exact ⟨_, _, s', t', by simp only [CommitStateDB.getOrNewStateObject, got],
      by simp only [CommitStateDB.getOrNewStateObject, got'], kept, twin, alive _ rfl⟩
  | none =>
    have absent : s.exist cfg.kv addr = false := by simp [exist, got]
    obtain ⟨_, _, u, v, created, created', kept, -, fresh⟩ :=
      kept.createObject dbs (bare absent)
    exact ⟨_, _, u, v, by simp only [CommitStateDB.getOrNewStateObject, got, created],
      by simp only [CommitStateDB.getOrNewStateObject, got', created'], kept, fresh, rfl⟩

omit dbs in
theorem setObjectBalance {left right : StateObject} (twin : Twin cfg l r addr left right)
    (amount : Int) :
    Agree (Mirror cfg l r) (s.setObjectBalance addr left amount) (t.setObjectBalance addr right amount) := by
  have appended := mirror.append (.same (.balanceChange addr left.account.balance) rfl)
  simp only [CommitStateDB.setObjectBalance, twin.account]
  split
  · rfl
  · exact appended.setStateObject (twin.setBalance amount.toNat)

omit dbs in
theorem touch (addr : Address) : Mirror cfg l r (s.touch addr) (t.touch addr) := by
  have appended := mirror.append (.same (.touchChange addr) rfl)
  unfold CommitStateDB.touch
  split
  · exact appended.dirty addr
  · exact appended

section

variable (bare : s.exist cfg.kv addr = false → l.kv.storage addr = emptyTrie)

include bare

theorem setBalance (amount : Int) :
    Agree (Mirror cfg l r) (s.setBalance cfg.kv addr amount) (t.setBalance cfg.mpt addr amount) := by
  obtain ⟨_, _, _, _, got, got', kept, twin, -⟩ := mirror.getOrNewStateObject dbs bare
  simp only [CommitStateDB.setBalance, got, got']
  exact kept.setObjectBalance twin amount

theorem addBalance (amount : Int) :
    Agree (Mirror cfg l r) (s.addBalance cfg.kv addr amount) (t.addBalance cfg.mpt addr amount) := by
  obtain ⟨left, right, _, _, got, got', kept, twin, -⟩ := mirror.getOrNewStateObject dbs bare
  have empty : right.empty cfg.mpt = left.empty cfg.kv := twin.empty
  simp only [CommitStateDB.addBalance, got, got', empty, twin.account]
  split
  · split
    · exact kept.touch addr
    · exact kept
  · exact kept.setObjectBalance twin _

theorem subBalance (amount : Int) :
    Agree (Mirror cfg l r) (s.subBalance cfg.kv addr amount) (t.subBalance cfg.mpt addr amount) := by
  obtain ⟨_, _, _, _, got, got', kept, twin, -⟩ := mirror.getOrNewStateObject dbs bare
  simp only [CommitStateDB.subBalance, got, got', twin.account]
  split
  · exact kept
  · exact kept.setObjectBalance twin _

theorem setNonce (nonce : UInt64) :
    Mirror cfg l r (s.setNonce cfg.kv addr nonce) (t.setNonce cfg.mpt addr nonce) := by
  obtain ⟨left, _, _, _, got, got', kept, twin, -⟩ := mirror.getOrNewStateObject dbs bare
  simp only [CommitStateDB.setNonce, got, got', twin.account]
  exact (kept.append (.same (.nonceChange addr left.account.sequence) rfl)).setStateObject
    (twin.setNonce nonce)

theorem setState (key value : Hash) :
    Mirror cfg l r (s.setState cfg.kv addr key value) (t.setState cfg.mpt addr key value) := by
  obtain ⟨_, _, _, _, got, got', kept, twin, alive⟩ := mirror.getOrNewStateObject dbs bare
  obtain ⟨values, read⟩ := twin.getState alive key
  have loaded := kept.setStateObject read
  simp only [CommitStateDB.setState, got, got', kept.left, kept.right, values]
  split
  · exact loaded
  · exact (loaded.append (.same (.storageChange addr key _) rfl)).setStateObject (read.setState key value)

theorem setCode (code : Option Code) :
    Mirror cfg l r (s.setCode cfg.kv addr code) (t.setCode cfg.mpt addr code) := by
  obtain ⟨left, right, _, _, got, got', kept, twin, -⟩ := mirror.getOrNewStateObject dbs bare
  obtain ⟨same, leftCode, rightCode, read⟩ := twin.getCode dbs
  have emptied : code = some [] → cfg.keccak (code.getD []) = cfg.emptyCodeHash := by
    rintro rfl
    rfl
  have hash : (left.getCode cfg.kv l).2.codeHash cfg = left.codeHash cfg := by
    obtain ⟨_, same⟩ := @StateObject.getCode_eq cfg.kv l left
    rw [same]
    rfl
  have hash' : (right.getCode cfg.mpt r).2.codeHash cfg.mpt =
      (left.getCode cfg.kv l).2.codeHash cfg.kv := read.codeHash
  simp only [CommitStateDB.setCode, got, got', kept.left, kept.right, hash']
  rw [← hash] at leftCode rightCode
  exact ((kept.setStateObject read).append (.code addr _ same leftCode rightCode)).setStateObject
    (read.setCode rfl emptied emptied)

end

theorem createAccount (bare : l.kv.storage addr = emptyTrie) :
    Mirror cfg l r (s.createAccount cfg.kv addr) (t.createAccount cfg.mpt addr) := by
  obtain ⟨_, _, _, _, created, created', kept, twins, fresh⟩ := mirror.createObject dbs bare
  simp only [CommitStateDB.createAccount, created, created']
  cases twins with
  | none => exact kept
  | some twin =>
    simp only [twin.account]
    exact kept.setStateObject (fresh.setBalance _)

theorem suicide (addr : Address) : Mirror cfg l r (s.suicide cfg.kv addr) (t.suicide cfg.mpt addr) := by
  obtain ⟨_, _, _, _, got, got', kept, twins, -⟩ := mirror.getStateObject dbs addr
  simp only [CommitStateDB.suicide, got, got']
  cases twins with
  | none => exact kept
  | @some left right twin =>
    simp only [twin.account, twin.suicided]
    exact ((kept.append (.same (.suicideChange addr left.suicided left.account.balance) rfl)).append
      (.same (.balanceChange addr left.account.balance) rfl)).setStateObject
      ((twin.setSuicided true).setBalance 0)

variable {change change' : StateObject → StateObject}

theorem load (read : ∀ left right, Twin cfg l r addr left right → left.deleted = false →
      Twin cfg l r addr (change left) (change' right)) :
    Mirror cfg l r (s.load cfg.kv addr change) (t.load cfg.mpt addr change') := by
  obtain ⟨_, _, _, _, got, got', kept, twins, alive⟩ := mirror.getStateObject dbs addr
  simp only [CommitStateDB.load, got, got']
  cases twins with
  | none => exact kept
  | some twin => exact kept.setStateObject (read _ _ twin (alive _ rfl))

omit dbs

theorem addLog (address : Address) (topics : List Hash) (data : List UInt8) :
    Mirror cfg l r (s.addLog address topics data) (t.addLog address topics data) := by
  have appended := mirror.append (.same (.addLogChange s.thash) rfl)
  simp only [CommitStateDB.addLog, CommitStateDB.append, mirror.thash, mirror.bhash, mirror.txIndex,
    mirror.substate]
  exact { appended with substate := rfl, thash := rfl, bhash := rfl, txIndex := rfl }

theorem addPreimage (hash : Hash) (preimage : List UInt8) :
    Mirror cfg l r (s.addPreimage hash preimage) (t.addPreimage hash preimage) := by
  have appended := mirror.append (.same (.addPreimageChange hash) rfl)
  simp only [CommitStateDB.addPreimage, CommitStateDB.append, mirror.substate]
  split
  · exact mirror
  · exact appended.withSubstate _

theorem addRefund (gas : UInt64) : Mirror cfg l r (s.addRefund gas) (t.addRefund gas) := by
  have appended := mirror.append (.same (.refundChange s.substate.refund) rfl)
  simp only [CommitStateDB.addRefund, CommitStateDB.append, mirror.substate]
  exact appended.withSubstate _

theorem subRefund (gas : UInt64) : Agree (Mirror cfg l r) (s.subRefund gas) (t.subRefund gas) := by
  have appended := mirror.append (.same (.refundChange s.substate.refund) rfl)
  simp only [CommitStateDB.subRefund, CommitStateDB.append, mirror.substate]
  by_cases below : s.substate.refund < gas
  · simp only [below]
    rfl
  · simp only [below]
    exact appended.withSubstate _

theorem addAddressToAccessList (addr : Address) :
    Mirror cfg l r (s.addAddressToAccessList addr) (t.addAddressToAccessList addr) := by
  simp only [CommitStateDB.addAddressToAccessList, withAccessList, mirror.substate]
  split
  · exact (mirror.withSubstate _).append (.same (.accessListAddAccountChange addr) rfl)
  · exact mirror.withSubstate _

theorem addSlotToAccessList (addr : Address) (slot : Hash) :
    Mirror cfg l r (s.addSlotToAccessList addr slot) (t.addSlotToAccessList addr slot) := by
  have listed (al : AccessList) : Mirror cfg l r (s.withAccessList al) (t.withAccessList al) := by
    simp only [withAccessList, mirror.substate]
    exact mirror.withSubstate _
  have account : TwinEntry cfg l r (.accessListAddAccountChange addr) (.accessListAddAccountChange addr) :=
    .same _ rfl
  have slots : TwinEntry cfg l r (.accessListAddSlotChange addr slot) (.accessListAddSlotChange addr slot) :=
    .same _ rfl
  simp only [CommitStateDB.addSlotToAccessList, mirror.substate]
  repeat' split
  · exact ((listed _).append account).append slots
  · exact (listed _).append slots
  · exact (listed _).append account
  · exact listed _

variable {left right : JournalEntry}

theorem undirty (twin : TwinEntry cfg l r left right) :
    Mirror cfg l r { s with journal := s.journal.undirty left }
      { t with journal := t.journal.undirty right } := by
  simp only [Journal.undirty, twin.dirtied]
  split
  · refine { mirror with entries := mirror.entries, dirties := ?_ }
    simp only [mirror.dirties]
  · exact mirror

theorem snapshot : Mirror cfg l r s.snapshot t.snapshot := by
  have count := mirror.entries.length_eq
  refine { mirror with validRevisions := ?_, nextRevisionID := ?_ }
  · simp only [CommitStateDB.snapshot, mirror.validRevisions, mirror.nextRevisionID, count]
  · simp only [CommitStateDB.snapshot, mirror.nextRevisionID]

include dbs

theorem modifyObject
    (read : ∀ left right, Twin cfg l r addr left right → Twin cfg l r addr (change left) (change' right)) :
    Agree (Mirror cfg l r) (s.modifyObject cfg.kv addr change) (t.modifyObject cfg.mpt addr change') := by
  obtain ⟨_, _, _, _, got, got', kept, twins, -⟩ := mirror.getStateObject dbs addr
  simp only [CommitStateDB.modifyObject, got, got']
  cases twins with
  | none => rfl
  | some twin => exact kept.setStateObject (read _ _ twin)

theorem revert (twin : TwinEntry cfg l r left right) :
    Agree (Mirror cfg l r) (left.revert cfg.kv s) (right.revert cfg.mpt t) := by
  cases twin with
  | reset _ twin => exact mirror.setStateObject twin
  | code _ _ same leftCode rightCode =>
    exact mirror.modifyObject dbs fun _ _ twin => twin.setCode same leftCode rightCode
  | same _ shared =>
    cases left with
    | createObjectChange account => exact mirror.erase account
    | suicideChange account prev prevBalance =>
      obtain ⟨_, _, _, _, got, got', kept, twins, -⟩ := mirror.getStateObject dbs account
      simp only [JournalEntry.revert, got, got']
      cases twins with
      | none => exact kept
      | some twin => exact kept.setStateObject ((twin.setSuicided prev).setBalance prevBalance)
    | touchChange => exact mirror
    | balanceChange _ prev => exact mirror.modifyObject dbs fun _ _ twin => twin.setBalance prev
    | nonceChange _ prev => exact mirror.modifyObject dbs fun _ _ twin => twin.setNonce prev
    | storageChange _ key prevValue =>
      exact mirror.modifyObject dbs fun _ _ twin => twin.setState key prevValue
    | refundChange | addLogChange | addPreimageChange | accessListAddAccountChange =>
      simp only [JournalEntry.revert, withAccessList, mirror.substate]
      exact mirror.withSubstate _
    | accessListAddSlotChange address slot =>
      simp only [JournalEntry.revert, withAccessList, mirror.substate]
      cases s.substate.accessList.deleteSlot address slot with
      | none => rfl
      | some al => exact mirror.withSubstate _
    | resetObjectChange | codeChange | cmChange => simp [JournalEntry.shared] at shared

theorem unwind {lefts rights : List JournalEntry} (twins : List.Forall₂ (TwinEntry cfg l r) lefts rights) :
    Agree (Mirror cfg l r) (unwind cfg.kv lefts s) (unwind cfg.mpt rights t) := by
  induction twins generalizing s t with
  | nil => exact mirror
  | cons twin _ ih =>
    exact (mirror.revert dbs twin).bind fun _ _ _ kept => ih (kept.undirty twin)

theorem revertJournal (snapshot : Nat) :
    Agree (Mirror cfg l r) (s.revertJournal cfg.kv snapshot) (t.revertJournal cfg.mpt snapshot) := by
  have count := mirror.entries.length_eq
  simp only [CommitStateDB.revertJournal, ← count]
  refine (mirror.unwind dbs (List.forall₂_take _ mirror.entries)).bind fun u v _ kept => ?_
  exact { kept with entries := List.forall₂_drop _ mirror.entries, dirties := kept.dirties }

theorem revertToSnapshot (revID : Nat) :
    Agree (Mirror cfg l r) (s.revertToSnapshot cfg.kv revID) (t.revertToSnapshot cfg.mpt revID) := by
  simp only [CommitStateDB.revertToSnapshot, mirror.validRevisions]
  cases Snapshots.find revID s.validRevisions with
  | none => rfl
  | some found =>
    refine (mirror.revertJournal dbs found.1.length).bind fun u v _ kept => ?_
    exact { kept with validRevisions := rfl }

theorem step {op : Op} (bare : CreatesBare cfg s op) :
    Agree (Mirror cfg l r) (s.step cfg.kv op) (t.step cfg.mpt op) := by
  have created {addr : Address} (creates : op.creates cfg.kv s = if s.exist cfg.kv addr then none else some addr)
      (absent : s.exist cfg.kv addr = false) : l.kv.storage addr = emptyTrie := by
    rw [← mirror.left]
    exact bare addr (by simp [creates, absent])
  cases op with
  | setBalance addr amount => exact mirror.setBalance dbs (created rfl) amount
  | addBalance addr amount => exact mirror.addBalance dbs (created rfl) amount
  | subBalance addr amount => exact mirror.subBalance dbs (created rfl) amount
  | setNonce addr nonce => exact mirror.setNonce dbs (created rfl) nonce
  | setState addr key value => exact mirror.setState dbs (created rfl) key value
  | setCode addr code => exact mirror.setCode dbs (created rfl) code
  | createAccount addr =>
    refine mirror.createAccount dbs ?_
    rw [← mirror.left]
    exact bare addr rfl
  | suicide addr => exact mirror.suicide dbs addr
  | addLog address topics data => exact mirror.addLog address topics data
  | addPreimage hash preimage => exact mirror.addPreimage hash preimage
  | addRefund gas => exact mirror.addRefund gas
  | subRefund gas => exact mirror.subRefund gas
  | addAddressToAccessList addr => exact mirror.addAddressToAccessList addr
  | addSlotToAccessList addr slot => exact mirror.addSlotToAccessList addr slot
  | getAccount addr => exact mirror.load dbs fun _ _ twin _ => twin
  | getCode addr =>
    refine mirror.load dbs fun left right twin _ => ?_
    rw [mirror.left, mirror.right]
    exact (twin.getCode dbs).2.2.2
  | getState addr key =>
    refine mirror.load dbs fun left right twin alive => ?_
    rw [mirror.left]
    exact (twin.getState alive key).2
  | getCommittedState addr key =>
    refine mirror.load dbs fun left right twin alive => ?_
    rw [mirror.left]
    exact (twin.getCommittedState alive key).2
  | snapshot => exact mirror.snapshot
  | revertToSnapshot revID => exact mirror.revertToSnapshot dbs revID

end Mirror

end Exchain.Evm
