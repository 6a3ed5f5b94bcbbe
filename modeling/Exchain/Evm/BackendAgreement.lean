import Exchain.Evm.MirrorCommit
import Exchain.Evm.BridgeRevert

namespace Exchain.Evm

open CommitStateDB PartialRun

/-- The operations of a transaction, its commit, and the change to a new state database over the
same stores, without which cached objects stay. -/
inductive TxOp
  | op (op : Op)
  | commit (order : List Address)
  | renew (thash bhash : Hash) (txIndex : Nat)

def CommitStateDB.txStep (cfg : Config) (s : CommitStateDB) : TxOp → Except Panic CommitStateDB
  | .op op => s.step cfg op
  | .commit order => .ok (s.commit cfg order true)
  | .renew thash bhash txIndex => .ok (newCommitStateDB s.db thash bhash txIndex)

/-- Objects are created only where the key-value store holds no slot, and no commit writes a slot
of an account without code. -/
def Fits (cfg : Config) (s : CommitStateDB) : TxOp → Prop
  | .op op => CreatesBare cfg s op
  | .commit _ => CommitsBare cfg s
  | .renew .. => True

/-- The stores at the start: some accounts and their code, no slots. -/
def startDb (accounts : Address → Option Account) (code : Hash → Option Code) : Db :=
  ⟨⟨accounts, fun _ => emptyTrie, code⟩, ⟨fun _ => emptyTrie, code⟩⟩

/-- What the getters return before Mars in one state and after Mars in the other. -/
structure SameValues (cfg : Config) (s t : CommitStateDB) : Prop where
  exist : ∀ addr, s.exist cfg.kv addr = t.exist cfg.mpt addr
  balance : ∀ addr, s.getBalance cfg.kv addr = t.getBalance cfg.mpt addr
  nonce : ∀ addr, s.getNonce cfg.kv addr = t.getNonce cfg.mpt addr
  code : ∀ addr, s.getCode cfg.kv addr = t.getCode cfg.mpt addr
  state : ∀ addr key, s.getState cfg.kv addr key = t.getState cfg.mpt addr key
  committedState : ∀ addr key, s.getCommittedState cfg.kv addr key = t.getCommittedState cfg.mpt addr key

section

variable {cfg : Config} {s t : CommitStateDB}

theorem Mirrored.sameValues (mirrored : Mirrored cfg s t) : SameValues cfg s t := by
  obtain ⟨dbs, mirror⟩ := mirrored
  constructor
  all_goals
    intro addr
    obtain ⟨found, other, s', t', got, got', -, twins, alive⟩ := mirror.getStateObject dbs addr
  · cases twins <;> simp [exist, got, got']
  · cases twins with
    | none => simp [getBalance, got, got']
    | some twin => simp [getBalance, got, got', twin.account]
  · cases twins with
    | none => simp [getNonce, got, got']
    | some twin => simp [getNonce, got, got', twin.account]
  · cases twins with
    | none => simp [getCode, got, got']
    | some twin => simpa only [getCode, got, got'] using (twin.getCode dbs).1
  · intro key
    cases twins with
    | none => simp [getState, got, got']
    | some twin =>
      simpa only [getState, got, got'] using (twin.getState (alive _ rfl) key).1.symm
  · intro key
    cases twins with
    | none => simp [getCommittedState, got, got']
    | some twin =>
      simpa only [getCommittedState, got, got'] using
        (twin.getCommittedState (alive _ rfl) key).1.symm

theorem MirrorDb.newCommitStateDB {l r : Db} (dbs : MirrorDb cfg l r) (thash bhash : Hash) (txIndex : Nat) :
    Mirrored cfg (newCommitStateDB l thash bhash txIndex) (newCommitStateDB r thash bhash txIndex) :=
  ⟨dbs, rfl, rfl, fun _ => .none, fun _ => rfl, fun _ => rfl, .nil, rfl, rfl, rfl, rfl, rfl, rfl, rfl⟩

theorem Mirrored.txStep (mirrored : Mirrored cfg s t) {op : TxOp} (fits : Fits cfg s op) :
    Agree (Mirrored cfg) (s.txStep cfg.kv op) (t.txStep cfg.mpt op) := by
  cases op with
  | op op =>
    refine (mirrored.states.step mirrored.dbs fits).imp fun u v mirror => ⟨?_, ?_⟩
    · rw [mirror.left, mirror.right]
      exact mirrored.dbs
    · rw [mirror.left, mirror.right]
      exact mirror
  | commit order => exact mirrored.commit order fits
  | renew thash bhash txIndex => exact mirrored.dbs.newCommitStateDB thash bhash txIndex

/-- Start both back ends from the same accounts, with code stored under its hash and no slots, and
apply the same operations, commits and changes of the state database. If every step fits the
key-value side, both panic alike or every getter returns the same. -/
theorem backends_agree (accounts : Address → Option Account) {code : Hash → Option Code}
    (stored : ∀ hash bytes, code hash = some bytes → cfg.keccak bytes = hash) (thash bhash : Hash)
    (txIndex : Nat) {ops : List TxOp} (fits : Guarded (txStep cfg.kv) (Fits cfg)
      (newCommitStateDB (startDb accounts code) thash bhash txIndex) ops) : Agree (SameValues cfg)
      (run (txStep cfg.kv) (newCommitStateDB (startDb accounts code) thash bhash txIndex) ops)
      (run (txStep cfg.mpt) (newCommitStateDB (startDb accounts code) thash bhash txIndex) ops) := by
  have dbs : MirrorDb cfg (startDb accounts code) (startDb accounts code) := by
    refine ⟨rfl, fun _ _ => rfl, fun hash coded found => ?_, fun _ => .inl rfl, fun _ _ => rfl⟩
    exact coded (stored hash [] found).symm
  have step (s t : CommitStateDB) (op : TxOp) (mirrored : Mirrored cfg s t) (fits : Fits cfg s op) :
      Agree (Mirrored cfg) (s.txStep cfg.kv op) (t.txStep cfg.mpt op) := mirrored.txStep fits
  exact (fits.agree step (dbs.newCommitStateDB thash bhash txIndex)).imp
    fun _ _ mirrored => mirrored.sameValues

end

theorem createsBare_of_none {cfg : Config} {s : CommitStateDB} {op : Op}
    (creates : op.creates cfg.kv s = none) : CreatesBare cfg s op := by
  intro addr created
  simp [creates] at created

theorem commitsBare_of_single {cfg : Config} {s : CommitStateDB} (addr : Address) {so : StateObject}
    (cached : s.stateObjects.lookup addr = some so) (dirty : s.journal.dirties.keys = [addr])
    (fits : (finaliseObject cfg true so).deleted = true ∨ so.codeHash cfg ≠ cfg.emptyCodeHash) :
    CommitsBare cfg s := by
  intro other found inside looked kept bare
  rw [AList.mem_keys, dirty, List.mem_singleton] at inside
  subst inside
  cases cached.symm.trans looked
  rcases fits with gone | coded
  · simp [gone] at kept
  · exact absurd bare coded

def emptyState : CommitStateDB := newCommitStateDB (startDb (fun _ => none) fun _ => none) 0 0 0

/-- A contract with code and a slot is made and, in a second transaction, destroyed. -/
def contractLife : List TxOp :=
  [.op (.createAccount 7), .op (.setCode 7 (some [1])), .op (.setState 7 0 5), .commit [], .renew 0 0 1,
    .op (.suicide 7), .commit [], .renew 0 0 2]

/-- Made again, the contract still has its slot before Mars. And an account that has a slot but no
code loses it after Mars. -/
theorem backends_differ :
    (∃ s t, run (txStep marsConfig.kv) emptyState (contractLife ++ [.op (.createAccount 7)]) = .ok s ∧
      run (txStep marsConfig.mpt) emptyState (contractLife ++ [.op (.createAccount 7)]) = .ok t ∧
      s.getState marsConfig.kv 7 0 = 5 ∧ t.getState marsConfig.mpt 7 0 = 0) ∧
    ∃ s t, run (txStep marsConfig.kv) emptyState
        [.op (.setNonce 7 1), .op (.setState 7 0 5), .commit [], .renew 0 0 1] = .ok s ∧
      run (txStep marsConfig.mpt) emptyState
        [.op (.setNonce 7 1), .op (.setState 7 0 5), .commit [], .renew 0 0 1] = .ok t ∧
      s.getState marsConfig.kv 7 0 = 5 ∧ t.getState marsConfig.mpt 7 0 = 0 :=
  ⟨⟨_, _, rfl, rfl, by decide, by decide⟩, _, _, rfl, rfl, by decide, by decide⟩

theorem contractLife_fits : Guarded (txStep marsConfig.kv) (Fits marsConfig) emptyState contractLife := by
  refine ⟨fun addr _ => rfl, fun s1 done1 => ?_⟩
  cases done1
  refine ⟨createsBare_of_none (by decide), fun s2 done2 => ?_⟩
  cases done2
  refine ⟨createsBare_of_none (by decide), fun s3 done3 => ?_⟩
  cases done3
  refine ⟨commitsBare_of_single 7 rfl rfl (.inr (by decide)), fun s4 done4 => ?_⟩
  cases done4
  refine ⟨trivial, fun s5 done5 => ?_⟩
  cases done5
  refine ⟨createsBare_of_none rfl, fun s6 done6 => ?_⟩
  cases done6
  refine ⟨commitsBare_of_single 7 rfl rfl (.inl (by decide)), fun s7 done7 => ?_⟩
  cases done7
  exact ⟨trivial, fun _ _ => trivial⟩

/-- Up to the destruction of the contract the back ends agree. -/
theorem backends_agree_contractLife :
    Agree (SameValues marsConfig) (run (txStep marsConfig.kv) emptyState contractLife)
      (run (txStep marsConfig.mpt) emptyState contractLife) :=
  backends_agree (fun _ => none) (by simp) 0 0 0 contractLife_fits

end Exchain.Evm
