import Exchain.Evm.BridgeRevert
import Exchain.Evm.Flush

namespace Exchain.Evm

open CommitStateDB

/-- The balance, the nonce, the code and the slots of an address agree. -/
structure SameShown (cfg : Config) (s t : CommitStateDB) (addr : Address) : Prop where
  getBalance : t.getBalance cfg addr = s.getBalance cfg addr
  getNonce : t.getNonce cfg addr = s.getNonce cfg addr
  getCode : t.getCode cfg addr = s.getCode cfg addr
  getState : ∀ key, t.getState cfg addr key = s.getState cfg addr key

/-- Addresses that are neither suicided nor blacklisted show the same after a flush, in the flushed
state database and in a fresh one over its stores. -/
def FlushesFaithfully (cfg : Config) (s t : CommitStateDB) : Prop :=
  ∀ addr, s.hasSuicided cfg addr = false → cfg.blacklistedAddr addr = false →
    SameShown cfg s t addr ∧
      ∀ thash bhash txIndex, SameShown cfg s (newCommitStateDB t.db thash bhash txIndex) addr

structure Blank (cfg : Config) (s : CommitStateDB) (addr : Address) : Prop where
  getBalance : s.getBalance cfg addr = 0
  getNonce : s.getNonce cfg addr = 0
  getCode : s.getCode cfg addr = []
  getState : ∀ key, s.getState cfg addr key = 0

/-- A dirty object is not empty and copied as before Mars, or shows nothing; an address
without one shows what is stored. -/
def Flushable (cfg : Config) (s : CommitStateDB) (addr : Address) : Prop :=
  match s.flushed addr with
  | some so => cfg.higherThanMars = false ∧ so.empty cfg = false ∨ Blank cfg s addr
  | none => SameShown cfg (newCommitStateDB s.db 0 0 0) s addr

theorem SameShown.symm {cfg : Config} {s t : CommitStateDB} {addr : Address}
    (same : SameShown cfg s t addr) : SameShown cfg t s addr :=
  ⟨same.getBalance.symm, same.getNonce.symm, same.getCode.symm, fun key => (same.getState key).symm⟩

theorem SameShown.trans {cfg : Config} {s t u : CommitStateDB} {addr : Address}
    (first : SameShown cfg s t addr) (second : SameShown cfg t u addr) : SameShown cfg s u addr :=
  ⟨second.getBalance.trans first.getBalance, second.getNonce.trans first.getNonce,
    second.getCode.trans first.getCode, fun key => (second.getState key).trans (first.getState key)⟩

section

variable {cfg : Config} {s t : CommitStateDB} {addr : Address}

theorem sameShown_of_found {so other : StateObject}
    (here : (s.getStateObject cfg addr).1 = some so) (there : (t.getStateObject cfg addr).1 = some other)
    (balance : other.account.balance = so.account.balance)
    (nonce : other.account.sequence = so.account.sequence)
    (code : (other.getCode cfg t.db).1.getD [] = (so.getCode cfg s.db).1.getD [])
    (slots : ∀ key, (other.getState cfg t.db addr key).1 = (so.getState cfg s.db addr key).1) :
    SameShown cfg s t addr := by
  refine ⟨?_, ?_, ?_, fun key => ?_⟩
  · simpa [getBalance, here, there] using balance
  · simpa [getNonce, here, there] using nonce
  · simpa [getCode, here, there] using code
  · simpa [getState, here, there] using slots key

theorem blank_of_missing (missing : (s.getStateObject cfg addr).1 = none) : Blank cfg s addr := by
  refine ⟨?_, ?_, ?_, fun key => ?_⟩
  · simp [getBalance, missing]
  · simp [getNonce, missing]
  · simp [getCode, missing]
  · simp [getState, missing]

theorem sameShown_iff_blank (blank : Blank cfg t addr) : SameShown cfg s t addr ↔ Blank cfg s addr := by
  constructor
  · intro same
    exact ⟨same.getBalance.symm.trans blank.getBalance, same.getNonce.symm.trans blank.getNonce,
      same.getCode.symm.trans blank.getCode,
      fun key => (same.getState key).symm.trans (blank.getState key)⟩
  · intro before
    exact ⟨blank.getBalance.trans before.getBalance.symm, blank.getNonce.trans before.getNonce.symm,
      blank.getCode.trans before.getCode.symm,
      fun key => (blank.getState key).trans (before.getState key).symm⟩

theorem found_of_uncached (cfg : Config) (uncached : s.stateObjects.lookup addr = none) :
    (s.getStateObject cfg addr).1 = (s.db.kv.accounts addr).map (loadObject cfg s.db addr) := by
  rw [getStateObject_uncached (cell_eq_none_iff.mpr uncached)]
  cases s.db.kv.accounts addr <;> rfl

theorem sameShown_uncached (here : s.stateObjects.lookup addr = none)
    (there : t.stateObjects.lookup addr = none)
    (account : t.db.kv.accounts addr = s.db.kv.accounts addr)
    (slots : t.db.kv.storage addr = s.db.kv.storage addr) (mpt : t.db.mpt = s.db.mpt)
    (code : ∀ account, s.db.kv.accounts addr = some account →
      ((loadObject cfg t.db addr account).getCode cfg t.db).1.getD [] =
        ((loadObject cfg s.db addr account).getCode cfg s.db).1.getD []) :
    SameShown cfg s t addr := by
  have found := found_of_uncached cfg here
  have found' := found_of_uncached cfg there
  rw [account] at found'
  cases stored : s.db.kv.accounts addr with
  | none =>
    rw [stored] at found found'
    exact (sameShown_iff_blank (blank_of_missing found')).mpr (blank_of_missing found)
  | some account =>
    rw [stored] at found found'
    refine sameShown_of_found found found' rfl rfl (code account stored) fun key => ?_
    simp [StateObject.getState, StateObject.getCommittedState, StateObject.readSlot, loadObject,
      slots, mpt]

end

section

variable {cfg : Config} {codes : Set Code} {start : Db} {s t : CommitStateDB}
  {entries : List JournalEntry} {dirtyOrder cacheOrder : List Address} {addr : Address}
  (flush : t = s.protectStateDBEnvironment cfg dirtyOrder cacheOrder)

include flush

theorem uncached_of_flush (addr : Address) : t.stateObjects.lookup addr = none := by
  rw [flush]
  exact lookup_protectStateDBEnvironment cfg s dirtyOrder cacheOrder addr

/-- After a flush everything is read from the store again. -/
theorem flushesFaithfully_iff_sameShown : FlushesFaithfully cfg s t ↔
    ∀ addr, s.hasSuicided cfg addr = false → cfg.blacklistedAddr addr = false →
      SameShown cfg s t addr := by
  constructor
  · intro faithful addr unsuicided unlisted
    exact (faithful addr unsuicided unlisted).1
  · intro same addr unsuicided unlisted
    have shown := same addr unsuicided unlisted
    refine ⟨shown, fun thash bhash txIndex => shown.trans ?_⟩
    exact sameShown_uncached (uncached_of_flush flush addr) rfl rfl rfl rfl fun _ _ => rfl

variable {so : StateObject}

theorem blank_removed (out : s.flushed addr = some so) (gone : so.removes cfg = true) :
    Blank cfg t addr := by
  refine blank_of_missing ?_
  rw [found_of_uncached cfg (uncached_of_flush flush addr), accounts_flush flush, out]
  simp [StateObject.accountWrite, gone]

omit flush

theorem removes_mpt (mars : cfg.higherThanMars = true) (so : StateObject) : so.removes cfg = true := by
  simp [StateObject.removes, StateObject.deepCopy, mars, StateObject.deepCopyMpt, StateObject.empty,
    newAccountWithAddress, Account.withCodeHash]

theorem removes_kv (kv : cfg.higherThanMars = false) (hash : so.account.codeHash.isSome = true) :
    so.removes cfg = (so.suicided || so.empty cfg) := by
  obtain ⟨_, found⟩ := Option.isSome_iff_exists.mp hash
  simp [StateObject.removes, StateObject.deepCopy, kv, StateObject.empty, Account.withCodeHash, found]

variable (collisionless : Set.InjOn cfg.keccak codes) (nil : [] ∈ codes)

include collisionless nil

theorem code_eq_of_hash (kv : cfg.higherThanMars = false) {db other : Db} {copy : StateObject}
    (coded : db.kv.Coded cfg codes) (coded' : other.kv.Coded cfg codes)
    (sourced : Sourced cfg codes db addr so) (sourced' : Sourced cfg codes other addr copy)
    (hash : copy.codeHash cfg = so.codeHash cfg) :
    (copy.getCode cfg other).1.getD [] = (so.getCode cfg db).1.getD [] := by
  obtain ⟨-, known, hashes⟩ := sourced.getCode coded kv nil
  obtain ⟨-, known', hashes'⟩ := sourced'.getCode coded' kv nil
  refine collisionless known' known ?_
  rw [hashes', hashes, hash]

theorem sameShown_kept (kv : cfg.higherThanMars = false) (coherent : Coherent cfg codes start entries s)
    (coded : start.kv.Coded cfg codes)
    (flush : t = s.protectStateDBEnvironment cfg dirtyOrder cacheOrder)
    (out : s.flushed addr = some so) (kept : so.removes cfg = false)
    (unlisted : cfg.blacklistedAddr addr = false) : SameShown cfg s t addr := by
  obtain ⟨-, cached⟩ := flushed_eq_some out
  have sourced := coherent.objects addr so cached
  have coded' := coded_flush coherent coded kv flush
  have here : (s.getStateObject cfg addr).1 = some so := by
    simp [getStateObject, getDeletedStateObject, cached, coherent.unmarked, sourced.alive]
  have account := accounts_flush flush addr
  have slots := storage_flush flush addr
  have there := found_of_uncached cfg (uncached_of_flush flush addr)
  simp only [out, Option.bind_some, StateObject.accountWrite, kept, unlisted, Bool.false_eq_true,
    if_false] at account slots
  rw [account] at there
  have copied : (so.deepCopy cfg).account = so.account.withCodeHash cfg := by
    simp [StateObject.deepCopy, kv]
  refine sameShown_of_found here there ?_ ?_ ?_ fun key => ?_
  · rw [copied]
    rfl
  · rw [copied]
    rfl
  · rw [coherent.db]
    refine code_eq_of_hash collisionless nil kv coded coded' sourced (.load coded' account) ?_
    rw [copied]
    simp [loadObject, newStateObject, StateObject.codeHash, Account.withCodeHash]
  · have read : ((loadObject cfg t.db addr (so.deepCopy cfg).account).getState cfg t.db addr key).1 =
        t.db.kv.storage addr key := by
      simp [StateObject.getState, StateObject.getCommittedState, StateObject.readSlot, loadObject,
        newStateObject, kv]
    have written : (so.deepCopy cfg).writtenSlots = so.writtenSlots := by
      simp [StateObject.deepCopy, kv]
      rfl
    rw [read, slots, written, coherent.db, sourced.read_back kv]

section

variable (coherent : cfg.higherThanMars = false → Coherent cfg codes s.db entries s) (coded : cfg.higherThanMars = false → s.db.kv.Coded cfg codes)

include coherent coded flush

theorem sameShown_unflushed (out : s.flushed addr = none) :
    SameShown cfg (newCommitStateDB s.db 0 0 0) t addr := by
  have mpt : t.db.mpt = s.db.mpt := by
    rw [db_flush flush]
  have account : t.db.kv.accounts addr = s.db.kv.accounts addr := by
    rw [accounts_flush flush, out]
    rfl
  refine sameShown_uncached rfl (uncached_of_flush flush addr) account ?_ mpt fun found stored => ?_
  · funext key
    rw [storage_flush flush, out]
    rfl
  cases mars : cfg.higherThanMars with
  | true =>
    simp [StateObject.getCode, StateObject.codeInRawDB, mars, loadObject, newStateObject, mpt]
    rfl
  | false =>
    have coded' := coded_flush (coherent mars) (coded mars) mars flush
    exact code_eq_of_hash collisionless nil mars (coded mars) coded' (.load (coded mars) stored)
      (.load coded' (account.trans stored)) rfl

theorem sameShown_iff_flushable (unsuicided : s.hasSuicided cfg addr = false)
    (unlisted : cfg.blacklistedAddr addr = false) :
    SameShown cfg s t addr ↔ Flushable cfg s addr := by
  unfold Flushable
  cases out : s.flushed addr with
  | none =>
    have stored := sameShown_unflushed flush collisionless nil coherent coded out
    exact ⟨fun same => stored.trans same.symm, fun same => same.symm.trans stored⟩
  | some so =>
    obtain ⟨-, cached⟩ := flushed_eq_some out
    have removed (gone : so.removes cfg = true) :=
      @sameShown_iff_blank cfg s _ addr (blank_removed flush out gone)
    cases mars : cfg.higherThanMars with
    | true => simpa using removed (removes_mpt mars so)
    | false =>
      have sourced := (coherent mars).objects addr so cached
      have here : (s.getStateObject cfg addr).1 = some so := by
        simp [getStateObject, getDeletedStateObject, cached, (coherent mars).unmarked,
          sourced.alive]
      have spared : so.suicided = false := by
        simpa [hasSuicided, here] using unsuicided
      have removes := removes_kv mars sourced.hash
      rw [spared] at removes
      cases empty : so.empty cfg with
      | true => simpa [empty] using removed (removes.trans empty)
      | false =>
        have shown := sameShown_kept collisionless nil mars (coherent mars) (coded mars) flush
          out (removes.trans empty) unlisted
        simp [shown, empty]

end

/-- A transaction starts with a fresh state database and runs any operations; the codes in its store
and operations do not collide, and every stored account's code is stored. The flush before a
precompile call is faithful if and only if every address that is neither suicided nor blacklisted is
flushable. -/
theorem flush_faithful_iff (coded : start.kv.Coded cfg codes) {thash bhash : Hash} {txIndex : Nat} {ops : List Op}
    (known : ∀ op ∈ ops, op.codesIn codes)
    (done : (newCommitStateDB start thash bhash txIndex).run cfg ops = .ok s)
    (dirtyOrder cacheOrder : List Address) :
    FlushesFaithfully cfg s (s.protectStateDBEnvironment cfg dirtyOrder cacheOrder) ↔
      ∀ addr, s.hasSuicided cfg addr = false → cfg.blacklistedAddr addr = false →
        Flushable cfg s addr := by
  have coherent (kv : cfg.higherThanMars = false) : Coherent cfg codes s.db s.journal.entries s := by
    have coherent := Coherent.run coded kv nil known done
    rwa [← coherent.db] at coherent
  have coded' (kv : cfg.higherThanMars = false) : s.db.kv.Coded cfg codes := by
    rw [(Coherent.run coded kv nil known done).db]
    exact coded
  rw [flushesFaithfully_iff_sameShown rfl]
  refine forall_congr' fun addr => forall_congr' fun unsuicided => forall_congr' fun unlisted => ?_
  exact sameShown_iff_flushable rfl collisionless nil coherent coded' unsuicided unlisted

end

def nonceFour : Db :=
  (uncachedState (fun addr => if addr = 1 then some ⟨5, 4, none⟩ else none) fun _ => false).db

def stateAfter (cfg : Config) (ops : List Op) : CommitStateDB :=
  ((newCommitStateDB nonceFour 0 0 0).run cfg ops).toOption.getD (newCommitStateDB nonceFour 0 0 0)

/-- After Mars a changed account is gone; before Mars an account created anew over a stored one
comes back with its old nonce, and the slots of an empty account are gone. -/
theorem flush_not_faithful : (let s := stateAfter marsConfig [.addBalance 1 1]
      let t := s.protectStateDBEnvironment marsConfig [] []
      (newCommitStateDB nonceFour 0 0 0).run marsConfig [.addBalance 1 1] = .ok s ∧
        s.hasSuicided marsConfig 1 = false ∧ s.getBalance marsConfig 1 = 6 ∧
        t.getBalance marsConfig 1 = 0 ∧ (newCommitStateDB t.db 0 0 0).getBalance marsConfig 1 = 0) ∧
    (let s := stateAfter kvConfig [.createAccount 1]
      let t := s.protectStateDBEnvironment kvConfig [] []
      (newCommitStateDB nonceFour 0 0 0).run kvConfig [.createAccount 1] = .ok s ∧
        s.hasSuicided kvConfig 1 = false ∧ s.getNonce kvConfig 1 = 0 ∧
        t.getNonce kvConfig 1 = 4) ∧
    (let s := stateAfter kvConfig [.setState 2 3 4]
      let t := s.protectStateDBEnvironment kvConfig [] []
      (newCommitStateDB nonceFour 0 0 0).run kvConfig [.setState 2 3 4] = .ok s ∧
        s.hasSuicided kvConfig 2 = false ∧ s.getState kvConfig 2 3 = 4 ∧
        t.getState kvConfig 2 3 = 0) := by
  refine ⟨⟨rfl, rfl, rfl, rfl, rfl⟩, ⟨rfl, rfl, rfl, rfl⟩, rfl, rfl, rfl, rfl⟩

def callerOps : List Op := [.subBalance 1 2, .setCode 1 (some [7]), .setState 1 3 4, .setNonce 1 9]

theorem flushable_callerOps (addr : Address) : Flushable kvConfig (stateAfter kvConfig callerOps) addr := by
  by_cases caller : addr = 1
  · subst caller
    exact .inl ⟨rfl, rfl⟩
  have cached : (stateAfter kvConfig callerOps).stateObjects.keys = [1] := rfl
  have uncached : (stateAfter kvConfig callerOps).stateObjects.lookup addr = none := by
    rw [AList.lookup_eq_none]
    intro inside
    have listed := AList.mem_keys.mp inside
    rw [cached, List.mem_singleton] at listed
    exact caller listed
  have out : (stateAfter kvConfig callerOps).flushed addr = none := by
    simp [flushed, uncached]
  rw [Flushable, out]
  exact sameShown_uncached rfl uncached rfl rfl rfl fun _ _ => rfl

/-- Coins, code, a slot and a nonce of one account reach the store. -/
theorem flush_faithful_callerOps : FlushesFaithfully kvConfig (stateAfter kvConfig callerOps)
      ((stateAfter kvConfig callerOps).protectStateDBEnvironment kvConfig [] []) := by
  have collisionless : Set.InjOn kvConfig.keccak {[], [7]} := by
    rintro first (rfl | rfl) second (rfl | rfl) same
    · rfl
    · exact absurd same (by decide)
    · exact absurd same (by decide)
    · rfl
  have coded : nonceFour.kv.Coded kvConfig {[], [7]} := by
    refine ⟨fun hash code stored => ?_, fun addr account stored => .inl ?_⟩
    · contradiction
    have stored : (if addr = 1 then some (Account.mk 5 4 none) else none) = some account := stored
    split at stored
    · rw [← Option.some.inj stored]
      rfl
    · contradiction
  have known : ∀ op ∈ callerOps, op.codesIn {[], [7]} := by
    simp [callerOps, Op.codesIn]
  have done : (newCommitStateDB nonceFour 0 0 0).run kvConfig callerOps =
      .ok (stateAfter kvConfig callerOps) := rfl
  exact (flush_faithful_iff collisionless (by simp) coded known done [] []).mpr
    fun addr _ _ => flushable_callerOps addr

end Exchain.Evm
