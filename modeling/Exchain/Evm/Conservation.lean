import Mathlib.Algebra.BigOperators.Ring.Finset
import Mathlib.Data.FinEnum
import Exchain.Evm.MirrorCommit
import Exchain.Evm.Payments

namespace Exchain.Evm

open CommitStateDB

/-- A balance-change history: transfers, and operations that change no balance. -/
inductive HistoryStep
  | transfer (sender recipient : Address) (amount : Int)
  | other (op : Op) (neutral : op.neutral = true)

/-- A transfer is a SubBalance from one account and an AddBalance to another. -/
def HistoryStep.ops : HistoryStep → List Op
  | transfer sender recipient amount =>
    [.subBalance sender amount, .addBalance recipient amount]
  | other op _ => [op]

def CommitStateDB.play (cfg : Config) (s : CommitStateDB) (next : HistoryStep) :
    Except Panic CommitStateDB :=
  PartialRun.run (step cfg) s next.ops

/-- Every change that a history step makes refreshes the account it changes. -/
def HistoryStep.Refreshing (cfg : Config) (s : CommitStateDB) (next : HistoryStep) : Prop :=
  PartialRun.Guarded (step cfg) Refreshes s next.ops

def Account.stored : Option Account → Nat
  | some account => account.balance
  | none => 0

def KV.supply (kv : KV) : Nat := ∑ addr, Account.stored (kv.accounts addr)

def CommitStateDB.coins (cfg : Config) (s : CommitStateDB) : Nat := ∑ addr, (s.purse cfg addr).1

/-- What a transaction has made of the stores it started with, at any point. -/
structure Sound (cfg : Config) (start : Db) (s : CommitStateDB) : Prop where
  db : s.db = start
  steady : Steady s.db.kv.accounts s
  unhidden : Unhidden cfg s
  orderly : Orderly s
  counted : Counted s
  clean : ∀ addr, (∀ entry ∈ s.journal.entries, entry.dirtied ≠ some addr) →
    (s.purse cfg addr).1 = Account.stored (start.kv.accounts addr)
  unsuicided : ∀ addr, (s.purse cfg addr).2 = false

/-- Every valid snapshot was taken in a state with the same coins. -/
def Backed (cfg : Config) (db : Db) (coins : Nat) (s : CommitStateDB) : Prop :=
  ∀ mark ∈ s.validRevisions, ∃ base, Sound cfg db base ∧ base.coins cfg = coins ∧
    base.revision = mark ∧ Tracks cfg base s

section

variable {cfg : Config} {db : Db} {s t : CommitStateDB} {coins : Nat}

theorem coins_paid {addr : Address} {amount : Int} (paid : Paid cfg s t addr amount) :
    (t.coins cfg : Int) = s.coins cfg + amount := by
  have change (other : Address) : ((t.purse cfg other).1 : Int) =
      (s.purse cfg other).1 + if other = addr then amount else 0 := by
    by_cases same : other = addr
    · rw [same, if_pos rfl, paid.own]
    · rw [if_neg same, paid.others other same, Int.add_zero]
  unfold CommitStateDB.coins
  rw [Nat.cast_sum, Nat.cast_sum, Finset.sum_congr rfl fun other _ => change other, Finset.sum_add_distrib, Finset.sum_ite_eq',
    if_pos (Finset.mem_univ addr)]

theorem Sound.paid (sound : Sound cfg db s) {addr : Address} {amount : Int}
    (paid : Paid cfg s t addr amount) (grows : Grows s t) (orderly : Orderly t) : Sound cfg db t := by
  refine ⟨paid.db.trans sound.db, ?_, paid.unhidden sound.unhidden, orderly,
    paid.counted sound.counted, fun other untouched => ?_, fun other => ?_⟩
  · rw [paid.db]
    exact paid.steady
  · obtain ⟨_, grown⟩ := grows.entries
    have before := sound.clean other fun entry inside =>
      untouched entry (by rw [grown]; exact List.mem_append_right _ inside)
    by_cases same : other = addr
    · have nothing : amount = 0 := by
        by_contra nonzero
        obtain ⟨entry, inside, dirtied⟩ := paid.journaled nonzero
        exact untouched entry inside (dirtied.trans (congrArg some same.symm))
      have own := paid.own
      rw [same] at before ⊢
      omega
    · rw [paid.others other same, before]
  · rw [paid.suicided, sound.unsuicided]

theorem Backed.step (backed : Backed cfg db coins s) (sound : Sound cfg db s) {op : Op}
    (plain : op.plain = true) (done : s.step cfg op = .ok t) : Backed cfg db coins t := by
  intro mark valid
  rw [(step_moves plain done).grows.validRevisions] at valid
  obtain ⟨base, before, total, revision, tracks⟩ := backed mark valid
  refine ⟨base, before, total, revision, tracks.step before.unhidden (fun _ => ?_) done⟩
  exact readsFaithfully_of_db (sound.db.trans before.db.symm) _ op

theorem Backed.snapshot (backed : Backed cfg db coins s) (sound : Sound cfg db s)
    (total : s.coins cfg = coins) : Backed cfg db coins s.snapshot := by
  intro mark valid
  rcases List.mem_cons.mp valid with rfl | older
  · exact ⟨s, sound, total, rfl, Tracks.start sound.orderly.stacked sound.steady⟩
  · obtain ⟨base, before, total, revision, tracks⟩ := backed mark older
    exact ⟨base, before, total, revision, tracks.snapshot⟩

/-- Going back shows the purses of the state that the snapshot was taken in. -/
theorem revert_sound (sound : Sound cfg db s) (backed : Backed cfg db coins s) {revID : Nat}
    (done : s.revertToSnapshot cfg revID = .ok t) :
    Sound cfg db t ∧ t.coins cfg = coins ∧ Backed cfg db coins t := by
  obtain ⟨revision, older, _, found, _, shape⟩ := revertToSnapshot_eq_ok done
  obtain ⟨same, _, split⟩ := Snapshots.find_eq_some found
  have valid : revision ∈ s.validRevisions := by simp [split]
  obtain ⟨base, before, total, rfl, tracks⟩ := backed revision valid
  obtain ⟨_, reverted, anchored⟩ := tracks.revert valid
  have identified : base.nextRevisionID = revID := same
  rw [identified, done] at reverted
  cases reverted
  have restored : t.db = base.db := Db.ext anchored.kv anchored.mpt
  have purses (addr : Address) : t.purse cfg addr = base.purse cfg addr := by
    unfold CommitStateDB.purse
    rw [restored]
    exact congrArg View.purse (anchored.views addr)
  refine ⟨⟨restored.trans before.db, ?_, fun addr hidden => ?_, ?_, sound.counted.revertToSnapshot done,
    fun addr untouched => ?_, fun addr => ?_⟩, ?_, fun mark inside => ?_⟩
  · rw [restored]
    exact anchored.steady
  · rw [restored] at hidden ⊢
    exact before.unhidden addr ((anchored.views addr).symm.trans hidden)
  · have stepped : s.step cfg (.revertToSnapshot revID) = .ok t := done
    exact sound.orderly.step stepped
  · rw [purses]
    rw [anchored.entries] at untouched
    exact before.clean addr untouched
  · rw [purses, before.unsuicided]
  · rw [← total]
    exact Finset.sum_congr rfl fun addr _ => congrArg Prod.fst (purses addr)
  · have left : t.validRevisions = older := by rw [shape]
    have kept : mark ∈ s.validRevisions := by
      rw [left] at inside
      simp [split, inside]
    obtain ⟨base', before', total', revision', tracks'⟩ := backed mark kept
    exact ⟨base', before', total', revision', tracks'.revertToSnapshot done⟩

end

/-- The coins are all there, now and in every state a revert leads back to. -/
structure Balanced (cfg : Config) (start : Db) (s : CommitStateDB) : Prop where
  sound : Sound cfg start s
  total : s.coins cfg = start.kv.supply
  backed : Backed cfg start start.kv.supply s

section

variable {cfg : Config} {db : Db} {s t : CommitStateDB}

theorem Sound.subBalance (sound : Sound cfg db s) {addr : Address} {amount : Int}
    (refreshes : Refreshes s (.subBalance addr amount))
    (done : s.step cfg (.subBalance addr amount) = .ok t) :
    Sound cfg db t ∧ (t.coins cfg : Int) = s.coins cfg - amount := by
  have paid := subBalance_paid sound.steady (refreshes addr rfl) done
  exact ⟨sound.paid paid (step_moves rfl done).grows (sound.orderly.step done), coins_paid paid⟩

theorem Sound.addBalance (sound : Sound cfg db s) {addr : Address} {amount : Int}
    (refreshes : Refreshes s (.addBalance addr amount))
    (done : s.step cfg (.addBalance addr amount) = .ok t) :
    Sound cfg db t ∧ (t.coins cfg : Int) = s.coins cfg + amount := by
  have paid := addBalance_paid sound.steady (refreshes addr rfl) done
  exact ⟨sound.paid paid (step_moves rfl done).grows (sound.orderly.step done), coins_paid paid⟩

theorem Balanced.neutral (balanced : Balanced cfg db s) {op : Op} (neutral : op.neutral = true)
    (refreshes : Refreshes s op) (done : s.step cfg op = .ok t) : Balanced cfg db t := by
  obtain ⟨sound, total, backed⟩ := balanced
  cases plain : op.plain with
  | true =>
    have calm := step_calm sound.steady plain neutral refreshes sound.unsuicided done
    -- nothing is paid, to whichever address
    have paid := calm.paid sound.steady 0
    have kept := coins_paid paid
    exact ⟨sound.paid paid (step_moves plain done).grows (sound.orderly.step done), by omega,
      backed.step sound plain done⟩
  | false =>
    cases op with
    | snapshot =>
      have orderly := sound.orderly.step done
      cases done
      exact ⟨⟨sound.db, ⟨sound.steady.stored, sound.steady.missing⟩, sound.unhidden, orderly,
        ⟨sound.counted.covers, sound.counted.unmarked⟩, sound.clean, sound.unsuicided⟩, total,
        backed.snapshot sound total⟩
    | revertToSnapshot =>
      obtain ⟨sound, total, backed⟩ := revert_sound sound backed done
      exact ⟨sound, total, backed⟩
    | _ => simp [Op.plain] at plain

theorem Balanced.play (balanced : Balanced cfg db s) {next : HistoryStep}
    (refreshing : next.Refreshing cfg s) (done : s.play cfg next = .ok t) : Balanced cfg db t := by
  cases next with
  | transfer =>
    obtain ⟨u, debit, rest⟩ := PartialRun.run_cons_ok done
    obtain ⟨_, credit, last⟩ := PartialRun.run_cons_ok rest
    cases last
    have second := refreshing.2 u debit
    obtain ⟨between, _⟩ := balanced.sound.subBalance refreshing.1 debit
    obtain ⟨after, _⟩ := between.addBalance second.1 credit
    have total := balanced.total
    refine ⟨after, by omega, ?_⟩
    exact (balanced.backed.step balanced.sound rfl debit).step between rfl credit
  | other op neutral =>
    obtain ⟨_, first, last⟩ := PartialRun.run_cons_ok done
    cases last
    exact balanced.neutral neutral refreshing.1 first

end

section

variable {cfg : Config} {start : Db} {s : CommitStateDB}

theorem Spot.account_commit (spot : Spot) (deleteEmptyObjects : Bool) (addr : Address) :
    (spot.commit cfg deleteEmptyObjects addr).account = match spot.object with
      | some so =>
        if (finaliseObject cfg deleteEmptyObjects so).deleted then none
        else if cfg.blacklistedAddr addr then spot.account else some so.account
      | none => spot.account := by
  unfold Spot.commit Spot.finalise Spot.commitSlots Spot.commitAccount Spot.commitObject
  cases object : spot.object with
  | none => simp
  | some so =>
    have kept : (finaliseObject cfg deleteEmptyObjects so).account = so.account := by
      unfold finaliseObject
      split <;> rfl
    cases gone : (finaliseObject cfg deleteEmptyObjects so).deleted with
    | true => cases mars : cfg.higherThanMars <;> simp [gone]
    | false =>
      have settled (so : StateObject) : so.settleSlots.deleted = so.deleted := rfl
      have updated (so : StateObject) : so.updateTrie.deleted = so.deleted := rfl
      cases mars : cfg.higherThanMars <;> cases listed : cfg.blacklistedAddr addr <;>
        simp [gone, settled, updated, ← kept] <;> rfl

/-- A dirty blacklisted account that the commit keeps: nothing is written for it. -/
def CommitStateDB.withheld (cfg : Config) (s : CommitStateDB) (deleteEmptyObjects : Bool)
    (addr : Address) : Bool :=
  cfg.blacklistedAddr addr && decide (addr ∈ s.journal.dirties) &&
    match s.stateObjects.lookup addr with
    | some so => !(finaliseObject cfg deleteEmptyObjects so).deleted
    | none => false

theorem purse_of_lookup (cfg : Config) {addr : Address} {so : StateObject}
    (cached : s.stateObjects.lookup addr = some so) (clear : s.updatedAccount addr = false) :
    s.purse cfg addr = if so.deleted then (0, false) else (so.account.balance, so.suicided) := by
  have cell : s.cell cfg addr = some (so.settled cfg) := by
    simp [CommitStateDB.cell, cached, refreshed_of_unmarked clear]
  cases gone : so.deleted with
  | true =>
    simp [CommitStateDB.purse, cell, viewAt, gone, View.purse]
  | false =>
    have settled : (so.settled cfg).deleted = false := gone
    rw [purse_of_cell cell settled]
    rfl

theorem finaliseObject_deleted (deleteEmptyObjects : Bool) (so : StateObject) :
    (finaliseObject cfg deleteEmptyObjects so).deleted =
      (so.suicided || (deleteEmptyObjects && so.empty cfg) || so.deleted) := by
  unfold finaliseObject
  split
  · rename_i gone
    simp [gone]
  · rename_i kept
    simp [kept, StateObject.finalise]

theorem balance_of_deleted {deleteEmptyObjects : Bool} {so : StateObject}
    (gone : (finaliseObject cfg deleteEmptyObjects so).deleted = true)
    (unsuicided : (if so.deleted then (0, false) else (so.account.balance, so.suicided)).2 = false) :
    (if so.deleted then (0, false) else (so.account.balance, so.suicided)).1 = 0 := by
  cases dead : so.deleted with
  | true => rfl
  | false =>
    simp only [dead, Bool.false_eq_true, if_false] at unsuicided ⊢
    rw [finaliseObject_deleted, unsuicided, dead] at gone
    have empty : so.empty cfg = true := by
      revert gone
      cases deleteEmptyObjects <;> simp
    simp only [StateObject.empty, decide_eq_true_eq] at empty
    exact empty.2.1

theorem Sound.stored_commit (sound : Sound cfg start s) (order : List Address)
    (deleteEmptyObjects : Bool) (addr : Address) :
    Account.stored ((s.commit cfg order deleteEmptyObjects).db.kv.accounts addr) =
      if s.withheld cfg deleteEmptyObjects addr then Account.stored (start.kv.accounts addr)
      else (s.purse cfg addr).1 := by
  have account := congrArg Spot.account (@spot_commit cfg s order deleteEmptyObjects addr)
  have here : (s.spot addr).account = start.kv.accounts addr := by rw [← sound.db]; rfl
  change (s.commit cfg order deleteEmptyObjects).db.kv.accounts addr = _ at account
  rw [account]
  by_cases dirty : addr ∈ s.journal.dirties
  · cases cached : s.stateObjects.lookup addr with
    | none =>
      have outside : addr ∉ s.dirtyObjects order := by simp [dirtyObjects, cached]
      have shown : (s.purse cfg addr).1 = Account.stored (start.kv.accounts addr) := by
        rw [CommitStateDB.purse, cell_eq_none_iff.mpr cached, ← sound.db]
        cases stored : s.db.kv.accounts addr <;> simp [viewAt, stored, View.purse, Account.stored]
        rfl
      rw [if_neg outside, here, shown, ite_self]
    | some so =>
      have inside : addr ∈ s.dirtyObjects order := by
        simp [dirtyObjects, cached, AList.mem_visit, dirty]
      have object : (s.spot addr).object = some so := cached
      have shown := purse_of_lookup cfg cached (sound.counted.unmarked addr dirty)
      have unsuicided := sound.unsuicided addr
      rw [shown] at unsuicided ⊢
      rw [if_pos inside, Spot.account_commit, object, here]
      simp only [withheld, cached, dirty, decide_true]
      cases gone : (finaliseObject cfg deleteEmptyObjects so).deleted with
      | true =>
        have nothing := balance_of_deleted gone unsuicided
        simp [nothing, Account.stored]
      | false =>
        have alive : so.deleted = false := by
          rw [finaliseObject_deleted] at gone
          simp only [Bool.or_eq_false_iff] at gone
          exact gone.2
        cases listed : cfg.blacklistedAddr addr <;> simp [alive, Account.stored]
  · have outside : addr ∉ s.dirtyObjects order := by
      simp [dirtyObjects, AList.mem_visit, dirty]
    have untouched : ∀ entry ∈ s.journal.entries, entry.dirtied ≠ some addr := by
      have covers := sound.counted.covers addr
      rw [AList.lookup_eq_none.mpr dirty] at covers
      simpa using covers
    rw [if_neg outside, here, sound.clean addr untouched, ite_self]

end

/-- The start of a transaction: an empty journal, a cache and marks that agree with the stored
accounts, and getters that show the stored balances. -/
structure Rested (cfg : Config) (s : CommitStateDB) : Prop where
  entries : s.journal.entries = []
  validRevisions : s.validRevisions = []
  unmarked : ∀ addr, addr ∈ s.journal.dirties → s.updatedAccount addr = false
  restorable : Restorable s
  getBalance : ∀ addr, s.getBalance cfg addr = Account.stored (s.db.kv.accounts addr)
  hasSuicided : ∀ addr, s.hasSuicided cfg addr = false

section

variable {cfg : Config} {s t : CommitStateDB}

theorem Rested.balanced (rested : Rested cfg s) : Balanced cfg s.db s := by
  have steady := rested.restorable.steady
  have balances (addr : Address) : (s.purse cfg addr).1 = Account.stored (s.db.kv.accounts addr) := by
    rw [← getBalance_eq steady, rested.getBalance]
  refine ⟨⟨rfl, steady, rested.restorable.unhidden, ⟨?_, ?_⟩, ⟨fun addr => ?_, rested.unmarked⟩,
    fun addr _ => balances addr, fun addr => ?_⟩, ?_, fun mark inside => ?_⟩
  · unfold CommitStateDB.Stacked
    rw [rested.validRevisions]
    exact Snapshots.stacked_nil _ _
  · simp [rested.entries]
  · simp [rested.entries]
  · rw [← hasSuicided_eq steady, rested.hasSuicided]
  · exact Finset.sum_congr rfl fun addr _ => balances addr
  · simp [rested.validRevisions] at inside

/-- A transaction only moves coins in matched pairs, with any snapshots and reverts, and never changes
an account loaded while it is marked as updated: the commit keeps the number of coins in the account
store if and only if the blacklisted accounts it passes over hold together what is stored for them.
-/
theorem commit_conserves_iff (rested : Rested cfg s) {history : List HistoryStep}
    (refreshing : PartialRun.Guarded (CommitStateDB.play cfg) (fun s next => next.Refreshing cfg s) s
      history)
    (done : PartialRun.run (CommitStateDB.play cfg) s history = .ok t) (order : List Address)
    (deleteEmptyObjects : Bool) :
    (t.commit cfg order deleteEmptyObjects).db.kv.supply = s.db.kv.supply ↔
      ∑ addr with t.withheld cfg deleteEmptyObjects addr = true, t.getBalance cfg addr =
        ∑ addr with t.withheld cfg deleteEmptyObjects addr = true,
          Account.stored (s.db.kv.accounts addr) := by
  obtain ⟨sound, total, -⟩ := refreshing.keeps
    (fun s t next balanced meets done => Balanced.play balanced meets done) rested.balanced done
  have written : (t.commit cfg order deleteEmptyObjects).db.kv.supply = ∑ addr,
      if t.withheld cfg deleteEmptyObjects addr then Account.stored (s.db.kv.accounts addr)
      else (t.purse cfg addr).1 :=
    Finset.sum_congr rfl fun addr _ => sound.stored_commit order deleteEmptyObjects addr
  have parts := Finset.sum_filter_add_sum_filter_not Finset.univ
    (fun addr => t.withheld cfg deleteEmptyObjects addr = true) (fun addr => (t.purse cfg addr).1)
  have all : ∑ addr, (t.purse cfg addr).1 = s.db.kv.supply := total
  rw [written, Finset.sum_ite, ← all]
  simp only [getBalance_eq sound.steady]
  omega

theorem refreshing_of_unmarked (clear : ∀ addr, s.updatedAccount addr = false)
    (history : List HistoryStep) :
    PartialRun.Guarded (CommitStateDB.play cfg) (fun s next => next.Refreshing cfg s) s history := by
  have keep (s t : CommitStateDB) (op : Op) (clear : ∀ addr, s.updatedAccount addr = false)
      (done : s.step cfg op = .ok t) (addr : Address) : t.updatedAccount addr = false := by
    cases mark : t.updatedAccount addr with
    | false => rfl
    | true => exact absurd (step_marks done addr mark) (by simp [clear])
  refine PartialRun.Guarded.of_invariant
    (fun s t next clear done => PartialRun.run_keeps _ keep clear done) (fun s next clear => ?_) clear
    history
  refine PartialRun.Guarded.of_invariant keep (fun s op clear addr _ mark => ?_) clear next.ops
  simp [clear] at mark

theorem rested_uncachedState {accounts : Address → Option Account} {marked : Address → Bool}
    (stored : ∀ addr, marked addr = true → accounts addr ≠ none) :
    Rested cfg (uncachedState accounts marked) := by
  have restorable : Restorable (uncachedState accounts marked) := by
    refine ⟨fun addr so cached => ?_, fun addr mark absent => ?_⟩
    · simp [uncachedState, newCommitStateDB] at cached
    · exact absurd absent (stored addr mark)
  have purse (addr : Address) :
      (uncachedState accounts marked).purse cfg addr = (Account.stored (accounts addr), false) := by
    have cell : (uncachedState accounts marked).cell cfg addr = none := by
      simp [cell_eq_none_iff, uncachedState, newCommitStateDB]
    show View.purse ((accounts addr).map _) = _
    cases accounts addr <;> rfl
  refine ⟨rfl, rfl, ?_, restorable, fun addr => ?_, fun addr => ?_⟩
  · intro addr inside
    simp [uncachedState, newCommitStateDB] at inside
  · rw [getBalance_eq restorable.steady, purse]
    rfl
  · rw [hasSuicided_eq restorable.steady, purse]

end

def listingConfig : Config := { marsConfig with blacklistedAddr := (· = 7) }

def fiveCoins : Address → Option Account := fun addr => if addr = 1 then some ⟨5, 0, none⟩ else none

theorem supply_of_pair (kv : KV)
    (elsewhere : ∀ addr, addr ≠ 1 → addr ≠ 7 → Account.stored (kv.accounts addr) = 0) :
    kv.supply = Account.stored (kv.accounts 1) + Account.stored (kv.accounts 7) := by
  have differ : (1 : Address) ≠ 7 := by decide
  have pair := Finset.sum_pair (f := fun addr => Account.stored (kv.accounts addr)) differ
  rw [← pair]
  refine (Finset.sum_subset (Finset.subset_univ _) fun addr _ outside => ?_).symm
  simp only [Finset.mem_insert, Finset.mem_singleton, not_or] at outside
  exact elsewhere addr outside.1 outside.2

theorem fiveCoins_elsewhere (addr : Address) (differ : addr ≠ 1) : Account.stored (fiveCoins addr) = 0 := by
  rw [fiveCoins, if_neg differ]
  rfl

theorem supply_commit_pair (cfg : Config) (t : CommitStateDB) (accounts : t.db.kv.accounts = fiveCoins)
    (dirty : t.dirtyObjects [] = [7, 1]) :
    (t.commit cfg [] true).db.kv.supply = Account.stored ((t.commit cfg [] true).db.kv.accounts 1) +
        Account.stored ((t.commit cfg [] true).db.kv.accounts 7) := by
  refine supply_of_pair _ fun addr first second => ?_
  have outside : addr ∉ t.dirtyObjects [] := by
    rw [dirty, List.mem_cons, List.mem_singleton, not_or]
    exact ⟨second, first⟩
  have spot := congrArg Spot.account (@spot_commit cfg t [] true addr)
  rw [if_neg outside] at spot
  have kept : (t.commit cfg [] true).db.kv.accounts addr = t.db.kv.accounts addr := spot
  rw [kept, accounts, fiveCoins_elsewhere addr first]

theorem supply_uncachedState (marked : Address → Bool) :
    (uncachedState fiveCoins marked).db.kv.supply = 5 :=
  supply_of_pair _ fun addr differ _ => fiveCoins_elsewhere addr differ

/-- Three coins sent to the blacklisted address are gone after the commit; and if the sender is
marked as updated and not cached, the first of two transfers leaves it unchanged. -/
theorem transfers_not_conserved : (Rested listingConfig (uncachedState fiveCoins fun _ => false) ∧
      ∃ t, PartialRun.run (CommitStateDB.play listingConfig) (uncachedState fiveCoins fun _ => false)
          [.transfer 1 7 3] = .ok t ∧
        (uncachedState fiveCoins fun _ => false).db.kv.supply = 5 ∧
        (t.commit listingConfig [] true).db.kv.supply = 2) ∧
    (Rested marsConfig (uncachedState fiveCoins (· = 1)) ∧
      ∃ t, PartialRun.run (CommitStateDB.play marsConfig) (uncachedState fiveCoins (· = 1))
          [.transfer 1 7 3, .transfer 1 7 1] = .ok t ∧
        (uncachedState fiveCoins (· = 1)).db.kv.supply = 5 ∧
        (t.commit marsConfig [] true).db.kv.supply = 8) := by
  refine ⟨⟨rested_uncachedState (by simp), _, rfl, supply_uncachedState _, ?_⟩,
    rested_uncachedState (by simp [fiveCoins]), _, rfl, supply_uncachedState _, ?_⟩
  · rw [supply_commit_pair listingConfig _ rfl rfl]
    rfl
  · rw [supply_commit_pair marsConfig _ rfl rfl]
    rfl

/-- Three coins for the blacklisted address are taken back, two for another address stay. -/
def takenBack : List HistoryStep :=
  [.other .snapshot rfl, .transfer 1 7 3, .other (.revertToSnapshot 0) rfl, .transfer 1 8 2]

def takenBackState : CommitStateDB :=
  (PartialRun.run (CommitStateDB.play listingConfig) (uncachedState fiveCoins fun _ => false)
    takenBack).toOption.getD (uncachedState fiveCoins fun _ => false)

theorem withheld_takenBackState (addr : Address) :
    takenBackState.withheld listingConfig true addr = false := by
  by_cases listed : addr = 7
  · subst listed
    rfl
  · have unlisted : listingConfig.blacklistedAddr addr = false := decide_eq_false listed
    rw [withheld, unlisted]
    rfl

theorem commit_conserves_takenBack :
    PartialRun.run (CommitStateDB.play listingConfig) (uncachedState fiveCoins fun _ => false)
        takenBack = .ok takenBackState ∧
      (∀ addr, takenBackState.withheld listingConfig true addr = false) ∧
      (takenBackState.commit listingConfig [] true).db.kv.supply = 5 := by
  have done : PartialRun.run (CommitStateDB.play listingConfig)
      (uncachedState fiveCoins fun _ => false) takenBack = .ok takenBackState := rfl
  refine ⟨done, withheld_takenBackState, ?_⟩
  rw [← supply_uncachedState fun _ => false]
  refine (commit_conserves_iff (rested_uncachedState (by simp))
    (refreshing_of_unmarked (fun _ => rfl) takenBack) done [] true).mpr ?_
  refine Finset.sum_congr rfl fun addr inside => ?_
  have held := (Finset.mem_filter.mp inside).2
  rw [withheld_takenBackState] at held
  exact absurd held Bool.false_ne_true

end Exchain.Evm
