import Exchain.Parallel.SchedulerRun

/-! Reads of the fee collector's account. isConflict deletes them from the recorded reads, so a result
that saw another balance than the committed one may be accepted. All that matters of the goroutines
is that a result comes from some execution of its transaction. -/

namespace Exchain.Parallel

open Store

variable {K Resp : Type} [LinearOrder K]

def seeing (cms : Base K) (key : K) : Content → Base K
  | none => cms.erase key
  | some bytes => cms.insert key bytes

theorem lookup_seeing (cms : Base K) (key : K) (content : Content) (other : K) :
    (seeing cms key content).lookup other = if other = key then content else cms.lookup other := by
  cases content with
  | none => exact AList.lookup_erase_if _ _ _
  | some => exact AList.lookup_insert_if _ _ _ _

/-- Stores that differ under one key at most. -/
def SameOff (key : K) (cms cms' : Base K) : Prop := ∀ other, other ≠ key → cms.lookup other = cms'.lookup other

variable {cms : Base K} {feeKey : K}

theorem SameOff.seeing {key : K} {cms' : Base K} (same : SameOff key cms cms') (content : Content) :
    SameStore (seeing cms key content) (seeing cms' key content) := by
  intro other
  rw [lookup_seeing, lookup_seeing]
  split
  · rfl
  · rename_i elsewhere
    exact same other elsewhere

/-- The same answer, and the same writes to all other keys. -/
def Alike (key : K) (result result' : Resp × WriteSet K) : Prop :=
  result.1 = result'.1 ∧ ∀ other, other ≠ key → result.2.lookup other = result'.2.lookup other

def TxResult.written (res : TxResult K Resp) : WriteSet K :=
  if res.msIsNil || res.anteErr then ∅ else res.write

/-- The results that asyncCb may accept when cms is committed, with what each saw under the fee
collector's key. -/
inductive Accepts (b : Block K Resp) (feeKey : K) (cms : Base K) (seen : Content) (index : Nat) :
    TxResult K Resp → Prop where
  | rejected {tx : Tx K Resp} {resp : Resp} (found : b.txs[index]? = some tx) (refused : tx.rejected = some resp) :
      Accepts b feeKey cms seen index (emptyResult resp)
  /-- A speculative result that isConflict does not report. -/
  | early {tx : Tx K Resp} {views : List (View K)} {out : Outcome Resp} (useCurrentState : Bool)
      (found : b.txs[index]? = some tx) (accepted : tx.rejected = none)
      (ended : (Execution.run tx.prog views).prog = .done out)
      (unreported : ∀ key content, key ≠ feeKey →
        (Execution.run tx.prog views).store.tx.readList.lookup key = some content → cms.lookup key = content)
      (saw : ∀ content, (Execution.run tx.prog views).store.tx.readList.lookup feeKey = some content → content = seen) :
      Accepts b feeKey cms seen index (newExecuteResult out (Execution.run tx.prog views).store.tx useCurrentState)
  /-- A rerun, before which fixFeeCollector may have set the account. -/
  | rerun {tx : Tx K Resp} {out : Outcome Resp} {store : TxStore K} (found : b.txs[index]? = some tx)
      (accepted : tx.rejected = none) (unfixed : tx.supportPara = true → cms.lookup feeKey = seen)
      (ended : tx.prog.eval (View.ofBase (seeing cms feeKey seen)) ⟨[], CacheKV.new⟩ = (out, store)) :
      Accepts b feeKey cms seen index (newExecuteResult out store.tx true)

/-- A run of asyncCb over a block: what is committed before each transaction, what its accepted
execution saw under the key, its result. -/
structure CommitRun (b : Block K Resp) (feeKey : K) (base : Base K) where
  cms : Nat → Base K
  seen : Nat → Content
  result : Nat → TxResult K Resp
  start : SameOff feeKey (cms 0) base
  accepts : ∀ index < b.txSize, Accepts b feeKey (cms index) (seen index) index (result index)
  commits : ∀ index < b.txSize, SameOff feeKey (cms (index + 1))
    (Committed.setCurrentIndexRes ⟨cms index, ∅⟩ (result index).written).cms

variable {index : Nat}

theorem Genuine.accepts {b : Block K Resp} {res : TxResult K Resp}
    (genuine : Genuine b index res) (stored : res.msIsNil = false)
    (unreported : ∀ key content, key ≠ feeKey → res.read.lookup key = some content → cms.lookup key = content) :
    ∃ seen, Accepts b feeKey cms seen index res := by
  rcases genuine with nil | ⟨tx, views, out, useCurrentState, found, accepted, ended, rfl⟩
  · exact absurd (nil.symm.trans stored) Bool.noConfusion
  cases read : (Execution.run tx.prog views).store.tx.readList.lookup feeKey with
  | none => exact ⟨none, .early useCurrentState found accepted ended unreported (by simp [read])⟩
  | some content => exact ⟨content, .early useCurrentState found accepted ended unreported (by simp [read])⟩

theorem deliverTx_of_eval {tx : Tx K Resp} (accepted : tx.rejected = none) {out : Outcome Resp}
    {store : TxStore K} (ended : tx.prog.eval (View.ofBase cms) ⟨[], CacheKV.new⟩ = (out, store))
    (useCurrentState : Bool) :
    deliverTx cms tx = ((newExecuteResult out store.tx useCurrentState).resp,
      (newExecuteResult out store.tx useCurrentState).written) := by
  rw [deliverTx, accepted]
  simp only [ended]
  rfl

theorem Accepts.eq_deliverTx {b : Block K Resp} {seen : Content}
    {res : TxResult K Resp} (accepts : Accepts b feeKey cms seen index res) :
    ∃ tx, b.txs[index]? = some tx ∧ deliverTx (seeing cms feeKey seen) tx = (res.resp, res.written) := by
  cases accepts with
  | @rejected tx resp found refused =>
    refine ⟨tx, found, ?_⟩
    rw [deliverTx, refused]
    rfl
  | @early tx views out useCurrentState found accepted ended unreported saw =>
    refine ⟨tx, found, deliverTx_of_eval accepted ?_ useCurrentState⟩
    apply Execution.eval_of_reads tx.points views ended
    intro key content read
    show (seeing cms feeKey seen).lookup key = content
    rw [lookup_seeing]
    split
    · rename_i here
      subst here
      exact (saw content read).symm
    · rename_i elsewhere
      exact unreported key content elsewhere read
  | @rerun tx out store found accepted unfixed ended => exact ⟨tx, found, deliverTx_of_eval accepted ended true⟩

theorem SameOff.apply {cms' : Base K} (same : SameOff feeKey cms cms') {writes writes' : WriteSet K}
    (alike : ∀ other, other ≠ feeKey → writes.lookup other = writes'.lookup other) :
    SameOff feeKey (Committed.setCurrentIndexRes ⟨cms, ∅⟩ writes).cms
      (Committed.setCurrentIndexRes ⟨cms', ∅⟩ writes').cms := by
  intro other elsewhere
  rw [Committed.setCurrentIndexRes, Committed.setCurrentIndexRes, foldl_setWrite_lookup _ _ writes.nodupKeys,
    foldl_setWrite_lookup _ _ writes'.nodupKeys]
  have found : writes.entries.dlookup other = writes'.entries.dlookup other := alike other elsewhere
  rw [found]
  rw [same other elsewhere]

namespace CommitRun

variable {b : Block K Resp} {feeKey : K} {base : Base K}

/-- The answer and the other writes of each of the first transactions are those of serial delivery.
-/
def Parity (run : CommitRun b feeKey base) (n : Nat) : Prop :=
  ∀ index < n, ∀ tx, b.txs[index]? = some tx →
    Alike feeKey ((run.result index).resp, (run.result index).written) (deliverTx (serialStore b base index) tx)

/-- What each of the first transactions saw under the key leads it to the same answer and other
writes as what serial delivery has there. -/
def Unaffected (run : CommitRun b feeKey base) (n : Nat) : Prop :=
  ∀ index < n, ∀ tx, b.txs[index]? = some tx →
    Alike feeKey (deliverTx (seeing (serialStore b base index) feeKey (run.seen index)) tx)
      (deliverTx (serialStore b base index) tx)

variable {n : Nat} (run : CommitRun b feeKey base)

include run

theorem sameOff_serialStore (within : n ≤ b.txSize) (parity : run.Parity n) :
    SameOff feeKey (run.cms n) (serialStore b base n) := by
  induction n with
  | zero => exact run.start
  | succ n ih =>
    have before := ih (Nat.le_of_succ_le within) (fun index earlier => parity index (Nat.lt_succ_of_lt earlier))
    have committed := run.commits n within
    obtain ⟨tx, found, -⟩ := (run.accepts n within).eq_deliverTx
    have alike := parity n (Nat.lt_succ_self n) tx found
    have serial : serialStore b base (n + 1) =
        (Committed.setCurrentIndexRes ⟨serialStore b base n, ∅⟩ (deliverTx (serialStore b base n) tx).2).cms := by
      rw [serialStore, found]
    rw [serial]
    intro other elsewhere
    exact (committed other elsewhere).trans (before.apply alike.2 other elsewhere)

theorem result_eq (within : index < b.txSize)
    (same : SameOff feeKey (run.cms index) (serialStore b base index)) {tx : Tx K Resp} (found : b.txs[index]? = some tx) :
    deliverTx (seeing (serialStore b base index) feeKey (run.seen index)) tx =
      ((run.result index).resp, (run.result index).written) := by
  obtain ⟨tx', found', result⟩ := (run.accepts index within).eq_deliverTx
  obtain rfl : tx' = tx := Option.some.inj (found'.symm.trans found)
  rw [← result]
  exact (deliverTx_congr (same.seeing _) tx').symm

theorem parity_of_unaffected (within : n ≤ b.txSize)
    (unaffected : run.Unaffected n) : run.Parity n := by
  induction n with
  | zero => exact nofun
  | succ n ih =>
    have before := ih (Nat.le_of_succ_le within) (fun index earlier => unaffected index (Nat.lt_succ_of_lt earlier))
    have same := run.sameOff_serialStore (Nat.le_of_succ_le within) before
    intro index inside tx found
    rcases Nat.lt_succ_iff_lt_or_eq.mp inside with earlier | rfl
    · exact before index earlier tx found
    · rw [← run.result_eq within same found]
      exact unaffected index inside tx found

theorem unaffected_of_parity (within : n ≤ b.txSize) (parity : run.Parity n) :
    run.Unaffected n := by
  intro index inside tx found
  have here : index < b.txSize := Nat.lt_of_lt_of_le inside within
  have same := run.sameOff_serialStore (Nat.le_of_lt here)
    (fun earlier before => parity earlier (Nat.lt_trans before inside))
  rw [run.result_eq here same found]
  exact parity index inside tx found

/-- A transaction that does not look at the account, or that saw what serial delivery has there,
is not affected. -/
theorem unaffected_of_seen (current : ∀ index < n, run.seen index = (serialStore b base index).lookup feeKey) : run.Unaffected n := by
  intro index inside tx found
  have same : SameStore (seeing (serialStore b base index) feeKey (run.seen index)) (serialStore b base index) := by
    intro other
    rw [lookup_seeing]
    split
    · rename_i here
      rw [here]
      exact current index inside
    · rfl
  rw [deliverTx_congr same]
  exact ⟨rfl, fun _ _ => rfl⟩

end CommitRun

/-- Key 0 is the fee collector's here. The second transaction writes whether it found a balance; it
ran before the first, which pays a fee, was committed. -/
def askedEarly (index : Nat) : Execution Nat (Outcome Nat) := match setThenAsk.txs[index]? with
  | none => .start (.done ⟨0, 0, false, false⟩)
  | some tx => .run tx.prog (List.replicate 2 (View.ofBase ∅))

def askedEarlyResult (index : Nat) : TxResult Nat Nat :=
  newExecuteResult ⟨if index = 0 then 10 else 20, 1, false, false⟩ (askedEarly index).store.tx true

def askedEarlyStore : Nat → Base Nat
  | 0 => ∅
  | n + 1 => (Committed.setCurrentIndexRes ⟨askedEarlyStore n, ∅⟩ (askedEarlyResult n).written).cms

theorem askedEarly_accepts (index : Fin 2) :
    Accepts setThenAsk 0 (askedEarlyStore index) none index (askedEarlyResult index) := by
  have reads : ∀ key content, (askedEarly index).store.tx.readList.lookup key = some content →
      key = 0 ∧ content = none := by
    intro key content read
    match index with
    | 0 => exact absurd (show (none : Option Content) = some content from read) nofun
    | 1 =>
      have asked : (askedEarly 1).store.tx.readList.lookup key = if key = 0 then some none else none :=
        AList.lookup_insert_if _ _ _ _
      by_cases here : key = 0
      · rw [if_pos here] at asked
        exact ⟨here, (Option.some.inj (asked.symm.trans read)).symm⟩
      · rw [if_neg here] at asked
        exact absurd (asked.symm.trans read) nofun
  have unreported : ∀ key content, key ≠ 0 → (askedEarly index).store.tx.readList.lookup key = some content →
      (askedEarlyStore index).lookup key = content := by
    intro key content elsewhere read
    exact absurd (reads key content read).1 elsewhere
  have saw : ∀ content, (askedEarly index).store.tx.readList.lookup 0 = some content → content = none := by
    intro content read
    exact (reads 0 content read).2
  match index with
  | 0 => exact @Accepts.early Nat Nat _ setThenAsk 0 _ none 0 (setThenAsk.txs.get ⟨0, by decide⟩) _ _ true rfl rfl rfl unreported saw
  | 1 => exact @Accepts.early Nat Nat _ setThenAsk 0 _ none 1 (setThenAsk.txs.get ⟨1, by decide⟩) _ _ true rfl rfl rfl unreported saw

def askedEarlyRun : CommitRun setThenAsk 0 ∅ where
  cms := askedEarlyStore
  seen _ := none
  result := askedEarlyResult
  start _ _ := rfl
  accepts index inside := askedEarly_accepts ⟨index, inside⟩
  commits _ _ _ _ := rfl

end Exchain.Parallel
