import Exchain.Parallel.Scheduler

/- The serial execution of a block, and the results of single transactions
measured against it: a result whose recorded reads are what the store holds is
the result of the serial execution over that store. -/

namespace Exchain.Parallel

open Store List

variable {K Resp Out : Type} [LinearOrder K]

/-- The whole execution of a program over a store that does not change. -/
def TxProg.eval (view : View K) : TxProg K Out → TxStore K → Out × TxStore K
  | .done out, store => (out, store)
  | .get key next, store =>
    (next (store.get (view.get key) key).1).eval view (store.get (view.get key) key).2
  | .set key value next, store => next.eval view (store.setDirty key (.value value))
  | .delete key next, store => next.eval view (store.setDirty key .deleted)
  | .iterate domain ascending count next, store =>
    (next (Scan.produced ⟨store.layers, domain, ascending, count, view⟩ view)).eval view
      (store.dirtyItems domain)
  | .cacheWrap next, store => next.eval view store.cacheWrap
  | .write next, store => next.eval view store.write
  | .discard next, store => next.eval view store.discard

namespace Execution

theorem eval_step (e : Execution K Out) (view : View K) :
    (e.step view).prog.eval view (e.step view).store = e.prog.eval view e.store := by
  obtain ⟨prog, _⟩ := e
  cases prog <;> rfl

theorem eval_exec (e : Execution K Out) (view : View K) (views : List (View K))
    (constant : ∀ v ∈ views, v = view) :
    (Run.exec step e views).prog.eval view (Run.exec step e views).store =
      e.prog.eval view e.store := by
  induction views generalizing e with
  | nil => rfl
  | cons now rest ih =>
    rw [Run.exec_cons, ih _ (fun v inside => constant v (mem_cons_of_mem _ inside)),
      constant now mem_cons_self, eval_step]

/-- A finished execution, over a parent that holds all it has read, is the execution over that
parent alone. -/
theorem eval_of_reads {prog : TxProg K Out} (points : prog.PointReads) (views : List (View K))
    {out : Out} (ended : (run prog views).prog = .done out) (view : View K)
    (agree : ∀ key content, (run prog views).store.tx.readList.lookup key = some content →
      view.get key = content) :
    prog.eval view ⟨[], CacheKV.new⟩ = (out, (run prog views).store) := by
  have again := exec_replay (start_recorded prog) points views view agree
  have whole := eval_exec (start prog) view (views.map fun _ => view) (by simp)
  rw [again] at whole
  rw [run] at ended
  rw [ended] at whole
  exact whole.symm

end Execution

/-- The answer and the writes of one transaction over a store; one with an ante error writes
nothing. -/
def deliverTx (cms : Base K) (tx : Tx K Resp) : Resp × WriteSet K := match tx.rejected with
  | some resp => (resp, ∅)
  | none =>
    let (out, store) := tx.prog.eval (View.ofBase cms) ⟨[], CacheKV.new⟩
    (out.resp, if out.anteErr then ∅ else store.tx.dirty)

/-- The store after the first n transactions of the block, one after another. -/
def serialStore (b : Block K Resp) (base : Base K) : Nat → Base K
  | 0 => base
  | n + 1 =>
    match b.txs[n]? with
    | none => serialStore b base n
    | some tx =>
      (Committed.setCurrentIndexRes ⟨serialStore b base n, ∅⟩
        (deliverTx (serialStore b base n) tx).2).cms

def serialResp (b : Block K Resp) (base : Base K) (index : Nat) : Option Resp :=
  b.txs[index]?.map fun tx => (deliverTx (serialStore b base index) tx).1

def SameStore (cms cms' : Base K) : Prop := ∀ key, cms.lookup key = cms'.lookup key

theorem TxProg.eval_congr {prog : TxProg K Out} (points : prog.PointReads) {view view' : View K}
    (same : ∀ key, view.get key = view'.get key) (store : TxStore K) :
    prog.eval view store = prog.eval view' store := by
  induction points generalizing store with
  | done out => rfl
  | get all ih =>
    simp only [eval, same]
    exact ih _ _
  | set rest ih => exact ih _
  | delete rest ih => exact ih _
  | cacheWrap rest ih => exact ih _
  | write rest ih => exact ih _
  | discard rest ih => exact ih _

theorem deliverTx_congr {cms cms' : Base K} (same : SameStore cms cms') (tx : Tx K Resp) :
    deliverTx cms tx = deliverTx cms' tx := by
  have evals : tx.prog.eval (View.ofBase cms) ⟨[], CacheKV.new⟩ =
      tx.prog.eval (View.ofBase cms') ⟨[], CacheKV.new⟩ :=
    TxProg.eval_congr tx.points (fun key => same key) _
  rw [deliverTx, deliverTx, evals]

theorem setWrite_lookup (committed : Committed K) (a : K) (value : CValue) (key : K) :
    (committed.setWrite a value).cms.lookup key =
      if key = a then value.content else committed.cms.lookup key := by
  cases value with
  | deleted => exact AList.lookup_erase_if _ _ _
  | value => exact AList.lookup_insert_if _ _ _ _

theorem foldl_setWrite_lookup (committed : Committed K) (items : List (Σ _ : K, CValue))
    (nodup : items.NodupKeys) (key : K) :
    (items.foldl (fun c item => c.setWrite item.1 item.2) committed).cms.lookup key =
      match items.dlookup key with
      | some value => value.content
      | none => committed.cms.lookup key := by
  refine (AList.foldl_entries (fun c key => c.cms.lookup key) (fun value _ => value.content)
    (fun c item => setWrite_lookup c item.1 item.2) nodup committed key).trans ?_
  cases items.dlookup key <;> rfl

theorem sameStore_apply {committed : Committed K} {cms : Base K}
    (same : SameStore committed.cms cms) (writes : WriteSet K)
    {items : List (Σ _ : K, CValue)} (perm : items.Perm writes.entries) :
    SameStore (items.foldl (fun c item => c.setWrite item.1 item.2) committed).cms
      (Committed.setCurrentIndexRes ⟨cms, ∅⟩ writes).cms := by
  have nodup : items.NodupKeys := (perm_nodupKeys perm).mpr writes.nodupKeys
  intro key
  rw [foldl_setWrite_lookup committed items nodup, Committed.setCurrentIndexRes,
    foldl_setWrite_lookup _ _ writes.nodupKeys, perm_dlookup key nodup perm, same key]

end Exchain.Parallel
