import Mathlib.Algebra.Group.Nat.Defs
import Exchain.Parallel.Conflict

/-! The parallel transaction manager: one goroutine for each group of transactions, and one that
takes results in block order. Every access to a shared variable is a step of its own, so a schedule
is any list of events. Channels have no bound here, and a stopped goroutine is one that is not
scheduled any more; both only add schedules. -/

namespace Exchain.Parallel

open Store

/-- What the execution of a transaction returns besides its store. -/
structure Outcome (Resp : Type) where
  resp : Resp
  gasUsed : Nat
  anteErr : Bool
  invalidExecute : Bool

/-- A transaction that does not decode, or fails before the ante handler, is
answered without a store. The others read and write single keys. -/
structure Tx (K Resp : Type) [LinearOrder K] where
  rejected : Option Resp
  supportPara : Bool
  prog : TxProg K (Outcome Resp)
  points : prog.PointReads

structure Block (K Resp : Type) [LinearOrder K] where
  txs : List (Tx K Resp)
  maxGas : Nat
  groups : List (List Nat)

structure TxResult (K Resp : Type) [LinearOrder K] where
  resp : Resp
  gasUsed : Nat
  anteErr : Bool
  invalidExecute : Bool
  useCurrentState : Bool
  ms : Option (CacheKV K)
  read : AssocMap K Content
  write : WriteSet K

variable {K Resp : Type} [LinearOrder K]

def TxResult.msIsNil (res : TxResult K Resp) : Bool := res.ms.isNone

/-- newExecuteResult of an execution with a store. -/
def newExecuteResult (out : Outcome Resp) (tx : CacheKV K) (useCurrentState : Bool) :
    TxResult K Resp :=
  ⟨out.resp, out.gasUsed, out.anteErr, out.invalidExecute, useCurrentState, some tx, tx.readList,
    tx.dirty⟩

/-- newExecuteResult without a store. -/
def emptyResult (resp : Resp) : TxResult K Resp := ⟨resp, 0, false, false, false, none, ∅, ∅⟩

/-- A conflict check that reports every result one of whose recorded reads
differs from the store committed so far. -/
structure ConflictCheck (K : Type) [LinearOrder K] where
  reports : Committed K → AssocMap K Content → Bool
  sound : ∀ (committed : Committed K) (reads : AssocMap K Content) (key : K) (content : Content),
    reads.lookup key = some content → content ≠ committed.cms.lookup key →
      reports committed reads = true

/-- The order in which the loop of SetCurrentIndexRes takes the writes of each
transaction. -/
structure MapOrder (K : Type) [LinearOrder K] where
  writes : Nat → WriteSet K → List (Σ _ : K, CValue)
  perm : ∀ index set, (writes index set).Perm set.entries

inductive Holder where
  | free
  | group
  | callback
deriving Repr, DecidableEq

/-- Where a group's goroutine stands. -/
inductive Work (K Resp : Type) [LinearOrder K] where
  | selecting
  | locking (index : Nat)
  | running (index : Nat) (useCurrentState : Bool) (e : Execution K (Outcome Resp))
  | returned (index : Nat) (res : TxResult K Resp)
  | putting (index : Nat) (res : TxResult K Resp)
  | notifying (index : Nat)
  | chaining (index : Nat)
  | clearing (rerun current : Nat)

structure Group (K Resp : Type) [LinearOrder K] where
  txChan : List Nat
  reRunChan : List Nat
  ms : Option (Layers K)
  mu : Holder
  work : Work K Resp

/-- Where the result callback stands. -/
inductive Callback (K Resp : Type) [LinearOrder K] where
  | receiving
  | looping
  | rerunning (e : Execution K (Outcome Resp))
  | applying (isReRun : Bool) (gasUsed : Nat) (rest : List (Σ _ : K, CValue))
  | locking
  | clearing (current : Nat)
  | advancing
  | signalled

structure State (K Resp : Type) [LinearOrder K] where
  committed : Committed K
  upComingTxIndex : Nat
  currentRerunIndex : Option Nat
  currentGas : Nat
  haveAnteErrTx : Bool
  alreadyEnd : Bool
  txReps : Nat → Option (TxResult K Resp)
  deliverTxs : Nat → Option Resp
  resultCh : List Nat
  groups : Nat → Group K Resp
  callback : Callback K Resp

/-- One step of one goroutine; a group's select takes either channel. -/
inductive Event where
  | takeTx (group : Nat)
  | takeRerun (group : Nat)
  | group (group : Nat)
  | callback
  | finish
deriving Repr, DecidableEq

def nextInList (index : Nat) : List Nat → Option Nat
  | first :: second :: rest =>
    if first = index then some second else nextInList index (second :: rest)
  | _ => none

namespace Block

variable (b : Block K Resp)

def txSize : Nat := b.txs.length

/-- txIndexWithGroup. -/
def groupOf (index : Nat) : Nat := b.groups.findIdx (fun list => list.contains index)

def groupList (group : Nat) : List Nat := b.groups.getD group []

def nextTxInGroup (index : Nat) : Option Nat :=
  nextInList index (b.groupList (b.groupOf index))

/-- preTxInGroup, zero for the first of a group. -/
def preTxInGroup (index : Nat) : Nat :=
  (nextInList index (b.groupList (b.groupOf index)).reverse).getD 0

end Block

namespace State

variable [Inhabited Resp] (b : Block K Resp) (check : ConflictCheck K) (order : MapOrder K)

/-- The state in which runTxs starts to wait: transactions that do not support parallel execution
have an empty result, groups their first task. -/
def init (base : Base K) : State K Resp where
  committed := ⟨base, ∅⟩
  upComingTxIndex := 0
  currentRerunIndex := none
  currentGas := 0
  haveAnteErrTx := false
  alreadyEnd := false
  txReps index := match b.txs[index]? with
    | some tx => if tx.supportPara then none else some (emptyResult default)
    | none => none
  deliverTxs _ := none
  resultCh :=
    (List.range b.txSize).filter (fun index => b.txs[index]?.any (fun tx => !tx.supportPara)) ++
      if b.groups.isEmpty then [0] else []
  groups group := ⟨(b.groupList group).take 1, [], none, .free, .selecting⟩
  callback := .receiving

variable (s : State K Resp)

def setGroup (group : Nat) (value : Group K Resp) : State K Resp :=
  { s with groups := Function.update s.groups group value }

/-- putResult of a result, or of nil. -/
def putResult (index : Nat) (res : Option (TxResult K Resp)) : State K Resp :=
  if s.alreadyEnd then s else { s with txReps := Function.update s.txReps index res }

def getTxResult (index : Nat) : Option (TxResult K Resp) :=
  if s.alreadyEnd then none else s.txReps index

def nextTx (index : Nat) : Option Nat :=
  if s.alreadyEnd then none else b.nextTxInGroup index

/-- getParentMsByTxIndex: none for an index already committed, otherwise whether to run over the
committed store. -/
def getParentMsByTxIndex (group index : Nat) : Option Bool :=
  if index < s.upComingTxIndex then none
  else some (!(decide (s.currentRerunIndex ≠ some index) &&
    decide (s.upComingTxIndex ≤ b.preTxInGroup index) && (s.groups group).ms.isSome))

def parentLayers (group : Nat) (useCurrentState : Bool) : Layers K :=
  if useCurrentState then [] else (s.groups group).ms.getD []

/-- Get of a parent store; the programs open no iterators. -/
def parentView (layers : Layers K) : View K where
  get key := (layers.get (s.committed.cms.lookup key) key).1
  listed _ := none
  iterator _ _ := []
  lists _ _ := ⟨SortedPairs.ordered_nil, by simp⟩

/-- The group's store after it has answered for a key. -/
def afterAccess (group : Nat) (useCurrentState : Bool)
    (e : Execution K (Outcome Resp)) : Option (Layers K) :=
  match e.prog with
  | .get key _ =>
    if e.store.asks key && !useCurrentState then
      (s.groups group).ms.map (fun layers => (layers.get (s.committed.cms.lookup key) key).2)
    else (s.groups group).ms
  | _ => (s.groups group).ms

/-- The beginning of asyncDeliverTx, up to the choice of the parent store. -/
def beginTask (group index : Nat) : Work K Resp := match b.txs[index]? with
  | none => .returned index (emptyResult default)
  | some tx =>
    match tx.rejected with
    | some resp => .returned index (emptyResult resp)
    | none =>
      if tx.supportPara then
        match s.getParentMsByTxIndex b group index with
        | none => .returned index (emptyResult default)
        | some useCurrentState => .running index useCurrentState (Execution.start tx.prog)
      else .returned index (emptyResult default)

/-- The group's store after an execution: a cache over the execution's, or the group's with its
writes. -/
def afterTask (g : Group K Resp) (res : TxResult K Resp) : Option (Layers K) :=
  match res.ms, g.ms with
  | some tx, some (top :: below) =>
    if res.useCurrentState then some [CacheKV.new, tx]
    else some (tx.writeToCacheKv top :: below)
  | some tx, ms => if res.useCurrentState then some [CacheKV.new, tx] else ms
  | none, ms => ms

/-- groupTask.run, the case of txChan. -/
def takeTx (group : Nat) : State K Resp :=
  let g := s.groups group
  match g.work, g.txChan with
  | .selecting, index :: rest => s.setGroup group { g with txChan := rest, work := .locking index }
  | _, _ => s

/-- groupTask.run, the case of reRunChan. -/
def takeRerun (group : Nat) : State K Resp :=
  let g := s.groups group
  match g.work, g.reRunChan with
  | .selecting, index :: rest =>
    s.setGroup group { g with reRunChan := rest, work := .clearing index index }
  | _, _ => s

/-- The next step of a group's goroutine inside one of its cases. -/
def stepGroup (group : Nat) : State K Resp :=
  let g := s.groups group
  match g.work with
  | .selecting => s
  | .locking index =>
    if g.mu = .free then
      s.setGroup group { g with mu := .group, work := s.beginTask b group index }
    else s
  | .running index useCurrentState e =>
    match e.prog with
    | .done out =>
      s.setGroup group
        { g with work := .returned index (newExecuteResult out e.store.tx useCurrentState) }
    | _ =>
      s.setGroup group
        { g with
          ms := s.afterAccess group useCurrentState e
          work := .running index useCurrentState
            (e.step (s.parentView (s.parentLayers group useCurrentState))) }
  | .returned index res =>
    if g.reRunChan.isEmpty then
      s.setGroup group { g with ms := afterTask g res, work := .putting index res }
    else
      s.setGroup group { g with ms := afterTask g res, mu := .free, work := .selecting }
  | .putting index res =>
    (s.putResult index (some res)).setGroup group { g with work := .notifying index }
  | .notifying index =>
    { s with resultCh := s.resultCh ++ [index] }.setGroup group { g with work := .chaining index }
  | .chaining index =>
    s.setGroup group
      { g with
        txChan := g.txChan ++ (s.nextTx b index).toList
        mu := .free
        work := .selecting }
  | .clearing rerun current =>
    match s.nextTx b current with
    | some next => (s.putResult next none).setGroup group { g with work := .clearing rerun next }
    | none =>
      s.setGroup group
        { g with ms := none, txChan := (s.nextTx b rerun).toList, work := .selecting }

def overFlow (sumGas currGas maxGas : Nat) : Bool :=
  if maxGas = 0 then false else decide (maxGas ≤ (sumGas + currGas) % 2 ^ 64)

def isConflictResult (res : TxResult K Resp) : Bool :=
  res.msIsNil || res.invalidExecute || check.reports s.committed res.read

/-- The part of the callback that follows the choice of the result. -/
def accept (isReRun : Bool) (res : TxResult K Resp) : State K Resp :=
  { s with
    currentRerunIndex := none
    haveAnteErrTx := s.haveAnteErrTx || res.anteErr
    deliverTxs := Function.update s.deliverTxs s.upComingTxIndex (some res.resp)
    callback := .applying isReRun res.gasUsed
      (if res.msIsNil || res.anteErr then [] else order.writes s.upComingTxIndex res.write) }

/-- deliverTxWithCache, up to the execution. -/
def beginRerun : State K Resp := match b.txs[s.upComingTxIndex]? with
  | none => s
  | some tx =>
    match tx.rejected with
    | some resp => s.accept order true (emptyResult resp)
    | none =>
      { s with
        currentRerunIndex := some s.upComingTxIndex
        callback := .rerunning (Execution.start tx.prog) }

/-- The next step of the goroutine that handles results. -/
def stepCallback : State K Resp := match s.callback with
  | .receiving =>
    match s.resultCh with
    | [] => s
    | index :: rest =>
      { s with
        resultCh := rest
        callback :=
          if s.alreadyEnd || decide (index < s.upComingTxIndex) || decide (b.txSize ≤ index)
          then .receiving else .looping }
  | .looping =>
    match s.getTxResult s.upComingTxIndex with
    | none => { s with callback := .receiving }
    | some res =>
      if s.isConflictResult check res || overFlow s.currentGas res.gasUsed b.maxGas ||
          s.haveAnteErrTx then s.beginRerun b order
      else s.accept order false res
  | .rerunning e =>
    match e.prog with
    | .done out => s.accept order true (newExecuteResult out e.store.tx true)
    | _ => { s with callback := .rerunning (e.step (s.parentView [])) }
  | .applying isReRun gasUsed (item :: rest) =>
    { s with
      committed := s.committed.setWrite item.1 item.2
      callback := .applying isReRun gasUsed rest }
  | .applying isReRun gasUsed [] =>
    { s with
      currentGas := (s.currentGas + gasUsed) % 2 ^ 64
      callback :=
        if isReRun && (b.nextTxInGroup s.upComingTxIndex).isSome then .locking else .advancing }
  | .locking =>
    let g := s.groups (b.groupOf s.upComingTxIndex)
    if g.mu = .free then
      { s.setGroup (b.groupOf s.upComingTxIndex) { g with mu := .callback } with
        callback := .clearing s.upComingTxIndex }
    else s
  | .clearing current =>
    match s.nextTx b current with
    | some next => { s.putResult next none with callback := .clearing next }
    | none =>
      let g := s.groups (b.groupOf s.upComingTxIndex)
      { s.setGroup (b.groupOf s.upComingTxIndex)
          { g with reRunChan := g.reRunChan ++ [s.upComingTxIndex], mu := .free } with
        callback := .advancing }
  | .advancing =>
    { s with
      upComingTxIndex := s.upComingTxIndex + 1
      callback := if s.upComingTxIndex + 1 = b.txSize then .signalled else .looping }
  | .signalled => s

/-- The goroutine that waits for the signal ends the run. -/
def finish : State K Resp := match s.callback with
  | .signalled => { s with alreadyEnd := true }
  | _ => s

def step : Event → State K Resp
  | .takeTx group => s.takeTx group
  | .takeRerun group => s.takeRerun group
  | .group group => s.stepGroup b group
  | .callback => s.stepCallback b check order
  | .finish => s.finish

end State

end Exchain.Parallel
