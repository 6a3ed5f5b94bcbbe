import Exchain.Parallel.Serial

/- Whatever the schedule, what the manager commits is the serial execution.
Groups may execute over stale stores, and their results may be overwritten or
cleared at any time: all that is needed of a stored result is that it comes from
some execution of its transaction. -/

namespace Exchain.Parallel

open Store Execution

variable {K Resp : Type} [LinearOrder K]

/-- The result of some execution of the transaction, over whatever parents it met, or one without a
store. -/
def Genuine (b : Block K Resp) (index : Nat) (res : TxResult K Resp) : Prop := res.msIsNil = true ∨
    ∃ tx views out useCurrentState, b.txs[index]? = some tx ∧ tx.rejected = none ∧
      (run tx.prog views).prog = .done out ∧
      res = newExecuteResult out (run tx.prog views).store.tx useCurrentState

/-- What a goroutine holds in its hands is genuine too. -/
def Work.Genuine (b : Block K Resp) : Work K Resp → Prop
  | .running index _ e => ∃ tx views, b.txs[index]? = some tx ∧ tx.rejected = none ∧
      e = run tx.prog views
  | .returned index res => Parallel.Genuine b index res
  | .putting index res => Parallel.Genuine b index res
  | _ => True

/-- How far the committed store is at each point of the callback. -/
def Callback.Phase (b : Block K Resp) (base : Base K) (committed : Committed K) (upComing : Nat)
    (delivered : Nat → Option Resp) : Callback K Resp → Prop
  | .receiving => SameStore committed.cms (serialStore b base upComing)
  | .looping => SameStore committed.cms (serialStore b base upComing)
  | .rerunning e => SameStore committed.cms (serialStore b base upComing) ∧
      ∃ tx n, b.txs[upComing]? = some tx ∧ tx.rejected = none ∧
        e = run tx.prog (List.replicate n (View.ofBase committed.cms))
  | .applying _ _ rest => delivered upComing = serialResp b base upComing ∧
      SameStore (rest.foldl (fun c item => c.setWrite item.1 item.2) committed).cms
        (serialStore b base (upComing + 1))
  | .locking | .clearing _ | .advancing => delivered upComing = serialResp b base upComing ∧
      SameStore committed.cms (serialStore b base (upComing + 1))
  | .signalled => upComing = b.txSize ∧ SameStore committed.cms (serialStore b base upComing)

structure State.Serial (b : Block K Resp) (base : Base K) (s : State K Resp) : Prop where
  delivered : ∀ index < s.upComingTxIndex, s.deliverTxs index = serialResp b base index
  results : ∀ index res, s.txReps index = some res → Genuine b index res
  works : ∀ group, (s.groups group).work.Genuine b
  phase : s.callback.Phase b base s.committed s.upComingTxIndex s.deliverTxs
  ended : s.alreadyEnd = true → s.callback = .signalled

namespace State

variable {b : Block K Resp} {check : ConflictCheck K} {order : MapOrder K} {base : Base K}
  {s : State K Resp}

theorem Serial.of_group {s' : State K Resp} (serial : s.Serial b base)
    (committed : s'.committed = s.committed) (upComing : s'.upComingTxIndex = s.upComingTxIndex)
    (delivered : s'.deliverTxs = s.deliverTxs) (callback : s'.callback = s.callback)
    (alreadyEnd : s'.alreadyEnd = s.alreadyEnd)
    (results : ∀ index res, s'.txReps index = some res → Genuine b index res)
    (works : ∀ group, (s'.groups group).work.Genuine b) : s'.Serial b base := by
  refine ⟨?_, results, works, ?_, ?_⟩
  · rw [upComing, delivered]
    exact serial.delivered
  · rw [committed, upComing, delivered, callback]
    exact serial.phase
  · rw [alreadyEnd, callback]
    exact serial.ended

theorem setGroup_serial (serial : s.Serial b base) (group : Nat)
    {g : Group K Resp} (genuine : g.work.Genuine b) : (s.setGroup group g).Serial b base := by
  refine serial.of_group rfl rfl rfl rfl rfl serial.results ?_
  intro other
  by_cases same : other = group
  · subst same
    simpa [setGroup] using genuine
  · simpa [setGroup, same] using serial.works other

theorem putResult_serial (serial : s.Serial b base) (index : Nat)
    {res : Option (TxResult K Resp)} (genuine : ∀ r, res = some r → Genuine b index r) :
    (s.putResult index res).Serial b base := by
  rw [putResult]
  split
  · exact serial
  refine serial.of_group rfl rfl rfl rfl rfl ?_ serial.works
  intro other r found
  by_cases same : other = index
  · subst same
    exact genuine r (by simpa using found)
  · exact serial.results other r (by simpa [same] using found)

section

variable {index : Nat} {useCurrentState : Bool} {e : Execution K (Outcome Resp)}
  (genuine : (Work.running index useCurrentState e).Genuine b)

include genuine

theorem access_genuine (view : View K) :
    (Work.running index useCurrentState (e.step view)).Genuine b := by
  obtain ⟨tx, views, found, accepted, rfl⟩ := genuine
  refine ⟨tx, views ++ [view], found, accepted, ?_⟩
  simp [run, Run.exec]

theorem returned_genuine {out : Outcome Resp} (ended : e.prog = .done out) :
    Genuine b index (newExecuteResult out e.store.tx useCurrentState) := by
  obtain ⟨tx, views, found, accepted, rfl⟩ := genuine
  exact .inr ⟨tx, views, out, useCurrentState, found, accepted, ended, rfl⟩

end

theorem takeTx_serial (serial : s.Serial b base) (group : Nat) :
    (s.takeTx group).Serial b base := by
  rw [takeTx]
  split
  · exact setGroup_serial serial group trivial
  · exact serial

theorem takeRerun_serial (serial : s.Serial b base) (group : Nat) :
    (s.takeRerun group).Serial b base := by
  rw [takeRerun]
  split
  · exact setGroup_serial serial group trivial
  · exact serial

section

variable [Inhabited Resp]

theorem init_serial (b : Block K Resp) (base : Base K) : (init b base).Serial b base := by
  refine ⟨by simp [init], ?_, fun _ => trivial, fun _ => rfl, by simp [init]⟩
  intro index res found
  simp only [init] at found
  split at found
  · split at found
    · simp at found
    cases Option.some.inj found
    exact .inl rfl
  · simp at found

theorem beginTask_genuine (s : State K Resp) (group index : Nat) :
    (s.beginTask b group index).Genuine b := by
  rw [beginTask]
  split
  · exact .inl rfl
  rename_i tx found
  split
  · exact .inl rfl
  rename_i accepted
  split
  · split
    · exact .inl rfl
    · exact ⟨tx, [], found, accepted, rfl⟩
  · exact .inl rfl

theorem stepGroup_serial (serial : s.Serial b base) (group : Nat) :
    (s.stepGroup b group).Serial b base := by
  have genuine := serial.works group
  rw [stepGroup]
  split
  · exact serial
  · split
    · exact setGroup_serial serial group (beginTask_genuine s group _)
    · exact serial
  · rename_i index useCurrentState e working
    rw [working] at genuine
    split
    · rename_i out ended
      exact setGroup_serial serial group (returned_genuine genuine ended)
    · exact setGroup_serial serial group (access_genuine genuine _)
  · rename_i index res working
    rw [working] at genuine
    split
    · exact setGroup_serial serial group genuine
    · exact setGroup_serial serial group trivial
  · rename_i index res working
    rw [working] at genuine
    refine setGroup_serial (putResult_serial serial index ?_) group trivial
    intro r same
    cases Option.some.inj same
    exact genuine
  · refine setGroup_serial ?_ group trivial
    exact serial.of_group rfl rfl rfl rfl rfl serial.results serial.works
  · exact setGroup_serial serial group trivial
  · split
    · exact setGroup_serial (putResult_serial serial _ (by simp)) group trivial
    · exact setGroup_serial serial group trivial

end

/-- The answer and the writes of a result are those of serial execution of the transaction due. -/
def Due (b : Block K Resp) (base : Base K) (upComing : Nat) (res : TxResult K Resp) : Prop :=
  ∃ tx, b.txs[upComing]? = some tx ∧ res.resp = (deliverTx (serialStore b base upComing) tx).1 ∧
    (if res.msIsNil || res.anteErr then ∅ else res.write) =
      (deliverTx (serialStore b base upComing) tx).2

theorem due_of_eval {committed : Committed K} {upComing : Nat}
    (same : SameStore committed.cms (serialStore b base upComing)) {tx : Tx K Resp}
    (found : b.txs[upComing]? = some tx) (accepted : tx.rejected = none) {out : Outcome Resp}
    {store : TxStore K}
    (evaluated : tx.prog.eval (View.ofBase committed.cms) ⟨[], CacheKV.new⟩ = (out, store))
    (useCurrentState : Bool) :
    Due b base upComing (newExecuteResult out store.tx useCurrentState) := by
  have delivered : deliverTx (serialStore b base upComing) tx =
      (out.resp, if out.anteErr then ∅ else store.tx.dirty) := by
    rw [← deliverTx_congr same, deliverTx, accepted]
    simp only [evaluated]
  refine ⟨tx, found, ?_, ?_⟩
  · rw [delivered]
    rfl
  · rw [delivered]
    simp [newExecuteResult, TxResult.msIsNil]

theorem due_of_rejected {upComing : Nat} {tx : Tx K Resp} (found : b.txs[upComing]? = some tx)
    {resp : Resp} (rejected : tx.rejected = some resp) :
    Due b base upComing (emptyResult resp) := by
  refine ⟨tx, found, ?_, ?_⟩ <;> simp [deliverTx, rejected, emptyResult, TxResult.msIsNil]

variable {s : State K Resp}

/-- A stored result that is not reported is due: it has read what the committed store holds. -/
theorem due_of_unreported (same : SameStore s.committed.cms (serialStore b base s.upComingTxIndex))
    {res : TxResult K Resp} (genuine : Genuine b s.upComingTxIndex res)
    (unreported : s.isConflictResult check res = false) : Due b base s.upComingTxIndex res := by
  simp only [isConflictResult, Bool.or_eq_false_iff] at unreported
  obtain ⟨⟨hasStore, -⟩, fresh⟩ := unreported
  rcases genuine with nil | ⟨tx, views, out, useCurrentState, found, accepted, ended, rfl⟩
  · rw [nil] at hasStore
    exact Bool.noConfusion hasStore
  refine due_of_eval same found accepted ?_ useCurrentState
  refine eval_of_reads tx.points views ended (View.ofBase s.committed.cms) ?_
  intro key content read
  by_contra stale
  have reported := check.sound s.committed _ key content read (Ne.symm stale)
  rw [newExecuteResult] at fresh
  rw [reported] at fresh
  exact Bool.noConfusion fresh

section

variable (serial : s.Serial b base)

include serial

theorem accept_serial (running : s.callback ≠ .signalled)
    (same : SameStore s.committed.cms (serialStore b base s.upComingTxIndex)) (isReRun : Bool)
    {res : TxResult K Resp} (due : Due b base s.upComingTxIndex res) :
    (s.accept order isReRun res).Serial b base := by
  obtain ⟨_, found, answer, writes⟩ := due
  refine ⟨?_, serial.results, serial.works, ⟨?_, ?_⟩, ?_⟩
  · intro index earlier
    have other : index ≠ s.upComingTxIndex := Nat.ne_of_lt earlier
    simpa [accept, other] using serial.delivered index earlier
  · simp [accept, serialResp, found, answer]
  · have next : serialStore b base (s.upComingTxIndex + 1) =
        (Committed.setCurrentIndexRes ⟨serialStore b base s.upComingTxIndex, ∅⟩
          (if res.msIsNil || res.anteErr then ∅ else res.write)).cms := by
      rw [serialStore, found, writes]
    change SameStore _ (serialStore b base (s.upComingTxIndex + 1))
    rw [next]
    refine sameStore_apply same _ ?_
    split
    · exact List.Perm.refl []
    · exact order.perm _ _
  · exact fun finished => absurd (serial.ended finished) running

theorem beginRerun_serial (looping : s.callback = .looping) : (s.beginRerun b order).Serial b base := by
  have same : SameStore s.committed.cms (serialStore b base s.upComingTxIndex) := by
    have phase := serial.phase
    rw [looping] at phase
    exact phase
  have running : s.callback ≠ .signalled := by simp [looping]
  rw [beginRerun]
  split
  · exact serial
  rename_i tx found
  split
  · rename_i resp rejected
    exact accept_serial serial running same true (due_of_rejected found rejected)
  · rename_i accepted
    exact ⟨serial.delivered, serial.results, serial.works, ⟨same, tx, 0, found, accepted, rfl⟩,
      fun finished => absurd (serial.ended finished) running⟩

theorem Serial.moves (running : s.callback ≠ .signalled) {callback : Callback K Resp}
    (phase : callback.Phase b base s.committed s.upComingTxIndex s.deliverTxs) :
    State.Serial b base { s with callback := callback } :=
  ⟨serial.delivered, serial.results, serial.works, phase,
    fun finished => absurd (serial.ended finished) running⟩

theorem receiving_serial (receiving : s.callback = .receiving) : (s.stepCallback b check order).Serial b base := by
  have phase := serial.phase
  rw [receiving] at phase
  simp only [stepCallback, receiving]
  split
  · exact serial
  rename_i index rest pending
  have taken : State.Serial b base { s with resultCh := rest } :=
    serial.of_group rfl rfl rfl rfl rfl serial.results serial.works
  refine taken.moves (by simp [receiving]) ?_
  split <;> exact phase

theorem looping_serial (looping : s.callback = .looping) : (s.stepCallback b check order).Serial b base := by
  have phase := serial.phase
  rw [looping] at phase
  have running : s.callback ≠ .signalled := by simp [looping]
  simp only [stepCallback, looping]
  split
  · exact serial.moves running phase
  rename_i res found
  have genuine : Genuine b s.upComingTxIndex res := by
    rw [getTxResult] at found
    split at found
    · simp at found
    exact serial.results _ _ found
  split
  · exact beginRerun_serial serial looping
  rename_i accepted
  simp only [Bool.or_eq_true, not_or, Bool.not_eq_true] at accepted
  exact accept_serial serial running phase false
    (due_of_unreported phase genuine accepted.1.1)

theorem rerunning_serial {e : Execution K (Outcome Resp)} (rerunning : s.callback = .rerunning e) :
    (s.stepCallback b check order).Serial b base := by
  have phase := serial.phase
  rw [rerunning] at phase
  have running : s.callback ≠ .signalled := by simp [rerunning]
  obtain ⟨same, tx, n, found, accepted, here⟩ := phase
  simp only [stepCallback, rerunning]
  split
  · rename_i out ended
    refine accept_serial serial running same true (due_of_eval same found accepted ?_ true)
    have whole := eval_exec (start tx.prog) (View.ofBase s.committed.cms)
      (List.replicate n (View.ofBase s.committed.cms)) (fun _ inside => List.eq_of_mem_replicate inside)
    change (run tx.prog _).prog.eval _ (run tx.prog _).store = _ at whole
    rw [← here, ended] at whole
    exact whole.symm
  refine serial.moves running ⟨same, tx, n + 1, found, accepted, ?_⟩
  have points : e.prog.PointReads := by
    rw [here]
    exact run_pointReads tx.points _
  have sameStep : e.step (s.parentView []) = e.step (View.ofBase s.committed.cms) :=
    step_congr points (fun _ _ _ _ => rfl)
  rw [sameStep, List.replicate_succ', here]
  simp [run, Run.exec]

theorem advancing_serial (advancing : s.callback = .advancing) : (s.stepCallback b check order).Serial b base := by
  have phase := serial.phase
  rw [advancing] at phase
  obtain ⟨answer, same⟩ := phase
  simp only [stepCallback, advancing]
  refine ⟨?_, serial.results, serial.works, ?_, ?_⟩
  · intro index earlier
    rcases Nat.lt_succ_iff_lt_or_eq.mp earlier with earlier | rfl
    · exact serial.delivered index earlier
    · exact answer
  · split
    · rename_i last
      exact ⟨last, same⟩
    · exact same
  · exact fun finished => absurd (serial.ended finished) (by simp [advancing])

theorem stepCallback_serial : (s.stepCallback b check order).Serial b base := by
  have phase := serial.phase
  cases here : s.callback with
  | receiving => exact receiving_serial serial here
  | looping => exact looping_serial serial here
  | rerunning e => exact rerunning_serial serial here
  | advancing => exact advancing_serial serial here
  | signalled =>
    simp only [stepCallback, here]
    exact serial
  | applying _ _ rest =>
    have running : s.callback ≠ .signalled := by simp [here]
    rw [here] at phase
    cases rest with
    | nil =>
      simp only [stepCallback, here]
      refine ⟨serial.delivered, serial.results, serial.works, ?_,
        fun finished => absurd (serial.ended finished) running⟩
      split <;> exact phase
    | cons =>
      simp only [stepCallback, here]
      exact ⟨serial.delivered, serial.results, serial.works, phase,
        fun finished => absurd (serial.ended finished) running⟩
  | locking =>
    rw [here] at phase
    simp only [stepCallback, here]
    split
    · refine (setGroup_serial serial _ ?_).moves ?_ phase
      · exact serial.works (b.groupOf s.upComingTxIndex)
      · simp [setGroup, here]
    · exact serial
  | clearing =>
    rw [here] at phase
    simp only [stepCallback, here]
    split
    · rename_i next _
      have cleared : (s.putResult next none).Serial b base := putResult_serial serial next (by simp)
      refine cleared.moves ?_ ?_
      · rw [putResult]
        split <;> simp [here]
      · rw [putResult]
        split <;> exact phase
    · refine (setGroup_serial serial _ ?_).moves ?_ phase
      · exact serial.works (b.groupOf s.upComingTxIndex)
      · simp [setGroup, here]

theorem finish_serial : s.finish.Serial b base := by
  rw [finish]
  split
  · rename_i signalled
    exact ⟨serial.delivered, serial.results, serial.works, serial.phase, fun _ => signalled⟩
  · exact serial

end

theorem step_serial [Inhabited Resp] (serial : s.Serial b base)
    (event : Event) : (s.step b check order event).Serial b base := by
  cases event with
  | takeTx group => exact takeTx_serial serial group
  | takeRerun group => exact takeRerun_serial serial group
  | group group => exact stepGroup_serial serial group
  | callback => exact stepCallback_serial serial
  | finish => exact finish_serial serial

theorem putResult_upComing (index : Nat) (res : Option (TxResult K Resp)) :
    (s.putResult index res).upComingTxIndex = s.upComingTxIndex := by
  rw [putResult]
  split <;> rfl

theorem upComing_le_step [Inhabited Resp] (event : Event) :
    s.upComingTxIndex ≤ (s.step b check order event).upComingTxIndex := by
  cases event
  all_goals
    simp only [step, takeTx, takeRerun, stepGroup, stepCallback, beginRerun, finish]
    repeat' split
    all_goals first | exact le_rfl | exact Nat.le_succ _ | exact (putResult_upComing _ _).ge

def run [Inhabited Resp] (b : Block K Resp) (check : ConflictCheck K) (order : MapOrder K)
    (base : Base K) (schedule : List Event) : State K Resp :=
  Run.exec (step b check order) (init b base) schedule

theorem run_serial [Inhabited Resp] (b : Block K Resp) (check : ConflictCheck K)
    (order : MapOrder K) (base : Base K) (schedule : List Event) :
    (run b check order base schedule).Serial b base := by
  refine Run.invariant_exec (State.Serial b base) ?_ (init_serial b base) schedule
  exact fun s event serial => step_serial serial event

end State

/-- Whenever the run is over, in whatever order the goroutines took their steps, the committed store
and the answers are those of one transaction after another. -/
theorem schedule_refines_serial [Inhabited Resp] (b : Block K Resp) (check : ConflictCheck K)
    (order : MapOrder K) (base : Base K) (schedule : List Event)
    (finished : (State.run b check order base schedule).alreadyEnd = true) :
    (∀ key, (State.run b check order base schedule).committed.cms.lookup key =
        (serialStore b base b.txSize).lookup key) ∧
      ∀ index < b.txSize,
        (State.run b check order base schedule).deliverTxs index = serialResp b base index := by
  have serial := State.run_serial b check order base schedule
  have phase := serial.phase
  rw [serial.ended finished] at phase
  obtain ⟨all, same⟩ := phase
  refine ⟨fun key => ?_, fun index inside => ?_⟩
  · rw [← all]
    exact same key
  · exact serial.delivered index (all ▸ inside)

/-- At any time of a run every answer is the serial one and stays; between two transactions the store
is the serial one too. -/
theorem schedule_serial_prefix [Inhabited Resp] (b : Block K Resp) (check : ConflictCheck K)
    (order : MapOrder K) (base : Base K) (schedule later : List Event) :
    let s := State.run b check order base schedule
    (∀ index < s.upComingTxIndex, s.deliverTxs index = serialResp b base index ∧
        (State.run b check order base (schedule ++ later)).deliverTxs index = s.deliverTxs index) ∧
      (s.callback = .receiving ∨ s.callback = .looping →
        SameStore s.committed.cms (serialStore b base s.upComingTxIndex)) := by
  intro s
  have serial := State.run_serial b check order base schedule
  have serial' := State.run_serial b check order base (schedule ++ later)
  have further : s.upComingTxIndex ≤ (State.run b check order base (schedule ++ later)).upComingTxIndex := by
    rw [State.run, Run.exec, List.foldl_append]
    exact Run.invariant_exec (s.upComingTxIndex ≤ State.upComingTxIndex ·)
      (fun _ event le => le.trans (State.upComing_le_step event)) le_rfl later
  constructor
  · intro index answered
    have same := serial.delivered index answered
    exact ⟨same, (serial'.delivered index (answered.trans_le further)).trans same.symm⟩
  · have phase := serial.phase
    rintro (here | here)
    · rwa [here] at phase
    · rwa [here] at phase

/-- The check that reports exactly the reads that differ. -/
def ConflictCheck.exact : ConflictCheck K where
  reports committed reads :=
    reads.entries.any (fun item => decide (item.2 ≠ committed.cms.lookup item.1))
  sound committed reads key content read differs := by
    rw [List.any_eq_true]
    exact ⟨⟨key, content⟩, (AList.lookup_eq_some_iff _ _ _).mp read, decide_eq_true differs⟩

/-- The first transaction sets key 0; the second, of another group, writes to key 1 whether it found
key 0. -/
def setThenAsk : Block Nat Nat where
  txs :=
    [{ rejected := none, supportPara := true
       prog := .set 0 [5] (.done ⟨10, 1, false, false⟩)
       points := .set (.done _) },
     { rejected := none, supportPara := true
       prog := .get 0 fun content =>
         .set 1 [if content.isSome then 1 else 2] (.done ⟨20, 1, false, false⟩)
       points := .get fun _ => .set (.done _) }]
  maxGas := 0
  groups := [[0], [1]]

/-- The second group reads key 0 before the first transaction is committed; its result is reported
and it runs again. -/
def staleSchedule : List Event :=
  [.takeTx 0, .group 0, .takeTx 1, .group 1, .group 1, .group 1, .group 1, .group 1, .group 1,
    .group 1, .group 0, .group 0, .group 0, .group 0, .group 0, .group 0] ++
    List.replicate 14 .callback ++ [.finish]

theorem staleSchedule_refines_serial :
    (State.run setThenAsk ConflictCheck.exact ⟨fun _ w => w.entries, fun _ _ => .refl _⟩ ∅
        staleSchedule).alreadyEnd = true ∧
      (State.run setThenAsk ConflictCheck.exact ⟨fun _ w => w.entries, fun _ _ => .refl _⟩ ∅
        staleSchedule).committed.cms.lookup 1 = (serialStore setThenAsk ∅ 2).lookup 1 :=
  have finished : (State.run setThenAsk ConflictCheck.exact
      ⟨fun _ w => w.entries, fun _ _ => .refl _⟩ ∅ staleSchedule).alreadyEnd = true := by decide
  ⟨finished, (schedule_refines_serial setThenAsk _ _ ∅ staleSchedule finished).1 1⟩

end Exchain.Parallel
