import Exchain.BaseApp.FeeSplit

/-! The block gas meter. Serial delivery charges it in a deferred function whose panic is recovered;
the callback of a parallel run charges it outside of any recover. What a transaction does is the
same in both modes here: a speculative result that is not in conflict ran on what it would find now,
but saw an earlier value of the meter. -/

namespace Exchain.Parallel.BlockGas

open BaseApp (GasMeter Panic)

/-- What a transaction leaves once the refund is through. -/
structure Settlement (State Result : Type) where
  anteOk : Bool
  result : Result
  meter : GasMeter
  state : State

inductive Response (Result : Type) where
  | noBlockGas (gasUsed : Nat)
  | ended (result : Result) (gasUsed : Nat)
  | blockGas (panic : Panic) (gasUsed : Nat)
  deriving DecidableEq

namespace Response

variable {Result : Type}

def gasUsed : Response Result → Nat
  | noBlockGas gasUsed => gasUsed
  | ended _ gasUsed => gasUsed
  | blockGas _ gasUsed => gasUsed

end Response

namespace Settlement

variable {State Result : Type} (settlement : Settlement State Result)

/-- As the gas is reported when the ante handler failed. -/
def gasUsed : Nat :=
  if settlement.anteOk then settlement.meter.gasConsumed else 0

/-- What the block gas meter is charged in serial delivery. -/
def charged : Nat :=
  if settlement.anteOk then settlement.meter.gasConsumedToLimit else 0

def response : Response Result :=
  .ended settlement.result settlement.gasUsed

theorem charged_le : settlement.charged ≤ settlement.gasUsed := by
  unfold charged gasUsed
  split
  · exact settlement.meter.gasConsumedToLimit_le
  · exact Nat.le_refl _

end Settlement

variable {Tx State Result : Type} (exec : Tx → State → Settlement State Result)

/-- runTx in deliver mode. -/
def deliverTx (tx : Tx) (state : State) (blockMeter : GasMeter) : Response Result × State × GasMeter :=
  if blockMeter.isOutOfGas then (.noBlockGas blockMeter.gasConsumed, state, blockMeter)
  else
    let settlement := exec tx state
    if settlement.anteOk then
      match blockMeter.consumeGas settlement.meter.gasConsumedToLimit with
      | (blockMeter, none) => (settlement.response, settlement.state, blockMeter)
      | (blockMeter, some panic) => (.blockGas panic settlement.gasUsed, settlement.state, blockMeter)
    else (settlement.response, settlement.state, blockMeter)

def deliverTxs : List Tx → State → GasMeter → List (Response Result) × GasMeter
  | [], _, blockMeter => ([], blockMeter)
  | tx :: rest, state, blockMeter =>
    let (response, state, blockMeter) := deliverTx exec tx state blockMeter
    let (responses, blockMeter) := deliverTxs rest state blockMeter
    (response :: responses, blockMeter)

/-- runTx in async mode: the block gas meter is read and not charged. -/
def runInAsync (tx : Tx) (state : State) (blockMeter : GasMeter) : Response Result × State :=
  if blockMeter.isOutOfGas then (.noBlockGas blockMeter.gasConsumed, state)
  else ((exec tx state).response, (exec tx state).state)

/-- The sum is one of 64 bits. -/
def overFlow (sumGas currGas maxGas : Nat) : Bool :=
  if maxGas = 0 then false else decide (maxGas ≤ (sumGas + currGas) % 2 ^ 64)

/-- How the scheduler treats one transaction: how many results were in when it ran, counted back
from the last, and whether it is in conflict or an ante handler failed before. -/
structure Plan where
  lag : Nat
  conflict : Bool
  deriving DecidableEq, Repr

structure Manager (State Result : Type) where
  state : State
  blockMeter : GasMeter
  currentGas : Nat
  /-- The meter as it was before each of the results so far, the last first. -/
  history : List GasMeter
  responses : List (Response Result)

/-- One round of asyncCb. A panic of the meter is not recovered. -/
def asyncCb (maxGas : Nat) (pm : Manager State Result) (tx : Tx) (plan : Plan) : Except Panic (Manager State Result) :=
  let early := runInAsync exec tx pm.state (pm.history.getD plan.lag pm.blockMeter)
  let res :=
    if plan.conflict || overFlow pm.currentGas early.1.gasUsed maxGas then runInAsync exec tx pm.state pm.blockMeter
    else early
  match pm.blockMeter.consumeGas res.1.gasUsed with
  | (_, some panic) => .error panic
  | (blockMeter, none) =>
    .ok ⟨res.2, blockMeter, pm.currentGas + res.1.gasUsed, pm.blockMeter :: pm.history, pm.responses ++ [res.1]⟩

/-- ParallelTxs under a schedule. -/
def runTxs (maxGas : Nat) (plans : Nat → Plan) : List Tx → Manager State Result → Except Panic (Manager State Result)
  | [], pm => .ok pm
  | tx :: rest, pm =>
    match asyncCb exec maxGas pm tx (plans rest.length) with
    | .error panic => .error panic
    | .ok pm => runTxs maxGas plans rest pm

/-- The block gas meter of a block with a limit. -/
def start (maxGas : Nat) (state : State) : Manager State Result := ⟨state, .basic maxGas 0, 0, [], []⟩

/-- The parallel run ends without a panic, with the responses and the meter of serial delivery. -/
def Parity (maxGas : Nat) (plans : Nat → Plan) (block : List Tx) (state : State) : Prop :=
  ∃ pm, runTxs exec maxGas plans block (start maxGas state) = .ok pm ∧
    (pm.responses, pm.blockMeter) = deliverTxs exec block state (.basic maxGas 0)

/-- No transaction finds the block without gas or uses more than its own limit or than the block has
left. -/
def Fits (maxGas : Nat) : List Tx → State → Nat → Prop
  | [], _, _ => True
  | tx :: rest, state, consumed =>
    consumed < maxGas ∧
    ((exec tx state).anteOk = true → (exec tx state).meter.isPastLimit = false) ∧
    consumed + (exec tx state).gasUsed ≤ maxGas ∧
    Fits maxGas rest (exec tx state).state (consumed + (exec tx state).gasUsed)

variable {exec}

/-- While no charge has panicked, the running sum is the meter, and the meter only grew. -/
structure Manager.Metered (maxGas consumed : Nat) (pm : Manager State Result) : Prop where
  meter : pm.blockMeter = .basic maxGas consumed
  sum : pm.currentGas = consumed
  past : ∀ earlier ∈ pm.history, ∃ before ≤ consumed, earlier = .basic maxGas before

theorem start_metered (maxGas : Nat) (state : State) : (start maxGas state : Manager State Result).Metered maxGas 0 :=
  ⟨rfl, rfl, nofun⟩

variable {block : List Tx} {consumed maxGas : Nat} {plans : Nat → Plan} {pm pm' : Manager State Result}
  {tx : Tx}

theorem Manager.Metered.seen (metered : pm.Metered maxGas consumed)
    (lag : Nat) : ∃ before ≤ consumed, pm.history.getD lag pm.blockMeter = .basic maxGas before := by
  rw [List.getD_eq_getElem?_getD]
  cases found : pm.history[lag]? with
  | none => exact ⟨consumed, Nat.le_refl _, metered.meter⟩
  | some earlier => exact metered.past earlier (List.mem_of_getElem? found)

theorem deliverTx_of_fits (tx : Tx) (state : State) (small : maxGas ≤ GasMeter.maxUint64)
    (gasLeft : consumed < maxGas) (fits : consumed + (exec tx state).charged ≤ maxGas) :
    deliverTx exec tx state (.basic maxGas consumed) =
      ((exec tx state).response, (exec tx state).state, .basic maxGas (consumed + (exec tx state).charged)) := by
  have open' : (GasMeter.basic maxGas consumed).isOutOfGas = false := decide_eq_false (Nat.not_le.mpr gasLeft)
  unfold deliverTx
  rw [open', if_neg Bool.false_ne_true]
  dsimp only
  cases passed : (exec tx state).anteOk with
  | false =>
    unfold Settlement.charged
    rw [passed]
    rfl
  | true =>
    have chargedIs : (exec tx state).charged = (exec tx state).meter.gasConsumedToLimit := by
      unfold Settlement.charged
      rw [passed]
      rfl
    rw [if_pos rfl, ← chargedIs, GasMeter.consumeGas_of_le small fits]

theorem asyncCb_of_lt (plan : Plan)
    (metered : pm.Metered maxGas consumed) (gasLeft : consumed < maxGas) :
    asyncCb exec maxGas pm tx plan =
      match (GasMeter.basic maxGas consumed).consumeGas (exec tx pm.state).gasUsed with
      | (_, some panic) => .error panic
      | (blockMeter, none) =>
        .ok ⟨(exec tx pm.state).state, blockMeter, consumed + (exec tx pm.state).gasUsed,
          .basic maxGas consumed :: pm.history, pm.responses ++ [(exec tx pm.state).response]⟩ := by
  have runs : ∀ before, before ≤ consumed →
      runInAsync exec tx pm.state (.basic maxGas before) = ((exec tx pm.state).response, (exec tx pm.state).state) := by
    intro before older
    have open' : (GasMeter.basic maxGas before).isOutOfGas = false := decide_eq_false (by omega)
    unfold runInAsync
    rw [open', if_neg Bool.false_ne_true]
  obtain ⟨before, older, seen⟩ := metered.seen plan.lag
  unfold asyncCb
  dsimp only
  rw [seen, metered.meter, metered.sum, runs before older, runs consumed (Nat.le_refl _), ite_self]
  rfl

theorem asyncCb_of_full (tx : Tx) (plan : Plan)
    (finite : 0 < maxGas) (small : maxGas ≤ GasMeter.maxUint64) (metered : pm.Metered maxGas consumed)
    (full : maxGas ≤ consumed) : ∃ panic, asyncCb exec maxGas pm tx plan = .error panic := by
  have rejected : runInAsync exec tx pm.state pm.blockMeter = (.noBlockGas consumed, pm.state) := by
    have closed : (GasMeter.basic maxGas consumed).isOutOfGas = true := decide_eq_true full
    unfold runInAsync
    rw [metered.meter, closed]
    rfl
  have past : ∀ res : Response Result × State, maxGas < consumed + res.1.gasUsed →
      ∃ panic, (match pm.blockMeter.consumeGas res.1.gasUsed with
        | (_, some panic) => .error panic
        | (blockMeter, none) => .ok ⟨res.2, blockMeter, pm.currentGas + res.1.gasUsed,
            pm.blockMeter :: pm.history, pm.responses ++ [res.1]⟩ : Except Panic (Manager State Result)) =
          .error panic := by
    intro res exceeds
    obtain ⟨_, panic, charged⟩ := GasMeter.consumeGas_of_lt exceeds
    rw [metered.meter, charged]
    exact ⟨panic, rfl⟩
  unfold asyncCb
  apply past
  split
  · rw [rejected]
    show maxGas < consumed + consumed
    omega
  rename_i unflagged
  -- only a sum that does not fit in 64 bits escapes the check
  have missed := (Bool.or_eq_false_iff.mp (Bool.eq_false_iff.mpr unflagged)).2
  unfold overFlow at missed
  rw [if_neg (by omega), metered.sum] at missed
  have wrapped := of_decide_eq_false missed
  generalize (runInAsync exec tx pm.state (pm.history.getD plan.lag pm.blockMeter)).1.gasUsed = gasUsed at wrapped ⊢
  unfold GasMeter.maxUint64 at small
  omega

theorem asyncCb_ok {plan : Plan}
    (finite : 0 < maxGas) (small : maxGas ≤ GasMeter.maxUint64) (metered : pm.Metered maxGas consumed)
    (done : asyncCb exec maxGas pm tx plan = .ok pm') :
    consumed < maxGas ∧ consumed + (exec tx pm.state).gasUsed ≤ maxGas ∧
    pm'.Metered maxGas (consumed + (exec tx pm.state).gasUsed) ∧ pm'.state = (exec tx pm.state).state ∧
    pm'.responses = pm.responses ++ [(exec tx pm.state).response] := by
  rcases Nat.lt_or_ge consumed maxGas with gasLeft | full
  · rw [asyncCb_of_lt plan metered gasLeft] at done
    rcases Nat.lt_or_ge maxGas (consumed + (exec tx pm.state).gasUsed) with exceeds | fits
    · obtain ⟨_, _, charged⟩ := GasMeter.consumeGas_of_lt exceeds
      rw [charged] at done
      cases done
    rw [GasMeter.consumeGas_of_le small fits] at done
    cases done
    refine ⟨gasLeft, fits, ⟨rfl, rfl, ?_⟩, rfl, rfl⟩
    intro earlier mem
    rcases List.mem_cons.mp mem with rfl | older
    · exact ⟨consumed, Nat.le_add_right _ _, rfl⟩
    · obtain ⟨before, _, same⟩ := metered.past earlier older
      exact ⟨before, by omega, same⟩
  · obtain ⟨panic, stopped⟩ : ∃ panic, asyncCb exec maxGas pm tx plan = .error panic :=
      asyncCb_of_full tx plan finite small metered full
    rw [stopped] at done
    cases done

theorem deliverTxs_cons {rest : List Tx} {state next : State} {meter meter' : GasMeter}
    {response : Response Result} (step : deliverTx exec tx state meter = (response, next, meter')) :
    deliverTxs exec (tx :: rest) state meter =
      (response :: (deliverTxs exec rest next meter').1, (deliverTxs exec rest next meter').2) := by
  conv_lhs => unfold deliverTxs
  rw [step]

theorem asyncCb_of_fits (plan : Plan)
    (small : maxGas ≤ GasMeter.maxUint64) (metered : pm.Metered maxGas consumed) (gasLeft : consumed < maxGas)
    (fits : consumed + (exec tx pm.state).gasUsed ≤ maxGas) :
    ∃ pm', asyncCb exec maxGas pm tx plan = .ok pm' := by
  rw [asyncCb_of_lt plan metered gasLeft, GasMeter.consumeGas_of_le small fits]
  exact ⟨_, rfl⟩

section

variable (finite : 0 < maxGas) (small : maxGas ≤ GasMeter.maxUint64)

include finite small

theorem runTxs_of_fits (metered : pm.Metered maxGas consumed)
    (fits : Fits exec maxGas block pm.state consumed) :
    ∃ pm', runTxs exec maxGas plans block pm = .ok pm' ∧ (pm'.responses, pm'.blockMeter) =
        (pm.responses ++ (deliverTxs exec block pm.state (.basic maxGas consumed)).1,
          (deliverTxs exec block pm.state (.basic maxGas consumed)).2) := by
  induction block generalizing pm consumed with
  | nil =>
    refine ⟨pm, rfl, ?_⟩
    dsimp only [deliverTxs]
    rw [List.append_nil, metered.meter]
  | cons tx rest ih =>
    obtain ⟨gasLeft, within, bound, later⟩ := fits
    obtain ⟨_, stepped⟩ := asyncCb_of_fits (plans rest.length) small metered gasLeft bound
    obtain ⟨-, -, metered', stateIs, responsesAre⟩ := asyncCb_ok finite small metered stepped
    have sameCharge : (exec tx pm.state).charged = (exec tx pm.state).gasUsed := by
      unfold Settlement.charged Settlement.gasUsed
      split
      · rename_i passed
        exact ((exec tx pm.state).meter.gasConsumedToLimit_eq_iff).mpr (within passed)
      · rfl
    have serial := deliverTx_of_fits tx pm.state small gasLeft (by rw [sameCharge]; exact bound)
    rw [sameCharge] at serial
    rw [← stateIs] at later serial
    obtain ⟨last, ran, same⟩ := ih metered' later
    refine ⟨last, ?_, ?_⟩
    · unfold runTxs
      rw [stepped]
      exact ran
    · rw [same, responsesAre, deliverTxs_cons serial, List.append_assoc]
      rfl

theorem runTxs_ahead (behind : Nat)
    (metered : pm.Metered maxGas consumed) (ahead : behind < consumed) (done : runTxs exec maxGas plans block pm = .ok pm') :
    (deliverTxs exec block pm.state (.basic maxGas behind)).2.gasConsumed < pm'.blockMeter.gasConsumed := by
  induction block generalizing pm consumed behind with
  | nil =>
    cases done
    rw [metered.meter]
    exact ahead
  | cons tx rest ih =>
    unfold runTxs at done
    split at done
    · cases done
    rename_i next stepped
    obtain ⟨gasLeft, _, metered', stateIs, -⟩ := asyncCb_ok finite small metered stepped
    have less := (exec tx pm.state).charged_le
    have room : behind + (exec tx pm.state).charged ≤ maxGas := by omega
    have serial := deliverTx_of_fits tx pm.state small (ahead.trans gasLeft) room
    rw [deliverTxs_cons serial, ← stateIs]
    exact ih _ metered' (by omega) done

theorem fits_of_runTxs (metered : pm.Metered maxGas consumed)
    (done : runTxs exec maxGas plans block pm = .ok pm')
    (same : pm'.blockMeter = (deliverTxs exec block pm.state (.basic maxGas consumed)).2) :
    Fits exec maxGas block pm.state consumed := by
  induction block generalizing pm consumed with
  | nil => trivial
  | cons tx rest ih =>
    unfold runTxs at done
    split at done
    · cases done
    rename_i next stepped
    obtain ⟨gasLeft, bound, metered', stateIs, -⟩ := asyncCb_ok finite small metered stepped
    have less := (exec tx pm.state).charged_le
    have room : consumed + (exec tx pm.state).charged ≤ maxGas := by omega
    have serial := deliverTx_of_fits tx pm.state small gasLeft room
    rw [deliverTxs_cons serial, ← stateIs] at same
    have sameCharge : (exec tx pm.state).charged = (exec tx pm.state).gasUsed := by
      by_contra differ
      have ahead := runTxs_ahead finite small (consumed + (exec tx pm.state).charged) metered' (by omega) done
      rw [← same] at ahead
      exact Nat.lt_irrefl _ ahead
    rw [sameCharge] at same
    refine ⟨gasLeft, ?_, bound, ?_⟩
    · intro passed
      unfold Settlement.charged Settlement.gasUsed at sameCharge
      rw [passed] at sameCharge
      exact ((exec tx pm.state).meter.gasConsumedToLimit_eq_iff).mp sameCharge
    · rw [← stateIs]
      exact ih metered' done same

end

/-- The parallel run keeps to the block gas limit as serial delivery does exactly if the block fits.
-/
theorem parity_iff (maxGas : Nat) (finite : 0 < maxGas) (small : maxGas ≤ GasMeter.maxUint64) (plans : Nat → Plan)
    (block : List Tx) (state : State) : Parity exec maxGas plans block state ↔ Fits exec maxGas block state 0 := by
  have metered : (start maxGas state : Manager State Result).Metered maxGas 0 := start_metered maxGas state
  constructor
  · rintro ⟨pm, done, same⟩
    exact fits_of_runTxs finite small metered done (congrArg Prod.snd same)
  · intro fits
    obtain ⟨pm, done, same⟩ := runTxs_of_fits finite small metered fits
    exact ⟨pm, done, same.trans (Prod.ext (List.nil_append _) rfl)⟩

section

open BaseApp

variable {User Denom : Type} [DecidableEq User] [DecidableEq Denom] [Fintype Denom] (bondDenom : Denom)

def settlement (delivery : Delivery User Denom) (bank : Bank (Account User) Denom) :
    Settlement (Bank (Account User) Denom) Bool :=
  let body := runBody bondDenom delivery.tx delivery.run bank
  let settled := deferRefund bondDenom delivery.tx body
  ⟨body.anteOk, settled.failed, settled.meter, settled.bank⟩

def Response.failed : Response Bool → Bool
  | noBlockGas _ => true
  | ended failed _ => failed
  | blockGas _ _ => true

theorem deliverTx_eq_runTx (delivery : Delivery User Denom) (bank : Bank (Account User) Denom) (blockMeter : GasMeter) :
    let out := runTx bondDenom delivery.tx delivery.run bank blockMeter
    let (response, bank', blockMeter') := deliverTx (settlement bondDenom) delivery bank blockMeter
    response.gasUsed = out.gasUsed ∧ response.failed = out.failed ∧ bank' = out.bank ∧ blockMeter' = out.blockMeter := by
  unfold deliverTx runTx
  split
  · exact ⟨rfl, rfl, rfl, rfl⟩
  dsimp only [settlement, deferReport, Settlement.response, Settlement.gasUsed]
  cases (runBody bondDenom delivery.tx delivery.run bank).anteOk with
  | false => simp [Response.gasUsed, Response.failed]
  | true =>
    cases charged : blockMeter.consumeGas
      (deferRefund bondDenom delivery.tx (runBody bondDenom delivery.tx delivery.run bank)).meter.gasConsumedToLimit with
    | mk meter panic => cases panic <;> simp [Response.gasUsed, Response.failed]

end

open BaseApp in
/-- A call that uses 60000 of its 100000 gas. -/
def call : Delivery Unit Unit := ⟨.evm () 100000 7, true, .evm .done none, ⟨[60000], none, ⟨[], .done⟩, id, noEffect.keeps⟩, 0⟩

def rich : Bank (BaseApp.Account Unit) Unit := fun _ _ => 10000000

/-- Two such calls in a block of 100000 gas: the second exceeds it, which serial delivery reports
and the parallel run does not survive. -/
theorem block_gas_panics :
    (runTxs (settlement ()) 100000 (fun _ => ⟨0, false⟩) [call, call] (start 100000 rich)).isOk = false ∧
    (deliverTxs (settlement ()) [call, call] rich (.basic 100000 0)).1 =
      [.ended false 60000, .blockGas .outOfGas 60000] := by
  decide +kernel

theorem parity_one_call : Fits (settlement ()) 100000 [call] rich 0 ∧
    Parity (settlement ()) 100000 (fun _ => ⟨0, false⟩) [call] rich := by
  have fits : Fits (settlement ()) 100000 [call] rich 0 :=
    ⟨by decide, fun _ => by decide +kernel, by decide +kernel, trivial⟩
  exact ⟨fits, (parity_iff 100000 (by decide) (by decide) _ [call] rich).mpr fits⟩

end Exchain.Parallel.BlockGas
