import Exchain.BaseApp.GasMeter
import Exchain.Sdk.Bank

/-! One transaction through runtxWithInfo, above Venus6: the ante handler takes the fee, the
messages run, and three deferred functions refund, charge the block gas meter and report. What the
decorators and messages do besides is given by how they end and what gas they charge. -/

namespace Exchain.BaseApp

/-- How a stretch of code ends. -/
inductive Exit where
  | done
  | error
  | panic (panic : Panic)
  deriving DecidableEq, Repr

/-- Code that charges gas and then ends, unless a charge panics before. -/
structure Stretch where
  charges : List Nat
  ending : Exit
  deriving DecidableEq, Repr

def Stretch.run (stretch : Stretch) (meter : GasMeter) : GasMeter × Exit :=
  match meter.charge stretch.charges with
  | (meter, some panic) => (meter, .panic panic)
  | (meter, none) => (meter, stretch.ending)

inductive Account (User : Type) where
  | user (user : User)
  | feeCollector
  deriving DecidableEq, Repr

inductive Tx (User Denom : Type) where
  | std (payer : User) (gas : Nat) (fee : Coins Denom)
  | evm (payer : User) (gas : Nat) (price : Int)

namespace Tx

variable {User Denom : Type}

def payer : Tx User Denom → User
  | std payer _ _ => payer
  | evm payer _ _ => payer

def gas : Tx User Denom → Nat
  | std _ gas _ => gas
  | evm _ gas _ => gas

/-- GetFee: an EVM transaction pays its price for all its gas, in the bond denomination. -/
def fee [DecidableEq Denom] (bondDenom : Denom) : Tx User Denom → Coins Denom
  | std _ _ fee => fee
  | evm _ gas price => Coins.single bondDenom (price * gas)

def isEvm : Tx User Denom → Bool
  | std .. => false
  | evm .. => true

end Tx

/-- The decorators around the one that takes the fee. After it, the EVM chain has none that returns
an error. -/
inductive AnteRun : Bool → Type where
  | std (before after : Stretch) : AnteRun false
  | evm (before : Exit) (after : Option Panic) : AnteRun true

/-- A registered contract was called: who gets which share of the fee. -/
structure SplitHook (User : Type) where
  withdrawer : User
  share : Dec

structure FeeSplitInfo (User Denom : Type) where
  addr : User
  fee : Coins Denom

/-- The messages: the gas charged before and after the hook, how they end, and what
they do to balances if they succeed. No message pays out of the fee collector. -/
structure MsgRun (User Denom : Type) where
  charges : List Nat
  hook : Option (SplitHook User)
  rest : Stretch
  effect : Bank (Account User) Denom → Bank (Account User) Denom
  keeps : ∀ bank, bank .feeCollector ≤ effect bank .feeCollector

inductive VmErr where
  | outOfGas
  | other
  deriving DecidableEq, Repr

/-- A run of the interpreter: the gas left, its error, and the largest gu factor of the methods
called, negative if none has one. -/
structure VmRun where
  leftOverGas : Nat
  err : Option VmErr
  guFactor : Dec

/-- The gas of a run that was given gasLimit, scaled by the factor. -/
def VmRun.gasConsumed (vm : VmRun) (gasLimit : Nat) : Nat :=
  if vm.guFactor < 0 then gasLimit - vm.leftOverGas
  else (vm.guFactor * ((gasLimit - vm.leftOverGas : Nat) : Int) / Dec.precision).toNat

/-- TransitionDb once the interpreter has returned: more gas than there was is out of gas. -/
def VmRun.transitionDb (vm : VmRun) (gasLimit : Nat) : Stretch :=
  let gasConsumed := vm.gasConsumed gasLimit
  -- Uint64 panics, and nothing is charged
  if GasMeter.maxUint64 < gasConsumed then ⟨[], .panic .other⟩
  else match vm.err with
    | none => if gasLimit < gasConsumed then ⟨[gasLimit], .error⟩ else ⟨[gasConsumed], .done⟩
    | some _ => if gasLimit < gasConsumed then ⟨[gasLimit], .panic .outOfGas⟩ else ⟨[gasConsumed], .error⟩

/-- The message of an EVM transaction: the interpreter gets the gas left by the charges before it,
and the hook is called only if it succeeds. -/
def VmRun.msgRun {User Denom : Type} (vm : VmRun) (gas : Nat) (before : List Nat) (success : MsgRun User Denom) :
    MsgRun User Denom :=
  let transition := vm.transitionDb (gas - before.sum)
  if transition.ending = .done then { success with charges := before ++ transition.charges ++ success.charges }
  else { success with charges := before, hook := none, rest := transition }

/-- What is not the transaction's own: whether ValidateBasic passes, the ante handler, the messages,
and the block context's meter. -/
structure Run {User Denom : Type} (tx : Tx User Denom) where
  validateBasic : Bool
  ante : AnteRun tx.isEvm
  msgs : MsgRun User Denom
  ctxConsumed : Nat

variable {User Denom : Type} [DecidableEq User] [DecidableEq Denom] [Fintype Denom] (bondDenom : Denom)

variable (tx : Tx User Denom)

def deductFees (bank : Bank (Account User) Denom) : Option (Bank (Account User) Denom) :=
  if tx.fee bondDenom = 0 then some bank
  else (bank.sendCoins (.user tx.payer) .feeCollector (tx.fee bondDenom)).toOption

/-- What runAnte has after the ante handler: its end, the meter of the context it returned, if any,
and the balances in its cache. -/
structure AnteEnd (User Denom : Type) where
  exit : Exit
  meter : Option GasMeter
  bank : Bank (Account User) Denom

def anteHandler {isEvm : Bool} (tx : Tx User Denom) (bank : Bank (Account User) Denom) :
    AnteRun isEvm → AnteEnd User Denom
  | .std before after =>
    match before.run (.basic tx.gas 0) with
    -- SetUpContextDecorator turns running out of gas into an error
    | (meter, .error) | (meter, .panic .outOfGas) => ⟨.error, some meter, bank⟩
    | (_, .panic .other) => ⟨.panic .other, none, bank⟩
    | (meter, .done) =>
      match deductFees bondDenom tx bank with
      | none => ⟨.error, some (.infinite 0), bank⟩
      | some deducted =>
        match after.run meter with
        | (meter, .done) => ⟨.done, some meter, deducted⟩
        | (meter, .error) | (meter, .panic .outOfGas) => ⟨.error, some meter, deducted⟩
        | (_, .panic .other) => ⟨.panic .other, none, deducted⟩
  | .evm before after =>
    match before with
    | .error => ⟨.error, some (.infinite 0), bank⟩
    -- EthSetupContextDecorator returns no context when it recovers
    | .panic .outOfGas => ⟨.error, none, bank⟩
    | .panic .other => ⟨.panic .other, none, bank⟩
    | .done =>
      match deductFees bondDenom tx bank with
      | none => ⟨.error, some (.infinite 0), bank⟩
      | some deducted =>
        match after with
        | none => ⟨.done, some (.basic tx.gas 0), deducted⟩
        | some .outOfGas => ⟨.error, none, deducted⟩
        | some .other => ⟨.panic .other, none, deducted⟩

/-- PostTxProcessing: a share of what the gas used so far costs. -/
def feeSplit (consumed : Nat) (hook : SplitHook User) : Option (FeeSplitInfo User Denom) :=
  match tx with
  | .std .. => none
  | .evm _ _ price =>
    let developerFee := Dec.mul (price * consumed) hook.share
    if 0 < hook.share ∧ 0 < developerFee then
      some ⟨hook.withdrawer, Coins.single bondDenom developerFee⟩
    else none

/-- What handleRunMsg leaves: the meter, the end, and the split that the hook noted,
which no later failure takes back. -/
def runMsgs (meter : GasMeter) (msgs : MsgRun User Denom) :
    GasMeter × Exit × Option (FeeSplitInfo User Denom) :=
  match meter.charge msgs.charges with
  | (meter, some panic) => (meter, .panic panic, none)
  | (meter, none) =>
    let split := msgs.hook.bind (feeSplit bondDenom tx meter.gasConsumed)
    ((msgs.rest.run meter).1, (msgs.rest.run meter).2, split)

/-- What the deferred functions find. -/
structure Body (User Denom : Type) where
  anteOk : Bool
  exit : Exit
  meter : GasMeter
  bank : Bank (Account User) Denom
  split : Option (FeeSplitInfo User Denom)

def runBody (run : Run tx) (bank : Bank (Account User) Denom) : Body User Denom :=
  if run.validateBasic = false then ⟨false, .error, .infinite run.ctxConsumed, bank, none⟩
  else
    let ante := anteHandler bondDenom tx bank run.ante
    let meter := ante.meter.getD (.infinite run.ctxConsumed)
    if ante.exit = .done then
      let (meter, exit, split) := runMsgs bondDenom tx meter run.msgs
      -- the cache of the messages is written only if they succeed
      ⟨true, exit, meter, if exit = .done then run.msgs.effect ante.bank else ante.bank, split⟩
    else ⟨false, ante.exit, meter, bank, none⟩

/-- The fee less the price of the gas used. -/
def calculateRefundFees (gasUsed gas : Nat) (fee : Coins Denom) : Coins Denom :=
  fun denom => fee denom - fee denom / gas * gasUsed

/-- The refund, the meter and the balances; none if the refund is refused. -/
def gasRefund (outOfGas : Bool) (meter : GasMeter) (bank : Bank (Account User) Denom) :
    Option (Coins Denom × GasMeter × Bank (Account User) Denom) :=
  if meter.limit ≤ meter.gasConsumed then some (0, meter, bank)
  else if outOfGas then some (0, meter.setGas meter.limit, bank)
  else
    let refund := calculateRefundFees meter.gasConsumed tx.gas (tx.fee bondDenom)
    match bank.sendCoins .feeCollector (.user tx.payer) refund with
    | .ok bank => some (refund, meter, bank)
    | .error _ => none

/-- The transaction is refunded: a std transaction only if it succeeded. -/
def refunds (body : Body User Denom) : Bool :=
  tx.isEvm || (body.anteOk && decide (body.exit = .done))

/-- What the function that is deferred last, so runs first, leaves. -/
structure Settled (User Denom : Type) where
  failed : Bool
  meter : GasMeter
  bank : Bank (Account User) Denom
  refund : Coins Denom
  split : Option (FeeSplitInfo User Denom)

/-- Recover, then refund. A refused refund panics again; a split is collected after the refund. -/
def deferRefund (body : Body User Denom) : Settled User Denom :=
  let failed := decide (body.exit ≠ .done)
  if refunds tx body then
    match gasRefund bondDenom tx (decide (body.exit = .panic .outOfGas)) body.meter body.bank with
    | some (refund, meter, bank) => ⟨failed, meter, bank, refund, body.split⟩
    | none => ⟨true, body.meter, body.bank, 0, none⟩
  else ⟨failed, body.meter.setGas body.meter.limit, body.bank, 0, none⟩

structure Outcome (User Denom : Type) where
  anteOk : Bool
  failed : Bool
  gasUsed : Nat
  bank : Bank (Account User) Denom
  refund : Coins Denom
  split : Option (FeeSplitInfo User Denom)
  blockMeter : GasMeter

/-- The two functions deferred before: charge the block gas meter, recovering its panic, and report
the gas. -/
def deferReport (anteOk : Bool) (settled : Settled User Denom) (blockMeter : GasMeter) : Outcome User Denom :=
  let charged := blockMeter.consumeGas settled.meter.gasConsumedToLimit
  { anteOk := anteOk
    failed := settled.failed || (anteOk && charged.2.isSome)
    gasUsed := if anteOk then settled.meter.gasConsumed else 0
    bank := settled.bank
    refund := settled.refund
    split := settled.split
    blockMeter := if anteOk then charged.1 else blockMeter }

/-- runTx in deliver mode. A block without gas left takes no transaction. -/
def runTx (run : Run tx) (bank : Bank (Account User) Denom) (blockMeter : GasMeter) :
    Outcome User Denom :=
  if blockMeter.isOutOfGas then
    ⟨false, true, blockMeter.gasConsumed, bank, 0, none, blockMeter⟩
  else
    let body := runBody bondDenom tx run bank
    deferReport body.anteOk (deferRefund bondDenom tx body) blockMeter

end Exchain.BaseApp
