import Exchain.Sdk.Bank
import Exchain.Lib.SortedMap
import Mathlib.Data.Prod.Lex

namespace Exchain.Ammswap

abbrev Address := Nat

structure Coin (Denom : Type) where
  denom : Denom
  amount : Dec
  deriving DecidableEq, Repr

structure SwapTokenPair (Denom : Type) where
  quotePooledCoin : Coin Denom
  basePooledCoin : Coin Denom
  deriving DecidableEq, Repr

structure MsgTokenToToken (Denom : Type) where
  soldTokenAmount : Coin Denom
  minBoughtTokenAmount : Coin Denom
  deadline : Int
  recipient : Address
  sender : Address
  deriving DecidableEq, Repr

/-- What the application fixes: the native token, the account of the module and the
addresses that may not receive coins, among them the module accounts. -/
structure Config (Denom : Type) where
  defaultBondDenom : Denom
  moduleAccount : Address
  blacklistedAddr : Address → Bool
  module_blacklisted : blacklistedAddr moduleAccount = true

inductive SwapError where
  | errBlockTimeBigThanDeadline
  | errInsufficientCoins
  | errNonExistSwapTokenPair
  | errIsZeroValue (what : String)
  | errLessThan (what than : String)
  | errSendCoinsToPoolFailed
  | errSendCoinsFromPoolToAccountFailed
  | errTokenNotExist
  | errSwapTokenPairExist
  | errPoolTokenPairExist
  | errNonExistPoolToken
  | errInvalidTokenPair
  | errBaseTokensAmountBiggerThanMax
  | errSendCoinsFailed
  | errMintPoolTokenFailed
  | errMsgDeadlineLessThanBlockTime
  | errBurnPoolTokenFailed
  | panic
  deriving DecidableEq, Repr

structure State (Denom : Type) [LinearOrder Denom] where
  bank : Bank Address Denom
  /-- The pools under the names of their base and quote token. -/
  pairs : SortedMap (Denom ×ₗ Denom) (SwapTokenPair Denom)
  feeRate : Dec
  blockTime : Int

variable {Denom : Type} [LinearOrder Denom] [Fintype Denom]

def Coin.toCoins (coin : Coin Denom) : Coins Denom := Coins.single coin.denom coin.amount

/-- Coins of different denominations are not added. -/
def Coin.add (a b : Coin Denom) : Except SwapError (Coin Denom) :=
  if a.denom ≠ b.denom then .error .panic else .ok ⟨a.denom, a.amount + b.amount⟩

def Coin.sub (a b : Coin Denom) : Except SwapError (Coin Denom) :=
  if a.denom ≠ b.denom then .error .panic
  else if a.amount - b.amount < 0 then .error .panic
  else .ok ⟨a.denom, a.amount - b.amount⟩

def getBaseQuoteTokenName (token0 token1 : Denom) : Denom × Denom :=
  if token0 < token1 then (token0, token1) else (token1, token0)

def getSwapTokenPairName (token0 token1 : Denom) : Denom ×ₗ Denom :=
  toLex (getBaseQuoteTokenName token0 token1)

/-- The checks on amounts and names that a message passes before it is handled. -/
def MsgTokenToToken.validateBasic (msg : MsgTokenToToken Denom) : Bool :=
  decide (0 < msg.soldTokenAmount.amount ∧ 0 ≤ msg.minBoughtTokenAmount.amount ∧
    msg.soldTokenAmount.denom ≠ msg.minBoughtTokenAmount.denom)

def MsgTokenToToken.getSwapTokenPairName (msg : MsgTokenToToken Denom) : Denom ×ₗ Denom :=
  Ammswap.getSwapTokenPairName msg.minBoughtTokenAmount.denom msg.soldTokenAmount.denom

def State.getSwapTokenPair (s : State Denom) (name : Denom ×ₗ Denom) :
    Except SwapError (SwapTokenPair Denom) :=
  match s.pairs.get name with
  | none => .error .errNonExistSwapTokenPair
  | some pair => .ok pair

def State.setSwapTokenPair (s : State Denom) (name : Denom ×ₗ Denom) (pair : SwapTokenPair Denom) :
    State Denom :=
  { s with pairs := s.pairs.set name pair }

def mulAndQuo (a b c : Dec) : Option Dec := do
  let auxiliaryDec := Dec.ofInt Dec.precision
  let product := Dec.mulTruncate (Dec.mulTruncate a auxiliaryDec) b
  let quotient ← Dec.quoTruncate product c
  Dec.quoTruncate quotient auxiliaryDec

def getInputPrice (inputAmount inputReserve outputReserve feeRate : Dec) : Option Dec :=
  let inputAmountWithFee :=
    Dec.mulTruncate inputAmount (Dec.mulTruncate (Dec.one - feeRate) (Dec.ofInt 1000))
  let denominator := Dec.mulTruncate inputReserve (Dec.ofInt 1000) + inputAmountWithFee
  mulAndQuo inputAmountWithFee outputReserve denominator

/-- The coin a sale buys; a division by zero or a negative coin panics. -/
def calculateTokenToBuy (pair : SwapTokenPair Denom) (sellToken : Coin Denom) (buyTokenDenom : Denom)
    (feeRate : Dec) : Except SwapError (Coin Denom) :=
  let (inputReserve, outputReserve) := if buyTokenDenom < sellToken.denom then
      (pair.quotePooledCoin.amount, pair.basePooledCoin.amount)
    else
      (pair.basePooledCoin.amount, pair.quotePooledCoin.amount)
  match getInputPrice sellToken.amount inputReserve outputReserve feeRate with
  | none => .error .panic
  | some amount => if amount < 0 then .error .panic else .ok ⟨buyTokenDenom, amount⟩

def hasSufficientCoins (available : Coins Denom) (coin : Coin Denom) : Bool :=
  decide (0 < coin.amount ∧ (available - coin.toCoins).IsValid)

variable (cfg : Config Denom) (s : State Denom)

def sendCoinsToPool (coin : Coin Denom) (sender : Address) : Except SwapError (State Denom) :=
  match s.bank.sendCoins sender cfg.moduleAccount coin.toCoins with
  | .error _ => .error .errSendCoinsToPoolFailed
  | .ok bank => .ok { s with bank }

def sendCoinsFromPoolToAccount (coin : Coin Denom)
    (recipient : Address) : Except SwapError (State Denom) :=
  if cfg.blacklistedAddr recipient then .error .errSendCoinsFromPoolToAccountFailed
  else
    match s.bank.sendCoins cfg.moduleAccount recipient coin.toCoins with
    | .error _ => .error .errSendCoinsFromPoolToAccountFailed
    | .ok bank => .ok { s with bank }

def SwapTokenPair.swapped (pair : SwapTokenPair Denom) (msg : MsgTokenToToken Denom)
    (tokenBuy : Coin Denom) : Except SwapError (SwapTokenPair Denom) :=
  if msg.minBoughtTokenAmount.denom < msg.soldTokenAmount.denom then do
    let quote ← pair.quotePooledCoin.add msg.soldTokenAmount
    let base ← pair.basePooledCoin.sub tokenBuy
    return { quotePooledCoin := quote, basePooledCoin := base }
  else do
    let quote ← pair.quotePooledCoin.sub tokenBuy
    let base ← pair.basePooledCoin.add msg.soldTokenAmount
    return { quotePooledCoin := quote, basePooledCoin := base }

def swapTokenNativeToken (pair : SwapTokenPair Denom)
    (tokenBuy : Coin Denom) (msg : MsgTokenToToken Denom) : Except SwapError (State Denom) := do
  let s ← sendCoinsToPool cfg s msg.soldTokenAmount msg.sender
  let s ← sendCoinsFromPoolToAccount cfg s tokenBuy msg.recipient
  let pair ← pair.swapped msg tokenBuy
  return s.setSwapTokenPair msg.getSwapTokenPairName pair

def SwapTokenPair.isEmpty (pair : SwapTokenPair Denom) : Bool :=
  pair.basePooledCoin.amount = 0 || pair.quotePooledCoin.amount = 0

def swapToken (msg : MsgTokenToToken Denom) : Except SwapError (State Denom) := do
  if !hasSufficientCoins (s.bank msg.sender) msg.soldTokenAmount then
    throw .errInsufficientCoins
  if msg.deadline < s.blockTime then
    throw .errBlockTimeBigThanDeadline
  let pair ← s.getSwapTokenPair msg.getSwapTokenPairName
  if pair.isEmpty then
    throw (.errIsZeroValue "base pooled coin or quote pooled coin")
  let tokenBuy ← calculateTokenToBuy pair msg.soldTokenAmount msg.minBoughtTokenAmount.denom s.feeRate
  if tokenBuy.amount = 0 then
    throw (.errIsZeroValue "token buy")
  if tokenBuy.amount < msg.minBoughtTokenAmount.amount then
    throw (.errLessThan "token buy amount" "min bought token amount")
  swapTokenNativeToken cfg s pair tokenBuy msg

/-- The pool with the native token that a routed swap uses for one of its tokens. -/
def State.nativePair (token : Denom) : Except SwapError (SwapTokenPair Denom) := do
  let pair ← s.getSwapTokenPair (getSwapTokenPairName token cfg.defaultBondDenom)
  if pair.isEmpty then
    throw (.errIsZeroValue "base pooled coin or quote pooled coin")
  return pair

/-- The native amount a routed swap buys with the sold token, and the amount it buys with that. -/
def routeAmounts (msg : MsgTokenToToken Denom)
    (pairOne pairTwo : SwapTokenPair Denom) : Except SwapError (Coin Denom × Coin Denom) := do
  let tokenNative ← calculateTokenToBuy pairOne msg.soldTokenAmount cfg.defaultBondDenom s.feeRate
  if tokenNative.amount = 0 then
    throw (.errIsZeroValue "token native")
  let tokenBuy ← calculateTokenToBuy pairTwo tokenNative msg.minBoughtTokenAmount.denom s.feeRate
  if tokenBuy.amount = 0 then
    throw (.errIsZeroValue "token to buy amount")
  if tokenBuy.amount < msg.minBoughtTokenAmount.amount then
    throw (.errLessThan "token buy amount" "min bought token amount")
  return (tokenNative, tokenBuy)

def swapTokenByRouter (msg : MsgTokenToToken Denom) : Except SwapError (State Denom) := do
  if msg.deadline < s.blockTime then
    throw .errBlockTimeBigThanDeadline
  if !hasSufficientCoins (s.bank msg.sender) msg.soldTokenAmount then
    throw .errInsufficientCoins
  let pairOne ← s.nativePair cfg msg.soldTokenAmount.denom
  let pairTwo ← s.nativePair cfg msg.minBoughtTokenAmount.denom
  let (tokenNative, tokenBuy) ← routeAmounts cfg s msg pairOne pairTwo
  -- both messages are copies of the given one: the recipient gets the native amount, the
  -- sender pays it
  let msgOne := { msg with minBoughtTokenAmount := ⟨cfg.defaultBondDenom, 0⟩ }
  let msgTwo := { msg with soldTokenAmount := tokenNative }
  let s ← swapTokenNativeToken cfg s pairOne tokenNative msgOne
  swapTokenNativeToken cfg s pairTwo tokenBuy msgTwo

def handleMsgTokenToToken (msg : MsgTokenToToken Denom) : Except SwapError (State Denom) :=
  match s.getSwapTokenPair msg.getSwapTokenPairName with
  | .error _ => swapTokenByRouter cfg s msg
  | .ok _ => swapToken cfg s msg

end Exchain.Ammswap
