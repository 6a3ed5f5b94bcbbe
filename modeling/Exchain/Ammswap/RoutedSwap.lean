import Exchain.Ammswap.Swap
import Exchain.Lib.Fallible

namespace Exchain.Ammswap

open Fallible

variable {Denom : Type} [LinearOrder Denom]

/-- Every pool stands under the names of its two tokens, the smaller name first. -/
def State.Listed (s : State Denom) : Prop := ∀ name pair, s.pairs.get name = some pair →
    (ofLex name).1 < (ofLex name).2 ∧ pair.basePooledCoin.denom = (ofLex name).1 ∧
      pair.quotePooledCoin.denom = (ofLex name).2

def SwapTokenPair.reserves (pair : SwapTokenPair Denom) : Coins Denom :=
  pair.basePooledCoin.toCoins + pair.quotePooledCoin.toCoins

/-- The coins a pool accounts for. -/
def State.reservesAt (s : State Denom) (name : Denom ×ₗ Denom) : Coins Denom :=
  (s.pairs.get name).elim 0 SwapTokenPair.reserves

theorem toCoins_add (denom : Denom) (a b : Dec) :
    (Coin.mk denom (a + b)).toCoins = (Coin.mk denom a).toCoins + (Coin.mk denom b).toCoins := by
  funext d
  by_cases same : d = denom <;> simp [Coin.toCoins, Coins.single, same]

theorem toCoins_sub (denom : Denom) (a b : Dec) :
    (Coin.mk denom (a - b)).toCoins = (Coin.mk denom a).toCoins - (Coin.mk denom b).toCoins := by
  funext d
  by_cases same : d = denom <;> simp [Coin.toCoins, Coins.single, same]

theorem Coin.add_ok {a b c : Coin Denom} (done : a.add b = .ok c) :
    c.toCoins = a.toCoins + b.toCoins := by
  unfold Coin.add at done
  split at done
  · cases done
  rename_i alike
  cases done
  have same : a.denom = b.denom := not_not.mp alike
  rw [toCoins_add]
  cases b
  cases same
  rfl

theorem Coin.sub_ok {a b c : Coin Denom} (done : a.sub b = .ok c) :
    c.toCoins = a.toCoins - b.toCoins := by
  unfold Coin.sub at done
  split at done
  · cases done
  rename_i alike
  split at done
  · cases done
  cases done
  have same : a.denom = b.denom := not_not.mp alike
  rw [toCoins_sub]
  cases b
  cases same
  rfl

variable {pair : SwapTokenPair Denom} {s : State Denom}

theorem swapped_ok {pair' : SwapTokenPair Denom} {msg : MsgTokenToToken Denom}
    {tokenBuy : Coin Denom} (done : pair.swapped msg tokenBuy = .ok pair') :
    pair'.reserves = pair.reserves + msg.soldTokenAmount.toCoins - tokenBuy.toCoins := by
  unfold SwapTokenPair.swapped at done
  split at done
  · obtain ⟨_, added, done⟩ := bind_eq_ok.mp done
    obtain ⟨_, taken, done⟩ := bind_eq_ok.mp done
    cases done
    simp only [SwapTokenPair.reserves, Coin.add_ok added, Coin.sub_ok taken]
    abel
  · obtain ⟨_, taken, done⟩ := bind_eq_ok.mp done
    obtain ⟨_, added, done⟩ := bind_eq_ok.mp done
    cases done
    simp only [SwapTokenPair.reserves, Coin.add_ok added, Coin.sub_ok taken]
    abel

theorem getSwapTokenPairName_comm (a b : Denom) :
    getSwapTokenPairName a b = getSwapTokenPairName b a := by
  unfold getSwapTokenPairName getBaseQuoteTokenName
  rcases lt_trichotomy a b with less | same | more
  · rw [if_pos less, if_neg less.not_gt]
  · rw [same]
  · rw [if_neg more.not_gt, if_pos more]

/-- Two pools with a common token are the same pool only for the same second token. -/
theorem getSwapTokenPairName_inj {a b c : Denom}
    (same : getSwapTokenPairName a c = getSwapTokenPairName b c) : a = b := by
  have pairs : getBaseQuoteTokenName a c = getBaseQuoteTokenName b c := same
  unfold getBaseQuoteTokenName at pairs
  split at pairs
  · split at pairs
    · exact (Prod.mk.inj pairs).1
    · obtain ⟨first, second⟩ := Prod.mk.inj pairs
      exact first.trans second
  · split at pairs
    · obtain ⟨first, second⟩ := Prod.mk.inj pairs
      exact second.trans first
    · exact (Prod.mk.inj pairs).2

theorem State.Listed.ne (listed : s.Listed) {a b : Denom}
    (found : s.pairs.get (getSwapTokenPairName a b) = some pair) : a ≠ b := by
  rintro rfl
  have strict := (listed _ _ found).1
  unfold getSwapTokenPairName getBaseQuoteTokenName at strict
  rw [if_neg (lt_irrefl a)] at strict
  exact lt_irrefl a strict

theorem calculateTokenToBuy_denom {sellToken coin : Coin Denom}
    {buyTokenDenom : Denom} {feeRate : Dec}
    (done : calculateTokenToBuy pair sellToken buyTokenDenom feeRate = .ok coin) :
    coin.denom = buyTokenDenom := by
  unfold calculateTokenToBuy at done
  dsimp only at done
  split at done
  · cases done
  split at done
  · cases done
  cases done
  rfl

theorem nativePair_ok {cfg : Config Denom} {token : Denom}
    (done : s.nativePair cfg token = .ok pair) :
    s.pairs.get (getSwapTokenPairName token cfg.defaultBondDenom) = some pair := by
  simp only [State.nativePair, State.getSwapTokenPair, bind, Except.bind, pure] at done
  cases found : s.pairs.get (getSwapTokenPairName token cfg.defaultBondDenom) with
  | none => simp [found] at done
  | some =>
    simp only [found] at done
    split at done
    · cases done
    rw [Except.ok.inj done]

variable {pairOne pairTwo : SwapTokenPair Denom}

theorem routeAmounts_ok {cfg : Config Denom} {msg : MsgTokenToToken Denom}
    {tokenNative tokenBuy : Coin Denom}
    (done : routeAmounts cfg s msg pairOne pairTwo = .ok (tokenNative, tokenBuy)) :
    tokenNative.denom = cfg.defaultBondDenom ∧ tokenNative.amount ≠ 0 := by
  simp only [routeAmounts, bind, Except.bind, pure] at done
  split at done
  · cases done
  rename_i nativeCoin calculated
  split at done
  · cases done
  rename_i nonzero
  split at done
  · cases done
  split at done
  · cases done
  split at done
  · cases done
  obtain ⟨rfl, -⟩ := Prod.mk.inj (Except.ok.inj done)
  exact ⟨calculateTokenToBuy_denom calculated, nonzero⟩

variable [Fintype Denom]

/-- One leg: the coins it moves between the sender, the pool and the recipient. -/
structure Leg (cfg : Config Denom) (s s' : State Denom) (msg : MsgTokenToToken Denom)
    (pair : SwapTokenPair Denom) (tokenBuy : Coin Denom) : Prop where
  recipient_ne : msg.recipient ≠ cfg.moduleAccount
  bank : ∀ account, s'.bank account =
    s.bank account - (if account = msg.sender then msg.soldTokenAmount.toCoins else 0) +
      (if account = cfg.moduleAccount then msg.soldTokenAmount.toCoins - tokenBuy.toCoins else 0) +
      (if account = msg.recipient then tokenBuy.toCoins else 0)
  pairs : ∃ pair', pair.swapped msg tokenBuy = .ok pair' ∧
    s'.pairs = s.pairs.set msg.getSwapTokenPairName pair'

variable {cfg : Config Denom} {s s' : State Denom}

theorem sendCoinsToPool_ok {coin : Coin Denom}
    {sender : Address} (done : sendCoinsToPool cfg s coin sender = .ok s') :
    s'.pairs = s.pairs ∧ ∀ account, s'.bank account =
      s.bank account - (if account = sender then coin.toCoins else 0) +
        (if account = cfg.moduleAccount then coin.toCoins else 0) := by
  unfold sendCoinsToPool at done
  split at done
  · cases done
  rename_i bank sent
  cases done
  exact ⟨rfl, (Bank.sendCoins_ok sent).2.2⟩

theorem sendCoinsFromPoolToAccount_ok {coin : Coin Denom}
    {recipient : Address} (done : sendCoinsFromPoolToAccount cfg s coin recipient = .ok s') :
    recipient ≠ cfg.moduleAccount ∧ s'.pairs = s.pairs ∧ ∀ account, s'.bank account =
      s.bank account - (if account = cfg.moduleAccount then coin.toCoins else 0) +
        (if account = recipient then coin.toCoins else 0) := by
  unfold sendCoinsFromPoolToAccount at done
  split at done
  · cases done
  rename_i allowed
  split at done
  · cases done
  rename_i bank sent
  cases done
  refine ⟨?_, rfl, (Bank.sendCoins_ok sent).2.2⟩
  rintro rfl
  exact allowed cfg.module_blacklisted

variable {msg : MsgTokenToToken Denom}

theorem swapTokenNativeToken_ok {tokenBuy : Coin Denom}
    (done : swapTokenNativeToken cfg s pair tokenBuy msg = .ok s') :
    Leg cfg s s' msg pair tokenBuy := by
  obtain ⟨_, paid, done⟩ := bind_eq_ok.mp done
  obtain ⟨s₂, received, done⟩ := bind_eq_ok.mp done
  obtain ⟨pair', swapped, done⟩ := bind_eq_ok.mp done
  cases done
  obtain ⟨samePairs, afterPaid⟩ := sendCoinsToPool_ok paid
  obtain ⟨notModule, samePairs', afterReceived⟩ := sendCoinsFromPoolToAccount_ok received
  refine ⟨notModule, ?_, pair', swapped, ?_⟩
  · intro account
    change s₂.bank account = _
    rw [afterReceived, afterPaid]
    by_cases atModule : account = cfg.moduleAccount
    · simp only [atModule, if_true]
      abel
    · simp only [atModule, if_false]
      abel
  · change s₂.pairs.set _ pair' = _
    rw [samePairs', samePairs]

/-- The native amount and the bought amount that the two pools give for the sold amount. -/
def routedPurchase (cfg : Config Denom) (s : State Denom) (msg : MsgTokenToToken Denom) :
    Except SwapError (Coin Denom × Coin Denom) := do
  let pairOne ← s.nativePair cfg msg.soldTokenAmount.denom
  let pairTwo ← s.nativePair cfg msg.minBoughtTokenAmount.denom
  routeAmounts cfg s msg pairOne pairTwo

theorem swapTokenByRouter_ok (done : swapTokenByRouter cfg s msg = .ok s') :
    ∃ pairOne pairTwo tokenNative tokenBuy s₁,
      s.nativePair cfg msg.soldTokenAmount.denom = .ok pairOne ∧
      s.nativePair cfg msg.minBoughtTokenAmount.denom = .ok pairTwo ∧
      routeAmounts cfg s msg pairOne pairTwo = .ok (tokenNative, tokenBuy) ∧
      Leg cfg s s₁ { msg with minBoughtTokenAmount := ⟨cfg.defaultBondDenom, 0⟩ } pairOne
        tokenNative ∧
      Leg cfg s₁ s' { msg with soldTokenAmount := tokenNative } pairTwo tokenBuy := by
  simp only [swapTokenByRouter, bind, Except.bind] at done
  split at done
  · cases done
  split at done
  · cases done
  split at done
  · cases done
  rename_i pairOne foundOne
  split at done
  · cases done
  rename_i pairTwo foundTwo
  split at done
  · cases done
  rename_i amounts calculated
  split at done
  · cases done
  rename_i s₁ first
  exact ⟨pairOne, pairTwo, amounts.1, amounts.2, s₁, foundOne, foundTwo, calculated,
    swapTokenNativeToken_ok first, swapTokenNativeToken_ok done⟩

/-- The sender pays the sold coin only, the recipient gets the coin bought through the two pools
only, and the module account moves with their reserves. -/
structure ChargesAsAgreed (cfg : Config Denom) (s s' : State Denom) (msg : MsgTokenToToken Denom)
    (bought : Coin Denom) : Prop where
  accounts : ∀ account, account ≠ cfg.moduleAccount → s'.bank account =
    s.bank account - (if account = msg.sender then msg.soldTokenAmount.toCoins else 0) +
      (if account = msg.recipient then bought.toCoins else 0)
  pool : s'.bank cfg.moduleAccount - s.bank cfg.moduleAccount =
    (s'.reservesAt (getSwapTokenPairName msg.soldTokenAmount.denom cfg.defaultBondDenom) -
        s.reservesAt (getSwapTokenPairName msg.soldTokenAmount.denom cfg.defaultBondDenom)) +
      (s'.reservesAt (getSwapTokenPairName msg.minBoughtTokenAmount.denom cfg.defaultBondDenom) -
        s.reservesAt (getSwapTokenPairName msg.minBoughtTokenAmount.denom cfg.defaultBondDenom))

omit [Fintype Denom] in
theorem routed_reserves {s₁ : State Denom} {nativeCoin bought : Coin Denom}
    (valid : msg.validateBasic = true) (storedOne : s.pairs.get
      (getSwapTokenPairName msg.soldTokenAmount.denom cfg.defaultBondDenom) = some pairOne)
    (storedTwo : s.pairs.get
      (getSwapTokenPairName msg.minBoughtTokenAmount.denom cfg.defaultBondDenom) = some pairTwo)
    (nativeDenom : nativeCoin.denom = cfg.defaultBondDenom)
    (first : Leg cfg s s₁ { msg with minBoughtTokenAmount := ⟨cfg.defaultBondDenom, 0⟩ } pairOne nativeCoin)
    (second : Leg cfg s₁ s' { msg with soldTokenAmount := nativeCoin } pairTwo bought) :
    s'.reservesAt (getSwapTokenPairName msg.soldTokenAmount.denom cfg.defaultBondDenom) =
        s.reservesAt (getSwapTokenPairName msg.soldTokenAmount.denom cfg.defaultBondDenom) +
          msg.soldTokenAmount.toCoins - nativeCoin.toCoins ∧
      s'.reservesAt (getSwapTokenPairName msg.minBoughtTokenAmount.denom cfg.defaultBondDenom) =
        s.reservesAt (getSwapTokenPairName msg.minBoughtTokenAmount.denom cfg.defaultBondDenom) +
          nativeCoin.toCoins - bought.toCoins := by
  obtain ⟨_, doneOne, pairsOne⟩ := first.pairs
  obtain ⟨_, doneTwo, pairsTwo⟩ := second.pairs
  have nameOne : MsgTokenToToken.getSwapTokenPairName
      { msg with minBoughtTokenAmount := ⟨cfg.defaultBondDenom, 0⟩ } =
      getSwapTokenPairName msg.soldTokenAmount.denom cfg.defaultBondDenom :=
    getSwapTokenPairName_comm _ _
  have nameTwo : MsgTokenToToken.getSwapTokenPairName { msg with soldTokenAmount := nativeCoin } =
      getSwapTokenPairName msg.minBoughtTokenAmount.denom cfg.defaultBondDenom := by
    rw [← nativeDenom]
    rfl
  have namesDiffer : getSwapTokenPairName msg.soldTokenAmount.denom cfg.defaultBondDenom ≠
      getSwapTokenPairName msg.minBoughtTokenAmount.denom cfg.defaultBondDenom := by
    intro sameName
    simp [MsgTokenToToken.validateBasic, getSwapTokenPairName_inj sameName] at valid
  rw [nameTwo, pairsOne, nameOne] at pairsTwo
  simp only [State.reservesAt, storedOne, storedTwo, pairsTwo]
  rw [SortedMap.get_set_ne _ _ namesDiffer, SortedMap.get_set_self, SortedMap.get_set_self]
  have soldToOne := swapped_ok doneOne
  have soldToTwo := swapped_ok doneTwo
  exact ⟨soldToOne, soldToTwo⟩

/-- A routed swap charges what was agreed exactly when the sender is the recipient. -/
theorem routed_swap_charges_iff (cfg : Config Denom) (s s' : State Denom)
    (msg : MsgTokenToToken Denom) (listed : s.Listed) (valid : msg.validateBasic = true)
    (noPool : s.pairs.get msg.getSwapTokenPairName = none)
    (done : handleMsgTokenToToken cfg s msg = .ok s') :
    ∃ nativeCoin bought, routedPurchase cfg s msg = .ok (nativeCoin, bought) ∧
      (ChargesAsAgreed cfg s s' msg bought ↔ msg.sender = msg.recipient) := by
  have routed : swapTokenByRouter cfg s msg = .ok s' := by
    simpa [handleMsgTokenToToken, State.getSwapTokenPair, noPool] using done
  obtain ⟨_, _, nativeCoin, bought, _, foundOne, foundTwo, amounts, first, second⟩ :=
    swapTokenByRouter_ok routed
  have storedOne := nativePair_ok foundOne
  have storedTwo := nativePair_ok foundTwo
  obtain ⟨nativeDenom, nativeAmount⟩ := routeAmounts_ok amounts
  have soldNotNative := listed.ne storedOne
  have notModule : msg.recipient ≠ cfg.moduleAccount := first.recipient_ne
  refine ⟨nativeCoin, bought, by simp [routedPurchase, foundOne, foundTwo, amounts, bind, Except.bind], ?_⟩
  constructor
  · intro agreed
    by_contra differ
    -- the sender pays the native amount out of the own balance
    by_cases isModule : msg.sender = cfg.moduleAccount
    · have got := agreed.accounts msg.recipient notModule
      rw [second.bank, first.bank] at got
      have at_native := congrFun got cfg.defaultBondDenom
      simp [Ne.symm differ, notModule, Coin.toCoins, Coins.single, nativeDenom] at at_native
      exact nativeAmount at_native
    · have paid := agreed.accounts msg.sender isModule
      rw [second.bank, first.bank] at paid
      have at_native := congrFun paid cfg.defaultBondDenom
      simp [differ, isModule, Coin.toCoins, Coins.single, nativeDenom] at at_native
      exact nativeAmount at_native
  · intro same
    constructor
    · intro account notPool
      rw [second.bank, first.bank]
      by_cases atSender : account = msg.sender
      · simp only [atSender, same, notModule, if_false]
        abel
      · have atRecipient : account ≠ msg.recipient := same ▸ atSender
        simp [atSender, atRecipient, notPool]
    · have notSender : cfg.moduleAccount ≠ msg.sender := same ▸ notModule.symm
      obtain ⟨afterOne, afterTwo⟩ :=
        routed_reserves valid storedOne storedTwo nativeDenom first second
      rw [afterOne, afterTwo, second.bank, first.bank]
      simp only [notSender, Ne.symm notModule, if_true, if_false]
      abel

/-- Three tokens, the middle one nativeCoin, and the account of the module. -/
def threeTokens : Config (Fin 3) where
  defaultBondDenom := 1
  moduleAccount := 9
  blacklistedAddr := fun addr => addr == 9
  module_blacklisted := rfl

/-- Two pools with one thousand of each token; account 1 holds ten of each token. -/
def twoPools : State (Fin 3) where
  bank := fun addr =>
    if addr = 9 then fun _ => Dec.ofInt 2000
    else if addr = 1 then fun _ => Dec.ofInt 10
    else 0
  pairs := ((∅ : SortedMap (Fin 3 ×ₗ Fin 3) (SwapTokenPair (Fin 3))).set (toLex (0, 1))
      ⟨⟨1, Dec.ofInt 1000⟩, ⟨0, Dec.ofInt 1000⟩⟩).set (toLex (1, 2))
      ⟨⟨2, Dec.ofInt 1000⟩, ⟨1, Dec.ofInt 1000⟩⟩
  feeRate := 0
  blockTime := 0

def sellOne (recipient : Address) : MsgTokenToToken (Fin 3) where
  soldTokenAmount := ⟨0, Dec.ofInt 1⟩
  minBoughtTokenAmount := ⟨2, 0⟩
  deadline := 1
  recipient := recipient
  sender := 1

/-- The state after account 1 sold one token for the given recipient. -/
def afterSale (recipient : Address) : State (Fin 3) :=
  (handleMsgTokenToToken threeTokens twoPools (sellOne recipient)).toOption.getD twoPools

theorem twoPools_listed : twoPools.Listed := by
  intro name pair found
  simp only [twoPools, SortedMap.get_set] at found
  split at found
  · rename_i same
    cases found
    subst same
    decide
  split at found
  · rename_i same
    cases found
    subst same
    decide
  · cases found

/-- Account 1 sells for account 2 and pays, besides the sold token, almost one native token, which
account 2 receives. -/
theorem routed_swap_overcharges :
    ∃ s' nativeCoin bought, handleMsgTokenToToken threeTokens twoPools (sellOne 2) = .ok s' ∧
      routedPurchase threeTokens twoPools (sellOne 2) = .ok (nativeCoin, bought) ∧
      s'.bank 1 1 = twoPools.bank 1 1 - 999000999000999000 ∧
      s'.bank 2 1 = twoPools.bank 2 1 + 999000999000999000 ∧
      ¬ ChargesAsAgreed threeTokens twoPools s' (sellOne 2) bought := by
  have paid : (afterSale 2).bank 1 1 = twoPools.bank 1 1 - 999000999000999000 := by decide
  have bought : routedPurchase threeTokens twoPools (sellOne 2) =
      .ok (⟨1, 999000999000999000⟩, ⟨2, 998003992015968062⟩) := by rfl
  refine ⟨afterSale 2, _, _, rfl, bought, paid, by decide, ?_⟩
  intro agreed
  have unchanged := congrFun (agreed.accounts 1 (by decide)) 1
  revert unchanged
  decide

/-- Account 1 sells for itself and is charged what was agreed. -/
theorem routed_swap_charges_sender :
    ∃ nativeCoin bought, routedPurchase threeTokens twoPools (sellOne 1) = .ok (nativeCoin, bought) ∧
      ChargesAsAgreed threeTokens twoPools (afterSale 1) (sellOne 1) bought := by
  obtain ⟨nativeCoin, bought, purchase, agreed⟩ :=
    routed_swap_charges_iff threeTokens twoPools (afterSale 1) (sellOne 1) twoPools_listed
      (by decide) (by decide) rfl
  exact ⟨nativeCoin, bought, purchase, agreed.mpr rfl⟩

end Exchain.Ammswap
