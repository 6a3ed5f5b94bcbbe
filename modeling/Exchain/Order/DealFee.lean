import Exchain.Lib.Run
import Exchain.Sdk.Bank

/-! The fees an order pays when it is filled, and the deal fee its extra information records
(`x/order/match/periodicauction/fill.go`, `x/order/keeper/fee.go`, `x/order/types/order.go`). -/

namespace Exchain.PeriodicAuction

open Run

variable {Denom : Type} [DecidableEq Denom]

inductive Side
  | buy
  | sell

structure Order (Denom : Type) where
  side : Side
  product : Denom × Denom
  remainQuantity : Dec
  /-- The status is `OrderStatusFilled`. -/
  filled : Bool
  feePerBlock : Denom × Dec
  /-- The height the order id carries. -/
  orderHeight : Int
  orderExpireBlocks : Int
  /-- The text under the key `dealFee`: its amounts, and whether `ParseDecCoins` accepts it. -/
  dealFee : Option (Coins Denom × Bool)

/-- One call of `fillOrder`, with what it reads besides the order. -/
structure Fill where
  quantity : Dec
  lastPrice : Dec
  tradeFeeRate : Dec
  height : Int
  /-- `SendFeesToProductOwner` returns no error. -/
  sent : Bool

def getZeroFee (bond : Denom) : Denom × Dec := (bond, 0)

def getOrderCostFee (bond : Denom) (order : Order Denom) (height : Int) : Denom × Dec :=
  let blockNum := height - order.orderHeight
  if blockNum < 0 then getZeroFee bond
  else (order.feePerBlock.1,
    Dec.mul order.feePerBlock.2 (Dec.ofInt (min blockNum order.orderExpireBlocks)))

def minFee : Dec := Dec.withPrec 1 8

variable (order : Order Denom)

def getDealFee (f : Fill) : Denom × Dec :=
  let (symbol, quantity) := match order.side with
    | .buy => (order.product.1, f.quantity)
    | .sell => (order.product.2, Dec.mul f.quantity f.lastPrice)
  let feeAmt := Dec.mul quantity f.tradeFeeRate
  (symbol, if minFee < feeAmt then feeAmt else minFee)

def Order.fill (fillAmount : Dec) : Order Denom :=
  let remain := order.remainQuantity - fillAmount
  { order with remainQuantity := remain, filled := order.filled || remain == 0 }

/-- A text with a zero coin is not parsed, and then stays. -/
def Order.recordOrderDealFee (fee : Denom × Dec) : Order Denom :=
  { order with dealFee := match order.dealFee with
    | none => some (Coins.single fee.1 fee.2, decide (0 < fee.2))
    | some (old, true) => some (old + Coins.single fee.1 fee.2, true)
    | some (old, false) => some (old, false) }

/-- An order with the deal fees its sender has paid for it. -/
structure Account (Denom : Type) where
  order : Order Denom
  paid : Coins Denom

/-- `chargeFee` on the filled order. The fee it records is not the one it has sent. -/
def chargeFee (bond : Denom) (s : Account Denom) (f : Fill) : Account Denom :=
  let fee := if s.order.filled then getOrderCostFee bond s.order f.height else getZeroFee bond
  let dealFee := getDealFee s.order f
  if f.sent then ⟨s.order.recordOrderDealFee fee, s.paid + Coins.single dealFee.1 dealFee.2⟩ else s

def fillOrder (bond : Denom) (s : Account Denom) (f : Fill) : Account Denom :=
  chargeFee bond { s with order := s.order.fill f.quantity } f

/-- The amounts of the recorded deal fee. -/
def Order.recorded : Coins Denom := (order.dealFee.map Prod.fst).getD 0

/-- The record is what was paid, in a text the next fill can parse. -/
def Recorded (s : Account Denom) : Prop :=
  s.order.recorded = s.paid ∧ ∀ old, s.order.dealFee ≠ some (old, false)

/-- The fee is not sent, or the fill completes the order and it has cost what the deal is charged.
-/
def Charged (bond : Denom) (s : Account Denom) (f : Fill) : Prop :=
  f.sent = true → (s.order.filled = true ∨ s.order.remainQuantity = f.quantity) ∧
    getOrderCostFee bond s.order f.height = getDealFee s.order f

omit [DecidableEq Denom] in
theorem getDealFee_pos (f : Fill) : 0 < (getDealFee order f).2 := by
  have least : 0 < minFee := by decide
  unfold getDealFee
  dsimp only
  split_ifs with more
  · exact lt_trans least more
  · exact least

theorem single_inj {fee deal : Denom × Dec} (positive : 0 < deal.2)
    (same : Coins.single fee.1 fee.2 = Coins.single deal.1 deal.2) : fee = deal := by
  have here := congrFun same deal.1
  simp only [Coins.single, if_true] at here
  split at here
  case isTrue denom => exact Prod.ext denom.symm here
  case isFalse => exact absurd here positive.ne

theorem recorded_recordOrderDealFee {s : Account Denom} (held : Recorded s) (fee : Denom × Dec) :
    (s.order.recordOrderDealFee fee).recorded = s.paid + Coins.single fee.1 fee.2 := by
  obtain ⟨same, parsed⟩ := held
  rw [← same]
  unfold Order.recordOrderDealFee Order.recorded
  match found : s.order.dealFee with
  | none => simp
  | some (old, true) => simp
  | some (old, false) => exact absurd found (parsed old)

theorem parsed_recordOrderDealFee {order : Order Denom}
    (parsed : ∀ old, order.dealFee ≠ some (old, false)) {fee : Denom × Dec} (positive : 0 < fee.2)
    (old : Coins Denom) : (order.recordOrderDealFee fee).dealFee ≠ some (old, false) := by
  unfold Order.recordOrderDealFee
  match found : order.dealFee with
  | none => simp [positive]
  | some (before, true) => simp
  | some (before, false) => exact absurd found (parsed before)

section Charge

variable {bond : Denom} {s : Account Denom} {f : Fill}

omit [DecidableEq Denom] in
/-- `Charged` is about the order before the fill, `chargeFee` reads the order after it. -/
theorem charged_iff : Charged bond s f ↔ (f.sent = true → (s.order.fill f.quantity).filled = true ∧
    getOrderCostFee bond (s.order.fill f.quantity) f.height =
      getDealFee (s.order.fill f.quantity) f) := by
  simp only [Charged, Order.fill, Bool.or_eq_true, beq_iff_eq, sub_eq_zero]
  rfl

theorem Recorded.fillOrder (held : Recorded s) (charged : Charged bond s f) :
    Recorded (fillOrder bond s f) := by
  have filled : Recorded { s with order := s.order.fill f.quantity } := held
  rw [charged_iff] at charged
  unfold PeriodicAuction.fillOrder chargeFee
  dsimp only
  split
  case isFalse => exact filled
  case isTrue sent =>
    obtain ⟨complete, same⟩ := charged sent
    rw [if_pos complete, same]
    exact ⟨recorded_recordOrderDealFee filled _,
      parsed_recordOrderDealFee filled.2 (getDealFee_pos _ f)⟩

theorem charged_of_recorded (held : Recorded s)
    (same : (fillOrder bond s f).order.recorded = (fillOrder bond s f).paid) :
    Charged bond s f := by
  have filled : Recorded { s with order := s.order.fill f.quantity } := held
  rw [charged_iff]
  intro sent
  unfold fillOrder chargeFee at same
  rw [if_pos sent] at same
  dsimp only at same
  rw [recorded_recordOrderDealFee filled] at same
  have fees := single_inj (getDealFee_pos _ f) (add_left_cancel same)
  split at fees
  case isTrue complete => exact ⟨complete, fees⟩
  case isFalse => exact absurd (congrArg Prod.snd fees) (getDealFee_pos _ f).ne

end Charge

/-- From an order without deals, the recorded deal fee is the sum of those paid in every state the
fills lead through exactly when every fill whose fee is sent completes the order and charges what
the order has cost. -/
theorem recorded_iff_charged (bond : Denom) (order : Order Denom) (fills : List Fill) :
    (∀ s ∈ visited (fillOrder bond) ⟨{ order with dealFee := none }, 0⟩ fills,
        s.order.recorded = s.paid) ↔
      Along (fillOrder bond) (Charged bond) ⟨{ order with dealFee := none }, 0⟩ fills := by
  have start : Recorded (⟨{ order with dealFee := none }, 0⟩ : Account Denom) := by
    simp [Recorded, Order.recorded]
  exact visited_iff_along Recorded (fun _ held => held.1) (fun _ _ held => held.fillOrder)
    (fun _ _ held => charged_of_recorded held) start

/-- A buy order of ten, placed at height 1. -/
def tenBought : Order Bool :=
  ⟨.buy, (true, false), Dec.ofInt 10, false, (false, Dec.withPrec 1 6), 1, 259200, none⟩

/-- A fill of half of it at height 2. -/
def fiveFilled : Fill := ⟨Dec.ofInt 5, Dec.one, Dec.withPrec 1 3, 2, true⟩

/-- It pays 0.005 of the base token and records a zero coin of the bond token. -/
theorem tenBought_not_recorded :
    ∃ s ∈ visited (fillOrder false) ⟨tenBought, 0⟩ [fiveFilled],
      s.paid true = Dec.withPrec 5 3 ∧ s.order.recorded true = 0 :=
  ⟨fillOrder false ⟨tenBought, 0⟩ fiveFilled, by simp [visited], by decide⟩

end Exchain.PeriodicAuction
