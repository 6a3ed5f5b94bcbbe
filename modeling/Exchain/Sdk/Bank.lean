import Exchain.Sdk.Dec
import Mathlib.Algebra.Order.Pi

/-! Coins of several denominations and the accounts that hold them. A list of coins is the function
of each denomination to its amount, zero for those not in the list. -/

namespace Exchain

abbrev Coins (Denom : Type) := Denom → Dec

namespace Coins

variable {Denom : Type} (c : Coins Denom)

def IsValid : Prop := ∀ denom, 0 ≤ c denom

instance [Fintype Denom] (c : Coins Denom) : Decidable c.IsValid :=
  inferInstanceAs (Decidable (∀ denom, 0 ≤ c denom))

def single [DecidableEq Denom] (denom : Denom) (amount : Dec) : Coins Denom := fun d => if d = denom then amount else 0

theorem single_eq [DecidableEq Denom] (denom : Denom) (amount : Dec) :
    single denom amount = Pi.single denom amount := by
  funext d
  simp [single, Pi.single_apply]

def mulDecTruncate (x : Dec) : Coins Denom := fun d => Dec.mulTruncate (c d) x

def mulDec (x : Dec) : Coins Denom := fun d => Dec.mul (c d) x

/-- Dividing by zero panics. -/
def quoDecTruncate (x : Dec) : Option (Coins Denom) :=
  if x = 0 then none else some fun d => FixedPoint.quoTruncate Dec.precision (c d) x

/-- A difference with a negative amount panics. -/
def sub [Fintype Denom] (a b : Coins Denom) : Option (Coins Denom) :=
  if IsValid (a - b) then some (a - b) else none

/-- Trim every coin to what the second list has of it. -/
def intersect (a b : Coins Denom) : Coins Denom := fun d => if a d = 0 then 0 else min (a d) (b d)

def truncateWithPrec (prec : Nat) (c : Coins Denom) : Coins Denom :=
  fun d => Dec.truncateWithPrec prec (c d)

theorem isValid_iff : c.IsValid ↔ 0 ≤ c := Iff.rfl

theorem sub_of_le [Fintype Denom] {a b : Coins Denom} (enough : b ≤ a) : sub a b = some (a - b) :=
  if_pos ((isValid_iff _).mpr (sub_nonneg.mpr enough))

end Coins

inductive SendError where
  | errInvalidCoins
  | errInsufficientFunds
  deriving DecidableEq, Repr

abbrev Bank (Account Denom : Type) := Account → Coins Denom

namespace Bank

variable {Account Denom : Type} [DecidableEq Account] [Fintype Denom]

def sendCoins (bank : Bank Account Denom) (sender recipient : Account) (amt : Coins Denom) :
    Except SendError (Bank Account Denom) :=
  if ¬ amt.IsValid then .error .errInvalidCoins
  else if ¬ (bank sender - amt).IsValid then .error .errInsufficientFunds
  else
    -- the recipient is read after the sender was written, so the two may be one account
    let debited := Function.update bank sender (bank sender - amt)
    .ok (Function.update debited recipient (debited recipient + amt))

/-- What a transfer leaves on every account, the sender and the recipient included. -/
theorem sendCoins_ok {bank bank' : Bank Account Denom} {sender recipient : Account}
    {amt : Coins Denom} (done : bank.sendCoins sender recipient amt = .ok bank') :
    0 ≤ amt ∧ amt ≤ bank sender ∧ ∀ account, bank' account =
      bank account - (if account = sender then amt else 0) +
        (if account = recipient then amt else 0) := by
  unfold sendCoins at done
  split at done
  · cases done
  rename_i valid
  split at done
  · cases done
  rename_i enough
  refine ⟨(Coins.isValid_iff _).mp (not_not.mp valid),
    sub_nonneg.mp ((Coins.isValid_iff _).mp (not_not.mp enough)), ?_⟩
  intro account
  cases done
  by_cases atRecipient : account = recipient
  · subst atRecipient
    by_cases atSender : account = sender
    · subst atSender
      simp
    · simp [atSender]
  · by_cases atSender : account = sender
    · subst atSender
      simp [atRecipient]
    · simp [atRecipient, atSender]

theorem sendCoins_succeeds {bank : Bank Account Denom} {sender recipient : Account}
    {amt : Coins Denom} (valid : 0 ≤ amt) (enough : amt ≤ bank sender) :
    ∃ bank', bank.sendCoins sender recipient amt = .ok bank' := by
  unfold sendCoins
  rw [if_neg (not_not.mpr ((Coins.isValid_iff _).mpr valid)),
    if_neg (not_not.mpr ((Coins.isValid_iff _).mpr (sub_nonneg.mpr enough)))]
  exact ⟨_, rfl⟩

end Bank

end Exchain
