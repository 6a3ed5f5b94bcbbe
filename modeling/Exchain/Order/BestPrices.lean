import Exchain.Sdk.Dec
import Mathlib.Order.Bounds.Basic

/-! The best prices of a depth book (`x/order/keeper/keeper.go`, `x/order/types/depth_book.go`). -/

namespace Exchain.DepthBook

structure DepthBookItem where
  price : Dec
  buyQuantity : Dec
  sellQuantity : Dec

section

variable {ι α : Type} [LinearOrder α] (price : ι → α) (among : ι → Prop) [DecidablePred among]

/-- The greatest of a start and some values, kept by one comparison each. -/
def running (best : α) (items : List ι) : α :=
  items.foldl (fun best item => if among item ∧ best < price item then price item else best) best

theorem running_spec {best last : α} {items : List ι} (ran : running price among best items = last) :
    best ≤ last ∧ (∀ item ∈ items, among item → price item ≤ last) ∧
      (last = best ∨ ∃ item ∈ items, among item ∧ price item = last) := by
  induction items generalizing best with
  | nil => exact ⟨ran.le, nofun, .inl ran.symm⟩
  | cons item rest ih =>
    obtain ⟨more, bound, found⟩ := ih ran
    rw [List.forall_mem_cons]
    by_cases better : among item ∧ best < price item
    · simp only [if_pos better] at more found
      refine ⟨better.2.le.trans more, ⟨fun _ => more, bound⟩, .inr ?_⟩
      rcases found with same | ⟨other, later, taken⟩
      · exact ⟨item, List.mem_cons_self, better.1, same.symm⟩
      · exact ⟨other, List.mem_cons_of_mem item later, taken⟩
    · simp only [if_neg better] at more found
      refine ⟨more, ⟨fun taken => ?_, bound⟩, found.imp_right ?_⟩
      · exact (not_lt.mp fun less => better ⟨taken, less⟩).trans more
      · rintro ⟨other, later, taken⟩
        exact ⟨other, List.mem_cons_of_mem item later, taken⟩

/-- The loop finds the greatest value, or stays at its start if there is none, unless all are below
the start. -/
theorem running_best_iff (best : α) (items : List ι) :
    let values := {p | ∃ item ∈ items, among item ∧ price item = p}
    values = ∅ ∧ running price among best items = best ∨
        IsGreatest values (running price among best items) ↔
      values = ∅ ∨ ∃ p ∈ values, best ≤ p := by
  intro values
  obtain ⟨more, bound, found⟩ := running_spec price among (rfl : _ = running price among best items)
  constructor
  · rintro (⟨none, -⟩ | greatest)
    · exact .inl none
    · exact .inr ⟨_, greatest.1, more⟩
  rintro (none | ⟨p, ⟨item, inside, taken, rfl⟩, least⟩)
  · refine .inl ⟨none, found.resolve_right fun some => ?_⟩
    have absurd : running price among best items ∈ values := some
    rw [none] at absurd
    exact absurd
  refine .inr ⟨?_, ?_⟩
  · rcases found with same | some
    · exact ⟨item, inside, taken, (bound item inside taken).antisymm (same.le.trans least)⟩
    · exact some
  · rintro _ ⟨other, inside, taken, rfl⟩
    exact bound other inside taken

end

/-- One turn of the loop over the items of the book. -/
def better (best : Dec × Dec) (item : DepthBookItem) : Dec × Dec :=
  (if (0 : Dec) < item.buyQuantity ∧ best.1 < item.price then item.price else best.1,
    if (0 : Dec) < item.sellQuantity ∧ item.price < best.2 then item.price else best.2)

def getBestBidAndAsk (items : List DepthBookItem) : Dec × Dec := items.foldl better (0, 0)

variable (items : List DepthBookItem)

/-- The prices at which something is bought. -/
def bids : Set Dec := {p | ∃ item ∈ items, (0 : Dec) < item.buyQuantity ∧ item.price = p}

def asks : Set Dec := {p | ∃ item ∈ items, (0 : Dec) < item.sellQuantity ∧ item.price = p}

/-- The greatest bid and the least ask, zero for a side without orders. -/
def AreBest (best : Dec × Dec) : Prop :=
  (bids items = ∅ ∧ best.1 = 0 ∨ IsGreatest (bids items) best.1) ∧
    (asks items = ∅ ∧ best.2 = 0 ∨ IsLeast (asks items) best.2)

/-- The best ask is a greatest one in the reversed order. -/
theorem foldl_better (best : Dec × Dec) : items.foldl better best =
    (running DepthBookItem.price (fun item => (0 : Dec) < item.buyQuantity) best.1 items,
      running (α := Decᵒᵈ) DepthBookItem.price (fun item => (0 : Dec) < item.sellQuantity) best.2 items) := by
  induction items generalizing best with
  | nil => rfl
  | cons item rest ih => exact ih (better best item)

/-- The prices found are the best ones exactly when a side with orders has one at a price not beyond
zero, where both loops start: for the asks, one that is not positive. -/
theorem best_iff : AreBest items (getBestBidAndAsk items) ↔
    (bids items = ∅ ∨ ∃ p ∈ bids items, (0 : Dec) ≤ p) ∧ (asks items = ∅ ∨ ∃ p ∈ asks items, p ≤ (0 : Dec)) := by
  rw [getBestBidAndAsk, foldl_better]
  exact and_congr (running_best_iff DepthBookItem.price _ (0 : Dec) items)
    (running_best_iff (α := Decᵒᵈ) DepthBookItem.price _ (0 : Dec) items)

def oneAsk : List DepthBookItem := [⟨Dec.one, 0, Dec.one⟩]

theorem oneAsk_not_best : getBestBidAndAsk oneAsk = (0, 0) ∧ ¬ AreBest oneAsk (0, 0) := by
  have price : Dec.one ∈ asks oneAsk := ⟨_, List.mem_singleton_self _, by decide, rfl⟩
  refine ⟨by decide, fun best => ?_⟩
  rcases best.2 with ⟨none, -⟩ | ⟨⟨item, inside, -, free⟩, -⟩
  · rw [none] at price
    exact price
  · rw [List.mem_singleton.mp inside] at free
    exact absurd free (by decide)

end Exchain.DepthBook
