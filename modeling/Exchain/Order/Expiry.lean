import Exchain.Lib.Run

/-! The expiry of orders at the end of a block (`x/order/match/periodicauction/match.go`). -/

namespace Exchain.OrderExpiry

open Run List

structure Order (Product : Type) where
  /-- The height the order id carries. -/
  height : Nat
  product : Product
  orderExpireBlocks : Nat
deriving DecidableEq

def Order.due {Product : Type} (o : Order Product) : Nat := o.height + o.orderExpireBlocks

structure State (Product : Type) where
  height : Nat
  /-- The stored orders with status `OrderStatusOpen`; the expiry passes over the others. -/
  openOrders : List (Order Product)
  orderExpireBlocks : Nat
  /-- The heights whose orders expire at a height. -/
  expireBlockHeight : Nat → List Nat
  lastExpiredBlockHeight : Nat
  blockOrderNum : Nat → Nat

/-- What comes before the expiry in a block: orders are placed, cancelled (or were filled when the
last block ended), and the end of the governance module may set the parameter. -/
structure Block (Product : Type) where
  placed : List Product
  closed : Order Product → Bool
  orderExpireBlocks : Nat
  positive : 0 < orderExpireBlocks
  /-- The products that earlier blocks have locked. -/
  locked : List Product

variable {Product : Type}

def deliver (b : Block Product) (s : State Product) : State Product :=
  let height := s.height + 1
  { s with
    height
    openOrders := (s.openOrders ++ b.placed.map (Order.mk height · s.orderExpireBlocks)).filter
      fun o => !b.closed o
    orderExpireBlocks := b.orderExpireBlocks
    blockOrderNum := Function.update s.blockOrderNum height b.placed.length }

def markCurBlockToFutureExpireBlockList (s : State Product) : State Product :=
  let futureHeight := s.height + s.orderExpireBlocks
  let futureExpireHeightList := s.expireBlockHeight futureHeight ++ [s.height]
  { s with
    expireBlockHeight := Function.update s.expireBlockHeight futureHeight futureExpireHeightList }

/-- The height up to which the lists were looked at; none is remembered at first. -/
def State.lastExpired (s : State Product) : Nat :=
  if s.lastExpiredBlockHeight = 0 then s.height - 1 else s.lastExpiredBlockHeight

/-- The heights in the lists of some heights in a row. -/
def State.listed (s : State Product) (start count : Nat) : List Nat :=
  (range' start count).flatMap s.expireBlockHeight

/-- The state in which the expiry begins. -/
def arrive (s : State Product) (b : Block Product) : State Product :=
  markCurBlockToFutureExpireBlockList (deliver b s)

/-- The parameter is not changed in a block that places orders, and while no height is remembered no
order is due while a product is locked. -/
def Steady (s : State Product) (b : Block Product) : Prop :=
  (b.placed = [] ∨ b.orderExpireBlocks = s.orderExpireBlocks) ∧
    (s.lastExpiredBlockHeight = 0 → b.locked = [] ∨ s.expireBlockHeight (s.height + 1) = [])

/-- The lists have the height of an order only at the height it is due, and have not been looked at
so far. -/
def Tracked (last : Nat) (s : State Product) (o : Order Product) : Prop :=
  (∀ t, o.height ∈ s.expireBlockHeight t ↔ t = o.due) ∧ last < o.due ∧
    s.blockOrderNum o.height ≠ 0

structure Inv (s : State Product) : Prop where
  tracked : ∀ o ∈ s.openOrders, Tracked { s with height := s.height + 1 }.lastExpired s o
  marked : ∀ t, ∀ h ∈ s.expireBlockHeight t, h ≤ s.height
  remembered : s.lastExpiredBlockHeight ≤ s.height

variable {s : State Product} {b : Block Product} {o : Order Product}

theorem mem_listed {start count h : Nat} : h ∈ s.listed start count ↔
    ∃ t, (start ≤ t ∧ t < start + count) ∧ h ∈ s.expireBlockHeight t := by
  simp [State.listed, mem_range'_1]

theorem lastExpired_le (inv : Inv s) : (arrive s b).lastExpired ≤ s.height := by
  change (if s.lastExpiredBlockHeight = 0 then s.height + 1 - 1 else _) ≤ _
  split
  · omega
  · exact inv.remembered

theorem mem_mark (t h : Nat) : h ∈ (arrive s b).expireBlockHeight t ↔
    h ∈ s.expireBlockHeight t ∨ t = s.height + 1 + b.orderExpireBlocks ∧ h = s.height + 1 := by
  change h ∈ Function.update s.expireBlockHeight (s.height + 1 + b.orderExpireBlocks) _ t ↔ _
  rw [Function.update_apply]
  split
  case isTrue same => simp [same, deliver]
  case isFalse other => exact (or_iff_left fun both => other both.1).symm

theorem arrive_tracked (inv : Inv s) (steady : Steady s b) (inside : o ∈ (arrive s b).openOrders) :
    Tracked (arrive s b).lastExpired (arrive s b) o := by
  have before : (arrive s b).lastExpired ≤ s.height := lastExpired_le inv
  unfold Tracked
  simp only [mem_mark]
  rcases mem_append.mp (mem_filter.mp inside).1 with old | new
  · obtain ⟨listed, pending, counted⟩ := inv.tracked o old
    have earlier := inv.marked o.due o.height ((listed _).mpr rfl)
    refine ⟨fun t => ?_, pending, ?_⟩
    · rw [listed]
      exact or_iff_left fun both => by omega
    · change Function.update s.blockOrderNum _ _ o.height ≠ 0
      rw [Function.update_of_ne (by omega)]
      exact counted
  · obtain ⟨product, placed, rfl⟩ := mem_map.mp new
    have same := steady.1.resolve_left (ne_nil_of_mem placed)
    refine ⟨fun t => ?_, by change _ < s.height + 1 + _; omega, ?_⟩
    · rw [same, or_iff_right fun marked => Nat.not_succ_le_self _ (inv.marked t _ marked)]
      exact and_iff_left rfl
    · change Function.update s.blockOrderNum _ _ (s.height + 1) ≠ 0
      rw [Function.update_self]
      exact fun none => ne_nil_of_mem placed (length_eq_zero_iff.mp none)

/-- An order that a locked block leaves is not due in it, if no height is remembered. -/
theorem pending_of_locked (steady : Steady s b) (held : b.locked ≠ [])
    (none : s.lastExpiredBlockHeight = 0)
    (listed : o.height ∈ (arrive s b).expireBlockHeight o.due) : o.due ≠ s.height + 1 := by
  intro due
  have positive := b.positive
  rw [mem_mark, due, (steady.2 none).resolve_left held] at listed
  rcases listed with old | new
  · cases old
  · omega

variable [DecidableEq Product]

def dropExpiredOrdersByBlockHeight (locked : List Product) (orders : List (Order Product))
    (expiredHeight : Nat) : List (Order Product) :=
  orders.filter fun o => ¬(o.height = expiredHeight ∧ o.product ∉ locked)

/-- The open orders that the first loop of `cacheExpiredBlockToCurrentHeight` leaves. -/
def State.unexpired (locked : List Product) (s : State Product) : List (Order Product) :=
  (s.listed (s.lastExpired + 1) (s.height - s.lastExpired)).foldl
    (dropExpiredOrdersByBlockHeight locked) s.openOrders

def cacheExpiredBlockToCurrentHeight (locked : List Product) (s : State Product) : State Product :=
  let last := s.lastExpired
  let openOrders := s.unexpired locked
  if locked ≠ [] then { s with openOrders }
  else if 1 < s.height then
    { s with
      openOrders
      blockOrderNum := fun h => if h ∈ s.listed last (s.height - last) then 0 else s.blockOrderNum h
      expireBlockHeight := fun h => if last ≤ h ∧ h < s.height then [] else s.expireBlockHeight h
      lastExpiredBlockHeight := s.height }
  else { s with openOrders, lastExpiredBlockHeight := last }

def endBlock (s : State Product) (b : Block Product) : State Product :=
  cacheExpiredBlockToCurrentHeight b.locked (arrive s b)

/-- The block expires exactly the open orders that are due and whose products are not locked, and
drops the number of orders of no height that an open order has. -/
def OnTime (s : State Product) (b : Block Product) : Prop :=
  (endBlock s b).openOrders = (arrive s b).openOrders.filter
      (fun o => ¬(o.due ≤ s.height + 1 ∧ o.product ∉ b.locked)) ∧
    ∀ o ∈ (endBlock s b).openOrders, (endBlock s b).blockOrderNum o.height ≠ 0

theorem foldl_drop (locked : List Product) (heights : List Nat) (orders : List (Order Product)) :
    heights.foldl (dropExpiredOrdersByBlockHeight locked) orders =
      orders.filter fun o => ¬(o.height ∈ heights ∧ o.product ∉ locked) := by
  induction heights generalizing orders with
  | nil => simp
  | cons h rest ih =>
    rw [foldl_cons, ih, dropExpiredOrdersByBlockHeight, filter_filter]
    apply filter_congr
    intro o _
    by_cases same : o.height = h <;> by_cases free : o.product ∉ locked <;> simp [same, free]

theorem endBlock_openOrders : (endBlock s b).openOrders = (arrive s b).unexpired b.locked := by
  unfold endBlock cacheExpiredBlockToCurrentHeight
  dsimp only
  split
  · rfl
  · split <;> rfl

theorem unexpired_eq (inv : Inv s) (steady : Steady s b) : (arrive s b).unexpired b.locked =
    (arrive s b).openOrders.filter fun o => ¬(o.due ≤ s.height + 1 ∧ o.product ∉ b.locked) := by
  rw [State.unexpired, foldl_drop]
  apply filter_congr
  intro o inside
  obtain ⟨listed, pending, -⟩ := arrive_tracked inv steady inside
  have found : o.height ∈ (arrive s b).listed ((arrive s b).lastExpired + 1)
      (s.height + 1 - (arrive s b).lastExpired) ↔ o.due ≤ s.height + 1 := by
    simp only [mem_listed, listed, exists_eq_right]
    omega
  change decide (¬(_ ∈ (arrive s b).listed _ (s.height + 1 - _) ∧ _)) = _
  simp only [found]

theorem unexpired_tracked (inv : Inv s) (steady : Steady s b)
    (inside : o ∈ (arrive s b).unexpired b.locked) :
    Tracked (arrive s b).lastExpired (arrive s b) o ∧ (b.locked = [] → s.height + 1 < o.due) := by
  rw [unexpired_eq inv steady] at inside
  obtain ⟨member, kept⟩ := mem_filter.mp inside
  refine ⟨arrive_tracked inv steady member, fun free => ?_⟩
  simpa [free] using kept

theorem inv_endBlock (inv : Inv s) (steady : Steady s b) : Inv (endBlock s b) := by
  have before : (arrive s b).lastExpired ≤ s.height := lastExpired_le inv
  have marked : ∀ t, ∀ h ∈ (arrive s b).expireBlockHeight t, h ≤ s.height + 1 := by
    intro t h listed
    rcases (mem_mark t h).mp listed with old | ⟨-, rfl⟩
    · exact Nat.le_succ_of_le (inv.marked t h old)
    · exact Nat.le_refl _
  unfold endBlock cacheExpiredBlockToCurrentHeight
  dsimp only
  split
  case isTrue held =>
    refine ⟨fun o inside => ?_, marked, Nat.le_succ_of_le inv.remembered⟩
    obtain ⟨listed, pending, counted⟩ := (unexpired_tracked inv steady inside).1
    refine ⟨listed, ?_, counted⟩
    change (if s.lastExpiredBlockHeight = 0 then s.height + 1 - 1 else _) < o.due at pending
    change (if s.lastExpiredBlockHeight = 0 then s.height + 1 + 1 - 1 else _) < o.due
    split at pending
    case isFalse known =>
      rw [if_neg known]
      exact pending
    case isTrue none =>
      have later := pending_of_locked steady held none ((listed o.due).mpr rfl)
      rw [if_pos none]
      omega
  case isFalse free =>
    have free : b.locked = [] := not_not.mp free
    split
    case isTrue =>
      refine ⟨fun o inside => ?_, fun t h listed => ?_, Nat.le_refl _⟩
      · obtain ⟨⟨listed, -, counted⟩, late⟩ := unexpired_tracked inv steady inside
        have late := late free
        refine ⟨fun t => ?_, late, ?_⟩
        · dsimp only
          split
          case isTrue within =>
            refine iff_of_false not_mem_nil ?_
            have : t < s.height + 1 := within.2
            omega
          case isFalse => exact listed t
        · dsimp only
          rw [if_neg]
          · exact counted
          intro dropped
          obtain ⟨t, within, there⟩ := mem_listed.mp dropped
          have : t < _ + (s.height + 1 - _) := within.2
          have due := (listed t).mp there
          omega
      · dsimp only at listed
        split at listed
        · cases listed
        · exact marked t h listed
    case isFalse first =>
      have first : ¬1 < s.height + 1 := first
      refine ⟨fun o inside => ?_, marked, Nat.le_succ_of_le before⟩
      obtain ⟨⟨listed, -, counted⟩, late⟩ := unexpired_tracked inv steady inside
      refine ⟨listed, ?_, counted⟩
      change (if (arrive s b).lastExpired = 0 then s.height + 1 + 1 - 1 else _) < o.due
      rw [if_pos (by omega)]
      exact late free

def genesis (Product : Type) (height orderExpireBlocks : Nat) : State Product :=
  ⟨height, [], orderExpireBlocks, fun _ => [], 0, fun _ => 0⟩

/-- In a run from the genesis whose blocks are steady, every block expires the orders on time. -/
theorem onTime_of_steady {height orderExpireBlocks : Nat} {blocks : List (Block Product)}
    (steady : Along endBlock Steady (genesis Product height orderExpireBlocks) blocks) :
    Along endBlock OnTime (genesis Product height orderExpireBlocks) blocks := by
  have from_inv : ∀ s, Inv s → Along endBlock Steady s blocks → Along endBlock OnTime s blocks := by
    clear steady
    induction blocks with
    | nil => exact fun _ _ _ => trivial
    | cons b rest ih =>
      intro s inv steady
      have after := inv_endBlock inv steady.1
      refine ⟨⟨?_, fun o inside => (after.tracked o inside).2.2⟩, ih _ after steady.2⟩
      rw [endBlock_openOrders, unexpired_eq inv steady.1]
  refine from_inv _ ⟨fun o inside => ?_, fun t h listed => ?_, Nat.zero_le _⟩ steady
  · cases inside
  · cases listed

/-- A block that places an order or none. -/
def quiet (placed : List Unit) (orderExpireBlocks : Nat) (locked : List Unit) : Block Unit :=
  ⟨placed, fun _ => false, orderExpireBlocks + 1, Nat.succ_pos _, locked⟩

def oneOrder : List (Block Unit) := [quiet [()] 1 [], quiet [] 1 [], quiet [] 1 [()]]

theorem oneOrder_onTime : Along endBlock Steady (genesis Unit 0 2) oneOrder ∧
    Along endBlock OnTime (genesis Unit 0 2) oneOrder :=
  have steady : Along endBlock Steady (genesis Unit 0 2) oneOrder :=
    ⟨⟨.inr rfl, fun _ => .inl rfl⟩, ⟨.inl rfl, fun _ => .inl rfl⟩,
      ⟨.inl rfl, fun none => by cases none⟩, trivial⟩
  ⟨steady, onTime_of_steady steady⟩

/-- The parameter falls from three to one in the block that places an order, and the order expires
at height two instead of four. With a lock at height two, an order due there is still open after the
third block, where nothing is locked. -/
theorem quiet_not_onTime :
    (exec endBlock (genesis Unit 0 3) [quiet [()] 0 []]).openOrders = [⟨1, (), 3⟩] ∧
      (exec endBlock (genesis Unit 0 3) [quiet [()] 0 [], quiet [] 0 []]).openOrders = [] ∧
      (exec endBlock (genesis Unit 0 1)
        [quiet [()] 0 [], quiet [] 0 [()], quiet [] 0 []]).openOrders = [⟨1, (), 1⟩] := by
  decide

end Exchain.OrderExpiry
