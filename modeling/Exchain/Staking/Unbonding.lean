import Exchain.Staking.Ledger

namespace Exchain.Staking

open SortedMap
open List hiding sum_set
open Distribution (Chain Header Funds Account)

/-- What the events say an account has withdrawn and was not paid. -/
def owedTo (addr : Address) : Event → Dec
  | .unbond _ sender amount _ => if sender = addr then amount else 0
  | .completeUnbonding _ delegator amount => if delegator = addr then -amount else 0

/-- The withdrawals of an account that are under way, each with the time it completes. -/
def pendingStep (addr : Address) (pending : List (Dec × Time)) : Event → List (Dec × Time)
  | .unbond _ sender amount completionTime =>
    if sender = addr then pending ++ [(amount, completionTime)] else pending
  | .completeUnbonding _ delegator _ => if delegator = addr then [] else pending

def pendingOf (addr : Address) (events : List Event) : List (Dec × Time) :=
  events.foldl (pendingStep addr) []

/-- A payment comes when every withdrawal it is for is due, and it pays all of them. -/
def Timely (events : List Event) : Event → Prop
  | .unbond _ _ _ _ => True
  | .completeUnbonding time addr amount =>
    (∀ withdrawal ∈ pendingOf addr events, withdrawal.2 ≤ time) ∧
      amount = ((pendingOf addr events).map (·.1)).sum

def AllTimely (events : List Event) : Prop :=
  ∀ before event after, events = before ++ event :: after → Timely before event

theorem pendingOf_concat (addr : Address) (events : List Event) (event : Event) :
    pendingOf addr (events ++ [event]) = pendingStep addr (pendingOf addr events) event := by
  rw [pendingOf, foldl_append]
  rfl

theorem allTimely_concat {events : List Event} {event : Event} (all : AllTimely events)
    (last : Timely events event) : AllTimely (events ++ [event]) := by
  intro before e after split
  rcases eq_nil_or_concat after with rfl | ⟨rest, e', rfl⟩
  · obtain ⟨rfl, same⟩ := append_inj' split rfl
    obtain rfl := head_eq_of_cons_eq same
    exact last
  · rw [concat_eq_append, ← cons_append, ← append_assoc] at split
    obtain ⟨earlier, -⟩ := append_inj' split rfl
    exact all before e rest earlier

variable {Denom : Type} [DecidableEq Denom]

/-- The pools back what is owed, and the queue has one key for every record. -/
structure Ledger.Settled (chain : Chain Denom) (l : Ledger Denom) : Prop where
  keyed : l.Keyed
  nonneg : ∀ addr info, l.undelegations.get addr = some info → 0 ≤ info.quantity
  queued : ∀ time addr, l.queue.get (toLex (time, addr)) = some () ↔
    ∃ info, l.undelegations.get addr = some info ∧ info.completionTime = time
  backed : l.surplus = 0
  owed : l.notBonded = bondCoins chain (l.undelegations.sum fun _ info => info.quantity)
  recorded : ∀ addr, (l.events.map (owedTo addr)).sum =
    (l.undelegations.get addr).elim 0 (·.quantity)

/-- The records know when the withdrawals that are under way complete. -/
structure Ledger.Punctual (l : Ledger Denom) : Prop where
  timely : AllTimely l.events
  none_pending : ∀ addr, l.undelegations.get addr = none → pendingOf addr l.events = []
  latest : ∀ addr info, l.undelegations.get addr = some info →
    ∀ withdrawal ∈ pendingOf addr l.events, withdrawal.2 ≤ info.completionTime
  whole : ∀ addr info, l.undelegations.get addr = some info →
    info.quantity = ((pendingOf addr l.events).map (·.1)).sum

section

variable {chain : Chain Denom} {l : Ledger Denom}

section

variable (settled : l.Settled chain)

include settled

variable {del : Address}

/-- An amount joins the record of an account, whose key is no longer in the queue. -/
theorem Ledger.Settled.enter (now : Time) {amount : Dec}
    (queue : SortedMap (Time ×ₗ Address) Unit) (info : UndelegationInfo) (nonneg : 0 ≤ amount)
    (address : info.delegatorAddress = del)
    (quantity : info.quantity = (l.undelegations.get del).elim 0 (·.quantity) + amount)
    (cleared : ∀ time addr, queue.get (toLex (time, addr)) = some () ↔
      addr ≠ del ∧ l.queue.get (toLex (time, addr)) = some ()) :
    (Ledger.enter chain { l with queue } now del amount info).Settled chain where
  keyed := forall_set address fun addr _ => settled.keyed addr
  nonneg := by
    refine forall_set ?_ fun addr _ => settled.nonneg addr
    rw [quantity]
    cases old : l.undelegations.get del with
    | none => simpa using nonneg
    | some before => exact add_nonneg (settled.nonneg del before old) nonneg
  queued time addr := by
    change (queue.set (toLex (info.completionTime, del)) ()).get _ = _ ↔
      ∃ info, (l.undelegations.set del _).get addr = some info ∧ _
    simp only [get_set, toLex_inj, Prod.mk.injEq]
    by_cases here : addr = del
    · by_cases same : time = info.completionTime
      · simp [here, same]
      · simp [here, same, cleared, Ne.symm same]
    · simp only [here, and_false, if_false, cleared, ne_eq, not_false_eq_true, true_and]
      exact settled.queued time addr
  backed := settled.backed
  owed := by
    change l.notBonded + _ = bondCoins chain ((l.undelegations.set del _).sum _)
    rw [sum_set, settled.owed, ← bondCoins_add, quantity]
    congr 1
    ring
  recorded addr := by
    change ((l.events ++ [_]).map (owedTo addr)).sum =
      ((l.undelegations.set del _).get addr).elim _ _
    rw [map_append, sum_append, settled.recorded, get_set]
    by_cases here : addr = del
    · rw [if_pos here, here, Option.elim_some, quantity]
      simp [owedTo]
    · rw [if_neg here]
      simp [owedTo, Ne.symm here]

theorem Ledger.Settled.not_queued
    (absent : l.undelegations.get del = none) (time : Time) (addr : Address) :
    l.queue.get (toLex (time, addr)) = some () ↔
      addr ≠ del ∧ l.queue.get (toLex (time, addr)) = some () := by
  refine ⟨fun queued => ⟨?_, queued⟩, fun both => both.2⟩
  rintro rfl
  obtain ⟨_, found, -⟩ := (settled.queued time addr).mp queued
  rw [absent] at found
  cases found

theorem Ledger.Settled.withdraw (now : Time) (del : Address) {amount : Dec}
    (completionTime : Time) (nonneg : 0 ≤ amount) :
    (l.withdraw chain now del amount completionTime).Settled chain := by
  unfold Ledger.withdraw
  cases old : l.undelegations.get del with
  | none =>
    apply settled.enter now l.queue ⟨del, amount, completionTime⟩ nonneg rfl
    · rw [old]
      exact (zero_add amount).symm
    · exact settled.not_queued old
  | some before =>
    apply settled.enter now (l.queue.delete (toLex (before.completionTime, del)))
      ⟨del, before.quantity + amount, completionTime⟩ nonneg rfl
    · rw [old]
      rfl
    intro time addr
    simp only [get_delete, toLex_inj]
    by_cases here : addr = del
    · subst here
      by_cases same : time = before.completionTime
      · simp [same]
      · simp [settled.queued, old, Ne.symm same]
    · simp [here]

/-- An own stake is withdrawn by an account that withdraws nothing else. -/
theorem Ledger.Settled.destroy (now : Time) {quantity : Dec}
    (completionTime : Time) (nonneg : 0 ≤ quantity) (absent : l.undelegations.get del = none) :
    (l.enter chain now del quantity ⟨del, quantity, completionTime⟩).Settled chain := by
  have same : l.enter chain now del quantity ⟨del, quantity, completionTime⟩ =
      l.withdraw chain now del quantity completionTime := by
    rw [Ledger.withdraw, absent]
  rw [same]
  exact settled.withdraw now del completionTime nonneg

end

variable [Fintype Denom]

section

variable (settled : l.Settled chain) (now : Time) {time : Time} {addr : Address}
  (queued : l.queue.get (toLex (time, addr)) = some ())

include settled queued

theorem Ledger.Settled.pay_eq :
    ∃ info, l.undelegations.get addr = some info ∧ info.completionTime = time ∧
      l.pay chain now (time, addr) =
        { l with
          queue := l.queue.delete (toLex (time, addr))
          notBonded := l.notBonded - bondCoins chain info.quantity
          undelegations := l.undelegations.delete addr
          events := l.events ++ [.completeUnbonding now addr info.quantity] } := by
  obtain ⟨info, found, there⟩ := (settled.queued time addr).mp queued
  have nonneg : 0 ≤ info.quantity := settled.nonneg addr info found
  have within : bondCoins chain info.quantity ≤ l.notBonded := by
    rw [settled.owed]
    exact bondCoins_le (le_sum settled.nonneg found)
  refine ⟨info, found, there, ?_⟩
  simp only [Ledger.pay, found]
  rw [if_pos ⟨(Coins.isValid_iff _).mpr (bondCoins_nonneg.mpr nonneg),
    (Coins.isValid_iff _).mpr (sub_nonneg.mpr within)⟩]

theorem Ledger.Settled.pay : (l.pay chain now (time, addr)).Settled chain := by
  obtain ⟨_, found, there, paid⟩ := settled.pay_eq now queued
  rw [paid]
  constructor
  · intro other info' found'
    exact settled.keyed other info' (get_delete_eq_some.mp found').2
  · intro other info' found'
    exact settled.nonneg other info' (get_delete_eq_some.mp found').2
  · intro time' other
    simp only [get_delete, toLex_inj]
    by_cases here : other = addr
    · subst here
      by_cases same : time' = time
      · simp [same]
      · simp [settled.queued, found, there, Ne.symm same]
    · simp [here, settled.queued]
  · exact settled.backed
  · rw [sum_delete, found, Option.elim_some, settled.owed, sub_eq_add_neg, sub_eq_add_neg,
      bondCoins_add, bondCoins_neg]
  · intro other
    simp only [map_append, sum_append, settled.recorded, get_delete]
    by_cases here : other = addr
    · subst here
      simp [owedTo, found]
    · simp [owedTo, here, Ne.symm here]

end

theorem Ledger.queue_pay (l : Ledger Denom) (now : Time) {key other : Time × Address}
    (differ : other ≠ key) :
    (l.pay chain now key).queue.get (toLex other) = l.queue.get (toLex other) := by
  have same : (l.pay chain now key).queue = l.queue.delete (toLex key) := by
    unfold Ledger.pay
    simp only
    split
    · rfl
    · split <;> rfl
  rw [same, get_delete_ne]
  exact fun equal => differ (toLex.injective equal)

omit [DecidableEq Denom] [Fintype Denom] in
theorem Ledger.mem_due (l : Ledger Denom) (now : Time) (key : Time × Address) :
    key ∈ l.due now ↔ l.queue.get (toLex key) = some () ∧ key.1 ≤ now := by
  rw [Ledger.due, mem_filter, decide_eq_true_eq, mem_map]
  apply and_congr_left
  intro _
  constructor
  · rintro ⟨key', there, rfl⟩
    obtain ⟨⟨⟩, queued⟩ := (mem_keys _ _).mp there
    exact queued
  · intro queued
    exact ⟨toLex key, (mem_keys _ _).mpr ⟨(), queued⟩, rfl⟩

omit [DecidableEq Denom] [Fintype Denom] in
theorem Ledger.nodup_due (l : Ledger Denom) (now : Time) : (l.due now).Nodup :=
  ((nodup_keys _).map ofLex.injective).filter _

/-- What every payment keeps holds when all that is due is paid. -/
theorem Ledger.complete_keeps (P : Ledger Denom → Prop) {now : Time}
    (keeps : ∀ l time addr, P l → l.queue.get (toLex (time, addr)) = some () → time ≤ now →
      P (l.pay chain now (time, addr))) (holds : P l) : P (l.complete chain now) := by
  have loop : ∀ (keys : List (Time × Address)) (l : Ledger Denom), keys.Nodup →
      (∀ key ∈ keys, l.queue.get (toLex key) = some () ∧ key.1 ≤ now) → P l →
      P (keys.foldl (Ledger.pay chain now) l) := by
    intro keys
    induction keys with
    | nil => exact fun l _ _ holds => holds
    | cons key rest ih =>
      intro l nodup queued holds
      obtain ⟨fresh, nodup⟩ := nodup_cons.mp nodup
      obtain ⟨here, due⟩ := queued key mem_cons_self
      refine ih _ nodup (fun other there => ?_) (keeps l key.1 key.2 holds here due)
      have differ : other ≠ key := by
        rintro rfl
        exact fresh there
      rw [Ledger.queue_pay l now differ]
      exact queued other (mem_cons_of_mem _ there)
  exact loop _ l (l.nodup_due now) (fun key there => (l.mem_due now key).mp there) holds

theorem Ledger.Settled.complete (settled : l.Settled chain) (now : Time) :
    (l.complete chain now).Settled chain :=
  Ledger.complete_keeps (fun l => l.Settled chain)
    (fun _ _ _ settled queued _ => settled.pay now queued) settled

omit [Fintype Denom] in
/-- An amount joins the record of an account, which completes no earlier. -/
theorem Ledger.Punctual.enter (punctual : l.Punctual) (now : Time) {del : Address} {amount : Dec}
    (queue : SortedMap (Time ×ₗ Address) Unit) (info : UndelegationInfo)
    (quantity : info.quantity = (l.undelegations.get del).elim 0 (·.quantity) + amount)
    (later : ∀ old, l.undelegations.get del = some old → old.completionTime ≤ info.completionTime) :
    (Ledger.enter chain { l with queue } now del amount info).Punctual where
  timely := allTimely_concat punctual.timely trivial
  none_pending addr absent := by
    change (l.undelegations.set del _).get addr = none at absent
    rw [get_set] at absent
    split at absent
    · cases absent
    rename_i away
    change pendingOf addr (l.events ++ [_]) = []
    rw [pendingOf_concat, pendingStep, if_neg (Ne.symm away)]
    exact punctual.none_pending addr absent
  latest addr other found withdrawal pending := by
    change (l.undelegations.set del _).get addr = some other at found
    change withdrawal ∈ pendingOf addr (l.events ++ [_]) at pending
    rw [pendingOf_concat, pendingStep] at pending
    rw [get_set] at found
    split at found
    · rename_i here
      subst here
      cases found
      rw [if_pos rfl, mem_append, mem_singleton] at pending
      rcases pending with earlier | rfl
      · cases old : l.undelegations.get addr with
        | none =>
          rw [punctual.none_pending addr old] at earlier
          cases earlier
        | some before => exact (punctual.latest addr before old withdrawal earlier).trans (later before old)
      · exact le_rfl
    · rename_i away
      rw [if_neg (Ne.symm away)] at pending
      exact punctual.latest addr other found withdrawal pending
  whole addr other found := by
    change (l.undelegations.set del _).get addr = some other at found
    change _ = ((pendingOf addr (l.events ++ [_])).map (·.1)).sum
    rw [pendingOf_concat, pendingStep]
    rw [get_set] at found
    split at found
    · rename_i here
      subst here
      cases found
      rw [if_pos rfl, map_append, quantity]
      cases old : l.undelegations.get addr with
      | none => simp [punctual.none_pending addr old]
      | some before => simp [punctual.whole addr before old]
    · rename_i away
      rw [if_neg (Ne.symm away)]
      exact punctual.whole addr other found

omit [Fintype Denom] in
theorem Ledger.Punctual.withdraw (punctual : l.Punctual) (now : Time) (del : Address) (amount : Dec)
    {completionTime : Time}
    (later : ∀ old, l.undelegations.get del = some old → old.completionTime ≤ completionTime) :
    (l.withdraw chain now del amount completionTime).Punctual := by
  unfold Ledger.withdraw
  cases old : l.undelegations.get del with
  | none =>
    refine punctual.enter now l.queue ⟨del, amount, completionTime⟩ ?_ later
    rw [old]
    exact (zero_add amount).symm
  | some before =>
    refine punctual.enter now (l.queue.delete (toLex (before.completionTime, del)))
      ⟨del, before.quantity + amount, completionTime⟩ ?_ later
    rw [old]
    rfl

theorem Ledger.Punctual.pay (settled : l.Settled chain) (punctual : l.Punctual) {now time : Time}
    {addr : Address} (queued : l.queue.get (toLex (time, addr)) = some ()) (due : time ≤ now) :
    (l.pay chain now (time, addr)).Punctual := by
  obtain ⟨info, found, there, paid⟩ := settled.pay_eq now queued
  -- the withdrawals of the other accounts stay as they are
  have others : ∀ other, other ≠ addr →
      pendingOf other (l.events ++ [.completeUnbonding now addr info.quantity]) =
        pendingOf other l.events := by
    intro other away
    rw [pendingOf_concat, pendingStep, if_neg (Ne.symm away)]
  rw [paid]
  constructor
  · apply allTimely_concat punctual.timely
    refine ⟨fun withdrawal pending => ?_, punctual.whole addr info found⟩
    exact (punctual.latest addr info found withdrawal pending).trans (there.le.trans due)
  · intro other absent
    by_cases here : other = addr
    · simp only [here]
      rw [pendingOf_concat, pendingStep, if_pos rfl]
    · rw [get_delete_ne _ here] at absent
      exact (others other here).trans (punctual.none_pending other absent)
  · intro other info' found'
    obtain ⟨away, found'⟩ := get_delete_eq_some.mp found'
    rw [others other away]
    exact punctual.latest other info' found'
  · intro other info' found'
    obtain ⟨away, found'⟩ := get_delete_eq_some.mp found'
    rw [others other away]
    exact punctual.whole other info' found'

omit [Fintype Denom] in
theorem Genesis.settled {start : Context Denom} (genesis : Genesis start) :
    (start.ledger chain).Settled chain ∧ (start.ledger chain).Punctual := by
  have selfStaked : start.staking.selfStaked = 0 := by
    rw [Store.selfStaked, genesis.validators, sum_empty]
  have delegated : start.staking.delegated = 0 := by
    rw [Store.delegated, genesis.delegators, sum_empty]
  refine ⟨?_, ?_⟩
  · constructor <;> simp [Context.ledger, Ledger.Keyed, genesis.undelegations, genesis.undelegateQueue,
      genesis.events, genesis.bondedPool, genesis.notBondedPool, selfStaked, delegated]
  · constructor <;> simp [Context.ledger, genesis.undelegations, genesis.events, AllTimely, pendingOf]

/-- The account whose own stake a step may withdraw. -/
def Op.destroyer : Op Denom → Option Address
  | .deliver (.destroyValidator del) => some del
  | _ => none

/-- The account whose delegated tokens a step may withdraw. -/
def Op.withdrawer : Op Denom → Option Address
  | .deliver (.withdraw del _) => some del
  | _ => none

/-- An own stake is withdrawn only by an account that has no undelegation under way. -/
def OneAtATime (ctx : Context Denom) (op : Op Denom) : Prop :=
  ∀ del ∈ op.destroyer, ctx.staking.undelegations.get del = none

/-- A withdrawal that joins the one under way does not complete before it. -/
def NoEarlier (ctx : Context Denom) (op : Op Denom) : Prop :=
  ∀ del ∈ op.withdrawer, ∀ info ∈ ctx.staking.undelegations.get del,
    info.completionTime ≤ ctx.completionTime

instance (ctx : Context Denom) (op : Op Denom) : Decidable (OneAtATime ctx op) :=
  inferInstanceAs (Decidable (∀ del ∈ op.destroyer, _))

instance (ctx : Context Denom) (op : Op Denom) : Decidable (NoEarlier ctx op) :=
  inferInstanceAs (Decidable (∀ del ∈ op.withdrawer, ∀ info ∈ ctx.staking.undelegations.get del, _))

variable {start ctx ctx' : Context Denom} {op : Op Denom} {ops : List (Op Denom)}

theorem step_settled (books : Books ctx.staking) (settled : (ctx.ledger chain).Settled chain)
    (single : OneAtATime ctx op) (done : step chain ctx op = .ok ctx') :
    (ctx'.ledger chain).Settled chain := by
  have move := step_ledger books settled.keyed done
  generalize ctx'.ledger chain = l' at move
  cases move with
  | none => exact settled
  | withdraw nonneg => exact settled.withdraw _ _ _ nonneg
  | destroy nonneg => exact settled.destroy _ _ nonneg (single _ rfl)
  | complete => exact settled.complete _

theorem step_punctual (books : Books ctx.staking) (settled : (ctx.ledger chain).Settled chain)
    (punctual : (ctx.ledger chain).Punctual) (single : OneAtATime ctx op) (later : NoEarlier ctx op)
    (done : step chain ctx op = .ok ctx') : (ctx'.ledger chain).Punctual := by
  have move := step_ledger books settled.keyed done
  generalize ctx'.ledger chain = l' at move
  cases move with
  | none => exact punctual
  | @withdraw del amount nonneg =>
    exact punctual.withdraw _ _ _ fun old found => later del rfl old found
  | @destroy del quantity nonneg =>
    have absent : (ctx.ledger chain).undelegations.get del = none := single del rfl
    refine punctual.enter _ _ ⟨del, quantity, ctx.completionTime⟩ ?_ fun old found => ?_
    · rw [absent]
      exact (zero_add quantity).symm
    · rw [absent] at found
      cases found
  | complete =>
    exact (Ledger.complete_keeps (fun l => l.Settled chain ∧ l.Punctual)
      (fun _ _ _ both queued due => ⟨both.1.pay _ queued, both.2.pay both.1 queued due⟩)
      ⟨settled, punctual⟩).2

theorem settled_of_run (genesis : Genesis start)
    (guarded : PartialRun.Guarded (step chain) OneAtATime start ops)
    (done : run chain start ops = .ok ctx) : (ctx.ledger chain).Settled chain := by
  have kept := @PartialRun.Guarded.keeps _ _ _ _ _
    (fun ctx => Books ctx.staking ∧ (ctx.ledger chain).Settled chain)
    (fun ctx ctx' op both single once =>
      ⟨(step_accounted both.1 once).books, step_settled both.1 both.2 single once⟩)
    _ _ _ guarded ⟨genesis.books, genesis.settled.1⟩ done
  exact kept.2

/-- Both pools back what they are for, and every account is owed what it withdrew and was not paid. -/
theorem pools_back_stakes (genesis : Genesis start)
    (guarded : PartialRun.Guarded (step chain) OneAtATime start ops)
    (done : run chain start ops = .ok ctx) : ctx.funds.bank .bondedPool = bondCoins chain
      ((ctx.staking.validators.sum fun _ v => v.minSelfDelegation) +
        ctx.staking.delegators.sum fun _ d => d.tokens) ∧
    ctx.funds.bank .notBondedPool = bondCoins chain
      (ctx.staking.undelegations.sum fun _ info => info.quantity) ∧
    ∀ addr, (ctx.events.map (owedTo addr)).sum =
      (ctx.staking.undelegations.get addr).elim 0 (·.quantity) := by
  have settled := settled_of_run genesis guarded done
  exact ⟨sub_eq_zero.mp settled.backed, settled.owed, settled.recorded⟩

/-- A new event says when its withdrawal completes, or that all of a record was paid. -/
def Stamped (ctx : Context Denom) : Event → Prop
  | .unbond time _ _ completionTime =>
    time = ctx.header.time ∧ completionTime = ctx.header.time + ctx.staking.params.unbondingTime
  | .completeUnbonding time addr amount =>
    time = ctx.header.time ∧
      ∃ info, ctx.staking.undelegations.get addr = some info ∧ amount = info.quantity

/-- The payments of a block are of records as they were when it began to pay. -/
theorem complete_stamped (chain : Chain Denom) (ctx : Context Denom) :
    ∃ new, ((ctx.ledger chain).complete chain ctx.header.time).events = ctx.events ++ new ∧
      ∀ event ∈ new, Stamped ctx event := by
  have kept := @Ledger.complete_keeps _ _ chain (ctx.ledger chain) _
    (fun l => (∀ addr info, l.undelegations.get addr = some info →
        ctx.staking.undelegations.get addr = some info) ∧
      ∃ new, l.events = ctx.events ++ new ∧ ∀ event ∈ new, Stamped ctx event)
    ctx.header.time ?_ ⟨fun _ _ found => found, [], (append_nil _).symm, by simp⟩
  · exact kept.2
  rintro l time addr ⟨records, new, events, stamped⟩ - -
  unfold Ledger.pay
  simp only
  split
  · exact ⟨records, new, events, stamped⟩
  rename_i info found
  split
  · refine ⟨fun other info' found' => records other info' (get_delete_eq_some.mp found').2,
      new ++ [.completeUnbonding ctx.header.time addr info.quantity], ?_, ?_⟩
    · rw [← append_assoc, ← events]
    intro event there
    rcases mem_append.mp there with earlier | last
    · exact stamped event earlier
    · obtain rfl := mem_singleton.mp last
      exact ⟨rfl, info, records addr info found, rfl⟩
  · exact ⟨records, new, events, stamped⟩

omit [Fintype Denom] in
theorem withdraw_events (l : Ledger Denom) (now : Time) (del : Address) (amount : Dec)
    (completionTime : Time) : (l.withdraw chain now del amount completionTime).events =
      l.events ++ [.unbond now del amount completionTime] := by
  unfold Ledger.withdraw
  split <;> rfl

theorem step_stamped (books : Books ctx.staking) (keyed : (ctx.ledger chain).Keyed)
    (done : step chain ctx op = .ok ctx') :
    ∃ new, ctx'.events = ctx.events ++ new ∧ ∀ event ∈ new, Stamped ctx event := by
  have move := step_ledger books keyed done
  have same : ctx'.events = (ctx'.ledger chain).events := rfl
  rw [same]
  generalize ctx'.ledger chain = l' at move
  cases move with
  | none => exact ⟨[], (append_nil _).symm, by simp⟩
  | @withdraw del amount nonneg =>
    refine ⟨_, withdraw_events _ _ _ _ _, fun event there => ?_⟩
    obtain rfl := mem_singleton.mp there
    exact ⟨rfl, rfl⟩
  | @destroy del quantity nonneg =>
    refine ⟨_, rfl, fun event there => ?_⟩
    obtain rfl := mem_singleton.mp there
    exact ⟨rfl, rfl⟩
  | complete => exact complete_stamped chain ctx

/-- No withdrawal is paid before its time, and a payment is of the whole record. -/
theorem unbonding_delay_kept (genesis : Genesis start)
    (guarded : PartialRun.Guarded (step chain) (fun ctx op => OneAtATime ctx op ∧ NoEarlier ctx op)
      start ops) (done : run chain start ops = .ok ctx) : AllTimely ctx.events ∧
    ∀ before op after c c', ops = before ++ op :: after → run chain start before = .ok c →
      step chain c op = .ok c' →
        ∃ new, c'.events = c.events ++ new ∧ ∀ event ∈ new, Stamped c event := by
  have kept : ∀ ops ctx,
      PartialRun.Guarded (step chain) (fun ctx op => OneAtATime ctx op ∧ NoEarlier ctx op) start ops →
      run chain start ops = .ok ctx → Books ctx.staking ∧ (ctx.ledger chain).Settled chain ∧
        (ctx.ledger chain).Punctual := by
    intro ops ctx guarded done
    exact @PartialRun.Guarded.keeps _ _ _ _ _
      (fun ctx => Books ctx.staking ∧ (ctx.ledger chain).Settled chain ∧ (ctx.ledger chain).Punctual)
      (fun ctx ctx' op kept meets once => ⟨(step_accounted kept.1 once).books,
        step_settled kept.1 kept.2.1 meets.1 once,
        step_punctual kept.1 kept.2.1 kept.2.2 meets.1 meets.2 once⟩)
      _ _ _ guarded ⟨genesis.books, genesis.settled⟩ done
  refine ⟨(kept ops ctx guarded done).2.2.timely, ?_⟩
  rintro before op after c c' rfl reached once
  obtain ⟨books, settled, -⟩ := kept before c guarded.of_append reached
  exact step_stamped books settled.keyed once

end

/-- The operator of a validator deposits, withdraws all of it and destroys the validator before that
completes. -/
def overwrittenRun : List (Op Unit) :=
  [.beginBlock 5 [] [], .deliver (.createValidator 1 1 7 ((), 10)), .deliver (.deposit 1 ((), 50)),
    .deliver (.withdraw 1 ((), 50)), .endBlock, .beginBlock 60 [] [], .deliver (.destroyValidator 1),
    .endBlock, .beginBlock 40 [] [], .endBlock]

theorem overwrittenRun_ends : ∃ ctx, run oneTokenChain smallGenesis overwrittenRun = .ok ctx ∧
    (ctx.funds.bank .notBondedPool (), ctx.staking.undelegations.sum (fun _ info => info.quantity),
      ctx.events) =
      (50, 0, [.unbond 1005 1 50 1105, .unbond 1065 1 10 1165, .completeUnbonding 1105 1 10]) :=
  Fallible.exists_ok_of_map (by decide +kernel)

/-- The record of the first withdrawal was overwritten: fifty coins are owed to nobody. -/
theorem pool_of_nobody : ∃ ctx, run oneTokenChain smallGenesis overwrittenRun = .ok ctx ∧
    ctx.funds.bank .notBondedPool () = 50 ∧
    bondCoins oneTokenChain (ctx.staking.undelegations.sum fun _ info => info.quantity) () = 0 := by
  obtain ⟨ctx, done, ends⟩ := overwrittenRun_ends
  simp only [Prod.mk.injEq] at ends
  refine ⟨ctx, done, ends.1, ?_⟩
  rw [ends.2.1]
  rfl

/-- The key of the first withdrawal is still in the queue and pays the second a minute early. -/
theorem stake_paid_early : ∃ ctx, run oneTokenChain smallGenesis overwrittenRun = .ok ctx ∧
    .unbond 1065 1 10 1165 ∈ ctx.events ∧ .completeUnbonding 1105 1 10 ∈ ctx.events ∧
    ¬AllTimely ctx.events := by
  obtain ⟨ctx, done, ends⟩ := overwrittenRun_ends
  simp only [Prod.mk.injEq] at ends
  refine ⟨ctx, done, ?_, ?_, ?_⟩
  · rw [ends.2.2]
    decide
  · rw [ends.2.2]
    decide
  · intro timely
    have paid := timely [.unbond 1005 1 50 1105, .unbond 1065 1 10 1165] _ [] ends.2.2
    exact absurd (paid.1 (10, 1165) (by decide)) (by decide)

/-- Two withdrawals that join, and the own stake of a validator of another account. -/
def joinedRun : List (Op Unit) :=
  [.beginBlock 5 [] [], .deliver (.createValidator 1 1 7 ((), 10)), .deliver (.deposit 2 ((), 50)),
    .deliver (.withdraw 2 ((), 20)), .endBlock, .beginBlock 60 [] [], .deliver (.withdraw 2 ((), 30)),
    .deliver (.destroyValidator 1), .endBlock, .beginBlock 100 [] [], .endBlock]

theorem joinedRun_guarded : PartialRun.Guarded (step oneTokenChain)
    (fun ctx op => OneAtATime ctx op ∧ NoEarlier ctx op) smallGenesis joinedRun := by
  decide +kernel

theorem joinedRun_ends : ∃ ctx, run oneTokenChain smallGenesis joinedRun = .ok ctx ∧ ctx.events =
    [.unbond 1005 2 20 1105, .unbond 1065 2 30 1165, .unbond 1065 1 10 1165,
      .completeUnbonding 1165 1 10, .completeUnbonding 1165 2 50] :=
  Fallible.exists_ok_of_map (by decide +kernel)

theorem pools_back_stakes_joinedRun : ∃ ctx, run oneTokenChain smallGenesis joinedRun = .ok ctx ∧
    ctx.funds.bank .notBondedPool = bondCoins oneTokenChain
      (ctx.staking.undelegations.sum fun _ info => info.quantity) := by
  obtain ⟨ctx, done, -⟩ := joinedRun_ends
  have guarded := joinedRun_guarded.mono fun _ _ both => both.1
  exact ⟨ctx, done, (pools_back_stakes smallGenesis_genesis guarded done).2.1⟩

theorem unbonding_delay_kept_joinedRun : ∃ ctx, run oneTokenChain smallGenesis joinedRun = .ok ctx ∧
    AllTimely ctx.events := by
  obtain ⟨ctx, done, -⟩ := joinedRun_ends
  exact ⟨ctx, done, (unbonding_delay_kept smallGenesis_genesis joinedRun_guarded done).1⟩

end Exchain.Staking
