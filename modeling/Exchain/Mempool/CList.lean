import Exchain.Mempool.Tx

/-
The gas-price list, head to tail. An element of the list is its transaction: the
address, gas price and nonce an element carries are always those of its value.
-/
namespace Exchain.Mempool

open List Option

/-- The first element, from the head, of the run of one address that ends in `cur`; the list holds
the elements before `cur`, nearest first. -/
def runStart (cur : MempoolTx) : List MempoolTx → MempoolTx
  | [] => cur
  | prev :: rest => if prev.fromAddr = cur.fromAddr then runStart prev rest else cur

/-- The walk of InsertElement from the tail of the list. `skip` is the address of a run passed over
as a whole; `none` is the panic on an equal nonce. -/
def insertFromTail (ele : MempoolTx) : Option Address → List MempoolTx → Option (List MempoolTx)
  | _, [] => some [ele]
  | skip, cur :: rest =>
    if skip = some cur.fromAddr then
      (insertFromTail ele skip rest).map (cur :: ·)
    else if cur.fromAddr = ele.fromAddr then
      if ele.nonce < cur.nonce then
        (insertFromTail ele none rest).map (cur :: ·)
      else if ele.nonce = cur.nonce then
        none
      else
        some (ele :: cur :: rest)
    else if ele.gasPrice ≤ cur.gasPrice then
      if ele.gasPrice ≤ (runStart cur rest).gasPrice then
        some (ele :: cur :: rest)
      else
        (insertFromTail ele (some cur.fromAddr) rest).map (cur :: ·)
    else
      (insertFromTail ele none rest).map (cur :: ·)

def insertElement (ele : MempoolTx) (txs : List MempoolTx) : Option (List MempoolTx) :=
  (insertFromTail ele none txs.reverse).map reverse

/-- `cur` begins a run: the element before it, if any, has another address. -/
def StartsRun (cur : MempoolTx) (before : List MempoolTx) : Prop :=
  ∀ prev ∈ before.head?, prev.fromAddr ≠ cur.fromAddr

theorem runStart_eq_self {cur : MempoolTx} {before : List MempoolTx}
    (starts : StartsRun cur before) : runStart cur before = cur := by
  cases before with
  | nil => rfl
  | cons prev rest =>
    have other : prev.fromAddr ≠ cur.fromAddr := starts prev rfl
    simp [runStart, other]

theorem runStart_split (cur : MempoolTx) (before : List MempoolTx) :
    ∃ run rest, cur :: before = run ++ runStart cur before :: rest ∧
      StartsRun (runStart cur before) rest ∧
      (runStart cur before).fromAddr = cur.fromAddr ∧
      ∀ e ∈ run, e.fromAddr = cur.fromAddr := by
  induction before generalizing cur with
  | nil => exact ⟨[], [], rfl, by simp [StartsRun], rfl, by simp⟩
  | cons prev before ih =>
    by_cases same : prev.fromAddr = cur.fromAddr
    · obtain ⟨run, rest, split, starts, address, inside⟩ := ih prev
      refine ⟨cur :: run, rest, ?_, ?_, ?_, ?_⟩
      · simp only [runStart, if_pos same, cons_append, split]
      · simpa only [runStart, if_pos same] using starts
      · simpa only [runStart, if_pos same] using address.trans same
      · exact forall_mem_cons.mpr ⟨rfl, fun e later => (inside e later).trans same⟩
    · refine ⟨[], prev :: before, ?_, ?_, ?_, by simp⟩
      · simp [runStart, same]
      · simp [runStart, same, StartsRun]
      · simp [runStart, same]

/-- Where the walk stops: at an element of its own address with a smaller nonce, or of a run that
begins with at least the new gas price. -/
def Stops (ele cur : MempoolTx) (before : List MempoolTx) : Prop :=
  (cur.fromAddr = ele.fromAddr ∧ cur.nonce < ele.nonce) ∨
    (cur.fromAddr ≠ ele.fromAddr ∧ ele.gasPrice ≤ (runStart cur before).gasPrice)

/-- What the walk from the tail passes: the elements of its own address with larger nonces and the
runs that begin with a lower gas price. -/
structure Landed (ele : MempoolTx) (txs result passed left : List MempoolTx) : Prop where
  split : txs = passed ++ left
  result_eq : result = passed ++ ele :: left
  larger : ∀ e ∈ passed, e.fromAddr = ele.fromAddr → ele.nonce < e.nonce
  cheaper : ∀ behind cur ahead, passed = behind ++ cur :: ahead →
    cur.fromAddr ≠ ele.fromAddr → StartsRun cur (ahead ++ left) → cur.gasPrice < ele.gasPrice
  stops : ∀ cur before, left = cur :: before → Stops ele cur before

namespace Landed

variable {ele cur : MempoolTx} {txs result passed left : List MempoolTx}

theorem here (stop : ∀ cur before, txs = cur :: before → Stops ele cur before) :
    Landed ele txs (ele :: txs) [] txs where
  split := rfl
  result_eq := rfl
  larger := by simp
  cheaper := by simp
  stops := stop

theorem pass (landed : Landed ele txs result passed left)
    (larger : cur.fromAddr = ele.fromAddr → ele.nonce < cur.nonce)
    (cheaper : cur.fromAddr ≠ ele.fromAddr → StartsRun cur txs → cur.gasPrice < ele.gasPrice) :
    Landed ele (cur :: txs) (cur :: result) (cur :: passed) left where
  split := by rw [landed.split, cons_append]
  result_eq := by rw [landed.result_eq, cons_append]
  larger := by
    intro e inside same
    rcases mem_cons.mp inside with rfl | later
    · exact larger same
    · exact landed.larger e later same
  cheaper := by
    intro behind c ahead split other starts
    cases behind with
    | nil =>
      obtain ⟨rfl, rfl⟩ := List.cons.inj split
      rw [← landed.split] at starts
      exact cheaper other starts
    | cons b behind =>
      obtain ⟨rfl, rest⟩ := List.cons.inj split
      exact landed.cheaper behind c ahead rest other starts
  stops := landed.stops

end Landed

variable {ele : MempoolTx} {result txs : List MempoolTx}

theorem insertFromTail_landed {skip : Option Address} (own : skip ≠ some ele.fromAddr)
    (cheap : ∀ cur before, txs = cur :: before → skip = some cur.fromAddr →
      (runStart cur before).gasPrice < ele.gasPrice)
    (inserted : insertFromTail ele skip txs = some result) :
    ∃ passed left, Landed ele txs result passed left := by
  induction txs generalizing skip result with
  | nil =>
    cases inserted
    exact ⟨[], [], Landed.here (by simp)⟩
  | cons cur rest ih =>
    unfold insertFromTail at inserted
    split at inserted
    · rename_i skipped
      obtain ⟨_, walked, rfl⟩ := map_eq_some_iff.mp inserted
      have start_cheap := cheap cur rest rfl skipped
      have next_cheap : ∀ c before, rest = c :: before → skip = some c.fromAddr →
          (runStart c before).gasPrice < ele.gasPrice := by
        rintro c before rfl same
        have address : c.fromAddr = cur.fromAddr := Option.some.inj (same.symm.trans skipped)
        simpa only [runStart, if_pos address] using start_cheap
      obtain ⟨passed, left, landed⟩ := ih own next_cheap walked
      refine ⟨cur :: passed, left, landed.pass ?_ ?_⟩
      · intro same
        exact absurd (same ▸ skipped) own
      · intro _ starts
        rwa [runStart_eq_self starts] at start_cheap
    · split at inserted
      · rename_i same
        split at inserted
        · rename_i smaller
          obtain ⟨_, walked, rfl⟩ := map_eq_some_iff.mp inserted
          obtain ⟨passed, left, landed⟩ := ih (by simp) (by simp) walked
          exact ⟨cur :: passed, left, landed.pass (fun _ => smaller) fun other => absurd same other⟩
        split at inserted
        · contradiction
        cases inserted
        refine ⟨[], cur :: rest, Landed.here ?_⟩
        rintro c before split
        obtain ⟨rfl, rfl⟩ := List.cons.inj split
        exact .inl ⟨same, by omega⟩
      · rename_i other
        split at inserted
        · split at inserted
          · rename_i at_least
            cases inserted
            refine ⟨[], cur :: rest, Landed.here ?_⟩
            rintro c before split
            obtain ⟨rfl, rfl⟩ := List.cons.inj split
            exact .inr ⟨other, at_least⟩
          have start_cheap : (runStart cur rest).gasPrice < ele.gasPrice := by omega
          obtain ⟨_, walked, rfl⟩ := map_eq_some_iff.mp inserted
          have next_cheap : ∀ c before, rest = c :: before → some cur.fromAddr = some c.fromAddr →
              (runStart c before).gasPrice < ele.gasPrice := by
            rintro c before rfl same
            have address : c.fromAddr = cur.fromAddr := (Option.some.inj same).symm
            simpa only [runStart, if_pos address] using start_cheap
          obtain ⟨passed, left, landed⟩ :=
            ih (fun same => other (Option.some.inj same)) next_cheap walked
          refine ⟨cur :: passed, left, landed.pass (fun same => absurd same other) ?_⟩
          intro _ starts
          rwa [runStart_eq_self starts] at start_cheap
        · obtain ⟨_, walked, rfl⟩ := map_eq_some_iff.mp inserted
          obtain ⟨passed, left, landed⟩ := ih (by simp) (by simp) walked
          refine ⟨cur :: passed, left, landed.pass (fun same => absurd same other) ?_⟩
          intro _ _
          omega

theorem insertFromTail_isSome (skip : Option Address)
    (fresh : ∀ e ∈ txs, e.fromAddr = ele.fromAddr → e.nonce ≠ ele.nonce) :
    (insertFromTail ele skip txs).isSome = true := by
  induction txs generalizing skip with
  | nil => rfl
  | cons cur rest ih =>
    have later := fun skip => ih skip fun e inside => fresh e (mem_cons_of_mem _ inside)
    unfold insertFromTail
    split
    · rw [isSome_map, later]
    split
    · rename_i same
      have differ := fresh cur mem_cons_self same
      split
      · rw [isSome_map, later]
      · rw [if_neg (Ne.symm differ)]
        rfl
    · split
      · split
        · rfl
        · rw [isSome_map, later]
      · rw [isSome_map, later]

theorem insertElement_isSome (fresh : ∀ e ∈ txs, e.fromAddr = ele.fromAddr → e.nonce ≠ ele.nonce) :
    ∃ result, insertElement ele txs = some result := by
  have walked := insertFromTail_isSome none fun e inside => fresh e (mem_reverse.mp inside)
  obtain ⟨result, found⟩ := isSome_iff_exists.mp walked
  exact ⟨result.reverse, by rw [insertElement, found]; rfl⟩

/-- InsertElement in head-to-tail terms: the list is cut in two and the element put between. -/
theorem insertElement_landed (inserted : insertElement ele txs = some result) :
    ∃ passed left, Landed ele txs.reverse (passed ++ ele :: left) passed left ∧
      txs = left.reverse ++ passed.reverse ∧
      result = left.reverse ++ ele :: passed.reverse := by
  obtain ⟨_, walked, rfl⟩ := map_eq_some_iff.mp inserted
  obtain ⟨passed, left, landed⟩ := insertFromTail_landed (by simp) (by simp) walked
  obtain rfl := landed.result_eq
  refine ⟨passed, left, landed, ?_, ?_⟩
  · rw [← reverse_append, ← landed.split, reverse_reverse]
  · simp

theorem insertElement_perm
    (inserted : insertElement ele txs = some result) : result.Perm (ele :: txs) := by
  obtain ⟨_, _, _, rfl, rfl⟩ := insertElement_landed inserted
  exact perm_middle

/-- Two elements of one address stand in the order of their nonces. -/
def NonceOrdered (txs : List MempoolTx) : Prop :=
  txs.Pairwise fun x y => x.fromAddr = y.fromAddr → x.nonce < y.nonce

/-- Behind an element of the sender with a larger nonce, every run of another address begins with a
lower gas price than the new element's. -/
def NotOvertaken (ele : MempoolTx) (txs : List MempoolTx) : Prop :=
  ∀ before cur behind, txs = before ++ cur :: behind → cur.fromAddr ≠ ele.fromAddr →
    StartsRun cur before.reverse →
    (∃ e ∈ before, e.fromAddr = ele.fromAddr ∧ ele.nonce < e.nonce) →
    cur.gasPrice < ele.gasPrice

variable {ele : MempoolTx} {txs result passed left : List MempoolTx}

section

variable (landed : Landed ele txs.reverse result passed left)

include landed

theorem nonceOrdered_insert_iff (ordered : NonceOrdered (left.reverse ++ passed.reverse)) :
    NonceOrdered (left.reverse ++ ele :: passed.reverse) ↔
      ∀ e ∈ left, e.fromAddr = ele.fromAddr → e.nonce < ele.nonce := by
  unfold NonceOrdered at *
  rw [pairwise_append] at ordered ⊢
  rw [pairwise_cons]
  constructor
  · intro after e inside same
    exact after.2.2 e (mem_reverse.mpr inside) ele mem_cons_self same
  intro smaller
  refine ⟨ordered.1, ⟨?_, ordered.2.1⟩, ?_⟩
  · intro e inside same
    exact landed.larger e (mem_reverse.mp inside) same.symm
  intro e inside e' inside' same
  rcases mem_cons.mp inside' with rfl | passed'
  · exact smaller e (mem_reverse.mp inside) same
  · exact ordered.2.2 e inside e' passed' same

theorem left_smaller_of_notOvertaken (list_eq : txs = left.reverse ++ passed.reverse) (ordered : NonceOrdered txs)
    (fresh : ∀ e ∈ txs, e.fromAddr = ele.fromAddr → e.nonce ≠ ele.nonce)
    (ahead : NotOvertaken ele txs) :
    ∀ e ∈ left, e.fromAddr = ele.fromAddr → e.nonce < ele.nonce := by
  intro e inside same
  have present : e ∈ txs := by
    rw [list_eq]
    exact mem_append_left _ (mem_reverse.mpr inside)
  cases left with
  | nil => contradiction
  | cons cur before =>
    rcases landed.stops cur before rfl with ⟨own, smaller⟩ | ⟨other, at_least⟩
    · rcases mem_cons.mp inside with rfl | earlier
      · exact smaller
      have order := ordered
      rw [list_eq, reverse_cons, append_assoc] at order
      have step := (pairwise_append.mp order).2.2 e (mem_reverse.mpr earlier) cur
        (by simp) (same.trans own.symm)
      omega
    apply Decidable.byContradiction
    intro not_smaller
    have larger : ele.nonce < e.nonce := by
      have differ := fresh e present same
      omega
    -- the run the walk stopped in lies behind `e`, since `e` has another address
    obtain ⟨run, rest, run_eq, _, address, run_address⟩ := runStart_split cur before
    have start_other := address ▸ other
    have e_ahead : e ∈ rest.reverse := by
      rw [run_eq] at inside
      rcases mem_append.mp inside with in_run | in_rest
      · exact absurd ((run_address e in_run).symm.trans same) other
      rcases mem_cons.mp in_rest with rfl | later
      · exact absurd same start_other
      · exact mem_reverse.mpr later
    have cheaper := ahead rest.reverse (runStart cur before) (run.reverse ++ passed.reverse)
      (by rw [list_eq, run_eq]; simp) start_other (by rwa [reverse_reverse])
      ⟨e, e_ahead, same, larger⟩
    omega

theorem notOvertaken_of_left_smaller (smaller : ∀ e ∈ left, e.fromAddr = ele.fromAddr → e.nonce < ele.nonce) :
    NotOvertaken ele txs := by
  rintro before cur behind rfl other starts ⟨e, inside, same, larger⟩
  have cut : behind.reverse ++ cur :: before.reverse = passed ++ left := by
    rw [← landed.split]
    simp
  have not_left : e ∉ left := by
    intro member
    have below := smaller e member same
    omega
  rcases append_eq_append_iff.mp cut with ⟨extra, passed_eq, rest_eq⟩ | ⟨extra, _, left_eq⟩
  · cases extra with
    | nil =>
      refine absurd ?_ not_left
      rw [nil_append] at rest_eq
      rw [← rest_eq]
      exact mem_cons_of_mem _ (mem_reverse.mpr inside)
    | cons c extra =>
      obtain ⟨rfl, before_eq⟩ := List.cons.inj rest_eq
      change before.reverse = extra ++ left at before_eq
      refine landed.cheaper _ _ _ passed_eq other ?_
      rwa [← before_eq]
  · refine absurd ?_ not_left
    rw [left_eq]
    exact mem_append_right _ (mem_cons_of_mem _ (mem_reverse.mpr inside))

end

/-- InsertElement keeps the order of nonces exactly when nothing it stops at stands behind a larger
nonce of the same sender. -/
theorem insertElement_nonceOrdered_iff (ordered : NonceOrdered txs)
    (fresh : ∀ e ∈ txs, e.fromAddr = ele.fromAddr → e.nonce ≠ ele.nonce)
    (inserted : insertElement ele txs = some result) :
    NonceOrdered result ↔ NotOvertaken ele txs := by
  obtain ⟨_, _, landed, list_eq, rfl⟩ := insertElement_landed inserted
  have cut_ordered := list_eq ▸ ordered
  rw [nonceOrdered_insert_iff landed cut_ordered]
  exact ⟨notOvertaken_of_left_smaller landed,
    left_smaller_of_notOvertaken landed list_eq ordered fresh⟩

/-- An element whose nonce exceeds all its sender's nonces in the list cannot break the order. -/
theorem notOvertaken_of_largest
    (largest : ∀ e ∈ txs, e.fromAddr = ele.fromAddr → e.nonce < ele.nonce) :
    NotOvertaken ele txs := by
  rintro before cur behind rfl _ _ ⟨e, inside, same, larger⟩
  have below := largest e (mem_append_left _ inside) same
  omega

end Exchain.Mempool
