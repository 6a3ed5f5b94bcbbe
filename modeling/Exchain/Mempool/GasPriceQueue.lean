import Exchain.Lib.Run
import Mathlib.Data.Int.ModEq
import Mathlib.Data.List.Sort

/-! The queue of the gas prices of the last blocks
(`libs/tendermint/types/recommended_gasprice.go`). -/

namespace Exchain.GasPrices

open List Run

inductive Failure
  | err (text : String)
  /-- A nil pointer, an index out of range or a division by zero. -/
  | panic
  /-- A loop that has not ended after as many turns as there are places. -/
  | stuck
deriving DecidableEq

structure SingleBlockGPs where
  all : List Int
  sampled : List Int
deriving DecidableEq

namespace SingleBlockGPs

variable (bgp : SingleBlockGPs)

def addSampledGP (gp : Int) : SingleBlockGPs := { bgp with sampled := bgp.sampled ++ [gp] }

def sampleNumber : Nat := 3

def sampleGP (adoptHigherGp : Bool) : SingleBlockGPs :=
  if bgp.sampled ≠ [] then bgp
  else
    let txGPs := bgp.all.insertionSort (· ≤ ·)
    if adoptHigherGp then
      let rowSampledGPs := txGPs.take sampleNumber ++ txGPs.reverse.take sampleNumber
      if rowSampledGPs = [] then bgp
      else bgp.addSampledGP (rowSampledGPs.sum.tdiv rowSampledGPs.length)
    else (txGPs.take sampleNumber).foldl addSampledGP bgp

end SingleBlockGPs

/-- The prices so far, and the blocks. -/
abbrev Sampling (Block : Type) := List Int × (Block → SingleBlockGPs)

/-- A circular queue. Its items point to blocks, or nowhere; both ends are -1 if it is empty. -/
structure BlockGPResults (Block : Type) where
  items : List (Option Block)
  front : Int
  rear : Int
  capacity : Nat

namespace BlockGPResults

variable {Block : Type}

def newBlockGPResults (checkBlocksNum : Nat) : BlockGPResults Block :=
  ⟨replicate checkBlocksNum none, -1, -1, checkBlocksNum⟩

variable (rs : BlockGPResults Block)

def isFull : Bool := (rs.front = 0 ∧ rs.rear = rs.capacity - 1) ∨ rs.front = rs.rear + 1

def isEmpty : Bool := rs.front = -1

def item (i : Int) : Except Failure (Option Block) :=
  if i < 0 then .error .panic else (rs.items[i.toNat]?).elim (.error .panic) .ok

def pop : Except Failure (Option Block × BlockGPResults Block) := do
  if rs.isEmpty then throw (.err "pop failed: BlockGPResults is empty")
  let element ← rs.item rs.front
  if rs.front = rs.rear then return (element, { rs with front := -1, rear := -1 })
  return (element, { rs with front := (rs.front + 1) % rs.capacity })

/-- The end of Push, when there is room. -/
def append (gp : Block) : Except Failure (BlockGPResults Block) :=
  let front := if rs.front = -1 then 0 else rs.front
  let rear := (rs.rear + 1) % rs.capacity
  if rs.capacity = 0 then .error .panic
  else .ok { rs with front, rear, items := rs.items.set rear.toNat (some gp) }

def push (gp : Block) : Except Failure (BlockGPResults Block) := do
  let rs ← if rs.isFull then rs.pop.map Prod.snd else .ok rs
  rs.append gp

section

variable [DecidableEq Block] (lastPrice : Int) (adoptHigherGp : Bool)

/-- Sample one block and collect its prices. An empty block is sampled at the last price. -/
def sample (s : Sampling Block) (gp : Block) : Sampling Block :=
  let bgp := (s.2 gp).sampleGP adoptHigherGp
  let bgp := if bgp.sampled = [] then bgp.addSampledGP lastPrice else bgp
  (s.1 ++ bgp.sampled, Function.update s.2 gp bgp)

def sampleItem (i : Int) (s : Sampling Block) : Except Failure (Sampling Block) := do
  let some gp ← rs.item i | throw .panic
  return sample lastPrice adoptHigherGp s gp

/-- The loop up to the rear, and the item there. -/
def sampleFrom : Nat → Int → Sampling Block → Except Failure (Sampling Block)
  | 0, _, _ => .error .stuck
  | turns + 1, i, s =>
    if i ≠ rs.rear then do
      sampleFrom turns ((i + 1) % rs.capacity) (← rs.sampleItem lastPrice adoptHigherGp i s)
    else rs.sampleItem lastPrice adoptHigherGp i s

def executeSamplingBy (blocks : Block → SingleBlockGPs) : Except Failure (Sampling Block) :=
  if rs.isEmpty then .ok ([], blocks)
  else rs.sampleFrom lastPrice adoptHigherGp rs.capacity rs.front ([], blocks)

end

inductive Op (Block : Type)
  | push (gp : Block)
  | pop

/-- The queue after a call, and what the call returns. -/
def step : Op Block → BlockGPResults Block × Except Failure (Option Block)
  | .push gp => match rs.push gp with
    | .ok rs => (rs, .ok none)
    | .error e => (rs, .error e)
  | .pop => match rs.pop with
    | .ok (element, rs) => (rs, .ok element)
    | .error e => (rs, .error e)

/-- The places from the first one on, around the end of the buffer, point to a queue's blocks. -/
def Stored (items : List (Option Block)) (capacity first : Nat) (queue : List Block) : Prop :=
  ∀ j gp, queue[j]? = some gp → items[(first + j) % capacity]? = some (some gp)

/-- The buffer holds a queue, the oldest block at the front. What is in the other places is old. -/
inductive Holds (capacity : Nat) : BlockGPResults Block → List Block → Prop
  | empty {items : List (Option Block)} (places : items.length = capacity) :
      Holds capacity ⟨items, -1, -1, capacity⟩ []
  | filled {items : List (Option Block)} {queue : List Block} {first last : Nat}
      (places : items.length = capacity) (inside : first < capacity) (room : last < capacity)
      (size : queue.length = last + 1) (stored : Stored items capacity first queue) :
      Holds capacity ⟨items, first, ((first + last) % capacity : Nat), capacity⟩ queue

variable {rs} {capacity : Nat} {queue : List Block}

theorem place_eq {a b : Nat} (inside : a < capacity) (room : b < capacity) :
    (a + b) % capacity = if a + b < capacity then a + b else a + b - capacity := by
  split
  · exact Nat.mod_eq_of_lt (by assumption)
  · rw [Nat.mod_eq_sub_mod (by omega), Nat.mod_eq_of_lt (by omega)]

theorem place_succ (a b : Nat) : ((a + 1) % capacity + b) % capacity = (a + (b + 1)) % capacity := by
  rw [Nat.mod_add_mod, Nat.add_right_comm, Nat.add_assoc]

theorem place_next (first j : Nat) :
    (((first + j) % capacity : Nat) + 1 : Int) % capacity = ((first + (j + 1)) % capacity : Nat) := by
  rw [← Nat.add_assoc, ← Nat.mod_add_mod (first + j)]
  rfl

theorem place_ne {first j k : Nat} (inside : first < capacity) (less : j < k) (room : k < capacity) :
    (first + k) % capacity ≠ (first + j) % capacity := by
  rw [place_eq inside room, place_eq inside (less.trans room)]
  split <;> split <;> omega

theorem isFull_iff (positive : 0 < capacity) (holds : Holds capacity rs queue) :
    rs.isFull = true ↔ queue.length = capacity := by
  rw [isFull, decide_eq_true_iff]
  cases holds with
  | empty => simp only [length_nil]; omega
  | filled _ inside room size _ =>
    rw [size, place_eq inside room]
    dsimp only
    split <;> omega

theorem isEmpty_iff (holds : Holds capacity rs queue) : rs.isEmpty = true ↔ queue = [] := by
  rw [isEmpty, decide_eq_true_iff, ← length_eq_zero_iff]
  cases holds with
  | empty => simp
  | filled _ _ _ size _ =>
    dsimp only
    omega

theorem item_eq {items : List (Option Block)} {front rear : Int} {i : Nat} {gp : Option Block}
    (found : items[i]? = some gp) : item ⟨items, front, rear, capacity⟩ i = .ok gp := by
  rw [item, if_neg (by omega)]
  simp [found]

theorem Holds.pop {gp : Block} (holds : Holds capacity rs (gp :: queue)) :
    ∃ rs', rs.pop = .ok (some gp, rs') ∧ Holds capacity rs' queue := by
  have some := (isEmpty_iff holds).not.mpr (cons_ne_nil gp queue)
  cases holds with
  | @filled items _ first last places inside room size stored =>
    have found := stored 0 gp rfl
    rw [Nat.add_zero, Nat.mod_eq_of_lt inside] at found
    rw [BlockGPResults.pop, if_neg some, item_eq found]
    rw [length_cons, Nat.add_right_cancel_iff] at size
    by_cases single : last = 0
    · subst single
      rw [length_eq_zero_iff.mp size, Nat.add_zero, Nat.mod_eq_of_lt inside]
      exact ⟨_, if_pos rfl, .empty places⟩
    have apart := place_ne inside (Nat.pos_of_ne_zero single) room
    rw [Nat.add_zero, Nat.mod_eq_of_lt inside] at apart
    refine ⟨_, if_neg fun same => apart (Int.ofNat_inj.mp same.symm), ?_⟩
    obtain ⟨rest, rfl⟩ := Nat.exists_eq_add_one_of_ne_zero single
    have front : (first + 1 : Int) % capacity = ((first + 1) % capacity : Nat) := rfl
    rw [front, ← place_succ]
    refine .filled places (Nat.mod_lt _ (by omega)) (by omega) size fun j gp inside => ?_
    rw [place_succ first j]
    exact stored (j + 1) gp inside

theorem Holds.append (holds : Holds capacity rs queue) (room : queue.length < capacity) (gp : Block) :
    ∃ rs', rs.append gp = .ok rs' ∧ Holds capacity rs' (queue ++ [gp]) := by
  have positive : 0 < capacity := by omega
  refine ⟨_, if_neg (by cases holds <;> exact positive.ne'), ?_⟩
  cases holds with
  | @empty items places =>
    have filled : Holds capacity ⟨items.set 0 (some gp), (0 : Nat), ((0 + 0) % capacity : Nat), capacity⟩ [gp] := by
      refine .filled (by simpa using places) positive positive rfl fun j other found => ?_
      obtain ⟨rfl, rfl⟩ : j = 0 ∧ gp = other := by simpa [getElem?_singleton] using found
      rw [Nat.zero_mod]
      exact getElem?_set_self (places ▸ positive)
    exact filled
  | @filled items _ first last places inside _ size stored =>
    dsimp only
    rw [place_next, if_neg (by omega)]
    refine .filled ?_ inside (size ▸ room) (by simp [size]) fun j other found => ?_
    · simpa using places
    rw [size] at room
    rw [Int.toNat_natCast]
    rcases Nat.lt_or_ge j queue.length with old | new
    · rw [getElem?_append_left old] at found
      rw [getElem?_set_ne (place_ne inside (by omega) room)]
      exact stored j other found
    · obtain ⟨edge, rfl⟩ : j - queue.length = 0 ∧ gp = other := by
        simpa [getElem?_append_right new, getElem?_singleton] using found
      obtain rfl : j = last + 1 := by omega
      exact getElem?_set_self (places.symm ▸ Nat.mod_lt _ positive)

/-- The queue after a push: at capacity the oldest block is dropped. -/
def slide (capacity : Nat) (queue : List Block) (gp : Block) : List Block :=
  (if queue.length = capacity then queue.tail else queue) ++ [gp]

theorem Holds.push (positive : 0 < capacity) (holds : Holds capacity rs queue) (gp : Block) :
    ∃ rs', rs.push gp = .ok rs' ∧ Holds capacity rs' (slide capacity queue gp) := by
  rw [BlockGPResults.push, slide]
  by_cases full : queue.length = capacity
  · rw [if_pos ((isFull_iff positive holds).mpr full), if_pos full]
    cases queue with
    | nil => exact absurd full positive.ne
    | cons oldest rest =>
      obtain ⟨rs', popped, holds'⟩ := holds.pop
      rw [popped]
      exact holds'.append (Nat.lt_of_succ_le full.le) gp
  · rw [if_neg ((isFull_iff positive holds).not.mpr full), if_neg full]
    refine holds.append (lt_of_le_of_ne ?_ full) gp
    cases holds with
    | empty => exact Nat.zero_le _
    | filled _ _ room size _ => exact size.trans_le room

/-- The queue that drops its oldest block when it is full. -/
def fifo (capacity : Nat) (queue : List Block) : Op Block → List Block × Except Failure (Option Block)
  | .push gp => (slide capacity queue gp, .ok none)
  | .pop => match queue with
    | [] => ([], .error (.err "pop failed: BlockGPResults is empty"))
    | gp :: rest => (rest, .ok (some gp))

theorem Holds.step (positive : 0 < capacity) (holds : Holds capacity rs queue) (op : Op Block) :
    Holds capacity (rs.step op).1 (fifo capacity queue op).1 ∧ (rs.step op).2 = (fifo capacity queue op).2 := by
  cases op with
  | push gp =>
    obtain ⟨rs', done, holds'⟩ := holds.push positive gp
    rw [BlockGPResults.step, done]
    exact ⟨holds', rfl⟩
  | pop =>
    cases queue with
    | nil =>
      rw [BlockGPResults.step, BlockGPResults.pop, if_pos ((isEmpty_iff holds).mpr rfl)]
      exact ⟨holds, rfl⟩
    | cons gp rest =>
      obtain ⟨rs', done, holds'⟩ := holds.pop
      rw [BlockGPResults.step, done]
      exact ⟨holds', rfl⟩

variable [DecidableEq Block] (lastPrice : Int) (adoptHigherGp : Bool)

theorem sampleFrom_eq {items : List (Option Block)} {first last : Nat} (inside : first < capacity)
    (room : last < capacity) (size : queue.length = last + 1) (stored : Stored items capacity first queue)
    (is : rs = ⟨items, first, ((first + last) % capacity : Nat), capacity⟩) {turns j : Nat}
    (within : j ≤ last) (enough : last < j + turns) (s : Sampling Block) :
    rs.sampleFrom lastPrice adoptHigherGp turns ((first + j) % capacity : Nat) s =
      .ok ((queue.drop j).foldl (sample lastPrice adoptHigherGp) s) := by
  induction turns generalizing j s with
  | zero => omega
  | succ turns ih =>
    have there : j < queue.length := by omega
    have read : rs.sampleItem lastPrice adoptHigherGp ((first + j) % capacity : Nat) s =
        .ok (sample lastPrice adoptHigherGp s queue[j]) := by
      rw [sampleItem, is, item_eq (stored j _ (getElem?_eq_getElem there))]
      rfl
    rw [sampleFrom, read, drop_eq_getElem_cons there, foldl_cons]
    by_cases edge : j = last
    · rw [if_neg (by simp [is, edge]), drop_eq_nil_of_le (by omega)]
      rfl
    have apart := place_ne inside (Nat.lt_of_le_of_ne within edge) room
    rw [if_pos (by rw [is]; exact fun same => apart (Int.ofNat_inj.mp same.symm)),
      ← ih (by omega) (by omega), ← place_next, is]
    rfl

theorem Holds.sampling (holds : Holds capacity rs queue) (blocks : Block → SingleBlockGPs) :
    rs.executeSamplingBy lastPrice adoptHigherGp blocks =
      .ok (queue.foldl (sample lastPrice adoptHigherGp) ([], blocks)) := by
  have emptied := isEmpty_iff holds
  rw [executeSamplingBy]
  cases holds with
  | empty => exact if_pos (emptied.mpr rfl)
  | filled places inside room size stored =>
    have loop := sampleFrom_eq lastPrice adoptHigherGp inside room size stored rfl (Nat.zero_le _)
      (Nat.lt_of_lt_of_eq room (Nat.zero_add _).symm) ([], blocks)
    rw [Nat.add_zero, Nat.mod_eq_of_lt inside] at loop
    rw [if_neg fun none => by simp [emptied.mp none] at size]
    exact loop

/-- After any calls the buffer holds the queue of the last blocks, every call returns what it
returns for that queue, and sampling goes through it once, from the oldest to the newest. -/
theorem sliding_window (positive : 0 < capacity) (ops : List (Op Block)) :
    let rs := exec (fun rs op => (rs.step op).1) (newBlockGPResults capacity) ops
    let queue := exec (fun queue op => (fifo capacity queue op).1) [] ops
    Holds capacity rs queue ∧ (∀ op, (rs.step op).2 = (fifo capacity queue op).2) ∧
      ∀ lastPrice adoptHigherGp blocks, rs.executeSamplingBy lastPrice adoptHigherGp blocks =
        .ok (queue.foldl (sample lastPrice adoptHigherGp) ([], blocks)) := by
  intro rs queue
  have holds : Holds capacity rs queue :=
    related_exec (Holds capacity) (fun _ _ op holds _ => (Holds.step positive holds op).1)
      (.empty (length_replicate ..)) (along_true _ _ ops)
  exact ⟨holds, fun op => (holds.step positive op).2, fun _ _ blocks => holds.sampling _ _ blocks⟩

/-- A buffer of two places after three blocks. -/
theorem sliding_window_three : 0 < 2 ∧
    let rs := exec (fun rs op => (rs.step op).1) (newBlockGPResults 2) [.push 'a', .push 'b', .push 'c']
    (rs.step .pop).2 = .ok (some 'b') :=
  ⟨by decide, (sliding_window (by decide) [.push 'a', .push 'b', .push 'c']).2.1 .pop⟩

end BlockGPResults

end Exchain.GasPrices
