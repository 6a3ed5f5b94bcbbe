import Exchain.Lib.Run
import Exchain.Lib.SortedMap
import Mathlib.Data.Prod.Lex

/-! Proposals that passed and wait for a height. The handler of one runs in a cached context and
takes it out of the queue itself. -/

namespace Exchain.Gov

open List Option

variable {P Change Upgrade : Type}

inductive Content (Change Upgrade : Type)
  | parameterChange (height : ℕ) (changes : List Change)
  | upgrade (expectHeight : ℕ) (upgrade : Upgrade)

inductive UpgradeStatus
  | waitingEffective
  | effective

/-- The module of the parameters. `update` updates a subspace and fails if there is none of that
name or it refuses the value. -/
structure ParamsKeeper (P Change Upgrade : Type) where
  update : P → Change → Option P
  queryReadyForUpgrade : Upgrade → Bool
  writeUpgradeInfo : P → Upgrade → UpgradeStatus → ℕ → P

/-- The queue holds the height and the number of each proposal that waits. -/
structure Store (P : Type) where
  params : P
  waiting : SortedMap (ℕ ×ₗ ℕ) Unit

def changeParams (k : ParamsKeeper P Change Upgrade) (params : P) (changes : List Change) :
    Option P :=
  changes.foldlM k.update params

def getUpgradeProposalConfirmHeight (currentHeight expectHeight : ℕ) : ℕ :=
  if expectHeight = 0 ∨ expectHeight - 1 < currentHeight then currentHeight else expectHeight - 1

/-- `none` is an error, with which nothing is written. -/
def handler (k : ParamsKeeper P Change Upgrade) (curHeight proposalID : ℕ) (s : Store P) :
    Content Change Upgrade → Option (Store P)
  | .parameterChange height changes =>
    if curHeight < height then
      some { s with waiting := s.waiting.set (toLex (height, proposalID)) () }
    else (changeParams k s.params changes).map fun params =>
      { params, waiting := s.waiting.delete (toLex (height, proposalID)) }
  | .upgrade expectHeight upgrade =>
    let confirmHeight := getUpgradeProposalConfirmHeight curHeight expectHeight
    if curHeight < confirmHeight then
      some
        { params := k.writeUpgradeInfo s.params upgrade .waitingEffective (confirmHeight + 1)
          waiting := s.waiting.set (toLex (confirmHeight, proposalID)) () }
    else
      some
        { params := if k.queryReadyForUpgrade upgrade then
            k.writeUpgradeInfo s.params upgrade .effective (confirmHeight + 1) else s.params
          waiting := s.waiting.delete (toLex (confirmHeight, proposalID)) }

def Content.appointed : Content Change Upgrade → ℕ
  | .parameterChange height _ => height
  | .upgrade expectHeight _ => expectHeight - 1

/-- The parameters take what the proposal changes. -/
def Content.Accepted (k : ParamsKeeper P Change Upgrade) (params : P) : Content Change Upgrade → Prop
  | .parameterChange _ changes => (changeParams k params changes).isSome
  | .upgrade _ _ => True

section

variable {k : ParamsKeeper P Change Upgrade} {cur id : ℕ} {s t : Store P}
  {content : Content Change Upgrade}

theorem handler_waiting (done : handler k cur id s content = some t) :
    cur < content.appointed ∧ t.waiting = s.waiting.set (toLex (content.appointed, id)) () ∨
    content.appointed ≤ cur ∧ ∃ height, t.waiting = s.waiting.delete (toLex (height, id)) ∧
      (content.appointed = cur → height = cur) := by
  cases content with
  | parameterChange height =>
    simp only [handler] at done
    split at done
    · next later =>
      cases done
      exact .inl ⟨later, rfl⟩
    · next due =>
      obtain ⟨_, -, rfl⟩ := map_eq_some_iff.mp done
      exact .inr ⟨Nat.not_lt.mp due, height, rfl, fun now => now⟩
  | upgrade expectHeight =>
    have confirm : getUpgradeProposalConfirmHeight cur expectHeight = max (expectHeight - 1) cur := by
      unfold getUpgradeProposalConfirmHeight
      split <;> omega
    simp only [handler, confirm] at done
    split at done
    · next later =>
      cases done
      have later : cur < expectHeight - 1 := by omega
      exact .inl ⟨later, by rw [max_eq_left later.le]; rfl⟩
    · next due =>
      cases done
      exact .inr ⟨by simp only [Content.appointed]; omega, _, rfl, fun now => by
        simp only [Content.appointed] at now; omega⟩

end

/-- The proposal that is watched, and the other ones. -/
structure Watched (P Change Upgrade : Type) where
  keeper : ParamsKeeper P Change Upgrade
  contents : ℕ → Content Change Upgrade
  id : ℕ

namespace Watched

variable (c : Watched P Change Upgrade)

def handle (curHeight proposalID : ℕ) (s : Store P) : Option (Store P) :=
  handler c.keeper curHeight proposalID s (c.contents proposalID)

def appointed : ℕ := (c.contents c.id).appointed

abbrev key : ℕ ×ₗ ℕ := toLex (c.appointed, c.id)

theorem handle_isSome (cur : ℕ) (s : Store P) : (c.handle cur c.id s).isSome ↔
    cur < c.appointed ∨ (c.contents c.id).Accepted c.keeper s.params := by
  unfold handle appointed
  cases c.contents c.id with
  | parameterChange =>
    simp only [handler]
    split
    · next later => exact iff_of_true rfl (.inl later)
    next due =>
    rw [isSome_map]
    exact (or_iff_right due).symm
  | upgrade =>
    simp only [handler]
    split <;> exact iff_of_true rfl (.inr trivial)

end Watched

/-- A chain of which one proposal is watched: the height at which it passed, and those at which its
handler was invoked out of the queue. -/
structure World (P : Type) where
  height : ℕ
  store : Store P
  passed : Option ℕ
  invoked : List ℕ

inductive Op (P : Type)
  | nextBlock (txs : P → P)
  | pass (proposalID : ℕ)

namespace World

variable (c : Watched P Change Upgrade) (w : World P)

/-- One proposal out of the queue: what its handler wrote counts only without an error. -/
def handleWaiting (key : ℕ ×ₗ ℕ) : World P :=
  let proposalID := (ofLex key).2
  { w with
    store := (c.handle w.height proposalID w.store).getD w.store
    invoked := if proposalID = c.id then w.invoked ++ [w.height] else w.invoked }

def due : List (ℕ ×ₗ ℕ) :=
  w.store.waiting.keys.filter fun key => (ofLex key).1 ≤ w.height

def deliver (txs : P → P) : World P :=
  { w with height := w.height + 1, store := { w.store with params := txs w.store.params } }

/-- The state that a waiting proposal meets in the next block after those before it. -/
def met (txs : P → P) (before : List (ℕ ×ₗ ℕ)) : World P :=
  Run.exec (handleWaiting c) (w.deliver txs) before

/-- A block up to the waiting proposals, or one of the proposals that pass after these. -/
def step : Op P → World P
  | .nextBlock txs => w.met c txs (w.deliver txs).due
  | .pass proposalID =>
    { w with
      store := (c.handle w.height proposalID w.store).getD w.store
      passed := if proposalID = c.id then some w.height else w.passed }

def start (params : P) : World P := ⟨0, ⟨params, ∅⟩, none, []⟩

/-- The proposal passed in a block before the one that it names. -/
def Delayed : Prop := ∃ height, w.passed = some height ∧ height < c.appointed

/-- A delayed proposal is invoked in the block of its height only, and gone from the queue then. -/
def RunsOnce : Prop := w.Delayed c →
    w.invoked = (if c.appointed ≤ w.height then [c.appointed] else []) ∧
    (c.appointed ≤ w.height → ∀ height, w.store.waiting.get (toLex (height, c.id)) = none)

/-- A proposal passes once. -/
def InTime : Op P → Prop
  | .nextBlock _ => True
  | .pass proposalID => proposalID = c.id → w.passed = none

/-- When its turn comes, the parameters that the proposal meets accept it. -/
def Succeeds : Op P → Prop
  | .nextBlock txs => ∀ before after, (w.deliver txs).due = before ++ c.key :: after →
      (c.contents c.id).Accepted c.keeper (w.met c txs before).store.params
  | .pass _ => True

/-- Every proposal waits under the height that it names. -/
def Keyed (s : Store P) : Prop :=
  ∀ height i, s.waiting.get (toLex (height, i)) = some () → (c.contents i).appointed = height

structure Sound (w : World P) : Prop where
  keyed : Keyed c w.store
  queued : w.store.waiting.get c.key = some () ↔ w.Delayed c ∧ w.height < c.appointed
  idle : ¬ w.Delayed c → w.invoked = []
  once : w.Delayed c → w.invoked = if c.appointed ≤ w.height then [c.appointed] else []

variable {c} {w : World P}

theorem Sound.runsOnce (sound : Sound c w) : RunsOnce c w := by
  refine fun delayed => ⟨sound.once delayed, fun past height => ?_⟩
  cases found : w.store.waiting.get (toLex (height, c.id)) with
  | none => rfl
  | some _ =>
    obtain rfl := sound.keyed height c.id found
    exact absurd (sound.queued.mp found).2 (Nat.not_lt.mpr past)

theorem handled_waiting (cur i : ℕ) (s : Store P) :
    (∀ j height, j ≠ i → ((c.handle cur i s).getD s).waiting.get (toLex (height, j)) =
      s.waiting.get (toLex (height, j))) ∧ (Keyed c s → Keyed c ((c.handle cur i s).getD s)) := by
  cases done : c.handle cur i s with
  | none => exact ⟨fun _ _ _ => rfl, fun keyed => keyed⟩
  | some t =>
    rw [getD_some]
    obtain ⟨-, waiting⟩ | ⟨-, _, waiting, -⟩ := handler_waiting done
    · constructor
      · intro j height differ
        rw [waiting, SortedMap.get_set_ne]
        simp [differ]
      intro keyed height j found
      rw [waiting, SortedMap.get_set] at found
      split at found
      · next same =>
        cases toLex.injective same
        rfl
      · exact keyed height j found
    · constructor
      · intro j height differ
        rw [waiting, SortedMap.get_delete_ne]
        simp [differ]
      · intro keyed height j found
        rw [waiting] at found
        exact keyed height j (SortedMap.get_delete_eq_some.mp found).2

structure Unmoved (c : Watched P Change Upgrade) (w t : World P) : Prop where
  height : t.height = w.height
  passed : t.passed = w.passed
  invoked : t.invoked = w.invoked
  waiting : ∀ height, t.store.waiting.get (toLex (height, c.id)) =
    w.store.waiting.get (toLex (height, c.id))

theorem exec_unmoved {l : List (ℕ ×ₗ ℕ)} (others : ∀ key ∈ l, (ofLex key).2 ≠ c.id) :
    Unmoved c w (Run.exec (handleWaiting c) w l) := by
  induction l generalizing w with
  | nil => exact ⟨rfl, rfl, rfl, fun _ => rfl⟩
  | cons key rest ih =>
    have other := others key mem_cons_self
    have after := ih (w := w.handleWaiting c key)
      fun key inside => others key (mem_cons_of_mem _ inside)
    refine ⟨after.height, after.passed, after.invoked.trans (if_neg other), fun height => ?_⟩
    exact (after.waiting height).trans ((handled_waiting _ _ _).1 c.id height (Ne.symm other))

theorem exec_keyed (keyed : Keyed c w.store) (l : List (ℕ ×ₗ ℕ)) :
    Keyed c (Run.exec (handleWaiting c) w l).store :=
  Run.invariant_exec (fun u : World P => Keyed c u.store)
    (fun _ _ held => (handled_waiting _ _ _).2 held) keyed l

theorem mem_due {u : World P} {height i : ℕ} : toLex (height, i) ∈ u.due ↔
    u.store.waiting.get (toLex (height, i)) = some () ∧ height ≤ u.height := by
  rw [due, mem_filter, SortedMap.mem_keys]
  exact and_congr ⟨fun found => found.choose_spec, fun found => ⟨(), found⟩⟩ decide_eq_true_iff

section

variable (sound : Sound c w) {txs : P → P}

include sound

theorem Sound.alone {key : ℕ ×ₗ ℕ} (inside : key ∈ (w.deliver txs).due)
    (own : (ofLex key).2 = c.id) : key = c.key := by
  have member : toLex ((ofLex key).1, (ofLex key).2) ∈ (w.deliver txs).due := inside
  have height := sound.keyed _ _ (mem_due.mp member).1
  rw [own] at height
  exact ofLex.injective (Prod.ext height.symm own)

/-- The turn of the proposal comes in the block of its height, and the others leave it alone. -/
theorem Sound.turn {before after : List (ℕ ×ₗ ℕ)}
    (listed : (w.deliver txs).due = before ++ c.key :: after) :
    c.appointed = w.height + 1 ∧ w.Delayed c ∧ Unmoved c (w.deliver txs) (w.met c txs before) ∧
    Unmoved c ((w.met c txs before).handleWaiting c c.key) (w.step c (.nextBlock txs)) := by
  have inside : c.key ∈ (w.deliver txs).due := by simp [listed]
  obtain ⟨found, now⟩ := mem_due.mp inside
  obtain ⟨delayed, later⟩ := sound.queued.mp found
  have distinct : (w.deliver txs).due.Nodup := (SortedMap.nodup_keys _).filter _
  rw [listed, nodup_middle, nodup_cons, mem_append, not_or] at distinct
  have others : ∀ key ∈ before ++ after, (ofLex key).2 ≠ c.id := by
    intro key member own
    have same : key = c.key := by
      refine sound.alone (listed ▸ ?_ : key ∈ (w.deliver txs).due) own
      exact (sublist_append_right [c.key] after).append_left before |>.subset member
    rw [same, mem_append] at member
    exact member.elim distinct.1.1 distinct.1.2
  have split : w.step c (.nextBlock txs) = Run.exec (handleWaiting c)
      ((w.met c txs before).handleWaiting c c.key) after := by
    rw [step, listed]
    exact foldl_append
  refine ⟨le_antisymm now later, delayed, exec_unmoved fun key member => ?_, ?_⟩
  · exact others key (mem_append_left _ member)
  · rw [split]
    exact exec_unmoved fun key member => others key (mem_append_right _ member)

theorem Sound.nextBlock (succeeds : Succeeds c w (.nextBlock txs)) :
    Sound c (w.step c (.nextBlock txs)) := by
  have keyed : Keyed c (w.step c (.nextBlock txs)).store :=
    exec_keyed (w := w.deliver txs) sound.keyed _
  by_cases own : c.key ∈ (w.deliver txs).due
  · obtain ⟨before, after, listed⟩ := append_of_mem own
    obtain ⟨now, delayed, first, last⟩ := sound.turn listed
    obtain ⟨_, done⟩ := isSome_iff_exists.mp
      ((c.handle_isSome (w.met c txs before).height _).mpr (.inr (succeeds before after listed)))
    have height := (last.height.trans first.height).trans now.symm
    have passed := last.passed.trans first.passed
    obtain ⟨later, -⟩ | ⟨-, _, waiting, cur⟩ := handler_waiting done
    · exact absurd (later.trans_eq now) (by rw [first.height]; exact lt_irrefl _)
    refine ⟨keyed, iff_of_false (fun found => ?_) fun both => ?_, fun idle => absurd delayed ?_,
      fun _ => ?_⟩
    · rw [last.waiting, handleWaiting] at found
      simp only [ofLex_toLex, done, getD_some, waiting, cur (now.trans first.height.symm)] at found
      rw [first.height, deliver, ← now, SortedMap.get_delete_self] at found
      cases found
    · exact absurd both.2 (by rw [height]; exact lt_irrefl _)
    · rwa [Delayed, passed] at idle
    · rw [last.invoked, handleWaiting, ofLex_toLex, if_pos rfl, first.invoked, first.height,
        if_pos height.ge]
      change w.invoked ++ [w.height + 1] = _
      rw [sound.once delayed, if_neg (by omega), now, nil_append]
  · have same : Unmoved c (w.deliver txs) (w.step c (.nextBlock txs)) :=
      exec_unmoved fun key inside same => own (sound.alone inside same ▸ inside)
    have delayed : (w.step c (.nextBlock txs)).Delayed c ↔ w.Delayed c := by
      rw [Delayed, same.passed]
      exact Iff.rfl
    have waits : w.Delayed c → w.height + 1 ≠ c.appointed := fun held now =>
      own (mem_due.mpr ⟨sound.queued.mpr ⟨held, by omega⟩, now.ge⟩)
    refine ⟨keyed, ?_, fun idle => same.invoked.trans (sound.idle (delayed.not.mp idle)), ?_⟩
    · rw [same.waiting, delayed, same.height]
      refine sound.queued.trans (and_congr_right fun held => ?_)
      have differ := waits held
      simp only [deliver]
      omega
    · rw [delayed, same.height, same.invoked]
      intro held
      have differ := waits held
      refine (sound.once held).trans (if_congr ?_ rfl rfl)
      simp only [deliver]
      omega

theorem Sound.pass {i : ℕ} (inTime : InTime c w (.pass i)) : Sound c (w.step c (.pass i)) := by
  obtain ⟨others, keyed⟩ := handled_waiting (c := c) w.height i w.store
  by_cases own : i = c.id
  · subst own
    have never : ¬ w.Delayed c := by
      rintro ⟨height, passed, -⟩
      rw [inTime rfl] at passed
      cases passed
    have delayed : (w.step c (.pass c.id)).Delayed c ↔ w.height < c.appointed := by
      simp [Delayed, step]
    have absent := fun found => never (sound.queued.mp found).1
    refine ⟨keyed sound.keyed, ?_, fun _ => sound.idle never, fun held => ?_⟩
    · refine Iff.trans ?_ (and_iff_left_of_imp delayed.mp).symm
      rw [delayed, step]
      cases done : c.handle w.height c.id w.store with
      | none =>
        refine iff_of_false absent fun later => ?_
        exact absurd ((c.handle_isSome _ w.store).mpr (.inl later)) (by simp [done])
      | some t =>
        rw [getD_some]
        obtain ⟨later, waiting⟩ | ⟨due, _, waiting, -⟩ := handler_waiting done
        · rw [waiting]
          exact iff_of_true (SortedMap.get_set_self _ _ _) later
        · refine iff_of_false (fun found => ?_) (Nat.not_lt.mpr due)
          rw [waiting] at found
          exact absent (SortedMap.get_delete_eq_some.mp found).2
    · exact (sound.idle never).trans (if_neg (Nat.not_le.mpr (delayed.mp held))).symm
  · have delayed : (w.step c (.pass i)).Delayed c ↔ w.Delayed c := by
      simp [Delayed, step, own]
    refine ⟨keyed sound.keyed, ?_, fun idle => sound.idle (delayed.not.mp idle), fun held =>
      sound.once (delayed.mp held)⟩
    rw [delayed, step, others c.id _ (Ne.symm own)]
    exact sound.queued

theorem Sound.succeeds (once : RunsOnce c (w.step c (.nextBlock txs))) :
    Succeeds c w (.nextBlock txs) := by
  intro before after listed
  obtain ⟨now, delayed, first, last⟩ := sound.turn listed
  by_contra refused
  have failed : c.handle (w.met c txs before).height c.id (w.met c txs before).store = none := by
    rw [← not_isSome_iff_eq_none, c.handle_isSome, first.height]
    exact not_or.mpr ⟨now.not_gt, refused⟩
  have passed := last.passed.trans first.passed
  have gone := (once (by rwa [Delayed, passed])).2
    (now.trans (last.height.trans first.height).symm).le c.appointed
  -- The error drops the removal together with all else that the handler wrote.
  rw [last.waiting, handleWaiting, ofLex_toLex] at gone
  simp only [failed, getD_none, first.waiting] at gone
  have found := sound.queued.mpr ⟨delayed, by omega⟩
  exact absurd (gone.symm.trans found) (by simp)

end

theorem start_sound (params : P) : Sound c (start params) := by
  have never : ¬ (start params).Delayed c := by
    rintro ⟨height, passed, -⟩
    cases passed
  refine ⟨?_, iff_of_false ?_ fun both => never both.1, fun _ => rfl,
    fun delayed => absurd delayed never⟩
  · intro height i found
    cases found
  · intro found
    cases found

theorem delayed_runs_once (c : Watched P Change Upgrade) (params : P) (ops : List (Op P))
    (inTime : Run.Along (step c) (InTime c) (start params) ops) :
    (∀ w ∈ Run.visited (step c) (start params) ops, RunsOnce c w) ↔
      Run.Along (step c) (Succeeds c) (start params) ops := by
  apply Run.visited_iff_along_within (Sound c) (fun _ sound => sound.runsOnce) ?_ ?_
    (start_sound params) inTime
  · intro w op sound domain succeeds
    cases op with
    | nextBlock txs => exact sound.nextBlock succeeds
    | pass i => exact sound.pass domain
  · intro w op sound _ once
    cases op with
    | nextBlock txs => exact sound.succeeds once
    | pass i => trivial

end World

def rejecting (content : Content Unit Unit) : Watched Unit Unit Unit where
  keeper := ⟨fun _ _ => none, fun _ => true, fun params _ _ _ => params⟩
  contents _ := content
  id := 0

def threeBlocks : List (Op Unit) :=
  [.nextBlock fun _ => (), .pass 0, .nextBlock fun _ => (), .nextBlock fun _ => ()]

open World

/-- The change that is not accepted is tried at height 2 and again at height 3. -/
theorem failing_change_runs_again :
    ∃ w ∈ Run.visited (step (rejecting (.parameterChange 2 [()]))) (start ()) threeBlocks,
      w.invoked = [2, 3] ∧ ¬ RunsOnce (rejecting (.parameterChange 2 [()])) w := by
  refine ⟨_, Run.exec_mem_visited _ _ _, by decide, fun once => ?_⟩
  have told := (once ⟨1, by decide, by decide⟩).1
  revert told
  decide

theorem delayed_runs_once_upgrade : let c := rejecting (.upgrade 3 ())
    Run.Along (step c) (InTime c) (start ()) threeBlocks ∧
      ∀ w ∈ Run.visited (step c) (start ()) threeBlocks, RunsOnce c w := by
  intro c
  have inTime : Run.Along (step c) (InTime c) (start ()) threeBlocks :=
    ⟨trivial, fun _ => rfl, trivial, trivial, trivial⟩
  refine ⟨inTime, (delayed_runs_once c () threeBlocks inTime).mpr ?_⟩
  exact ⟨fun _ _ _ => trivial, trivial, fun _ _ _ => trivial, fun _ _ _ => trivial, trivial⟩

end Exchain.Gov
