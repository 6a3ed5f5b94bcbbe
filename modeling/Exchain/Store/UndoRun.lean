import Exchain.Lib.PartialRun
import Exchain.Store.UndoStack

namespace Exchain.Store

open PartialRun Option AList
open List hiding all_eq_true lookup_eq_some_iff map_map set

variable {N K : Type} [DecidableEq N] [LinearOrder K]

/-- A stack with more layers, which leave alone what is read below them. -/
structure Stack.Above (d : Nat) (bottom stack : Stack K) : Prop where
  base : stack.base = bottom.base
  layers : d ≤ stack.layers.length
  reads : stack.readBelow d = bottom.read

namespace Stack.Above

variable {d : Nat} {bottom stack : Stack K}

theorem refl (stack : Stack K) : Above 0 stack stack := ⟨rfl, Nat.zero_le _, rfl⟩

theorem cacheWrap (above : Above d bottom stack) : Above (d + 1) bottom (stack.cacheWrap 0) :=
  ⟨above.base, Nat.succ_le_succ above.layers, above.reads⟩

theorem get (above : Above d bottom stack) (key : K) : Above d bottom (stack.get 0 key).2 := by
  refine ⟨above.base, ?_, ?_⟩
  · show d ≤ (Layers.get _ key stack.layers).2.length
    rw [Layers.length_get]
    exact above.layers
  · funext other
    rw [← above.reads]
    exact Layers.read_drop_get stack.base.lookup stack.layers key other d

theorem setValue (above : Above (d + 1) bottom stack) (key : K) (value : CValue) :
    Above (d + 1) bottom (stack.setValue 0 key value) := by
  obtain ⟨_, _⟩ := stack
  obtain ⟨_, _, rfl⟩ := exists_cons_of_length_pos (Nat.zero_lt_of_lt above.layers)
  exact ⟨above.base, above.layers, above.reads⟩

theorem discard (above : Above (d + 1) bottom stack) : Above d bottom (stack.discard 0) := by
  refine ⟨above.base, ?_, ?_⟩
  · have layers := above.layers
    show d ≤ (stack.layers.drop 1).length
    rw [length_drop]
    omega
  · rw [← above.reads]
    show Layers.read stack.base.lookup ((stack.layers.drop 1).drop d) = _
    rw [drop_drop, Nat.add_comm 1 d]
    rfl

theorem commit (above : Above (d + 2) bottom stack) : Above (d + 1) bottom stack.commit := by
  have layers := above.layers
  match here : stack.layers with
  | [] => simp [here] at layers
  | [store] => simp [here] at layers
  | store :: parent :: below =>
    obtain ⟨base, _, reads⟩ := readBelow_commit here
    refine ⟨base.trans above.base, ?_, ?_⟩
    · rw [here] at layers
      simp only [length_cons] at layers
      omega
    · rw [← above.reads]
      exact funext (reads d)

theorem revert (above : Above (d + 1) bottom stack) (set : SnapshotWSet K) :
    Above (d + 1) bottom (stack.revert set) := by
  have some_layer : stack.layers ≠ [] := ne_nil_of_length_pos (Nat.zero_lt_of_lt above.layers)
  obtain ⟨base, length, reads⟩ := readBelow_revert some_layer set
  exact ⟨base.trans above.base, length ▸ above.layers, (reads d).trans above.reads⟩

end Stack.Above

namespace MultiStore

def reads (multi : MultiStore N K) (name : Option N) : Option (K → Content) :=
  (multi.lookup name).map Stack.read

def readsBelow (multi : MultiStore N K) (d : Nat) (name : Option N) : Option (K → Content) :=
  (multi.lookup name).map fun stack => stack.readBelow d

/-- The same stores, each with more layers. -/
def Above (d : Nat) (bottom multi : MultiStore N K) : Prop :=
  ∀ name, Option.Rel (Stack.Above d) (bottom.lookup name) (multi.lookup name)

theorem lookup_commit (multi : MultiStore N K) (name : Option N) :
    multi.writeGetMultiSnapshotWSet.2.discard.lookup name = (multi.lookup name).map Stack.commit := by
  rw [discard, lookup_mapValues, writeGetMultiSnapshotWSet, lookup_mapValues,
    map_map]
  rfl

variable {multi : MultiStore N K} {set : MultiSnapshotWSet N K}

theorem exists_revertDB (complete : ∀ name, (multi.lookup name).isSome → (set.lookup name).isSome) :
    ∃ multi', multi.revertDBWithMultiSnapshotRWSet set = .ok multi' := by
  have all : multi.cacheMultiStore.entries.all (fun item => (set.lookup item.1).isSome) = true := by
    rw [List.all_eq_true]
    rintro ⟨name, stack⟩ inside
    have found := (lookup_eq_some_iff ..).mpr inside
    rw [cacheMultiStore, lookup_mapValues] at found
    apply complete name
    rw [← isSome_map (f := fun stack => stack.cacheWrap 0), found]
    rfl
  rw [revertDBWithMultiSnapshotRWSet, revertCache, if_pos all]
  exact ⟨_, rfl⟩

theorem lookup_revertDB {multi' : MultiStore N K}
    (done : multi.revertDBWithMultiSnapshotRWSet set = .ok multi') (name : Option N) :
    multi'.lookup name =
      (multi.lookup name).map fun stack => stack.revert ((set.lookup name).getD ∅) := by
  unfold revertDBWithMultiSnapshotRWSet revertCache at done
  split at done
  · cases done
    dsimp only [discard, write, cacheMultiStore]
    rw [lookup_mapValues, lookup_mapValues, lookup_mapValues,
      lookup_mapValues, map_map, map_map, map_map]
    rfl
  · simp [Except.map] at done

theorem above_refl (multi : MultiStore N K) : Above 0 multi multi := by
  intro name
  cases multi.lookup name with
  | none => exact .none
  | some stack => exact .some (.refl stack)

variable {bottom : MultiStore N K}

theorem Above.map {d d' : Nat} {multi' : MultiStore N K} (above : Above d bottom multi)
    {f : Option N → Stack K → Stack K}
    (mapped : ∀ name, multi'.lookup name = (multi.lookup name).map (f name))
    (keep : ∀ name below stack, Stack.Above d below stack → Stack.Above d' below (f name stack)) :
    Above d' bottom multi' := by
  intro name
  have related := above name
  rw [mapped]
  generalize bottom.lookup name = below at related
  generalize multi.lookup name = stack at related
  cases related with
  | none => exact .none
  | some related => exact .some (keep name _ _ related)

theorem Above.insert {d : Nat} (above : Above d bottom multi)
    {name : Option N} {stack stack' : Stack K} (found : multi.lookup name = some stack)
    (keep : ∀ below, Stack.Above d below stack → Stack.Above d below stack') :
    Above d bottom (multi.insert name stack') := by
  intro other
  rw [lookup_insert_if]
  have related := above other
  split
  · rename_i same
    subst same
    rw [found] at related
    generalize bottom.lookup other = below at related
    cases related with
    | some related => exact .some (keep _ related)
  · exact related

theorem Above.reads {d : Nat} (above : Above d bottom multi) :
    multi.readsBelow d = bottom.reads := by
  funext name
  have related := above name
  rw [readsBelow, MultiStore.reads]
  generalize bottom.lookup name = below at related
  generalize multi.lookup name = stack at related
  cases related with
  | none => rfl
  | some related => exact congrArg some related.reads

/-- The set holds, under what is read after a commit, what was read before. -/
structure Undoes (set : MultiSnapshotWSet N K) (before after : MultiStore N K) : Prop where
  stores : ∀ name, after.reads name = none → before.reads name = none
  values : ∀ name read, after.reads name = some read → ∃ snapshot, set.lookup name = some snapshot ∧
    before.reads name = some fun key => (snapshot.lookup key).getD (read key)

theorem undoes_commit (above : Above 1 bottom multi) :
    Undoes multi.writeGetMultiSnapshotWSet.1 bottom multi.writeGetMultiSnapshotWSet.2.discard := by
  constructor
  · intro name absent
    have related := above name
    rw [reads, lookup_commit, map_map, map_eq_none_iff] at absent
    rw [absent] at related
    rw [reads]
    generalize bottom.lookup name = below at related
    cases related with
    | none => rfl
  intro name read found
  have related := above name
  rw [reads, lookup_commit, map_map, map_eq_some_iff] at found
  obtain ⟨stack, found, rfl⟩ := found
  rw [found] at related
  refine ⟨stack.writeWithSnapshotWSet.1, ?_, ?_⟩
  · rw [writeGetMultiSnapshotWSet, lookup_mapValues, found]
    rfl
  rw [reads]
  generalize bottom.lookup name = below at related
  cases related with
  | some related =>
    refine congrArg some (funext fun key => ?_)
    obtain ⟨store, _, here⟩ :=
      exists_cons_of_length_pos (Nat.zero_lt_of_lt related.layers)
    obtain ⟨committed, noted⟩ := Stack.read_commit here key
    rw [← related.reads, noted, Function.comp_apply, committed]
    cases store.changes key <;> rfl

/-- Reverting restores what was read, wherever the same is read as after the commit. -/
theorem Undoes.revert {before after : MultiStore N K}
    (undoes : Undoes set before after) (same : multi.reads = after.reads) :
    ∃ multi', multi.revertDBWithMultiSnapshotRWSet set = .ok multi' ∧ multi'.reads = before.reads := by
  have complete : ∀ name, (multi.lookup name).isSome → (set.lookup name).isSome := by
    intro name present
    obtain ⟨stack, found⟩ := isSome_iff_exists.mp present
    have read : after.reads name = some stack.read := by
      rw [← same, reads, found]
      rfl
    obtain ⟨_, held, -⟩ := undoes.values name _ read
    rw [held]
    rfl
  obtain ⟨multi', done⟩ := exists_revertDB complete
  refine ⟨multi', done, funext fun name => ?_⟩
  rw [reads, lookup_revertDB done]
  cases found : multi.lookup name with
  | none =>
    refine (undoes.stores name ?_).symm
    rw [← same, reads, found]
    rfl
  | some stack =>
    have read : after.reads name = some stack.read := by
      rw [← same, reads, found]
      rfl
    obtain ⟨snapshot, held, before'⟩ := undoes.values name _ read
    rw [before', held]
    exact congrArg some (funext fun key => stack.read_revert snapshot key)

end MultiStore

/-- The operations stay inside a context with a number of contexts open in it: they neither commit
nor drop it, and close what they open. -/
def ContextOp.Within : Nat → List (ContextOp N K) → Prop
  | d, [] => d = 0
  | d, .cacheContext :: rest => Within (d + 1) rest
  | 0, .commit :: _ => False
  | 0, .discard :: _ => False
  | d + 1, .commit :: rest => Within d rest
  | d + 1, .discard :: rest => Within d rest
  | d, _ :: rest => Within d rest

namespace Contexts

/-- A context is opened, used and committed. -/
def session (ops : List (ContextOp N K)) : List (ContextOp N K) := .cacheContext :: ops ++ [.commit]

/-- Contexts that are open above others. -/
structure Above (d : Nat) (bottom contexts : Contexts N K) : Prop where
  multi : MultiStore.Above d bottom.multi contexts.multi
  sets : ∃ inner, inner.length = d ∧ contexts.sets = inner ++ bottom.sets

theorem Above.access {d : Nat} {bottom contexts contexts' : Contexts N K}
    (above : Above d bottom contexts) {name : N} {f : Stack K → Stack K}
    (keep : ∀ below stack, Stack.Above d below stack → Stack.Above d below (f stack))
    (done : contexts.access name f = .ok contexts') : Above d bottom contexts' := by
  unfold Contexts.access at done
  split at done
  · simp at done
  rename_i stack found
  cases done
  exact ⟨above.multi.insert found fun below => keep below stack, above.sets⟩

variable {contexts contexts' : Contexts N K} {outer : List (List (MultiSnapshotWSet N K))}
  {sets : List (MultiSnapshotWSet N K)}
  {bottom : Contexts N K} {d : Nat} {sessions : List (List (ContextOp N K))}

theorem Above.cacheContext
    (above : Above d bottom contexts) (done : contexts.step .cacheContext = .ok contexts') :
    Above (d + 1) bottom contexts' := by
  cases done
  obtain ⟨inner, depth, sets⟩ := above.sets
  refine ⟨above.multi.map (lookup_mapValues _ _) fun _ _ _ related => related.cacheWrap,
    [] :: inner, ?_, ?_⟩
  · rw [length_cons, depth]
  · rw [sets]
    rfl

theorem Above.commit
    (above : Above (d + 2) bottom contexts) (done : contexts.step .commit = .ok contexts') :
    Above (d + 1) bottom contexts' := by
  obtain ⟨inner, depth, sets⟩ := above.sets
  match inner, depth with
  | first :: second :: inner, depth =>
    rw [step, sets] at done
    cases done
    refine ⟨above.multi.map (MultiStore.lookup_commit _) fun _ _ _ related => related.commit,
      _ :: inner, ?_, rfl⟩
    simpa using depth

theorem Above.discard
    (above : Above (d + 2) bottom contexts) (done : contexts.step .discard = .ok contexts') :
    Above (d + 1) bottom contexts' := by
  obtain ⟨inner, depth, sets⟩ := above.sets
  match inner, depth with
  | first :: second :: inner, depth =>
    rw [step, sets] at done
    cases done
    refine ⟨above.multi.map (lookup_mapValues _ _) fun _ _ _ related => related.discard,
      second :: inner, ?_, rfl⟩
    simpa using depth

theorem Above.revert
    (above : Above (d + 1) bottom contexts) (done : contexts.step .revert = .ok contexts') :
    Above (d + 1) bottom contexts' := by
  obtain ⟨inner, depth, sets⟩ := above.sets
  match inner, depth with
  | [] :: inner, depth =>
    rw [step, sets] at done
    cases done
    exact above
  | (set :: first) :: inner, depth =>
    rw [step, sets] at done
    dsimp only [cons_append] at done
    cases reverted : contexts.multi.revertDBWithMultiSnapshotRWSet set with
    | error => simp [reverted, Except.map] at done
    | ok =>
      rw [reverted] at done
      cases done
      exact ⟨above.multi.map (MultiStore.lookup_revertDB reverted)
        fun _ _ _ related => related.revert _, first :: inner, depth, rfl⟩

variable {ops : List (ContextOp N K)}

theorem Above.run (above : Above (d + 1) bottom contexts) (within : ContextOp.Within d ops)
    (done : run step contexts ops = .ok contexts') : Above 1 bottom contexts' := by
  induction ops generalizing d contexts with
  | nil =>
    obtain rfl : d = 0 := within
    cases done
    exact above
  | cons op rest ih =>
    obtain ⟨_, first, later⟩ := run_cons_ok done
    cases op with
    | cacheContext => exact ih (above.cacheContext first) within later
    | get name key =>
      exact ih (above.access (fun _ _ related => related.get key) first) within later
    | set name key value =>
      exact ih (above.access (fun _ _ related => related.setValue key (.value value)) first)
        within later
    | delete name key =>
      exact ih (above.access (fun _ _ related => related.setValue key .deleted) first) within later
    | commit =>
      cases d with
      | zero => exact within.elim
      | succ d => exact ih (above.commit first) within later
    | discard =>
      cases d with
      | zero => exact within.elim
      | succ d => exact ih (above.discard first) within later
    | revert => exact ih (above.revert first) within later

/-- A session leaves a set that undoes it, and until its commit changes nothing read below it. -/
theorem session_spec (here : contexts.sets = sets :: outer) (within : ContextOp.Within 0 ops)
    (done : run step contexts (session ops) = .ok contexts') :
    ∃ opened set, run step contexts (.cacheContext :: ops) = .ok opened ∧
      opened.multi.readsBelow 1 = contexts.multi.reads ∧
      contexts'.sets = (set :: sets) :: outer ∧
      MultiStore.Undoes set contexts.multi contexts'.multi := by
  obtain ⟨opened, first, last⟩ := run_append_ok done
  obtain ⟨_, wrap, used⟩ := run_cons_ok first
  have bottom : Above 0 contexts contexts := ⟨MultiStore.above_refl _, [], rfl, rfl⟩
  have above := (bottom.cacheContext wrap).run within used
  obtain ⟨_, commit, finished⟩ := run_cons_ok last
  cases finished
  obtain ⟨_, depth, depths⟩ := above.sets
  obtain ⟨_, rfl⟩ := length_eq_one_iff.mp depth
  rw [step, depths, here] at commit
  cases commit
  exact ⟨opened, _, first, above.multi.reads, rfl, MultiStore.undoes_commit above.multi⟩

/-- Sessions are undone by as many reverts. -/
theorem reverts_of_sessions (here : contexts.sets = sets :: outer)
    (within : ∀ ops ∈ sessions, ContextOp.Within 0 ops)
    (done : run step contexts (sessions.flatMap session) = .ok contexts') :
    (∃ sets', contexts'.sets = sets' :: outer) ∧
      ∃ restored, run step contexts' (replicate sessions.length .revert) = .ok restored ∧
        restored.multi.reads = contexts.multi.reads ∧ restored.sets = contexts.sets := by
  induction sessions generalizing contexts sets with
  | nil =>
    obtain rfl := Except.ok.inj done
    exact ⟨⟨sets, here⟩, contexts, rfl, rfl, rfl⟩
  | cons ops rest ih =>
    obtain ⟨_, first, later⟩ := run_append_ok done
    obtain ⟨_, _, -, -, kept, undoes⟩ :=
      session_spec here (within ops mem_cons_self) first
    obtain ⟨last, almost, reverted, reads, sets'⟩ := ih kept
      (fun ops inside => within ops (mem_cons_of_mem _ inside)) later
    obtain ⟨multi, undone, restored⟩ := undoes.revert reads
    refine ⟨last, ⟨multi, sets :: outer⟩, ?_, restored, here.symm⟩
    rw [length_cons, replicate_succ', run_append, reverted]
    show run step almost [.revert] = _
    rw [run_cons, step, sets', kept]
    dsimp only
    rw [undone]
    rfl

/-- Reverting the commits of contexts, the last one first, restores for every store and key what was
read before the commit. -/
theorem reverts_restore {contexts after : Contexts N K} {sets : List (MultiSnapshotWSet N K)}
    {outer : List (List (MultiSnapshotWSet N K))} (here : contexts.sets = sets :: outer)
    (earlier later : List (List (ContextOp N K))) (ops : List (ContextOp N K))
    (within : ∀ each ∈ earlier ++ ops :: later, ContextOp.Within 0 each)
    (done : run step contexts ((earlier ++ ops :: later).flatMap session) = .ok after) :
    ∃ opened restored,
      run step contexts (earlier.flatMap session ++ .cacheContext :: ops) = .ok opened ∧
      run step after (replicate (later.length + 1) .revert) = .ok restored ∧
      restored.multi.reads = opened.multi.readsBelow 1 := by
  rw [flatMap_append] at done
  obtain ⟨_, first, last⟩ := run_append_ok done
  obtain ⟨⟨_, now⟩, -⟩ := reverts_of_sessions here
    (fun each inside => within each (mem_append_left _ inside)) first
  have within' := fun each inside => within each (mem_append_right _ inside)
  obtain ⟨-, restored, reverted, reads, -⟩ := reverts_of_sessions now within' last
  obtain ⟨_, own, -⟩ := run_append_ok last
  obtain ⟨opened, _, used, kept, -, -⟩ := session_spec now (within' ops mem_cons_self) own
  refine ⟨opened, restored, ?_, reverted, reads.trans kept.symm⟩
  rw [run_append, first]
  exact used

/-- A store with a key that is set, one that is only read and one that is deleted. -/
def someStores : Contexts Nat Nat := ⟨(∅ : MultiStore Nat Nat).insert (some 0)
      ⟨(∅ : Base Nat).insert 1 [1], [CacheKV.new.set 2 [2], (CacheKV.new.delete 3).setRead 1 (some [1])]⟩,
    [[]]⟩

/-- Two contexts, the first with another one inside that is reverted. -/
def twoSessions : List (List (ContextOp Nat Nat)) :=
  [[.set 0 1 [7], .cacheContext, .delete 0 2, .commit, .revert, .set 0 3 []],
    [.delete 0 1, .set 0 2 [8], .get 0 4]]

theorem reverts_restore_twoSessions : ∃ opened restored after,
    run step someStores (twoSessions.flatMap session) = .ok after ∧
    run step someStores (.cacheContext :: twoSessions.headD []) = .ok opened ∧
    run step after [.revert, .revert] = .ok restored ∧
    restored.multi.reads = opened.multi.readsBelow 1 := by
  have within : ∀ each ∈ [] ++ twoSessions.headD [] :: twoSessions.tail, ContextOp.Within 0 each := by
    simp [twoSessions, ContextOp.Within]
  have done : ∃ after, run step someStores (twoSessions.flatMap session) = .ok after := ⟨_, rfl⟩
  obtain ⟨after, done⟩ := done
  obtain ⟨opened, restored, used, reverted, same⟩ := reverts_restore
    (show someStores.sets = [] :: [] from rfl) [] twoSessions.tail (twoSessions.headD []) within done
  exact ⟨opened, restored, after, done, used, reverted, same⟩

end Contexts

end Exchain.Store
