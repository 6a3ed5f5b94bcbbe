import Exchain.Iavl.FastNodeChanges
import Exchain.Iavl.NodeContents
import Exchain.Store.MergeIterator

namespace Exchain.Iavl

open Overlay SortedPairs List
open Store (precedes)

variable {κ ν : Type} [LinearOrder κ]

/-- The fast nodes on disk inside a range, in the order of the direction. -/
def getFastIterator (start stop : Option κ) (ascending : Bool) (fast : AssocMap κ (FastNode ν)) :
    List (κ × FastNode ν) :=
  let inside := (fast.entries.map (fun entry => (entry.1, entry.2))).filter
    (fun p => startOrAfter start p.1 && beforeEnd stop p.1)
  let sorted := inside.insertionSort (fun a b => a.1 ≤ b.1)
  if ascending then sorted else sorted.reverse

/-- What is left of the disk's iterator and of the sorted additions, and the current pair. -/
structure UnsavedFastIterator (κ ν : Type) where
  fastIterator : List (κ × FastNode ν)
  unsaved : List (κ × FastNode ν)
  next : Option (κ × ν)
deriving Repr, DecidableEq

namespace UnsavedFastIterator

/-- Next, on what is left of the two lists. -/
def advance (ascending : Bool) (removals : AssocMap κ Unit) :
    List (κ × FastNode ν) → List (κ × FastNode ν) → UnsavedFastIterator κ ν
  | disk :: disks, addition :: additions =>
    if disk.1 ∈ removals then advance ascending removals disks (addition :: additions)
    else if precedes ascending disk.1 addition.1 then
      ⟨disks, addition :: additions, some (disk.1, disk.2.value)⟩
    else
      ⟨if disk.1 = addition.1 then disks else disk :: disks, additions,
        some (addition.1, addition.2.value)⟩
  | disk :: disks, [] =>
    if disk.1 ∈ removals then advance ascending removals disks []
    else ⟨disks, [], some (disk.1, disk.2.value)⟩
  | [], addition :: additions => ⟨[], additions, some (addition.1, addition.2.value)⟩
  | [], [] => ⟨[], [], none⟩

def Next (ascending : Bool) (removals : AssocMap κ Unit) (it : UnsavedFastIterator κ ν) :
    UnsavedFastIterator κ ν := advance ascending removals it.fastIterator it.unsaved

/-- A range that ends before it starts is never valid. -/
def Valid (start stop : Option κ) (it : UnsavedFastIterator κ ν) : Bool := match start, stop with
  | some low, some high =>
    decide (low < high) && (!it.fastIterator.isEmpty || !it.unsaved.isEmpty || it.next.isSome)
  | _, _ => !it.fastIterator.isEmpty || !it.unsaved.isEmpty || it.next.isSome

/-- newUnsavedFastIterator, which moves to the first pair. -/
def new (start stop : Option κ) (ascending : Bool) (fast : AssocMap κ (FastNode ν))
    (changes : FastNodeChanges κ ν) : UnsavedFastIterator κ ν :=
  advance ascending changes.removals (getFastIterator start stop ascending fast)
    (getFastIterator start stop ascending changes.additions)

/-- The pairs seen by a caller that turns the loop so many times. -/
def read (start stop : Option κ) (ascending : Bool) (removals : AssocMap κ Unit) :
    Nat → UnsavedFastIterator κ ν → List (κ × ν)
  | 0, _ => []
  | turns + 1, it =>
    if it.Valid start stop then
      it.next.toList ++ read start stop ascending removals turns (it.Next ascending removals)
    else []

/-- A caller sees these pairs, one after each Next, and then the iterator is invalid. -/
def Yields (start stop : Option κ) (ascending : Bool) (removals : AssocMap κ Unit) :
    UnsavedFastIterator κ ν → List (κ × ν) → Prop
  | it, [] => it.Valid start stop = false
  | it, pair :: rest => it.Valid start stop = true ∧ it.next = some pair ∧
    Yields start stop ascending removals (it.Next ascending removals) rest

/-- All pairs of an iterator over the changes and the disk. -/
def items (start stop : Option κ) (ascending : Bool) (fast : AssocMap κ (FastNode ν))
    (changes : FastNodeChanges κ ν) : List (κ × ν) :=
  let it := new start stop ascending fast changes
  read start stop ascending changes.removals (it.fastIterator.length + it.unsaved.length + 1) it

/-- A pair that is left: an addition, or a fast node on disk neither removed nor replaced. -/
def Shown (removals : AssocMap κ Unit) (disks additions : List (κ × FastNode ν)) (pair : κ × ν) :
    Prop :=
  (∃ node, (pair.1, node) ∈ additions ∧ node.value = pair.2) ∨
    ((∃ node, (pair.1, node) ∈ disks ∧ node.value = pair.2) ∧ pair.1 ∉ removals ∧
      ∀ node, (pair.1, node) ∉ additions)

structure Advanced (ascending : Bool) (removals : AssocMap κ Unit)
    (disks additions : List (κ × FastNode ν)) (it : UnsavedFastIterator κ ν) : Prop where
  sortedDisks : Ordered (precedes ascending) it.fastIterator
  sortedAdditions : Ordered (precedes ascending) it.unsaved
  finished : it.next = none →
    it.fastIterator = [] ∧ it.unsaved = [] ∧ ∀ q, ¬Shown removals disks additions q
  shown : ∀ pair, it.next = some pair → ∀ q,
    Shown removals disks additions q ↔ q = pair ∨ Shown removals it.fastIterator it.unsaved q
  later : ∀ pair, it.next = some pair → ∀ q,
    Shown removals it.fastIterator it.unsaved q → precedes ascending pair.1 q.1
  shorter : it.next ≠ none →
    it.fastIterator.length + it.unsaved.length < disks.length + additions.length

variable {additions : List (κ × FastNode ν)} {ascending : Bool} {disks : List (κ × FastNode ν)}
  {removals : AssocMap κ Unit}

omit [LinearOrder κ] in
theorem shown_skip {disk : κ × FastNode ν}
    (disks additions : List (κ × FastNode ν)) (removed : disk.1 ∈ removals) (q : κ × ν) :
    Shown removals (disk :: disks) additions q ↔ Shown removals disks additions q := by
  simp only [Shown, mem_cons]
  constructor
  · rintro (added | ⟨⟨node, rfl | inside, value⟩, kept, fresh⟩)
    · exact .inl added
    · exact absurd removed kept
    · exact .inr ⟨⟨node, inside, value⟩, kept, fresh⟩
  · rintro (added | ⟨⟨node, inside, value⟩, kept, fresh⟩)
    · exact .inl added
    · exact .inr ⟨⟨node, .inr inside, value⟩, kept, fresh⟩

theorem advanced_disk {disk : κ × FastNode ν}
    (sortedDisks : Ordered (precedes ascending) (disk :: disks))
    (sortedAdditions : Ordered (precedes ascending) additions) (kept : disk.1 ∉ removals)
    (before : ∀ addition ∈ additions, precedes ascending disk.1 addition.1) :
    Advanced ascending removals (disk :: disks) additions
      ⟨disks, additions, some (disk.1, disk.2.value)⟩ := by
  have fresh : ∀ node, (disk.1, node) ∉ additions := fun node inside =>
    irrefl_of (precedes ascending) disk.1 (before (disk.1, node) inside)
  have behind := (ordered_cons.mp sortedDisks).1
  refine ⟨(ordered_cons.mp sortedDisks).2, sortedAdditions, by simp, ?_, ?_, by simp⟩
  · rintro pair ⟨⟩ q
    simp only [Shown, mem_cons]
    constructor
    · rintro (added | ⟨⟨node, rfl | inside, value⟩, rest⟩)
      · exact .inr (.inl added)
      · exact .inl (Prod.ext rfl value.symm)
      · exact .inr (.inr ⟨⟨node, inside, value⟩, rest⟩)
    · rintro (rfl | added | ⟨⟨node, inside, value⟩, rest⟩)
      · exact .inr ⟨⟨disk.2, .inl rfl, rfl⟩, kept, fresh⟩
      · exact .inl added
      · exact .inr ⟨⟨node, .inr inside, value⟩, rest⟩
  · rintro pair ⟨⟩ q (⟨node, inside, -⟩ | ⟨⟨node, inside, -⟩, -⟩)
    · exact before _ inside
    · exact behind _ inside

theorem advanced_addition {addition : κ × FastNode ν} {disks' : List (κ × FastNode ν)}
    (sortedDisks : Ordered (precedes ascending) disks')
    (sortedAdditions : Ordered (precedes ascending) (addition :: additions))
    (members : ∀ q, q ∈ disks' ↔ q ∈ disks ∧ q.1 ≠ addition.1)
    (after : ∀ q ∈ disks', precedes ascending addition.1 q.1)
    (fewer : disks'.length ≤ disks.length) :
    Advanced ascending removals disks (addition :: additions)
      ⟨disks', additions, some (addition.1, addition.2.value)⟩ := by
  have behind := (ordered_cons.mp sortedAdditions).1
  refine ⟨sortedDisks, (ordered_cons.mp sortedAdditions).2, by simp, ?_, ?_, ?_⟩
  · rintro pair ⟨⟩ q
    simp only [Shown, mem_cons, members]
    constructor
    · rintro (⟨node, rfl | inside, value⟩ | ⟨⟨node, inside, value⟩, kept, fresh⟩)
      · exact .inl (Prod.ext rfl value.symm)
      · exact .inr (.inl ⟨node, inside, value⟩)
      · have apart : q.1 ≠ addition.1 := fun same => fresh addition.2 (.inl (Prod.ext same rfl))
        exact .inr (.inr ⟨⟨node, ⟨inside, apart⟩, value⟩, kept,
          fun other added => fresh other (.inr added)⟩)
    · rintro (rfl | ⟨node, inside, value⟩ | ⟨⟨node, ⟨inside, apart⟩, value⟩, kept, fresh⟩)
      · exact .inl ⟨addition.2, .inl rfl, rfl⟩
      · exact .inl ⟨node, .inr inside, value⟩
      · refine .inr ⟨⟨node, inside, value⟩, kept, ?_⟩
        rintro other (same | added)
        · exact apart (congrArg Prod.fst same)
        · exact fresh other added
  · rintro pair ⟨⟩ q (⟨node, inside, -⟩ | ⟨⟨node, inside, -⟩, -⟩)
    · exact behind _ inside
    · exact after _ inside
  · intro
    simp only [length_cons]
    omega

theorem advance_spec (ascending : Bool) (removals : AssocMap κ Unit)
    (disks additions : List (κ × FastNode ν)) (sortedDisks : Ordered (precedes ascending) disks)
    (sortedAdditions : Ordered (precedes ascending) additions) :
    Advanced ascending removals disks additions (advance ascending removals disks additions) := by
  induction disks with
  | nil =>
    cases additions with
    | nil =>
      refine ⟨ordered_nil, ordered_nil, ?_, by simp [advance], by simp [advance], by simp [advance]⟩
      exact fun _ => ⟨rfl, rfl, by simp [Shown]⟩
    | cons =>
      exact advanced_addition ordered_nil sortedAdditions (by simp) (by simp) (Nat.le_refl _)
  | cons disk disks ih =>
    have tail := ordered_cons.mp sortedDisks
    by_cases removed : disk.1 ∈ removals
    · have skipped : advance ascending removals (disk :: disks) additions =
          advance ascending removals disks additions := by
        cases additions <;> simp [advance, removed]
      have rested := ih tail.2
      rw [skipped]
      refine ⟨rested.sortedDisks, rested.sortedAdditions, ?_, ?_, rested.later, ?_⟩
      · intro exhausted
        obtain ⟨noDisks, noAdditions, nothing⟩ := rested.finished exhausted
        refine ⟨noDisks, noAdditions, fun q => ?_⟩
        rw [shown_skip disks additions removed]
        exact nothing q
      · intro pair found q
        rw [shown_skip disks additions removed, rested.shown pair found q]
      · intro found
        have := rested.shorter found
        simp only [length_cons]
        omega
    · cases additions with
      | nil =>
        simp only [advance, if_neg removed]
        exact advanced_disk sortedDisks ordered_nil removed (by simp)
      | cons addition =>
        simp only [advance, if_neg removed]
        by_cases before : precedes ascending disk.1 addition.1
        · rw [if_pos before]
          exact advanced_disk sortedDisks sortedAdditions removed (sortedAdditions.before_all before)
        rw [if_neg before]
        by_cases same : disk.1 = addition.1
        · rw [if_pos same]
          refine advanced_addition tail.2 sortedAdditions ?_ ?_ (by simp)
          · exact same ▸ sortedDisks.mem_tail_iff
          · exact same ▸ tail.1
        · rw [if_neg same]
          have after := sortedDisks.before_all (lt_of_not_lt before same)
          exact advanced_addition sortedDisks sortedAdditions (mem_iff_of_before after) after
            (Nat.le_refl _)

variable {start stop : Option κ}

variable (proper : ∀ low high, start = some low → stop = some high → low < high)
include proper

theorem valid_eq (it : UnsavedFastIterator κ ν) : it.Valid start stop =
      (!it.fastIterator.isEmpty || !it.unsaved.isEmpty || it.next.isSome) := by
  unfold Valid
  split
  · rename_i low high
    simp [proper low high rfl rfl]
  · rfl

/-- From a moved iterator on, a caller sees what was left before the move. Induction on the lists
before the move: the move to the end leaves no shorter ones. -/
theorem yields_of_advanced
    (it : UnsavedFastIterator κ ν) (advanced : Advanced ascending removals disks additions it) :
    ∃ pairs, Yields start stop ascending removals it pairs ∧ Ordered (precedes ascending) pairs ∧
      (∀ q, q ∈ pairs ↔ Shown removals disks additions q) ∧
      pairs.length ≤ it.fastIterator.length + it.unsaved.length + 1 ∧
      pairs.length ≤ disks.length + additions.length := by
  induction size : disks.length + additions.length using Nat.strong_induction_on
    generalizing disks additions it with
  | _ size ih =>
    subst size
    cases found : it.next with
    | none =>
      obtain ⟨noDisks, noAdditions, nothing⟩ := advanced.finished found
      refine ⟨[], ?_, ordered_nil, by simp [nothing], by simp, by simp⟩
      simp [Yields, valid_eq proper, found, noDisks, noAdditions]
    | some pair =>
      have shorter := advanced.shorter (by simp [found])
      obtain ⟨rest, yields, ordered, members, -, bound⟩ := ih _ shorter
        (it.Next ascending removals)
        (advance_spec _ _ _ _ advanced.sortedDisks advanced.sortedAdditions) rfl
      refine ⟨pair :: rest, ⟨by simp [valid_eq proper, found], found, yields⟩,
        ordered_cons.mpr ⟨?_, ordered⟩, fun q => ?_, by simpa using bound, by simp; omega⟩
      · exact fun q inside => advanced.later pair found q ((members q).mp inside)
      · rw [mem_cons, members, advanced.shown pair found q]

omit proper

theorem Yields.read_eq {pairs : List (κ × ν)} {it : UnsavedFastIterator κ ν} {turns : Nat}
    (yields : Yields start stop ascending removals it pairs) (enough : pairs.length ≤ turns) :
    read start stop ascending removals turns it = pairs := by
  induction pairs generalizing it turns with
  | nil =>
    have ended : it.Valid start stop = false := yields
    cases turns <;> simp [read, ended]
  | cons pair rest ih =>
    obtain ⟨valid, found, yields⟩ := yields
    cases turns with
    | zero => simp at enough
    | succ turns => simp [read, valid, found, ih yields (Nat.le_of_succ_le_succ enough)]

end UnsavedFastIterator

variable (start stop : Option κ) (ascending : Bool) (fast : AssocMap κ (FastNode ν))

include start stop ascending fast

theorem mem_getFastIterator (p : κ × FastNode ν) : p ∈ getFastIterator start stop ascending fast ↔
      fast.lookup p.1 = some p.2 ∧ (startOrAfter start p.1 && beforeEnd stop p.1) = true := by
  have members : p ∈ getFastIterator start stop ascending fast ↔
      p ∈ (fast.entries.map (fun entry => (entry.1, entry.2))).filter
        (fun q => startOrAfter start q.1 && beforeEnd stop q.1) := by
    cases ascending <;> simp [getFastIterator, mem_insertionSort]
  rw [members, mem_filter, AList.lookup_eq_some_iff]
  refine and_congr_left fun _ => ?_
  rw [mem_map]
  constructor
  · rintro ⟨entry, inside, rfl⟩
    exact inside
  · exact fun inside => ⟨⟨p.1, p.2⟩, inside, rfl⟩

theorem ordered_getFastIterator :
    Ordered (precedes ascending) (getFastIterator start stop ascending fast) := by
  have nodup : (((fast.entries.map (fun entry => (entry.1, entry.2))).filter
      (fun p => startOrAfter start p.1 && beforeEnd stop p.1)).map Prod.fst).Nodup := by
    have keys : ((fast.entries.map (fun entry => (entry.1, entry.2))).map Prod.fst).Nodup := by
      rw [map_map]
      exact fast.keys_nodup
    exact keys.sublist (filter_sublist.map Prod.fst)
  have sorted := ordered_insertionSort _ nodup
  cases ascending with
  | true => exact sorted
  | false => exact sorted.reverse

namespace UnsavedFastIterator

variable (changes : FastNodeChanges κ ν)

theorem shown_iff (p : κ × ν) : Shown changes.removals (getFastIterator start stop ascending fast)
      (getFastIterator start stop ascending changes.additions) p ↔
    (on changes.get fast.lookup p.1).map FastNode.value = some p.2 ∧
      (startOrAfter start p.1 && beforeEnd stop p.1) = true := by
  simp only [Shown, mem_getFastIterator]
  cases said : changes.get p.1 with
  | none =>
    have notAdded : changes.additions.lookup p.1 = none := by
      by_contra added
      obtain ⟨_, found⟩ := Option.ne_none_iff_exists'.mp added
      simp [FastNodeChanges.get_of_addition found] at said
    have kept : p.1 ∉ changes.removals := fun removed => by
      simp [FastNodeChanges.get_of_removal removed] at said
    simp only [notAdded, reduceCtorEq, false_and, exists_false, kept, not_false_eq_true,
      implies_true, and_true, false_or, on, said, Option.map_eq_some_iff]
    constructor
    · rintro ⟨node, ⟨found, inside⟩, value⟩
      exact ⟨⟨node, found, value⟩, inside⟩
    · rintro ⟨⟨node, found, value⟩, inside⟩
      exact ⟨node, ⟨found, inside⟩, value⟩
  | some now =>
    cases now with
    | none =>
      have removed := (changes.get_eq_removed_iff p.1).mp said
      have notAdded : changes.additions.lookup p.1 = none := by
        rw [AList.lookup_eq_none]
        exact fun added => changes.disjoint p.1 added removed
      simp [notAdded, removed, on, said]
    | some node =>
      have added := (changes.get_eq_added_iff p.1 node).mp said
      simp only [added, Option.some.injEq, on, said, Option.getD_some, Option.map_some]
      constructor
      · rintro (⟨other, ⟨rfl, inside⟩, value⟩ | ⟨⟨other, ⟨-, inside⟩, -⟩, -, fresh⟩)
        · exact ⟨value, inside⟩
        · exact absurd ⟨rfl, inside⟩ (fresh node)
      · rintro ⟨value, inside⟩
        exact .inl ⟨node, ⟨rfl, inside⟩, value⟩

theorem yields_new : ∃ pairs,
    Yields start stop ascending changes.removals (new start stop ascending fast changes) pairs ∧
      Ordered (precedes ascending) pairs ∧
      (∀ p, p ∈ pairs ↔ (on changes.get fast.lookup p.1).map FastNode.value = some p.2 ∧
        (startOrAfter start p.1 && beforeEnd stop p.1) = true) ∧
      items start stop ascending fast changes = pairs := by
  by_cases proper : ∀ low high, start = some low → stop = some high → low < high
  · obtain ⟨pairs, yields, ordered, members, bound, -⟩ := yields_of_advanced proper
      (new start stop ascending fast changes)
      (advance_spec _ _ _ _ (ordered_getFastIterator ..) (ordered_getFastIterator ..))
    refine ⟨pairs, yields, ordered, fun p => ?_, yields.read_eq bound⟩
    rw [members, shown_iff]
  · -- a range that ends before it starts
    have crossed : ∃ low high, start = some low ∧ stop = some high ∧ high ≤ low := by
      by_contra none_crossed
      refine proper fun low high opened closed => ?_
      by_contra notLess
      exact none_crossed ⟨low, high, opened, closed, not_lt.mp notLess⟩
    obtain ⟨low, high, rfl, rfl, reached⟩ := crossed
    have ended : (new (some low) (some high) ascending fast changes).Valid (some low) (some high) =
        false := by
      simp [Valid, reached.not_gt]
    refine ⟨[], ended, ordered_nil, fun p => ?_, by simp [items, read, ended]⟩
    simp only [startOrAfter, beforeEnd, Option.all_some, Bool.and_eq_true, decide_eq_true_eq,
      not_mem_nil, false_iff, not_and, not_lt]
    exact fun _ above => reached.trans above

theorem items_eq {pairs : List (κ × ν)}
    (ordered : Ordered (· < ·) pairs)
    (same : ∀ k, pairs.lookup k = (on changes.get fast.lookup k).map FastNode.value) :
    items start stop ascending fast changes = inRange start stop ascending pairs := by
  obtain ⟨_, -, sorted, members, rfl⟩ := yields_new start stop ascending fast changes
  have sortedRange : Ordered (precedes ascending) (inRange start stop ascending pairs) := by
    cases ascending with
    | true => exact ordered.filter _
    | false => exact (ordered.filter _).reverse
  have listed : ∀ p, p ∈ inRange start stop ascending pairs ↔
      p ∈ pairs ∧ (startOrAfter start p.1 && beforeEnd stop p.1) = true := by
    intro p
    cases ascending <;> simp [inRange]
  refine sorted.ext sortedRange fun p => ?_
  rw [members, listed, ordered.mem_iff_lookup, same p.1]

end UnsavedFastIterator

end Exchain.Iavl
