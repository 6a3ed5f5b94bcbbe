import Exchain.Parallel.Recording

/-! The conflict check of the parallel transaction manager, over the writes committed before. It
compares bytes, and bytes.Equal takes nil for the empty string; and it looks at recorded Gets only.
-/

namespace Exchain.Parallel

open Store SortedPairs Execution

variable {K Out : Type} [LinearOrder K]

abbrev WriteSet (K : Type) [LinearOrder K] := AssocMap K CValue

/-- The manager's store, and the last write of every key written to it. -/
structure Committed (K : Type) [LinearOrder K] where
  cms : Base K
  conflictCheck : WriteSet K

namespace Committed

def setWrite (committed : Committed K) (key : K) (value : CValue) : Committed K where
  cms := match value with
    | .deleted => committed.cms.erase key
    | .value bytes => committed.cms.insert key bytes
  conflictCheck := committed.conflictCheck.insert key value

def setCurrentIndexRes (committed : Committed K) (writes : WriteSet K) : Committed K :=
  writes.entries.foldl (fun committed item => committed.setWrite item.1 item.2) committed

/-- The block's start, and the transactions committed since. -/
def after (base : Base K) (earlier : List (WriteSet K)) : Committed K :=
  earlier.foldl setCurrentIndexRes ⟨base, ∅⟩

/-- The store is the block's first store under the recorded writes. -/
def Over (base : Base K) (committed : Committed K) : Prop := ∀ key, committed.cms.lookup key =
    match committed.conflictCheck.lookup key with
    | some data => data.content
    | none => base.lookup key

theorem setWrite_over {base : Base K} {committed : Committed K} (layered : committed.Over base)
    (key : K) (value : CValue) : (committed.setWrite key value).Over base := by
  intro key'
  have before := layered key'
  by_cases same : key' = key
  · subst same
    cases value <;> simp [setWrite, CValue.content]
  · cases value <;> simpa [setWrite, same] using before

theorem setCurrentIndexRes_over {base : Base K} {committed : Committed K}
    (layered : committed.Over base) (writes : WriteSet K) :
    (committed.setCurrentIndexRes writes).Over base := by
  rw [setCurrentIndexRes]
  induction writes.entries generalizing committed with
  | nil => exact layered
  | cons item rest ih => exact ih (setWrite_over layered item.1 item.2)

theorem after_over (base : Base K) (earlier : List (WriteSet K)) :
    (after base earlier).Over base := by
  have start : Over base (⟨base, ∅⟩ : Committed K) := by
    intro key
    simp
  rw [after]
  generalize (⟨base, ∅⟩ : Committed K) = committed at start ⊢
  induction earlier generalizing committed with
  | nil => exact start
  | cons writes rest ih => exact ih _ (setCurrentIndexRes_over start writes)

end Committed

structure ExecuteResult (K : Type) [LinearOrder K] where
  msIsNil : Bool
  invalidExecute : Bool
  read : AssocMap K Content
  write : WriteSet K

def Execution.result (e : Execution K Out) (msIsNil invalidExecute : Bool) : ExecuteResult K :=
  ⟨msIsNil, invalidExecute, e.store.tx.readList, e.store.tx.dirty⟩

def bytesEqual (a b : Content) : Bool := a.getD [] == b.getD []

/-- Keys set aside are the fee collector's account and the wasm counter, whose raw keys are dropped
from all reads. -/
def isConflict (aside : K → Bool) (conflictCheck : WriteSet K) (e : ExecuteResult K) : Bool :=
  if e.msIsNil then true
  else if e.invalidExecute then true
  else
    (e.read.keep fun key _ => !aside key).entries.any fun item =>
      match conflictCheck.lookup item.1 with
      | some data => !bytesEqual data.content item.2
      | none => false

/-- A recorded read whose bytes differ from the last committed write. -/
def Execution.Detected (aside : K → Bool) (conflictCheck : WriteSet K) (e : Execution K Out) :
    Prop :=
  ∃ key content data, Observation.read key content ∈ e.trace ∧ aside key = false ∧
    conflictCheck.lookup key = some data ∧ bytesEqual data.content content = false

theorem isConflict_iff (aside : K → Bool) (conflictCheck : WriteSet K) {e : Execution K Out}
    (recorded : e.Recorded) (msIsNil invalidExecute : Bool) :
    isConflict aside conflictCheck (e.result msIsNil invalidExecute) = true ↔
      msIsNil = true ∨ invalidExecute = true ∨ e.Detected aside conflictCheck := by
  cases msIsNil with
  | true => simp [isConflict, result]
  | false =>
    cases invalidExecute with
    | true => simp [isConflict, result]
    | false =>
      simp only [isConflict, result, Bool.false_eq_true, if_false, false_or, List.any_eq_true]
      constructor
      · rintro ⟨⟨key, content⟩, inside, differs⟩
        rw [← AList.lookup_eq_some_iff, AList.lookup_keep, Option.filter_eq_some_iff] at inside
        cases found : conflictCheck.lookup key with
        | none => simp [found] at differs
        | some data =>
          refine ⟨key, content, data, (recorded.reads key content).mp inside.1, ?_, found, ?_⟩
          · simpa using inside.2
          · simpa [found] using differs
      · rintro ⟨key, content, data, read, kept, found, differs⟩
        refine ⟨⟨key, content⟩, ?_, by simp [found, differs]⟩
        rw [← AList.lookup_eq_some_iff, AList.lookup_keep, Option.filter_eq_some_iff]
        exact ⟨(recorded.reads key content).mpr read, by simp [kept]⟩

/-- A read that bytes can tell from the committed content: under a key written
before, not nil against empty; under any other key, the block's first content. -/
def Comparable (base : Base K) (conflictCheck : WriteSet K) (key : K) (content : Content) : Prop :=
  match conflictCheck.lookup key with
  | some data => ¬((content = none ∧ data = .value []) ∨ (content = some [] ∧ data = .deleted))
  | none => content = base.lookup key

theorem bytesEqual_content {content : Content} {data : CValue}
    (apart : ¬((content = none ∧ data = .value []) ∨ (content = some [] ∧ data = .deleted))) :
    bytesEqual data.content content = true ↔ data.content = content := by
  cases data with
  | deleted =>
    cases content with
    | none => simp [bytesEqual, CValue.content]
    | some bytes =>
      have nonempty : bytes ≠ [] := fun empty => apart (.inr ⟨by rw [empty], rfl⟩)
      simp [bytesEqual, CValue.content, nonempty]
  | value stored =>
    cases content with
    | none =>
      have nonempty : stored ≠ [] := fun empty => apart (.inl ⟨rfl, by rw [empty]⟩)
      simp [bytesEqual, CValue.content, nonempty]
    | some => simp [bytesEqual, CValue.content]

section

variable {base : Base K} {committed : Committed K} (layered : committed.Over base) {key : K}
  {content : Content}

include layered

theorem detected_of_comparable {aside : K → Bool} {e : Execution K Out}
    (read : Observation.read key content ∈ e.trace) (kept : aside key = false)
    (comparable : Comparable base committed.conflictCheck key content)
    (stale : content ≠ committed.cms.lookup key) : e.Detected aside committed.conflictCheck := by
  have holds := layered key
  cases found : committed.conflictCheck.lookup key with
  | none =>
    rw [Comparable, found] at comparable
    rw [found] at holds
    exact absurd (comparable.trans holds.symm) stale
  | some data =>
    rw [Comparable, found] at comparable
    rw [found] at holds
    refine ⟨key, content, data, read, kept, found, ?_⟩
    rw [← Bool.not_eq_true, bytesEqual_content comparable]
    exact fun same => stale (same.symm.trans holds.symm)

theorem stale_of_not_comparable
    (incomparable : ¬Comparable base committed.conflictCheck key content) :
    content ≠ committed.cms.lookup key := by
  have holds := layered key
  cases found : committed.conflictCheck.lookup key with
  | none =>
    rw [Comparable, found] at incomparable
    rw [found] at holds
    exact fun same => incomparable (same.trans holds)
  | some data =>
    rw [Comparable, found, not_not] at incomparable
    rw [found] at holds
    rw [holds]
    rcases incomparable with ⟨rfl, rfl⟩ | ⟨rfl, rfl⟩ <;> simp [CValue.content]

end

/-- Every stale read is reported exactly if the result is rejected anyway or all its reads are
comparable. Then an accepted transaction that only reads single keys runs the same over the
committed store. -/
theorem stale_read_reported_iff (aside : K → Bool) (base : Base K) (earlier : List (WriteSet K))
    (prog : TxProg K Out) (views : List (View K)) (msIsNil invalidExecute : Bool) :
    let e := run prog views
    let committed := Committed.after base earlier
    let conflict := isConflict aside committed.conflictCheck (e.result msIsNil invalidExecute)
    (((∃ key content, Observation.read key content ∈ e.trace ∧ aside key = false ∧
          content ≠ committed.cms.lookup key) → conflict = true) ↔
        (msIsNil = true ∨ invalidExecute = true ∨ e.Detected aside committed.conflictCheck ∨
          ∀ key content, Observation.read key content ∈ e.trace → aside key = false →
            Comparable base committed.conflictCheck key content)) ∧
      ((∀ key content, Observation.read key content ∈ e.trace → aside key = false →
          Comparable base committed.conflictCheck key content) →
        conflict = false → prog.PointReads →
        ∀ view : View K, (∀ key, aside key = false → view.get key = committed.cms.lookup key) →
          (∀ key content, Observation.read key content ∈ e.trace → aside key = true →
            view.get key = content) →
          run prog (views.map fun _ => view) = e) := by
  intro e committed conflict
  have recorded : e.Recorded := run_recorded prog views
  have layered : committed.Over base := Committed.after_over base earlier
  have reported : conflict = true ↔
      msIsNil = true ∨ invalidExecute = true ∨ e.Detected aside committed.conflictCheck :=
    isConflict_iff aside committed.conflictCheck recorded msIsNil invalidExecute
  refine ⟨⟨?_, ?_⟩, ?_⟩
  · intro sound
    by_cases rejected : conflict = true
    · rcases reported.mp rejected with nil | invalid | detected
      · exact .inl nil
      · exact .inr (.inl invalid)
      · exact .inr (.inr (.inl detected))
    · refine .inr (.inr (.inr ?_))
      intro key content read kept
      by_contra incomparable
      exact rejected (sound ⟨key, content, read, kept, stale_of_not_comparable layered incomparable⟩)
  · rintro (nil | invalid | detected | comparable) ⟨key, content, read, kept, stale⟩
    · exact reported.mpr (.inl nil)
    · exact reported.mpr (.inr (.inl invalid))
    · exact reported.mpr (.inr (.inr detected))
    · refine reported.mpr (.inr (.inr ?_))
      exact detected_of_comparable layered read kept (comparable key content read kept) stale
  · intro comparable accepted points view holds holdsAside
    refine exec_replay (start_recorded prog) points views view ?_
    intro key content read
    have observed := (recorded.reads key content).mp read
    cases kept : aside key with
    | true => exact holdsAside key content observed kept
    | false =>
      rw [holds key kept]
      by_contra stale
      have detected := detected_of_comparable layered observed kept
        (comparable key content observed kept) (Ne.symm stale)
      rw [reported.mpr (.inr (.inr detected))] at accepted
      exact Bool.noConfusion accepted

/-- A transaction that asks whether key 0 exists and writes the answer to key 1. -/
def askForZero : TxProg Nat Unit :=
  .get 0 fun content => .set 1 [if content.isSome then 1 else 2] (.done ())

/-- Key 0 was absent when read; an earlier transaction has since set it to the empty string. The
result is accepted, though a second run writes another value. -/
theorem empty_value_overlooked : let e := run askForZero [View.ofBase ∅, View.ofBase ∅]
    let committed := Committed.after ∅ [(∅ : WriteSet Nat).insert 0 (.value [])]
    let again := run askForZero
      [View.ofBase committed.cms, View.ofBase committed.cms]
    e.store.tx.readList.lookup 0 = some none ∧ committed.cms.lookup 0 = some [] ∧
      isConflict (fun _ => false) committed.conflictCheck (e.result false false) = false ∧
      e.store.tx.dirty.lookup 1 = some (.value [2]) ∧
      again.store.tx.dirty.lookup 1 = some (.value [1]) := by
  decide

theorem Scan.produced_eq_iff {scan : Scan K} (indexed : scan.layers.Indexed) (parent : View K) :
    scan.produced scan.parent = scan.produced parent ↔
      ∀ key, scan.domain.mem key = true → scan.layers.Untouched key →
        scan.parent.listed key ≠ parent.listed key →
        scan.count ≤ rank (precedes scan.ascending)
          (scan.layers.iterator (scan.parent.iterator scan.domain scan.ascending) scan.domain
            scan.ascending) key :=
  Layers.iterator_take_eq_iff (scan.parent.lists scan.domain scan.ascending)
    (parent.lists scan.domain scan.ascending) indexed scan.count

/-- Iterators leave no record: what they produced is known to be current exactly if the result is
rejected for another reason, or no scanned key that the transaction had not written has changed
before the last pair read. -/
theorem stale_scan_reported_iff (aside : K → Bool) (base : Base K) (earlier : List (WriteSet K))
    (prog : TxProg K Out) (views : List (View K)) (msIsNil invalidExecute : Bool) :
    let e := run prog views
    let committed := Committed.after base earlier
    ((∃ scan, Observation.scan scan ∈ e.trace ∧
          scan.produced scan.parent ≠ scan.produced (View.ofBase committed.cms)) →
        isConflict aside committed.conflictCheck (e.result msIsNil invalidExecute) = true) ↔
      (msIsNil = true ∨ invalidExecute = true ∨ e.Detected aside committed.conflictCheck ∨
        ∀ scan, Observation.scan scan ∈ e.trace → ∀ key, scan.domain.mem key = true →
          scan.layers.Untouched key → scan.parent.listed key ≠ committed.cms.lookup key →
          scan.count ≤ rank (precedes scan.ascending)
            (scan.layers.iterator (scan.parent.iterator scan.domain scan.ascending) scan.domain
              scan.ascending) key) := by
  intro e committed
  have recorded : e.Recorded := run_recorded prog views
  have current := fun scan inside => Scan.produced_eq_iff (recorded.scans scan inside) (View.ofBase
      committed.cms)
  rw [isConflict_iff aside committed.conflictCheck recorded msIsNil invalidExecute]
  constructor
  · intro sound
    by_cases stale : ∃ scan, Observation.scan scan ∈ e.trace ∧
        scan.produced scan.parent ≠ scan.produced (View.ofBase committed.cms)
    · rcases sound stale with nil | invalid | detected
      · exact .inl nil
      · exact .inr (.inl invalid)
      · exact .inr (.inr (.inl detected))
    refine .inr (.inr (.inr ?_))
    intro scan inside
    refine (current scan inside).mp ?_
    by_contra differ
    exact stale ⟨scan, inside, differ⟩
  · rintro (nil | invalid | detected | unchanged) ⟨scan, inside, differ⟩
    · exact .inl nil
    · exact .inr (.inl invalid)
    · exact .inr (.inr detected)
    · exact absurd ((current scan inside).mpr (unchanged scan inside)) differ

/-- A transaction that counts the keys of the store, reading at most five. -/
def countKeys : TxProg Nat Nat :=
  .iterate (Domain.between none none) true 5 fun pairs => .done pairs.length

/-- An earlier transaction inserts a key into the scanned range; the count is accepted as it was. -/
theorem insertion_overlooked : let e := run countKeys [View.ofBase ∅]
    let committed := Committed.after ∅ [(∅ : WriteSet Nat).insert 3 (.value [7])]
    let scan : Scan Nat := ⟨[CacheKV.new], Domain.between none none, true, 5, View.ofBase ∅⟩
    e.trace = [.scan scan] ∧ scan.produced scan.parent = [] ∧
      scan.produced (View.ofBase committed.cms) = [(3, [7])] ∧
      isConflict (fun _ => false) committed.conflictCheck (e.result false false) = false := by
  refine ⟨rfl, ?_, ?_, ?_⟩ <;> decide

end Exchain.Parallel
