import Exchain.Mempool.SharedQueueEffects

namespace Exchain.Mempool.SharedQueue

open Program AList Advance List

/-- A call that takes the lock of a record finds the table still leading to it, and DeleteItem finds
no other element under its nonce. -/
def Current (s : SharedQueue) : Program → Prop
  | .lockToAdd r e => s.locks.lookup r = none → s.addrTxs.lookup e.address = some r
  | .clean r address _ => s.locks.lookup r = none → s.addrTxs.lookup address = some r
  | .delete r e => s.locks.lookup r = none →
      s.addrTxs.lookup e.address = some r ∧ ∀ x, s.item r e.nonce = some x → x = e
  | _ => True

section

variable {i r : Nat} {s : SharedQueue}

theorem lock_same (s : SharedQueue) (r i : Nat) : SameRecords s (s.lock r i) := ⟨rfl, rfl, rfl, rfl⟩

theorem unlock_same (s : SharedQueue) (r : Nat) : SameRecords s (s.unlock r) := ⟨rfl, rfl, rfl, rfl⟩

theorem dropKey_same (keys : KeyRegime) (s : SharedQueue) (e : Element) :
    SameRecords s (s.dropKey keys e) := ⟨rfl, rfl, rfl, rfl⟩

@[simp] theorem lock_self (s : SharedQueue) (r i : Nat) : (s.lock r i).locks.lookup r = some i := by
  simp [lock]

theorem lock_locked (free : s.locks.lookup r = none) {j : Nat} (r' : Nat)
    (held : s.locks.lookup r' = some j) : (s.lock r i).locks.lookup r' = some j := by
  rw [lock, lookup_insert_if, if_neg]
  · exact held
  rintro rfl
  rw [free] at held
  contradiction

theorem unlock_locked (own : s.locks.lookup r = some i) {j : Nat} (other : j ≠ i) (r' : Nat)
    (held : s.locks.lookup r' = some j) : (s.unlock r).locks.lookup r' = some j := by
  rw [unlock, lookup_erase_if, if_neg]
  · exact held
  · rintro rfl
    exact other (Option.some.inj (held.symm.trans own))

end

theorem entries_distinct (items : AssocMap Nat Element)
    (keyed : ∀ nonce x, items.lookup nonce = some x → x.nonce = nonce) :
    (items.entries.map fun entry => entry.2).Pairwise fun x y => x.nonce ≠ y.nonce := by
  have own : ∀ entry ∈ items.entries, entry.2.nonce = entry.1 := by
    intro entry inside
    exact keyed entry.1 entry.2 ((lookup_eq_some_iff items entry.1 entry.2).mpr inside)
  refine pairwise_map.mpr ((nodupKeys_iff_pairwise.mp items.nodupKeys).imp_of_mem ?_)
  intro x y first second differ
  rw [own x first, own y second]
  exact differ

/-- The selected elements of the record that the table has for an address. -/
theorem selected_spec {s : SharedQueue} (good : Good s) {address : Address} {r : Nat}
    (tabled : s.addrTxs.lookup address = some r) (select : Element → Bool) :
    let chosen := ((s.record r).items.keep fun _ x => select x).entries.map fun entry => entry.2
    chosen.Pairwise (fun x y => x.nonce ≠ y.nonce) ∧
      ∀ x ∈ chosen, x.address = address ∧ s.item r x.nonce = some x ∧ select x = true := by
  refine ⟨entries_distinct _ ?_, ?_⟩
  · intro nonce x found
    rw [lookup_keep, Option.filter_eq_some_iff] at found
    exact (good.items address r nonce x tabled found.1).2.1
  intro x inside
  obtain ⟨entry, member, rfl⟩ := mem_map.mp inside
  have found := (lookup_eq_some_iff _ entry.1 entry.2).mpr member
  rw [lookup_keep, Option.filter_eq_some_iff] at found
  obtain ⟨address_eq, nonce_eq, _⟩ := good.items address r entry.1 entry.2 tabled found.1
  rw [nonce_eq]
  exact ⟨address_eq, found.1, found.2⟩

section

variable {i r maxNonce : Nat} {e old : Element} {larger left : List Element} {s s' : SharedQueue}
  {p : Program} (good : Good s)

include good

/-- A call that gives up the lock it holds, at its end or in a panic. -/
theorem advance_unlock (own : s.locks.lookup r = some i) (idle : p.adds = none)
    {p' : Program} (fits : Fits i (s.unlock r) p') : Advance i s p (s.unlock r) p' :=
  of_same good (unlock_same s r) idle (fun _ other => unlock_locked own other) fits

theorem advance_newRecord (untouched : Untouched i s e)
    (unnamed : ∀ address, s.addrTxs.lookup address ≠ some i)
    (missing : s.addrTxs.lookup e.address = none) : Advance i s (.findOrAdd e)
      { s with
        heap := s.heap.insert i ⟨∅, 0⟩
        addrTxs := s.addrTxs.insert e.address i } (.lockToAdd i e) := by
  have record_eq : ∀ r, SharedQueue.record
      { s with heap := s.heap.insert i ⟨∅, 0⟩, addrTxs := s.addrTxs.insert e.address i } r =
        if r = i then ⟨∅, 0⟩ else s.record r := fun r => record_setRecord s i r ⟨∅, 0⟩
  have item_eq : ∀ r nonce, SharedQueue.item
      { s with heap := s.heap.insert i ⟨∅, 0⟩, addrTxs := s.addrTxs.insert e.address i } r nonce =
        if r = i then none else s.item r nonce := by
    intro r nonce
    rw [item, record_eq]
    split <;> rfl
  have table_eq : ∀ address r, s.addrTxs.lookup address = some r →
      (s.addrTxs.insert e.address i).lookup address = some r ∧ r ≠ i := by
    intro address r tabled
    rw [lookup_insert_if, if_neg]
    · refine ⟨tabled, ?_⟩
      rintro rfl
      exact unnamed address tabled
    · rintro rfl
      rw [missing] at tabled
      contradiction
  refine ⟨⟨good.nodup, good.gone, ?_, ?_⟩, ⟨untouched.own, untouched.unlisted,
    untouched.unremoved, ?_⟩, ?_, ?_, ?_, fun x inside outside => absurd inside outside⟩
  · intro address address' r tabled tabled'
    rw [lookup_insert_if] at tabled tabled'
    split at tabled <;> split at tabled'
    · rename_i first second
      exact first.trans second.symm
    · cases tabled
      exact absurd tabled' (unnamed address')
    · cases tabled'
      exact absurd tabled (unnamed address)
    · exact good.distinct address address' r tabled tabled'
  · intro address r nonce x tabled found
    rw [item_eq] at found
    rw [record_eq]
    split at found
    · contradiction
    rename_i other
    rw [if_neg other]
    rw [lookup_insert_if] at tabled
    split at tabled
    · exact absurd (Option.some.inj tabled).symm other
    · exact good.items address r nonce x tabled found
  · intro r nonce found
    rw [item_eq] at found
    split at found
    · contradiction
    exact untouched.unrecorded r nonce found
  · intro j other
    refine Rely.of_records rfl rfl (fun _ => id) ?_ ?_ ?_
    · intro r address _ tabled
      obtain ⟨kept, differ⟩ := table_eq address r tabled
      exact ⟨kept, by rw [record_eq, if_neg differ]⟩
    · intro r nonce x found
      rw [item_eq] at found
      split at found
      · contradiction
      exact .inl found
    · intro address named
      rw [lookup_insert_if] at named
      split at named
      · exact absurd (Option.some.inj named).symm other
      · exact named
  · intro x _ r tabled found
    obtain ⟨kept, differ⟩ := table_eq x.address r tabled
    exact ⟨kept, by rw [item_eq, if_neg differ]; exact found⟩
  · intro x _ r _ adding
    contradiction

theorem admitted_fits (untouched : Untouched i s e)
    (tabled : s.addrTxs.lookup e.address = some r) (txPriceBump : Int) :
    Fits i (s.lock r i) (admitted txPriceBump (s.record r) r e) := by
  have bound := fun nonce x found => (good.items e.address r nonce x tabled found).2.2
  have out : Out (s.lock r i) e := ⟨untouched.unlisted, untouched.unremoved⟩
  unfold admitted
  by_cases above : (s.record r).maxNonce < e.nonce
  · rw [if_pos above]
    refine ⟨⟨untouched.own, lock_self s r i, tabled, ?_, Nat.le_refl _⟩, ?_, by simp, ?_⟩
    · intro nonce x found
      exact (bound nonce x found).trans (Nat.le_of_lt above)
    · intro x found
      have below := bound e.nonce x found
      omega
    · intro x inside
      obtain rfl := mem_singleton.mp inside
      exact ⟨out, .inl rfl⟩
  rw [if_neg above]
  have adding : Adding i (s.lock r i) r e (s.record r).maxNonce :=
    ⟨untouched.own, lock_self s r i, tabled, bound, Nat.not_lt.mp above⟩
  cases occupied : (s.record r).items.lookup e.nonce with
  | none =>
    refine ⟨adding, ?_, by simp, ?_⟩
    · intro x found
      rw [(lock_same s r i).item_eq, item, occupied] at found
      contradiction
    · intro x inside
      obtain rfl := mem_singleton.mp inside
      exact ⟨out, .inl rfl⟩
  | some old =>
    dsimp only
    split
    · exact lock_self s r i
    obtain ⟨distinct, chosen⟩ := selected_spec good tabled fun x => decide (e.nonce < x.nonce)
    refine ⟨adding, out, occupied, ?_, ?_⟩
    · refine (perm_insertionSort _ _).nodup_iff.mpr (distinct.imp ?_)
      rintro x y differ rfl
      exact differ rfl
    · intro x inside
      rw [mem_insertionSort] at inside
      obtain ⟨address_eq, recorded, larger⟩ := chosen x inside
      exact ⟨address_eq, recorded, Nat.ne_of_gt (of_decide_eq_true larger)⟩

/-- Taking an element out is a step for a call that knows nothing more of it. -/
theorem advance_takeOut (taken : s.takeOut e = some s') (idle : p.adds = none)
    {p' : Program} (fits : Fits i s' p') : Advance i s p s' p' := by
  obtain ⟨_, heap, table, _⟩ := takeOut_spec taken
  exact of_shrink heap table (takeOut_mem taken) idle (takeOut_good good taken)
    (fun _ _ => takeOut_rely taken) fits

omit good in
theorem removeOld_fits (fits : Fits i s (.removeOld r e maxNonce old larger))
    (taken : s.takeOut old = some s') : Fits i s' (.dropOldKey r e maxNonce old larger) := by
  obtain ⟨adding, out, occupied, distinct, siblings⟩ := fits
  have rely : Rely i s s' := takeOut_rely taken
  refine ⟨adding.stable rely, adding.out_stable rely rfl out, ?_, distinct, ?_⟩
  · intro x found
    rw [adding.item_stable rely, occupied] at found
    cases found
    exact (takeOut_spec taken).1
  · exact fun x inside => adding.sibling_stable rely (siblings x inside)

variable {x : Element}

theorem detach_fits
    (fits : Fits i s (.detach r e maxNonce (x :: left) larger)) (listed : x ∈ s.sortedTxs) :
    Fits i { s with sortedTxs := s.sortedTxs.erase x } (.detach r e maxNonce left larger) := by
  obtain ⟨adding, out, vacated, distinct, siblings⟩ := fits
  have rely : Rely i s { s with sortedTxs := s.sortedTxs.erase x } := erase_rely x
  refine ⟨adding.stable rely, adding.out_stable rely rfl out, adding.vacated_stable rely vacated,
    distinct, ?_⟩
  intro y inside
  obtain ⟨sibling, waiting⟩ := siblings y inside
  refine ⟨adding.sibling_stable rely sibling, ?_⟩
  rcases waiting with turn | detached
  · rcases mem_cons.mp turn with rfl | later
    · refine .inr ⟨good.nodup.not_mem_erase, ?_⟩
      intro gone
      exact good.gone y gone listed
    · exact .inl later
  · exact .inr (adding.out_stable rely sibling.address_eq detached)

omit good in
theorem detached_fits (fits : Fits i s (.detach r e maxNonce [] larger)) :
    Fits i s (.place r e maxNonce (e :: larger)) := by
  obtain ⟨adding, out, vacated, distinct, siblings⟩ := fits
  refine ⟨adding, vacated, nodup_cons.mpr ⟨?_, distinct⟩, ?_⟩
  · intro inside
    exact (siblings e inside).1.nonce_ne rfl
  intro x inside
  rcases mem_cons.mp inside with rfl | later
  · exact ⟨out, .inl rfl⟩
  · obtain ⟨sibling, waiting⟩ := siblings x later
    exact ⟨waiting.resolve_left (not_mem_nil), .inr sibling⟩

/-- What call `i` knows of the listed elements: each is recorded, about to be recorded by the call
itself, or its record is held by another call. -/
def Covered (i : Nat) (s : SharedQueue) (p : Program) : Prop :=
  ∀ y ∈ s.sortedTxs, ∃ r, s.addrTxs.lookup y.address = some r ∧
    (s.item r y.nonce = some y ∨ p.adds = some (r, y) ∨ ∃ j, j ≠ i ∧ s.locks.lookup r = some j)

theorem place_apart (covered : Covered i s (.place r e maxNonce (x :: left)))
    (fits : Fits i s (.place r e maxNonce (x :: left))) :
    ∀ y ∈ s.sortedTxs, y.address = x.address → y.nonce ≠ x.nonce := by
  obtain ⟨adding, vacated, _, waiting⟩ := fits
  obtain ⟨out, kind⟩ := waiting x mem_cons_self
  have address_eq : x.address = e.address := by
    rcases kind with rfl | sibling
    · rfl
    · exact sibling.address_eq
  intro y listed same number
  obtain ⟨_, tabled, how⟩ := covered y listed
  rw [same, address_eq, adding.tabled] at tabled
  cases tabled
  rcases how with recorded | mine | ⟨j, other, held⟩
  · rw [number] at recorded
    rcases kind with rfl | sibling
    · exact good.gone y (vacated y recorded) listed
    rw [sibling.recorded] at recorded
    cases recorded
    exact out.1 listed
  · obtain ⟨_, rfl⟩ := Prod.mk.inj (Option.some.inj mine)
    rcases kind with rfl | sibling
    · exact out.1 listed
    · exact sibling.nonce_ne number.symm
  · exact other (Option.some.inj (held.symm.trans adding.locked))

theorem advance_place {txs : List Element}
    (fits : Fits i s (.place r e maxNonce (x :: left))) (placed : x.place s.sortedTxs = some txs) :
    Advance i s (.place r e maxNonce (x :: left)) { s with sortedTxs := txs }
      (.place r e maxNonce left) := by
  obtain ⟨adding, vacated, distinct, waiting⟩ := fits
  obtain ⟨out, kind⟩ := waiting x mem_cons_self
  obtain ⟨apart, distinct_left⟩ := nodup_cons.mp distinct
  have mem_iff : ∀ y, y ∈ txs ↔ y = x ∨ y ∈ s.sortedTxs := by
    intro y
    rw [(Element.place_perm placed).mem_iff, mem_cons]
  have tabled : s.addrTxs.lookup x.address = some r := by
    rcases kind with rfl | sibling
    · exact adding.tabled
    · rw [sibling.address_eq]
      exact adding.tabled
  refine ⟨good.of_lists rfl rfl ?_ ?_, ⟨?_, vacated, distinct_left, ?_⟩, ?_, ?_, ?_, ?_⟩
  · exact (Element.place_perm placed).nodup_iff.mpr (nodup_cons.mpr ⟨out.1, good.nodup⟩)
  · intro y gone inside
    rcases (mem_iff y).mp inside with rfl | listed
    · exact out.2 gone
    · exact good.gone y gone listed
  · exact ⟨adding.own, adding.locked, adding.tabled, adding.bound, adding.nonce_le⟩
  · intro y later
    obtain ⟨out', kind'⟩ := waiting y (mem_cons_of_mem _ later)
    refine ⟨⟨?_, out'.2⟩, kind'.imp_right fun sibling =>
      ⟨sibling.address_eq, sibling.recorded, sibling.nonce_ne⟩⟩
    intro inside
    rcases (mem_iff y).mp inside with rfl | listed
    · exact apart later
    · exact out'.1 listed
  · intro j other
    refine Rely.of_lists rfl rfl rfl (fun _ => id) (fun _ => .inl) ?_
    intro y inside outside
    obtain rfl := ((mem_iff y).mp inside).resolve_right outside
    constructor
    · intro untouched
      rcases kind with rfl | sibling
      · exact other (untouched.own.symm.trans adding.own)
      · exact untouched.unrecorded r y.nonce sibling.recorded
    · intro r' tabled' held
      cases tabled.symm.trans tabled'
      exact other (Option.some.inj (held.symm.trans adding.locked))
  · intro y _ r' tabled' recorded
    exact ⟨tabled', recorded⟩
  · intro y _ r' tabled' mine
    exact ⟨tabled', .inr mine⟩
  · intro y inside outside
    obtain rfl := ((mem_iff y).mp inside).resolve_right outside
    refine ⟨r, tabled, ?_⟩
    rcases kind with rfl | sibling
    · exact .inr rfl
    · exact .inl sibling.recorded

theorem advance_addItem (fits : Fits i s (.place r e maxNonce [])) :
    Advance i s (.place r e maxNonce [])
      (s.setRecord r ⟨(s.record r).items.insert e.nonce e, maxNonce⟩) (.unlock r (some e)) := by
  obtain ⟨adding, vacated, _⟩ := fits
  have change := setRecord_change s r ⟨(s.record r).items.insert e.nonce e, maxNonce⟩
  have item_eq : ∀ nonce, (s.setRecord r ⟨(s.record r).items.insert e.nonce e, maxNonce⟩).item r
      nonce = if nonce = e.nonce then some e else s.item r nonce := by
    intro nonce
    rw [item_setRecord, if_pos rfl, lookup_insert_if]
    rfl
  refine ⟨change.good good ?_, adding.locked, ?_, ?_, ?_,
    fun x inside outside => absurd inside outside⟩
  · intro address nonce x tabled found
    obtain rfl := good.distinct address e.address r tabled adding.tabled
    rw [record_setRecord, if_pos rfl]
    rw [item_eq] at found
    split at found
    · rename_i same
      cases found
      exact ⟨rfl, same.symm, same ▸ adding.nonce_le⟩
    · obtain ⟨address_eq, nonce_eq, _⟩ := good.items _ r nonce x tabled found
      exact ⟨address_eq, nonce_eq, adding.bound nonce x found⟩
  · intro j other
    refine change.rely ?_ ?_
    · intro held
      exact other (Option.some.inj (held.symm.trans adding.locked))
    intro nonce x found
    rw [item_eq] at found
    split at found
    · cases found
      exact .inr fun same => other (same.symm.trans adding.own)
    · exact .inl found
  · intro x listed r' tabled recorded
    refine ⟨tabled, ?_⟩
    by_cases same : r' = r
    · subst same
      rw [item_eq, if_neg]
      · exact recorded
      intro number
      rw [number] at recorded
      exact good.gone x (vacated x recorded) listed
    · rw [item_congr (change.others r' same)]
      exact recorded
  · intro x _ r' tabled mine
    cases Option.some.inj mine
    exact ⟨tabled, .inl (by rw [item_eq, if_pos rfl])⟩

end

section

variable {i r : Nat} {e v : Element} {left : List Element} {address : Address} {s : SharedQueue}

theorem le_maxNonceOf (items : AssocMap Nat Element) {nonce : Nat} (inside : nonce ∈ items) :
    nonce ≤ maxNonceOf items :=
  (foldl_larger_spec id items.keys 0).2.1 nonce (mem_keys.mp inside)

theorem item_erased (s : SharedQueue) (r number maxNonce nonce : Nat) :
    (s.setRecord r ⟨(s.record r).items.erase number, maxNonce⟩).item r nonce =
      if nonce = number then none else s.item r nonce := by
  rw [item_setRecord, if_pos rfl, lookup_erase_if]
  rfl

theorem deleteItem_change (s : SharedQueue) (tabled : s.addrTxs.lookup e.address = some r) :
    RecordChange r s (s.deleteItem r e) := by
  unfold deleteItem
  dsimp only
  split
  · exact (setRecord_change s r _).drop tabled
  · exact setRecord_change s r _

theorem deleteItem_record (s : SharedQueue) (r : Nat) (e : Element) : (s.deleteItem r e).record r =
      ⟨(s.record r).items.erase e.nonce, maxNonceOf ((s.record r).items.erase e.nonce)⟩ := by
  have set := record_setRecord s r r
    ⟨(s.record r).items.erase e.nonce, maxNonceOf ((s.record r).items.erase e.nonce)⟩
  rw [if_pos rfl] at set
  unfold deleteItem
  dsimp only
  split
  · exact set
  · exact set

theorem deleteItem_item (s : SharedQueue) (r : Nat) (e : Element) (nonce : Nat) :
    (s.deleteItem r e).item r nonce = if nonce = e.nonce then none else s.item r nonce := by
  rw [item, deleteItem_record, lookup_erase_if]
  rfl

/-- DeleteItem drops the record only when nothing is left in it. -/
theorem deleteItem_tabled (tabled : s.addrTxs.lookup address = some r) {nonce : Nat}
    {x : Element} (found : (s.deleteItem r e).item r nonce = some x) :
    (s.deleteItem r e).addrTxs.lookup address = some r := by
  rw [item, deleteItem_record] at found
  unfold deleteItem
  dsimp only
  split
  · rename_i empty
    rw [(size_eq_zero_iff _).mp empty nonce] at found
    contradiction
  · exact tabled

theorem advance_delete (good : Good s) (gone : e ∈ s.removed) (free : s.locks.lookup r = none)
    (tabled : s.addrTxs.lookup e.address = some r) (own : ∀ x, s.item r e.nonce = some x → x = e) :
    Advance i s (.delete r e) (s.deleteItem r e) .returned := by
  have change := deleteItem_change s tabled
  refine of_record change rfl (change.good good ?_) ?_ trivial ?_
  · intro address nonce x tabled' found
    have entry := found
    rw [deleteItem_item] at found
    split at found
    · contradiction
    obtain ⟨address_eq, nonce_eq, _⟩ := good.items address r nonce x tabled' found
    refine ⟨address_eq, nonce_eq, ?_⟩
    rw [item, deleteItem_record] at entry
    rw [deleteItem_record]
    exact le_maxNonceOf _ ((mem_iff_lookup _ _).mpr ⟨x, entry⟩)
  · intro j _
    refine change.rely ?_ ?_
    · simp [free]
    intro nonce x found
    rw [deleteItem_item] at found
    split at found
    · contradiction
    exact .inl found
  · intro x listed tabled' recorded
    have kept : (s.deleteItem r e).item r x.nonce = some x := by
      rw [deleteItem_item, if_neg]
      · exact recorded
      intro number
      rw [number] at recorded
      obtain rfl := own x recorded
      exact good.gone x gone listed
    exact ⟨deleteItem_tabled tabled' kept, kept⟩

theorem advance_forget (good : Good s) (fits : Fits i s (.forget r address v left)) :
    Advance i s (.forget r address v left)
      (s.setRecord r ⟨(s.record r).items.erase v.nonce, (s.record r).maxNonce⟩)
      (.cleaning r address left) := by
  obtain ⟨holding, distinct, items, gone⟩ := fits
  obtain ⟨apart, distinct_left⟩ := pairwise_cons.mp distinct
  have change := setRecord_change s r ⟨(s.record r).items.erase v.nonce, (s.record r).maxNonce⟩
  refine of_record change rfl (change.good good ?_) ?_ ⟨⟨holding.locked, holding.tabled⟩,
    distinct_left, ?_⟩ ?_
  · intro address' nonce x tabled found
    rw [item_erased] at found
    rw [record_setRecord, if_pos rfl]
    split at found
    · contradiction
    exact good.items address' r nonce x tabled found
  · intro j other
    refine change.rely ?_ ?_
    · intro held
      exact other (Option.some.inj (held.symm.trans holding.locked))
    intro nonce x found
    rw [item_erased] at found
    split at found
    · contradiction
    exact .inl found
  · intro x later
    obtain ⟨address_eq, recorded⟩ := items x (mem_cons_of_mem _ later)
    refine ⟨address_eq, ?_⟩
    rw [item_erased, if_neg (apart x later).symm]
    exact recorded
  · intro x listed tabled recorded
    refine ⟨tabled, ?_⟩
    rw [item_erased, if_neg]
    · exact recorded
    intro number
    rw [number, (items v mem_cons_self).2] at recorded
    cases recorded
    exact good.gone v gone listed

theorem advance_close (good : Good s) (holding : Holding i s r address) :
    Advance i s (.cleaning r address []) ((s.close r address).unlock r) .returned := by
  by_cases empty : (s.record r).items.size = 0
  · have closed : (s.close r address).unlock r =
        { s.unlock r with addrTxs := (s.unlock r).addrTxs.erase address } := by
      rw [close, if_pos empty]
      rfl
    have unlocked : RecordChange r s (s.unlock r) :=
      ⟨rfl, rfl, fun r' other => by rw [unlock, lookup_erase_if, if_neg other],
        fun _ _ => rfl, fun _ _ => rfl, fun _ _ => id⟩
    have change := unlocked.drop holding.tabled
    rw [closed]
    refine of_record change rfl (change.good good ?_) ?_ trivial ?_
    · intro address' nonce x tabled found
      exact good.items address' r nonce x tabled found
    · intro j other
      refine change.rely ?_ fun nonce x found => .inl found
      intro held
      exact other (Option.some.inj (held.symm.trans holding.locked))
    · intro x _ _ recorded
      rw [item, (size_eq_zero_iff _).mp empty] at recorded
      contradiction
  · have closed : s.close r address = s := by rw [close, if_neg empty]
    rw [closed]
    exact advance_unlock good holding.locked rfl trivial

end

section

variable (keys : KeyRegime) (txPriceBump : Int)

theorem exec_advance {i : Nat} {s : SharedQueue} {p : Program} (good : Good s)
    (fits : Fits i s p) (covered : Covered i s p) (current : Current s p) :
    Advance i s p (p.exec keys txPriceBump i s).1 (p.exec keys txPriceBump i s).2 := by
  have unchanged : SameRecords s s := ⟨rfl, rfl, rfl, rfl⟩
  have waits : ∀ p', p.adds = none → Fits i s p' → Advance i s p s p' := fun p' idle fits' =>
    of_same good unchanged idle (fun _ _ _ => id) fits'
  cases p with
  | returned => exact waits _ rfl trivial
  | findOrAdd e =>
    simp only [exec]
    cases found : s.addrTxs.lookup e.address with
    | some r => exact waits (.lockToAdd r e) rfl fits.1
    | none => exact advance_newRecord good fits.1 fits.2 found
  | lockToAdd r e =>
    simp only [exec]
    cases lock : s.locks.lookup r with
    | some _ => exact waits _ rfl fits
    | none =>
      exact of_same good (lock_same s r i) rfl (fun _ _ => lock_locked lock)
        (admitted_fits good fits (current lock) txPriceBump)
  | removeOld _ _ _ old =>
    simp only [exec]
    cases taken : s.takeOut old with
    | none => exact advance_unlock good fits.1.locked rfl trivial
    | some s' => exact advance_takeOut good taken rfl (removeOld_fits fits taken)
  | dropOldKey r e maxNonce old larger =>
    obtain ⟨adding, out, vacated, distinct, siblings⟩ := fits
    have ready : Fits i s (.detach r e maxNonce larger larger) :=
      ⟨adding, out, vacated, distinct, fun x inside => ⟨siblings x inside, .inl inside⟩⟩
    have same := dropKey_same keys s old
    exact of_same good same rfl (fun _ _ _ => id)
      (Fits.stable i s _ _ ready (same.rely fun _ => id))
  | detach _ _ _ left =>
    cases left with
    | nil => exact waits _ rfl (detached_fits fits)
    | cons x left =>
      simp only [exec]
      split
      · rename_i listed
        exact of_shrink rfl rfl (fun _ => mem_of_mem_erase) rfl (erase_good good x)
          (fun _ _ => erase_rely x) (detach_fits good fits listed)
      · exact advance_unlock good fits.1.locked rfl trivial
  | place _ _ _ left =>
    cases left with
    | nil => exact advance_addItem good fits
    | cons =>
      obtain ⟨_, placed⟩ := Element.place_isSome (place_apart good covered fits)
      simp only [exec, placed]
      exact advance_place good fits placed
  | unlock r stored =>
    cases stored with
    | none | some => exact advance_unlock good fits rfl trivial
  | storeKey e => exact of_same good ⟨rfl, rfl, rfl, rfl⟩ rfl (fun _ _ _ => id) trivial
  | removeElement e | removeFound e =>
    simp only [exec]
    cases taken : s.takeOut e with
    | none => exact waits _ rfl trivial
    | some s' => exact advance_takeOut good taken rfl (takeOut_spec taken).1
  | dropKey e => exact of_same good (dropKey_same keys s e) rfl (fun _ _ _ => id) fits
  | findKey key =>
    simp only [exec]
    cases found : s.sortedTxsMap.lookup key with
    | none => exact waits _ rfl trivial
    | some e => exact of_same good ⟨rfl, rfl, rfl, rfl⟩ rfl (fun _ _ _ => id) trivial
  | findToDelete e =>
    simp only [exec]
    cases found : s.addrTxs.lookup e.address with
    | none => exact waits _ rfl trivial
    | some r => exact waits _ rfl fits
  | delete r e =>
    simp only [exec]
    cases lock : s.locks.lookup r with
    | some _ => exact waits _ rfl fits
    | none => exact advance_delete good fits lock (current lock).1 (current lock).2
  | findToClean address =>
    simp only [exec]
    cases found : s.addrTxs.lookup address with
    | none | some => exact waits _ rfl trivial
  | clean r _ nonce =>
    simp only [exec]
    cases lock : s.locks.lookup r with
    | some _ => exact waits _ rfl trivial
    | none =>
      obtain ⟨distinct, chosen⟩ :=
        selected_spec good (current lock) fun v => decide (v.nonce ≤ nonce)
      refine of_same good (lock_same s r i) rfl (fun _ _ => lock_locked lock)
        ⟨⟨lock_self s r i, current lock⟩, distinct, ?_⟩
      intro v inside
      obtain ⟨address_eq, recorded, _⟩ := chosen v inside
      exact ⟨address_eq, recorded⟩
  | cleaning _ _ left =>
    cases left with
    | nil => exact advance_close good fits.1
    | cons v left =>
      simp only [exec]
      cases taken : s.takeOut v with
      | none => exact advance_unlock good fits.1.locked rfl trivial
      | some s' =>
        obtain ⟨holding, distinct, items⟩ := fits
        have rely : Rely i s s' := takeOut_rely taken
        exact advance_takeOut good taken rfl ⟨holding.stable rely, distinct,
          holding.items_stable rely items, (takeOut_spec taken).1⟩
  | cleanKey r address v left =>
    have same := dropKey_same keys s v
    exact of_same good same rfl (fun _ _ _ => id)
      (Fits.stable i s _ (.forget r address v left) fits (same.rely fun _ => id))
  | forget => exact advance_forget good fits

theorem Fits.adding {i r : Nat} {s : SharedQueue} {p : Program} {x : Element} (fits : Fits i s p)
    (adds : p.adds = some (r, x)) :
    s.locks.lookup r = some i ∧ s.addrTxs.lookup x.address = some r := by
  cases p with
  | place =>
    cases Option.some.inj adds
    exact ⟨fits.1.locked, fits.1.tabled⟩
  | _ => contradiction

/-- Every listed element is recorded under its sender, or an Insert call holding the record is about
to do so. -/
structure Inv (st : Interleaving.State SharedQueue Program) : Prop where
  good : Good st.shared
  fits : ∀ i, Fits i st.shared (st.programs i)
  listed : ∀ x ∈ st.shared.sortedTxs, ∃ r, st.shared.addrTxs.lookup x.address = some r ∧
    (st.shared.item r x.nonce = some x ∨ ∃ i, (st.programs i).adds = some (r, x))

variable {st : Interleaving.State SharedQueue Program}

theorem Inv.covered (inv : Inv st) (i : Nat) : Covered i st.shared (st.programs i) := by
  intro y inside
  obtain ⟨r, tabled, recorded | ⟨j, adds⟩⟩ := inv.listed y inside
  · exact ⟨r, tabled, .inl recorded⟩
  refine ⟨r, tabled, .inr ?_⟩
  by_cases same : j = i
  · exact .inl (same ▸ adds)
  · exact .inr ⟨j, same, ((inv.fits j).adding adds).1⟩

abbrev queueStep : Interleaving.State SharedQueue Program → Nat →
    Interleaving.State SharedQueue Program :=
  Interleaving.step fun i s p => p.exec keys txPriceBump i s

theorem Inv.step (inv : Inv st) (i : Nat) (current : Current st.shared (st.programs i)) :
    Inv (queueStep keys txPriceBump st i) := by
  have advance := exec_advance keys txPriceBump inv.good (inv.fits i) (inv.covered i) current
  refine ⟨advance.good, Interleaving.fits_step _ Fits.stable advance.fits advance.rely inv.fits, ?_⟩
  intro x inside
  have own : ∀ r, ((st.programs i).exec keys txPriceBump i st.shared).2.adds = some (r, x) →
      ∃ j, ((queueStep keys txPriceBump st i).programs j).adds = some (r, x) := by
    intro r adds
    exact ⟨i, by rw [Interleaving.step_programs_self]; exact adds⟩
  by_cases before : x ∈ st.shared.sortedTxs
  · obtain ⟨r, tabled, recorded | ⟨j, adds⟩⟩ := inv.listed x before
    · obtain ⟨tabled', recorded'⟩ := advance.recorded x inside r tabled recorded
      exact ⟨r, tabled', .inl recorded'⟩
    by_cases same : j = i
    · subst same
      obtain ⟨tabled', how⟩ := advance.adds x inside r tabled adds
      exact ⟨r, tabled', how.imp_right (own r)⟩
    have held := ((inv.fits j).adding adds).1
    have kept := ((advance.rely j same).held r x.address held tabled).1
    refine ⟨r, kept, .inr ⟨j, ?_⟩⟩
    rw [Interleaving.step_programs_of_ne _ _ same]
    exact adds
  · obtain ⟨r, tabled', how⟩ := advance.entered x inside before
    exact ⟨r, tabled', how.imp_right (own r)⟩

theorem startCalls_inv (calls : List QueueCall) : Inv (startCalls calls) where
  good := by
    refine ⟨nodup_nil, by simp [startCalls, newSharedQueue], ?_, ?_⟩
    all_goals simp [startCalls, newSharedQueue]
  fits i := by
    dsimp only [startCalls]
    cases calls[i]? with
    | none => trivial
    | some c =>
      cases c with
      | insert t =>
        refine ⟨⟨rfl, by simp [newSharedQueue], by simp [newSharedQueue], ?_⟩, ?_⟩
        · intro r nonce
          simp [item, record, newSharedQueue]
        · intro address
          simp [newSharedQueue]
      | remove | removeByKey | cleanItems => trivial
  listed := by simp [startCalls, newSharedQueue]

/-- The element is recorded under its sender, so that GetAddressNonce and GetAddressTxs
count it and CleanItems finds it. -/
structure Recorded (s : SharedQueue) (x : Element) : Prop where
  item : ∃ r, s.addrTxs.lookup x.address = some r ∧ s.item r x.nonce = some x
  nonce : ∃ maxNonce, s.getAddressNonce x.address = some maxNonce ∧ x.nonce ≤ maxNonce
  tx : x.tx.tx ∈ s.getAddressTxs x.address 0

theorem Good.recorded {s : SharedQueue} (good : Good s) {r : Nat} {x : Element}
    (tabled : s.addrTxs.lookup x.address = some r) (found : s.item r x.nonce = some x) :
    Recorded s x where
  item := ⟨r, tabled, found⟩
  nonce := by
    refine ⟨(s.record r).maxNonce, ?_, (good.items _ r _ x tabled found).2.2⟩
    rw [getAddressNonce, tabled]
    rfl
  tx := by
    have entry := (lookup_eq_some_iff _ _ _).mp found
    simp only [getAddressTxs, tabled, Int.le_refl, true_or]
    exact mem_map.mpr ⟨_, entry, rfl⟩

end

def senderTx (byte : UInt8) (nonce : Nat) (gasPrice : Int) : MempoolTx where
  tx := [byte]
  height := 1
  fromAddr := "sender"
  nonce := nonce
  gasPrice := gasPrice
  txHash := []

/-- Two insertions in turns, then CleanItems up to the first nonce. -/
def patientCalls : List QueueCall :=
  [.insert (senderTx 1 0 100), .insert (senderTx 2 1 100), .cleanItems "sender" 0]

def patientSchedule : List Nat := [0, 1, 0, 1, 0, 0, 0, 1, 0, 1, 1, 1, 1, 2, 2, 2, 2, 2, 2]

/-- An Insert call has found the sender's record when CleanItems empties and drops it. -/
def droppedRecord : Interleaving.State SharedQueue Program := Run.exec (queueStep KeyRegime.raw 10)
    (startCalls [.insert (senderTx 1 0 100), .cleanItems "sender" 0, .insert (senderTx 2 1 100)])
    [0, 0, 0, 0, 0, 0, 2, 1, 1, 1, 1, 1, 1, 2, 2, 2, 2, 2]

/-- RemoveByKey has taken its element out of the list when a replacement comes in under its nonce.
-/
def deletedReplacement : Interleaving.State SharedQueue Program :=
  Run.exec (queueStep KeyRegime.raw 10)
    (startCalls [.insert (senderTx 1 0 100), .removeByKey [1], .insert (senderTx 2 0 200)])
    [0, 0, 0, 0, 0, 0, 1, 1, 2, 2, 2, 2, 2, 2, 2, 2, 2, 1, 1]

end Exchain.Mempool.SharedQueue
