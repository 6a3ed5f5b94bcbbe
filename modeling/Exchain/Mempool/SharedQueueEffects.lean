import Exchain.Mempool.SharedQueueRely

namespace Exchain.Mempool

open List

theorem Element.place_perm {x : Element} {txs txs' : List Element}
    (placed : x.place txs = some txs') : txs'.Perm (x :: txs) := by
  obtain ⟨result, inserted, rfl⟩ := Option.map_eq_some_iff.mp placed
  have perm := insertElement_perm inserted
  have inside : x.tx ∈ result := perm.mem_iff.mpr mem_cons_self
  have index := idxOf_lt_length_of_mem inside
  have size := perm.length_eq
  rw [length_cons, length_map] at size
  exact perm_insertIdx x txs (by omega)

theorem Element.place_isSome {x : Element} {txs : List Element}
    (apart : ∀ y ∈ txs, y.address = x.address → y.nonce ≠ x.nonce) :
    ∃ txs', x.place txs = some txs' := by
  have fresh : ∀ t ∈ txs.map Element.tx, t.fromAddr = x.tx.fromAddr → t.nonce ≠ x.tx.nonce := by
    intro t inside same
    obtain ⟨y, listed, rfl⟩ := mem_map.mp inside
    exact apart y listed same
  obtain ⟨_, inserted⟩ := insertElement_isSome fresh
  exact ⟨_, by rw [place, inserted]; rfl⟩

namespace SharedQueue

/-- The shared state on its own: no element twice in the list or both removed and listed, and each
record of the table belongs to one address. -/
structure Good (s : SharedQueue) : Prop where
  nodup : s.sortedTxs.Nodup
  gone : ∀ x ∈ s.removed, x ∉ s.sortedTxs
  distinct : ∀ address address' r, s.addrTxs.lookup address = some r →
    s.addrTxs.lookup address' = some r → address = address'
  items : ∀ address r nonce x, s.addrTxs.lookup address = some r → s.item r nonce = some x →
    x.address = address ∧ x.nonce = nonce ∧ nonce ≤ (s.record r).maxNonce

variable {i j r : Nat} {e : Element} {s s' : SharedQueue}

theorem Rely.of_lists (heap : s'.heap = s.heap) (table : s'.addrTxs = s.addrTxs)
    (locks : s'.locks = s.locks) (removed_mono : ∀ x ∈ s.removed, x ∈ s'.removed)
    (removed_of : ∀ x ∈ s'.removed, x ∈ s.removed ∨ x ∈ s.sortedTxs)
    (entered : ∀ x ∈ s'.sortedTxs, x ∉ s.sortedTxs → ¬ Untouched j s x ∧
      ∀ r, s.addrTxs.lookup x.address = some r → s.locks.lookup r ≠ some j) : Rely j s s' where
  removed_mono := removed_mono
  removed_of := removed_of
  locked r held := by
    rw [locks]
    exact held
  held r address _ tabled := by
    rw [table, record, heap]
    exact ⟨tabled, rfl⟩
  kept_out r x held tabled outside inside := (entered x inside outside).2 r tabled held
  untouched e before := by
    refine ⟨before.own, ?_, ?_, ?_⟩
    · intro inside
      exact (entered e inside before.unlisted).1 before
    · intro gone
      rcases removed_of e gone with earlier | listed
      · exact before.unremoved earlier
      · exact before.unlisted listed
    · intro r nonce
      rw [item, record, heap]
      exact before.unrecorded r nonce
  unnamed address named := by
    rw [table] at named
    exact named

theorem Rely.of_records (list : s'.sortedTxs = s.sortedTxs) (removed : s'.removed = s.removed)
    (locked : ∀ r, s.locks.lookup r = some j → s'.locks.lookup r = some j)
    (held : ∀ r address, s.locks.lookup r = some j → s.addrTxs.lookup address = some r →
      s'.addrTxs.lookup address = some r ∧ s'.record r = s.record r)
    (items : ∀ r nonce e, s'.item r nonce = some e → s.item r nonce = some e ∨ e.id ≠ j)
    (unnamed : ∀ address, s'.addrTxs.lookup address = some j →
      s.addrTxs.lookup address = some j) : Rely j s s' where
  removed_mono x gone := removed ▸ gone
  removed_of x gone := .inl (removed ▸ gone)
  locked := locked
  held := held
  kept_out _ _ _ _ outside := list ▸ outside
  untouched e before := by
    refine ⟨before.own, list ▸ before.unlisted, removed ▸ before.unremoved, ?_⟩
    intro r nonce found
    rcases items r nonce e found with earlier | other
    · exact before.unrecorded r nonce earlier
    · exact other before.own
  unnamed := unnamed

/-- Nothing but the map of keys and the locks differs. -/
structure SameRecords (s s' : SharedQueue) : Prop where
  list : s'.sortedTxs = s.sortedTxs
  removed : s'.removed = s.removed
  heap : s'.heap = s.heap
  table : s'.addrTxs = s.addrTxs

section

variable (same : SameRecords s s')

include same

theorem SameRecords.record_eq (r : Nat) : s'.record r = s.record r := by
  rw [record, record, same.heap]

theorem SameRecords.item_eq (r nonce : Nat) :
    s'.item r nonce = s.item r nonce := item_congr (same.record_eq r) nonce

theorem SameRecords.rely (locked : ∀ r, s.locks.lookup r = some j → s'.locks.lookup r = some j) : Rely j s s' := by
  refine Rely.of_records same.list same.removed locked ?_ ?_ ?_
  · intro r address _ tabled
    rw [same.table]
    exact ⟨tabled, same.record_eq r⟩
  · intro r nonce e found
    rw [same.item_eq] at found
    exact .inl found
  · intro address named
    rw [same.table] at named
    exact named

theorem SameRecords.good (good : Good s) : Good s' where
  nodup := same.list ▸ good.nodup
  gone := by
    rw [same.list, same.removed]
    exact good.gone
  distinct := by
    rw [same.table]
    exact good.distinct
  items := by
    intro address r nonce x tabled found
    rw [same.table] at tabled
    rw [same.item_eq] at found
    rw [same.record_eq]
    exact good.items address r nonce x tabled found

end

section

variable (taken : s.takeOut e = some s')

include taken

/-- Taking a removed element out changes nothing; otherwise it was listed and is
removed now. -/
theorem takeOut_spec :
    e ∈ s'.removed ∧ s'.heap = s.heap ∧ s'.addrTxs = s.addrTxs ∧ s'.locks = s.locks ∧
      (s' = s ∨ e ∈ s.sortedTxs ∧ s'.sortedTxs = s.sortedTxs.erase e ∧
        s'.removed = e :: s.removed) := by
  unfold takeOut at taken
  split at taken
  · rename_i gone
    cases taken
    exact ⟨gone, rfl, rfl, rfl, .inl rfl⟩
  split at taken
  · rename_i listed
    cases taken
    exact ⟨mem_cons_self, rfl, rfl, rfl, .inr ⟨listed, rfl, rfl⟩⟩
  · contradiction

theorem takeOut_mem (x : Element) (inside : x ∈ s'.sortedTxs) : x ∈ s.sortedTxs := by
  obtain ⟨_, _, _, _, rfl | ⟨_, list, _⟩⟩ := takeOut_spec taken
  · exact inside
  · rw [list] at inside
    exact mem_of_mem_erase inside

theorem takeOut_removed (x : Element) :
    (x ∈ s.removed → x ∈ s'.removed) ∧ (x ∈ s'.removed → x ∈ s.removed ∨ x ∈ s.sortedTxs) := by
  obtain ⟨_, _, _, _, rfl | ⟨listed, _, removed⟩⟩ := takeOut_spec taken
  · exact ⟨id, .inl⟩
  rw [removed, mem_cons]
  refine ⟨.inr, ?_⟩
  rintro (rfl | before)
  · exact .inr listed
  · exact .inl before

theorem takeOut_rely : Rely j s s' := by
  obtain ⟨_, heap, table, locks, _⟩ := takeOut_spec taken
  refine Rely.of_lists heap table locks (fun x => (takeOut_removed taken x).1)
    (fun x => (takeOut_removed taken x).2) ?_
  intro x inside outside
  exact absurd (takeOut_mem taken x inside) outside

end

theorem Good.of_lists (good : Good s) (heap : s'.heap = s.heap) (table : s'.addrTxs = s.addrTxs)
    (nodup : s'.sortedTxs.Nodup) (gone : ∀ x ∈ s'.removed, x ∉ s'.sortedTxs) : Good s' where
  nodup := nodup
  gone := gone
  distinct := by
    rw [table]
    exact good.distinct
  items := by
    intro address r nonce x tabled found
    rw [table] at tabled
    rw [item, record, heap] at found
    rw [record, heap]
    exact good.items address r nonce x tabled found

theorem takeOut_good (good : Good s) (taken : s.takeOut e = some s') : Good s' := by
  obtain ⟨_, heap, table, _, rfl | ⟨_, list, removed⟩⟩ := takeOut_spec taken
  · exact good
  refine good.of_lists heap table (list ▸ good.nodup.erase e) ?_
  intro x gone inside
  rw [list] at inside
  obtain ⟨differ, listed⟩ := good.nodup.mem_erase_iff.mp inside
  rw [removed] at gone
  rcases mem_cons.mp gone with rfl | before
  · exact differ rfl
  · exact good.gone x before listed

theorem erase_good (good : Good s) (x : Element) :
    Good { s with sortedTxs := s.sortedTxs.erase x } := by
  refine good.of_lists rfl rfl (good.nodup.erase x) ?_
  intro y gone inside
  exact good.gone y gone (mem_of_mem_erase inside)

theorem erase_rely (x : Element) : Rely j s { s with sortedTxs := s.sortedTxs.erase x } := by
  refine Rely.of_lists rfl rfl rfl (fun _ => id) (fun _ => .inl) ?_
  intro y inside outside
  exact absurd (mem_of_mem_erase inside) outside

/-- Only the record `r` is changed, and at most the address that leads to it leaves the
table. -/
structure RecordChange (r : Nat) (s s' : SharedQueue) : Prop where
  list : s'.sortedTxs = s.sortedTxs
  removed : s'.removed = s.removed
  locks : ∀ r', r' ≠ r → s'.locks.lookup r' = s.locks.lookup r'
  others : ∀ r', r' ≠ r → s'.record r' = s.record r'
  table : ∀ address, s.addrTxs.lookup address ≠ some r →
    s'.addrTxs.lookup address = s.addrTxs.lookup address
  shrinks : ∀ address r', s'.addrTxs.lookup address = some r' → s.addrTxs.lookup address = some r'

theorem RecordChange.rely (change : RecordChange r s s') (unheld : s.locks.lookup r ≠ some j)
    (items : ∀ nonce x, s'.item r nonce = some x → s.item r nonce = some x ∨ x.id ≠ j) :
    Rely j s s' := by
  have other : ∀ r', s.locks.lookup r' = some j → r' ≠ r := by
    rintro r' held rfl
    exact unheld held
  refine Rely.of_records change.list change.removed ?_ ?_ ?_ fun address => change.shrinks address j
  · intro r' held
    rw [change.locks r' (other r' held)]
    exact held
  · intro r' address held tabled
    refine ⟨?_, change.others r' (other r' held)⟩
    rw [change.table address]
    · exact tabled
    · intro same
      exact other r' held (Option.some.inj (tabled.symm.trans same))
  · intro r' nonce e found
    by_cases same : r' = r
    · subst same
      exact items nonce e found
    · rw [item_congr (change.others r' same)] at found
      exact .inl found

theorem RecordChange.good (change : RecordChange r s s') (good : Good s)
    (items : ∀ address nonce x, s.addrTxs.lookup address = some r → s'.item r nonce = some x →
      x.address = address ∧ x.nonce = nonce ∧ nonce ≤ (s'.record r).maxNonce) : Good s' where
  nodup := change.list ▸ good.nodup
  gone := by
    rw [change.list, change.removed]
    exact good.gone
  distinct address address' r' tabled tabled' :=
    good.distinct address address' r' (change.shrinks _ _ tabled) (change.shrinks _ _ tabled')
  items address r' nonce x tabled found := by
    have before := change.shrinks address r' tabled
    by_cases same : r' = r
    · subst same
      exact items address nonce x before found
    · rw [item_congr (change.others r' same)] at found
      rw [change.others r' same]
      exact good.items address r' nonce x before found

theorem setRecord_change (s : SharedQueue) (r : Nat) (am : ItemMap) :
    RecordChange r s (s.setRecord r am) where
  list := rfl
  removed := rfl
  locks _ _ := rfl
  others r' other := by rw [record_setRecord, if_neg other]
  table _ _ := rfl
  shrinks _ _ := id

theorem RecordChange.drop (change : RecordChange r s s') {address : Address}
    (tabled : s.addrTxs.lookup address = some r) :
    RecordChange r s { s' with addrTxs := s'.addrTxs.erase address } where
  list := change.list
  removed := change.removed
  locks := change.locks
  others := change.others
  table a other := by
    rw [AList.lookup_erase_if, change.table a other]
    refine if_neg ?_
    rintro rfl
    exact other tabled
  shrinks a r' found := change.shrinks a r' (AList.lookup_erase_eq_some.mp found).2

end SharedQueue

/-- The record an Insert call is about to add its element to. -/
def Program.adds : Program → Option (Nat × Element)
  | .place r e _ _ => some (r, e)
  | _ => none

namespace SharedQueue

/-- One instruction of call `i` as the rest of the queue sees it. A recorded element stays so while
it is listed, and what enters the list is about to be recorded. -/
structure Advance (i : Nat) (s : SharedQueue) (p : Program) (s' : SharedQueue) (p' : Program) :
    Prop where
  good : Good s'
  fits : Fits i s' p'
  rely : ∀ j, j ≠ i → Rely j s s'
  recorded : ∀ x ∈ s'.sortedTxs, ∀ r, s.addrTxs.lookup x.address = some r →
    s.item r x.nonce = some x → s'.addrTxs.lookup x.address = some r ∧ s'.item r x.nonce = some x
  adds : ∀ x ∈ s'.sortedTxs, ∀ r, s.addrTxs.lookup x.address = some r → p.adds = some (r, x) →
    s'.addrTxs.lookup x.address = some r ∧ (s'.item r x.nonce = some x ∨ p'.adds = some (r, x))
  entered : ∀ x ∈ s'.sortedTxs, x ∉ s.sortedTxs → ∃ r, s'.addrTxs.lookup x.address = some r ∧
    (s'.item r x.nonce = some x ∨ p'.adds = some (r, x))

variable {i : Nat} {s s' : SharedQueue} {p p' : Program}

theorem Advance.of_shrink (heap : s'.heap = s.heap) (table : s'.addrTxs = s.addrTxs)
    (list : ∀ x ∈ s'.sortedTxs, x ∈ s.sortedTxs) (idle : p.adds = none) (good : Good s')
    (rely : ∀ j, j ≠ i → Rely j s s') (fits : Fits i s' p') : Advance i s p s' p' where
  good := good
  fits := fits
  rely := rely
  recorded x _ r tabled found := by
    rw [table, item, record, heap]
    exact ⟨tabled, found⟩
  adds x _ r _ adding := by
    rw [idle] at adding
    contradiction
  entered x inside outside := absurd (list x inside) outside

theorem Advance.of_same (good : Good s) (same : SameRecords s s') (idle : p.adds = none)
    (locked : ∀ j, j ≠ i → ∀ r, s.locks.lookup r = some j → s'.locks.lookup r = some j)
    (fits : Fits i s' p') : Advance i s p s' p' :=
  Advance.of_shrink same.heap same.table (fun _ => same.list ▸ id) idle (same.good good)
    (fun j other => same.rely (locked j other)) fits

theorem Advance.of_record {r : Nat} (change : RecordChange r s s') (idle : p.adds = none)
    (good : Good s') (rely : ∀ j, j ≠ i → Rely j s s') (fits : Fits i s' p')
    (kept : ∀ x ∈ s.sortedTxs, s.addrTxs.lookup x.address = some r → s.item r x.nonce = some x →
      s'.addrTxs.lookup x.address = some r ∧ s'.item r x.nonce = some x) : Advance i s p s' p' where
  good := good
  fits := fits
  rely := rely
  recorded x inside r' tabled found := by
    rw [change.list] at inside
    by_cases same : r' = r
    · subst same
      exact kept x inside tabled found
    rw [item_congr (change.others r' same), change.table]
    · exact ⟨tabled, found⟩
    · intro leads
      exact same (Option.some.inj (tabled.symm.trans leads))
  adds x _ r _ adding := by
    rw [idle] at adding
    contradiction
  entered x inside outside := absurd (change.list ▸ inside) outside

end SharedQueue

end Exchain.Mempool
