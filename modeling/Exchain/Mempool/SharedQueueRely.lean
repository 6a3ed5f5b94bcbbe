import Exchain.Mempool.SharedQueue

namespace Exchain.Mempool

namespace SharedQueue

/-- The element of a call that has not begun with it. -/
structure Untouched (i : Nat) (s : SharedQueue) (e : Element) : Prop where
  own : e.id = i
  unlisted : e ∉ s.sortedTxs
  unremoved : e ∉ s.removed
  unrecorded : ∀ r nonce, s.item r nonce ≠ some e

/-- Neither in the list nor removed from it: on its way into the list. -/
def Out (s : SharedQueue) (e : Element) : Prop := e ∉ s.sortedTxs ∧ e ∉ s.removed

/-- Call `i` holds the record `r` of the sender of `e`, to add `e` to it. -/
structure Adding (i : Nat) (s : SharedQueue) (r : Nat) (e : Element) (maxNonce : Nat) : Prop where
  own : e.id = i
  locked : s.locks.lookup r = some i
  tabled : s.addrTxs.lookup e.address = some r
  bound : ∀ nonce x, s.item r nonce = some x → nonce ≤ maxNonce
  nonce_le : e.nonce ≤ maxNonce

/-- A transaction of the sender that is recorded under a nonce other than that of `e`. -/
structure Sibling (s : SharedQueue) (r : Nat) (e x : Element) : Prop where
  address_eq : x.address = e.address
  recorded : s.item r x.nonce = some x
  nonce_ne : x.nonce ≠ e.nonce

/-- Whatever is still recorded under the nonce of `e` has left the list. -/
def Vacated (s : SharedQueue) (r : Nat) (e : Element) : Prop :=
  ∀ x, s.item r e.nonce = some x → x ∈ s.removed

/-- Call `i` holds the record that the table has for the address. -/
structure Holding (i : Nat) (s : SharedQueue) (r : Nat) (address : Address) : Prop where
  locked : s.locks.lookup r = some i
  tabled : s.addrTxs.lookup address = some r

def Fits (i : Nat) (s : SharedQueue) : Program → Prop
  | .findOrAdd e => Untouched i s e ∧ ∀ address, s.addrTxs.lookup address ≠ some i
  | .lockToAdd _ e => Untouched i s e
  | .removeOld r e maxNonce old larger =>
    Adding i s r e maxNonce ∧ Out s e ∧ s.item r e.nonce = some old ∧ larger.Nodup ∧
      ∀ x ∈ larger, Sibling s r e x
  | .dropOldKey r e maxNonce _ larger =>
    Adding i s r e maxNonce ∧ Out s e ∧ Vacated s r e ∧ larger.Nodup ∧ ∀ x ∈ larger, Sibling s r e x
  | .detach r e maxNonce left larger =>
    Adding i s r e maxNonce ∧ Out s e ∧ Vacated s r e ∧ larger.Nodup ∧
      ∀ x ∈ larger, Sibling s r e x ∧ (x ∈ left ∨ Out s x)
  | .place r e maxNonce left =>
    Adding i s r e maxNonce ∧ Vacated s r e ∧ left.Nodup ∧
      ∀ x ∈ left, Out s x ∧ (x = e ∨ Sibling s r e x)
  | .unlock r _ => s.locks.lookup r = some i
  | .dropKey e => e ∈ s.removed
  | .findToDelete e => e ∈ s.removed
  | .delete _ e => e ∈ s.removed
  | .cleaning r address left =>
    Holding i s r address ∧ left.Pairwise (fun x y => x.nonce ≠ y.nonce) ∧
      ∀ v ∈ left, v.address = address ∧ s.item r v.nonce = some v
  | .cleanKey r address v left =>
    Holding i s r address ∧ (v :: left).Pairwise (fun x y => x.nonce ≠ y.nonce) ∧
      (∀ x ∈ v :: left, x.address = address ∧ s.item r x.nonce = some x) ∧ v ∈ s.removed
  | .forget r address v left =>
    Holding i s r address ∧ (v :: left).Pairwise (fun x y => x.nonce ≠ y.nonce) ∧
      (∀ x ∈ v :: left, x.address = address ∧ s.item r x.nonce = some x) ∧ v ∈ s.removed
  | _ => True

/-- What the other calls leave alone, as call `j` sees it. -/
structure Rely (j : Nat) (s s' : SharedQueue) : Prop where
  removed_mono : ∀ x ∈ s.removed, x ∈ s'.removed
  removed_of : ∀ x ∈ s'.removed, x ∈ s.removed ∨ x ∈ s.sortedTxs
  locked : ∀ r, s.locks.lookup r = some j → s'.locks.lookup r = some j
  held : ∀ r address, s.locks.lookup r = some j → s.addrTxs.lookup address = some r →
    s'.addrTxs.lookup address = some r ∧ s'.record r = s.record r
  kept_out : ∀ r x, s.locks.lookup r = some j → s.addrTxs.lookup x.address = some r →
    x ∉ s.sortedTxs → x ∉ s'.sortedTxs
  untouched : ∀ e, Untouched j s e → Untouched j s' e
  unnamed : ∀ address, s'.addrTxs.lookup address = some j → s.addrTxs.lookup address = some j

variable {j r maxNonce : Nat} {e x : Element} {address : Address} {s s' : SharedQueue}

theorem Adding.stable (adding : Adding j s r e maxNonce) (rely : Rely j s s') :
    Adding j s' r e maxNonce := by
  obtain ⟨tabled, same⟩ := rely.held r e.address adding.locked adding.tabled
  refine ⟨adding.own, rely.locked r adding.locked, tabled, ?_, adding.nonce_le⟩
  intro nonce x found
  rw [item_congr same] at found
  exact adding.bound nonce x found

theorem Adding.item_stable (adding : Adding j s r e maxNonce) (rely : Rely j s s') (nonce : Nat) :
    s'.item r nonce = s.item r nonce :=
  item_congr (rely.held r e.address adding.locked adding.tabled).2 nonce

theorem Holding.stable (holding : Holding j s r address) (rely : Rely j s s') :
    Holding j s' r address :=
  ⟨rely.locked r holding.locked, (rely.held r address holding.locked holding.tabled).1⟩

theorem Holding.item_stable (holding : Holding j s r address) (rely : Rely j s s') (nonce : Nat) :
    s'.item r nonce = s.item r nonce :=
  item_congr (rely.held r address holding.locked holding.tabled).2 nonce

section

variable (adding : Adding j s r e maxNonce) (rely : Rely j s s')

include adding rely

theorem Adding.out_stable (same : x.address = e.address) (out : Out s x) : Out s' x := by
  have tabled : s.addrTxs.lookup x.address = some r := by
    rw [same]
    exact adding.tabled
  refine ⟨rely.kept_out r x adding.locked tabled out.1, ?_⟩
  intro gone
  rcases rely.removed_of x gone with before | listed
  · exact out.2 before
  · exact out.1 listed

theorem Adding.vacated_stable (vacated : Vacated s r e) : Vacated s' r e := by
  intro x found
  rw [adding.item_stable rely] at found
  exact rely.removed_mono x (vacated x found)

theorem Adding.sibling_stable (sibling : Sibling s r e x) : Sibling s' r e x := by
  refine ⟨sibling.address_eq, ?_, sibling.nonce_ne⟩
  rw [adding.item_stable rely]
  exact sibling.recorded

end

theorem Holding.items_stable (holding : Holding j s r address) (rely : Rely j s s')
    {left : List Element} (items : ∀ v ∈ left, v.address = address ∧ s.item r v.nonce = some v) :
    ∀ v ∈ left, v.address = address ∧ s'.item r v.nonce = some v := by
  intro v inside
  rw [holding.item_stable rely]
  exact items v inside

theorem Fits.stable (j : Nat) (s s' : SharedQueue) (p : Program) (fits : Fits j s p)
    (rely : Rely j s s') : Fits j s' p := by
  cases p with
  | findOrAdd e =>
    exact ⟨rely.untouched e fits.1, fun address named => fits.2 address (rely.unnamed _ named)⟩
  | lockToAdd r e => exact rely.untouched e fits
  | removeOld =>
    obtain ⟨adding, out, occupied, distinct, siblings⟩ := fits
    refine ⟨adding.stable rely, adding.out_stable rely rfl out, ?_, distinct, ?_⟩
    · rw [adding.item_stable rely]
      exact occupied
    · exact fun x inside => adding.sibling_stable rely (siblings x inside)
  | dropOldKey =>
    obtain ⟨adding, out, vacated, distinct, siblings⟩ := fits
    exact ⟨adding.stable rely, adding.out_stable rely rfl out, adding.vacated_stable rely vacated,
      distinct, fun x inside => adding.sibling_stable rely (siblings x inside)⟩
  | detach =>
    obtain ⟨adding, out, vacated, distinct, siblings⟩ := fits
    refine ⟨adding.stable rely, adding.out_stable rely rfl out,
      adding.vacated_stable rely vacated, distinct, ?_⟩
    intro x inside
    obtain ⟨sibling, waiting⟩ := siblings x inside
    exact ⟨adding.sibling_stable rely sibling,
      waiting.imp_right (adding.out_stable rely sibling.address_eq)⟩
  | place =>
    obtain ⟨adding, vacated, distinct, waiting⟩ := fits
    refine ⟨adding.stable rely, adding.vacated_stable rely vacated, distinct, ?_⟩
    intro x inside
    obtain ⟨out, kind⟩ := waiting x inside
    rcases kind with rfl | sibling
    · exact ⟨adding.out_stable rely rfl out, .inl rfl⟩
    · exact ⟨adding.out_stable rely sibling.address_eq out,
        .inr (adding.sibling_stable rely sibling)⟩
  | unlock r => exact rely.locked r fits
  | dropKey e => exact rely.removed_mono e fits
  | findToDelete e => exact rely.removed_mono e fits
  | delete r e => exact rely.removed_mono e fits
  | cleaning =>
    obtain ⟨holding, distinct, items⟩ := fits
    exact ⟨holding.stable rely, distinct, holding.items_stable rely items⟩
  | cleanKey _ _ v =>
    obtain ⟨holding, distinct, items, gone⟩ := fits
    exact ⟨holding.stable rely, distinct, holding.items_stable rely items, rely.removed_mono v gone⟩
  | forget _ _ v =>
    obtain ⟨holding, distinct, items, gone⟩ := fits
    exact ⟨holding.stable rely, distinct, holding.items_stable rely items, rely.removed_mono v gone⟩
  | returned | storeKey | removeElement | findKey | removeFound | findToClean | clean => trivial

end SharedQueue

end Exchain.Mempool
