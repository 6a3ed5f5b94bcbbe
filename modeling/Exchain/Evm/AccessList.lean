import Exchain.Evm.StateObject

/-!
The access list of a transaction. An address without slots has no index; an
index points into the list of slot sets, which grows at its end only.
-/

namespace Exchain.Evm

open Function

structure AccessList where
  addresses : Address → Option (Option Nat)
  slots : List (Finset Hash)
  /-- A slot set is created with its first slot and dropped with its last one. -/
  slots_nonempty : ∀ slotmap ∈ slots, slotmap.Nonempty

namespace AccessList

theorem ext_of {al other : AccessList} (addresses : al.addresses = other.addresses)
    (slots : al.slots = other.slots) : al = other := by
  cases al
  cases other
  simp_all

def new : AccessList where
  addresses := fun _ => none
  slots := []
  slots_nonempty := by simp

variable (al : AccessList)

def containsAddress (address : Address) : Bool := (al.addresses address).isSome

/-- Whether the address is present, and whether the slot is. -/
def contains (address : Address) (slot : Hash) : Bool × Bool :=
  match al.addresses address with
  | none => (false, false)
  | some none => (true, false)
  | some (some idx) =>
    match al.slots[idx]? with
    | none => (true, false)
    | some slotmap => (true, decide (slot ∈ slotmap))

/-- The list afterwards, and whether the address was added. -/
def addAddress (address : Address) : AccessList × Bool :=
  match al.addresses address with
  | some _ => (al, false)
  | none => ({ al with addresses := update al.addresses address (some none) }, true)

variable {slots : List (Finset Hash)}

theorem mem_slots_append (nonempty : ∀ slotmap ∈ slots, slotmap.Nonempty) (slot : Hash) :
    ∀ slotmap ∈ slots ++ [{slot}], slotmap.Nonempty := by
  intro slotmap inside
  rcases List.mem_append.mp inside with old | new
  · exact nonempty slotmap old
  · rw [List.mem_singleton.mp new]
    exact Finset.singleton_nonempty slot

theorem mem_slots_set
    (nonempty : ∀ slotmap ∈ slots, slotmap.Nonempty) (idx : Nat) {slotmap : Finset Hash}
    (filled : slotmap.Nonempty) : ∀ other ∈ slots.set idx slotmap, other.Nonempty := by
  intro other inside
  rcases List.mem_or_eq_of_mem_set inside with old | rfl
  · exact nonempty other old
  · exact filled

def openSlots (address : Address) (slot : Hash) : AccessList where
  addresses := update al.addresses address (some (some al.slots.length))
  slots := al.slots ++ [{slot}]
  slots_nonempty := mem_slots_append al.slots_nonempty slot

/-- The list afterwards, whether the address was added and whether the slot was. -/
def addSlot (address : Address) (slot : Hash) : AccessList × Bool × Bool :=
  match al.addresses address with
  | none => (al.openSlots address slot, true, true)
  | some none => (al.openSlots address slot, false, true)
  | some (some idx) =>
    match al.slots[idx]? with
    | none => (al, false, false)
    | some slotmap =>
      if slot ∈ slotmap then (al, false, false)
      else
        ({ al with
            slots := al.slots.set idx (insert slot slotmap)
            slots_nonempty :=
              mem_slots_set al.slots_nonempty idx (Finset.insert_nonempty slot slotmap) },
          false, true)

/-- `none` where the code panics: no such address, or an index outside the slots. -/
def deleteSlot (address : Address) (slot : Hash) : Option AccessList :=
  match al.addresses address with
  | some (some idx) =>
    match al.slots[idx]? with
    | some slotmap =>
      if left : (slotmap.erase slot).Nonempty then
        some { al with
          slots := al.slots.set idx (slotmap.erase slot)
          slots_nonempty := mem_slots_set al.slots_nonempty idx left }
      else
        some {
          addresses := update al.addresses address (some none)
          slots := al.slots.take idx
          slots_nonempty := fun other inside =>
            al.slots_nonempty other (List.mem_of_mem_take inside) }
    | none => none
  | _ => none

def deleteAddress (address : Address) : AccessList :=
  { al with addresses := update al.addresses address none }

theorem deleteAddress_addAddress {al : AccessList} {address : Address}
    (absent : al.addresses address = none) :
    (al.addAddress address).1.deleteAddress address = al := by
  apply ext_of
  all_goals simp [addAddress, deleteAddress, absent]

theorem deleteSlot_openSlots (address : Address) (slot : Hash) :
    (al.openSlots address slot).deleteSlot address slot =
      some { al with addresses := update al.addresses address (some none) } := by
  simp [openSlots, deleteSlot]

theorem deleteSlot_set {al : AccessList} {address : Address} {slot : Hash} {idx : Nat}
    {slotmap : Finset Hash} (present : al.addresses address = some (some idx))
    (found : al.slots[idx]? = some slotmap) (new : slot ∉ slotmap) : AccessList.deleteSlot { al with
        slots := al.slots.set idx (insert slot slotmap)
        slots_nonempty :=
          mem_slots_set al.slots_nonempty idx (Finset.insert_nonempty slot slotmap) }
      address slot = some al := by
  have filled : slotmap.Nonempty := al.slots_nonempty slotmap (List.mem_of_getElem? found)
  obtain ⟨bound, same⟩ := List.getElem?_eq_some_iff.mp found
  have restored : (al.slots.set idx (insert slot slotmap)).set idx slotmap = al.slots := by
    rw [List.set_set, ← same, List.set_getElem_self]
  simp only [deleteSlot, present, List.getElem?_set_self bound, Finset.erase_insert new, filled,
    dif_pos, Option.some.injEq]
  exact ext_of rfl restored

/-- What `addSlot` reports is what has to be undone: the slot first, then the address. -/
theorem addSlot_cases (address : Address) (slot : Hash) :
    (al.addresses address = none ∧ al.addSlot address slot = (al.openSlots address slot, true, true)) ∨
      (∃ added, al.addSlot address slot = (added, false, true) ∧
        added.deleteSlot address slot = some al) ∨
      al.addSlot address slot = (al, false, false) := by
  unfold addSlot
  split
  · exact .inl ⟨‹_›, rfl⟩
  · rename_i present
    refine .inr (.inl ⟨_, rfl, ?_⟩)
    rw [deleteSlot_openSlots, update_eq_self_iff.mpr present.symm]
  · rename_i idx present
    split
    · exact .inr (.inr rfl)
    rename_i slotmap found
    split
    · exact .inr (.inr rfl)
    · rename_i new
      exact .inr (.inl ⟨_, rfl, deleteSlot_set present found new⟩)

end AccessList

end Exchain.Evm
