import Exchain.Evm.Journal

namespace Exchain.Evm

open Function

structure View where
  balance : Nat
  nonce : UInt64
  codeHash : Hash
  code : Code
  storage : Hash → Hash
  suicided : Bool

/-- The code of an object that holds the given code, if any, and code hash. -/
def codeOf (cfg : Config) (db : Db) (held : Option Code) (hash : Hash) : Code :=
  let stored := if cfg.higherThanMars then db.mpt.code hash else db.kv.code hash
  -- before Mars an object that holds empty code counts as one that holds none
  if cfg.higherThanMars = true ∧ held ≠ none ∨ held.getD [] ≠ [] then held.getD []
  else if hash = cfg.emptyCodeHash then [] else stored.getD []

namespace StateObject

variable (cfg : Config) (db : Db) (addr : Address) (so : StateObject)

def stateAt (key : Hash) : Hash :=
  (so.dirtyStorage key <|> so.pendingStorage key <|> so.originStorage key).getD
    (so.readSlot cfg db addr key)

def view : View where
  balance := so.account.balance
  nonce := so.account.sequence
  codeHash := so.codeHash cfg
  code := codeOf cfg db so.code (so.codeHash cfg)
  storage := so.stateAt cfg db addr
  suicided := so.suicided

def settled : StateObject := { so with account := so.account.withCodeHash cfg }

/-- Same getters, and both deleted or both not. -/
def Alike (other : StateObject) : Prop :=
  so.deleted = other.deleted ∧ so.view cfg db addr = other.view cfg db addr

variable {cfg db addr}

theorem Alike.refl : so.Alike cfg db addr so := ⟨rfl, rfl⟩

@[simp] theorem view_settled : (so.settled cfg).view cfg db addr = so.view cfg db addr := by
  rfl

theorem deleted_getCommittedState (key : Hash) :
    (so.getCommittedState cfg db addr key).2.deleted = so.deleted := by
  unfold StateObject.getCommittedState
  repeat' split
  all_goals rfl

theorem deleted_getState (key : Hash) : (so.getState cfg db addr key).2.deleted = so.deleted := by
  unfold StateObject.getState
  split
  · rfl
  · exact so.deleted_getCommittedState key

theorem deleted_getCode : (so.getCode cfg db).2.deleted = so.deleted := by
  unfold StateObject.getCode StateObject.codeInRawDB
  simp only
  repeat' split
  all_goals rfl

@[simp] theorem deleted_settled : (so.settled cfg).deleted = so.deleted := rfl

theorem getState_fst (key : Hash) :
    (so.getState cfg db addr key).1 = so.stateAt cfg db addr key := by
  cases dirty : so.dirtyStorage key <;> cases pending : so.pendingStorage key <;>
    cases origin : so.originStorage key <;>
    simp [getState, getCommittedState, stateAt, dirty, pending, origin]

theorem getCode_fst : (so.getCode cfg db).1.getD [] = codeOf cfg db so.code (so.codeHash cfg) := by
  unfold getCode codeOf codeInRawDB
  cases cfg.higherThanMars with
  | true =>
    cases so.code with
    | some code => simp
    | none =>
      by_cases bare : so.codeHash cfg = cfg.emptyCodeHash
      · simp [bare]
      · by_cases missing : (db.mpt.code (so.codeHash cfg)).getD [] = [] <;> simp [bare, missing]
  | false =>
    by_cases held : so.code.getD [] = []
    · by_cases bare : so.codeHash cfg = cfg.emptyCodeHash <;> simp [held, bare]
    · simp [held]

theorem view_setBalance (amount : Nat) :
    (so.setBalance amount).view cfg db addr = { so.view cfg db addr with balance := amount } := rfl

theorem view_setNonce (nonce : UInt64) :
    (so.setNonce nonce).view cfg db addr = { so.view cfg db addr with nonce := nonce } := rfl

theorem view_setSuicided (mark : Bool) : (so.setSuicided mark).view cfg db addr =
      { so.view cfg db addr with suicided := mark } := rfl

theorem view_setCode (hash : Hash) (code : Option Code) : (so.setCode hash code).view cfg db addr =
      { so.view cfg db addr with codeHash := hash, code := codeOf cfg db code hash } := rfl

theorem stateAt_setState (key value : Hash) : (so.setState key value).stateAt cfg db addr =
      update (so.stateAt cfg db addr) key value := by
  funext other
  by_cases same : other = key
  · subst same
    simp [stateAt, setState]
  · simp [stateAt, setState, readSlot, same]

theorem view_setState (key value : Hash) : (so.setState key value).view cfg db addr =
      { so.view cfg db addr with storage := update (so.stateAt cfg db addr) key value } := by
  rw [← stateAt_setState]
  rfl

theorem stateAt_getCommittedState (base : Db) (so : StateObject) (key : Hash) :
    (so.getCommittedState cfg db addr key).2.stateAt cfg base addr =
      update (so.stateAt cfg base addr) key
        ((so.dirtyStorage key).getD (so.getCommittedState cfg db addr key).1) := by
  funext other
  by_cases same : other = key
  · subst same
    cases dirty : so.dirtyStorage other <;> cases pending : so.pendingStorage other <;>
      cases origin : so.originStorage other <;>
      simp [getCommittedState, stateAt, dirty, pending, origin]
  · cases pending : so.pendingStorage key <;> cases origin : so.originStorage key <;>
      simp [getCommittedState, stateAt, readSlot, pending, origin, same]

theorem stateAt_getState (base : Db) (so : StateObject) (key : Hash) :
    (so.getState cfg db addr key).2.stateAt cfg base addr =
      update (so.stateAt cfg base addr) key (so.stateAt cfg db addr key) := by
  rw [← getState_fst]
  cases dirty : so.dirtyStorage key with
  | some =>
    simp only [getState]
    simp [stateAt, dirty]
  | none =>
    simp only [getState, dirty]
    rw [stateAt_getCommittedState, dirty, Option.getD_none]

variable (cfg db addr) in
theorem getCommittedState_eq (key : Hash) :
    ∃ origin, (so.getCommittedState cfg db addr key).2 = { so with originStorage := origin } := by
  unfold getCommittedState
  split
  · exact ⟨_, rfl⟩
  split
  all_goals exact ⟨_, rfl⟩

variable (cfg db addr) in
theorem getState_eq (key : Hash) :
    ∃ origin, (so.getState cfg db addr key).2 = { so with originStorage := origin } := by
  unfold getState
  split
  · exact ⟨_, rfl⟩
  · exact so.getCommittedState_eq cfg db addr key

section

variable {so} {base : Db} {key : Hash}
  (agree : so.stateAt cfg db addr key = so.stateAt cfg base addr key)

include agree

theorem alike_getState : (so.getState cfg db addr key).2.Alike cfg base addr so := by
  have same : (so.getState cfg db addr key).2.stateAt cfg base addr = so.stateAt cfg base addr := by
    rw [stateAt_getState, agree, update_eq_self]
  obtain ⟨_, loaded⟩ := so.getState_eq cfg db addr key
  rw [loaded] at same ⊢
  refine ⟨rfl, ?_⟩
  simp only [view, same]
  rfl

theorem alike_getCommittedState :
    (so.getCommittedState cfg db addr key).2.Alike cfg base addr so := by
  have value : (so.dirtyStorage key).getD (so.getCommittedState cfg db addr key).1 =
      so.stateAt cfg db addr key := by
    rw [← getState_fst]
    cases dirty : so.dirtyStorage key <;> simp [getState, dirty]
  have same : (so.getCommittedState cfg db addr key).2.stateAt cfg base addr =
      so.stateAt cfg base addr := by
    rw [stateAt_getCommittedState, value, agree, update_eq_self]
  obtain ⟨_, loaded⟩ := so.getCommittedState_eq cfg db addr key
  rw [loaded] at same ⊢
  refine ⟨rfl, ?_⟩
  simp only [view, same]
  rfl

end

/-- Reading the code changes the held code at most, to what was read. -/
theorem getCode_cases : (so.getCode cfg db).2 = so ∧
        (∀ base, codeOf cfg base (so.getCode cfg db).1 (so.codeHash cfg) =
          codeOf cfg base so.code (so.codeHash cfg)) ∨
      (so.getCode cfg db).2 = { so with code := (so.getCode cfg db).1 } ∧
        (cfg.higherThanMars = false → codeOf cfg db so.code (so.codeHash cfg) ≠ []) ∧
        ∀ base, codeOf cfg base (so.getCode cfg db).1 (so.codeHash cfg) =
          codeOf cfg db so.code (so.codeHash cfg) := by
  unfold getCode codeInRawDB codeOf
  cases cfg.higherThanMars with
  | true =>
    cases held : so.code with
    | some code => simp
    | none =>
      by_cases bare : so.codeHash cfg = cfg.emptyCodeHash
      · simp [bare]
      cases stored : db.mpt.code (so.codeHash cfg) with
      | none => simp [bare]
      | some code => by_cases missing : code = [] <;> simp [bare, missing]
  | false =>
    by_cases held : so.code.getD [] = []
    · by_cases bare : so.codeHash cfg = cfg.emptyCodeHash
      · simp [held, bare]
      · by_cases missing : (db.kv.code (so.codeHash cfg)).getD [] = [] <;>
          simp [held, bare, missing]
    · simp [held]

variable (cfg db) in
theorem getCode_eq : ∃ code, (so.getCode cfg db).2 = { so with code := code } := by
  rcases getCode_cases so with ⟨same, -⟩ | ⟨loaded, -⟩
  · exact ⟨so.code, same⟩
  · exact ⟨_, loaded⟩

theorem alike_getCode {base : Db} {so : StateObject}
    (agree : codeOf cfg db so.code (so.codeHash cfg) = codeOf cfg base so.code (so.codeHash cfg) ∨
      cfg.higherThanMars = false ∧ codeOf cfg db so.code (so.codeHash cfg) = []) :
    (so.getCode cfg db).2.Alike cfg base addr so := by
  rcases getCode_cases so with ⟨same, -⟩ | ⟨loaded, found, value⟩
  · rw [same]
    exact Alike.refl so
  have agree := agree.resolve_right fun missing => found missing.1 missing.2
  rw [loaded]
  refine ⟨rfl, ?_⟩
  rw [view]
  congr 1
  exact (value base).trans agree

variable (cfg db) in
theorem codeOf_getCode (base : Db) (so : StateObject) :
    codeOf cfg base (so.getCode cfg db).1 (so.codeHash cfg) =
      codeOf cfg base (so.getCode cfg db).2.code (so.codeHash cfg) := by
  rcases getCode_cases so with ⟨same, value⟩ | ⟨loaded, -, -⟩
  · rw [same, value base]
  · rw [loaded]

end StateObject

end Exchain.Evm
