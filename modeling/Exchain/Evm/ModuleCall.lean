import Exchain.Evm.Commit

/-! Calls into the EVM by a module, with an account record read before the EVM runs and written back
after its commit. -/

namespace Exchain.Evm

/-- An account that is not stored is a new one for the module. -/
def KV.getOrNewAccount (kv : KV) (addr : Address) : Account := (kv.accounts addr).getD ⟨0, 0, none⟩

def KV.setAccount (kv : KV) (addr : Address) (account : Account) : KV :=
  { kv with accounts := Function.update kv.accounts addr (some account) }

def Account.next (account : Account) : Account := { account with sequence := account.sequence + 1 }

/-- TransitionDb and Commit of an execution that makes these calls; with an error, none, nothing is
committed. -/
def transitionDb (cfg : Config) (order : List Address) (ops : List Op) (db : Db) : Option Db :=
  ((CommitStateDB.newCommitStateDB db 0 0 0).run cfg ops).toOption.map fun s => (s.commit cfg order true).db

/-- A call of x/erc20: `evm` gives the database that the execution leaves. -/
def callEvmByModule (evm : Db → Option Db) (caller : Address) (db : Db) : Option Db :=
  let acc := db.kv.getOrNewAccount caller
  (evm db).map fun left => { left with kv := left.kv.setAccount caller acc.next }

/-- A call of x/vmbridge, which reads the account again. -/
def callEvm (evm : Db → Option Db) (caller : Address) (db : Db) : Option Db :=
  let acc := db.kv.getOrNewAccount caller
  (evm db).map fun left =>
    let temp := (left.kv.accounts caller).getD { acc with balance := 0 }
    { left with kv := left.kv.setAccount caller { temp with sequence := acc.sequence + 1 } }

/-- What a call is to leave: the database of the execution with the caller's next sequence number,
and with an error the one before. -/
def expected (evm : Db → Option Db) (caller : Address) (db : Db) : Db :=
  (evm db).elim db fun left =>
    { left with kv := left.kv.setAccount caller (left.kv.getOrNewAccount caller).next }

theorem Account.next_inj {a b : Account} : a.next = b.next ↔ a = b := by
  cases a
  cases b
  simp [Account.next]

theorem KV.setAccount_inj {kv : KV} {addr : Address} {a b : Account} :
    kv.setAccount addr a = kv.setAccount addr b ↔ a = b := by
  refine ⟨fun same => ?_, fun same => by rw [same]⟩
  have stored := congrFun (congrArg KV.accounts same) addr
  simpa [KV.setAccount] using stored

section

variable (evm : Db → Option Db) (caller : Address) (db : Db)

/-- The record written back is the one read before, so a call is right if and only if the execution
leaves the caller's record alone. -/
theorem callEvmByModule_iff : (callEvmByModule evm caller db).getD db = expected evm caller db ↔
    ∀ left ∈ evm db, left.kv.getOrNewAccount caller = db.kv.getOrNewAccount caller := by
  unfold callEvmByModule expected
  cases evm db with
  | none => simp
  | some left =>
    simp only [Option.map_some, Option.getD_some, Option.elim_some, Db.mk.injEq, and_true,
      KV.setAccount_inj, Account.next_inj, Option.mem_some_iff, forall_eq']
    exact eq_comm

/-- The other module's call keeps the balances that the execution left. -/
theorem callEvm_balance {left : Db} (ran : evm db = some left) (addr : Address) :
    (((callEvm evm caller db).getD db).kv.getOrNewAccount addr).balance =
      (left.kv.getOrNewAccount addr).balance := by
  simp only [callEvm, ran, Option.map_some, Option.getD_some, KV.getOrNewAccount, KV.setAccount,
    Function.update_apply]
  split
  · rename_i same
    rw [same]
    cases left.kv.accounts caller <;> rfl
  · rfl

end

/-- A contract that has five coins pays them to the module, whose balance stays what it was. -/
theorem callEvmByModule_loses_payment : let cfg : Config := ⟨false, fun _ => 0, fun _ => false⟩
    let db : Db := ⟨⟨fun addr => if addr = 7 then some ⟨5, 1, none⟩ else none, fun _ _ => 0, fun _ => none⟩,
      ⟨fun _ _ => 0, fun _ => none⟩⟩
    let evm := transitionDb cfg [1, 7] [.setNonce 1 0, .subBalance 7 5, .addBalance 1 5]
    ∃ left called, evm db = some left ∧ callEvmByModule evm 1 db = some called ∧
      (left.kv.getOrNewAccount 1).balance = 5 ∧ (called.kv.getOrNewAccount 1).balance = 0 := by
  refine ⟨_, _, rfl, rfl, ?_, ?_⟩
  · decide
  · decide

end Exchain.Evm
