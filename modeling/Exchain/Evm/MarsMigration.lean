import Exchain.Lib.Run
import Exchain.Lib.SortedMap

/-! The move of the chain configuration, the deployment whitelist and the blocked list from the
module's store to that of its parameters, in the block of height Mars. -/

namespace Exchain.Mars

open SortedMap
open List hiding ext_get

abbrev Bytes := List ℕ

abbrev Address := Bytes

structure ContractMethod where
  sign : Bytes
  extra : Bytes

namespace ContractMethod

def le (a b : ContractMethod) : Bool :=
  if a.sign = b.sign then a.extra ≤ b.extra else a.sign ≤ b.sign

theorem le_trans (a b c : ContractMethod) : le a b = true → le b c = true → le a c = true := by
  unfold le
  grind

theorem le_total (a b : ContractMethod) : (le a b || le b a) = true := by
  unfold le
  grind

end ContractMethod

structure BlockedContract where
  address : Address
  /-- No method means all of them. -/
  blockMethods : List ContractMethod

def BlockedContract.isAllMethodBlocked (bc : BlockedContract) : Bool := bc.blockMethods.isEmpty

/-- The methods under a key of the blocked list are written in order. -/
abbrev SortedMethods := { cms : List ContractMethod // cms.Pairwise (ContractMethod.le · ·) }

def sortContractMethods (cms : List ContractMethod) : SortedMethods :=
  ⟨cms.mergeSort ContractMethod.le,
    pairwise_mergeSort ContractMethod.le_trans ContractMethod.le_total cms⟩

theorem sortContractMethods_val (cms : SortedMethods) : sortContractMethods cms.1 = cms :=
  Subtype.ext (mergeSort_of_pairwise cms.2)

def getContractMethodsMap (cms : List ContractMethod) : SortedMap Bytes ContractMethod :=
  cms.foldl (fun m cm => m.set cm.sign cm) ∅

def insertContractMethods (cms methods : List ContractMethod) : List ContractMethod :=
  (methods.foldl (fun m cm => m.set cm.sign cm) (getContractMethodsMap cms)).values

/-- Fails at the first method that is not blocked. -/
def deleteContractMethodMap (cms methods : List ContractMethod) : Option (List ContractMethod) :=
  let drop (m : SortedMap Bytes ContractMethod) (cm : ContractMethod) :=
    if (m.get cm.sign).isSome then some (m.delete cm.sign) else none
  (methods.foldlM drop (getContractMethodsMap cms)).map (·.values)

abbrev Whitelist := SortedMap Address Unit

def setContractDeploymentWhitelist (wl : Whitelist) (addrs : List Address) : Whitelist :=
  addrs.foldl (fun m addr => m.set addr ()) wl

def deleteContractDeploymentWhitelist (wl : Whitelist) (addrs : List Address) : Whitelist :=
  addrs.foldl delete wl

/-- A key has no bytes if the whole contract was blocked, and methods in JSON if methods were. -/
abbrev BlockedList := SortedMap Address (Option SortedMethods)

namespace BlockedList

variable (bl : BlockedList)

def setContractBlockedList (addrs : List Address) : BlockedList :=
  addrs.foldl (fun m addr => m.set addr none) bl

def deleteContractBlockedList (addrs : List Address) : BlockedList :=
  addrs.foldl delete bl

/-- Only the keys without bytes. -/
def getContractBlockedList : List Address :=
  (bl.pairs.filter (·.2.isNone)).map (·.1)

def newBlockContract (addr : Address) (value : Option SortedMethods) : BlockedContract :=
  ⟨addr, value.elim [] (·.1)⟩

def getContractMethodBlockedList : List BlockedContract :=
  bl.pairs.map fun entry => newBlockContract entry.1 entry.2

def getContractMethodBlockedByAddress (addr : Address) : Option BlockedContract :=
  (bl.get addr).map (newBlockContract addr)

def setContractMethodBlocked (bc : BlockedContract) : BlockedList :=
  bl.set bc.address (some (sortContractMethods bc.blockMethods))

/-- `factorFails` holds of an extra text that is a gas factor with a value not allowed. -/
def validateExtra (factorFails : Bytes → Bool) (list : List BlockedContract) : Bool :=
  decide (list.map (·.address)).Nodup && list.all fun bc =>
    !bc.address.isEmpty && decide (bc.blockMethods.map (·.sign)).Nodup &&
      bc.blockMethods.all fun cm => !cm.sign.isEmpty && !factorFails cm.extra

def insertContractMethodBlockedList (factorFails : Bytes → Bool) (bl : BlockedList)
    (list : List BlockedContract) : Option BlockedList :=
  let insert (bl : BlockedList) (bc : BlockedContract) :=
    match bl.getContractMethodBlockedByAddress bc.address with
    | some old => bl.setContractMethodBlocked
        { old with blockMethods := insertContractMethods old.blockMethods bc.blockMethods }
    | none => bl.setContractMethodBlocked bc
  if validateExtra factorFails list then some (list.foldl insert bl) else none

def deleteContractMethodBlockedList (list : List BlockedContract) : Option BlockedList :=
  list.foldlM (fun bl bc => do
    let old ← bl.getContractMethodBlockedByAddress bc.address
    let rest ← deleteContractMethodMap old.blockMethods bc.blockMethods
    return if rest.isEmpty then bl.deleteContractBlockedList [old.address]
      else bl.setContractMethodBlocked { old with blockMethods := rest }) bl

end BlockedList

theorem rewrite_whitelist (wl : Whitelist) : setContractDeploymentWhitelist ∅ wl.keys = wl := by
  apply ext_get
  intro addr
  have entries : ∀ a ∈ wl.keys, wl.get (id a) = some () := fun a inside =>
    ((wl.mem_keys a).mp inside).choose_spec
  apply get_foldl_set entries
  cases found : wl.get addr with
  | none => exact .inr rfl
  | some value =>
    left
    rw [map_id]
    exact (wl.mem_keys addr).mpr ⟨value, found⟩

/-- The two lists that the migration writes are the blocked list, unless a list of methods in it is
empty: such an entry is in neither. -/
theorem BlockedList.rewrite {bl : BlockedList}
    (filled : ∀ addr cms, bl.get addr = some (some cms) → cms.1 ≠ []) :
    (bl.getContractMethodBlockedList.filter (!·.isAllMethodBlocked)).foldl
      setContractMethodBlocked (setContractBlockedList ∅ bl.getContractBlockedList) = bl := by
  have whole : ∀ a ∈ bl.getContractBlockedList, bl.get (id a) = some none := by
    intro a inside
    obtain ⟨entry, member, rfl⟩ := mem_map.mp inside
    obtain ⟨stored, bare⟩ := mem_filter.mp member
    rw [id, (bl.mem_pairs entry.1 entry.2).mp stored, Option.isNone_iff_eq_none.mp bare]
  have methods : ∀ bc ∈ bl.getContractMethodBlockedList.filter (!·.isAllMethodBlocked),
      bl.get bc.address = some (some (sortContractMethods bc.blockMethods)) := by
    intro bc inside
    obtain ⟨listed, some_⟩ := mem_filter.mp inside
    obtain ⟨⟨addr, value⟩, stored, rfl⟩ := mem_map.mp listed
    rw [newBlockContract, (bl.mem_pairs addr value).mp stored]
    cases value with
    | none => cases some_
    | some cms => rw [Option.elim_some, sortContractMethods_val]
  apply ext_get
  intro addr
  apply get_foldl_set methods
  cases found : bl.get addr with
  | none =>
    have absent := (get_empty addr).trans found.symm
    exact .inr ((get_foldl_set whole (.inr absent)).trans found)
  | some value =>
    have stored := (bl.mem_pairs addr value).mpr found
    cases value with
    | none =>
      have listed : addr ∈ bl.getContractBlockedList.map id :=
        mem_map_of_mem (mem_map_of_mem (mem_filter.mpr ⟨stored, rfl⟩))
      exact .inr ((get_foldl_set whole (.inl listed)).trans found)
    | some cms =>
      have nonempty := filled addr cms found
      refine .inl (mem_map.mpr ⟨newBlockContract addr (some cms), ?_, rfl⟩)
      refine mem_filter.mpr ⟨mem_map_of_mem stored, ?_⟩
      simpa [BlockedContract.isAllMethodBlocked, newBlockContract] using nonempty

section

variable {Config : Type}

/-- What either store holds under the three prefixes. -/
structure Settings (Config : Type) where
  chainConfig : Option Config
  whitelist : Whitelist
  blocked : BlockedList

def Settings.empty : Settings Config := ⟨none, ∅, ∅⟩

inductive Change (Config : Type)
  | manageContractDeploymentWhitelist (addrs : List Address) (isAdded : Bool)
  | manageContractBlockedList (addrs : List Address) (isAdded : Bool)
  | manageContractMethodBlockedList (list : List BlockedContract) (isAdded : Bool)
  | setChainConfig (config : Config)

/-- A handler that fails leaves the store as it was. -/
def Change.apply (factorFails : Bytes → Bool) (s : Settings Config) :
    Change Config → Settings Config
  | manageContractDeploymentWhitelist addrs isAdded =>
    { s with whitelist := if isAdded then setContractDeploymentWhitelist s.whitelist addrs
      else deleteContractDeploymentWhitelist s.whitelist addrs }
  | manageContractBlockedList addrs isAdded =>
    { s with blocked := if isAdded then s.blocked.setContractBlockedList addrs
      else s.blocked.deleteContractBlockedList addrs }
  | manageContractMethodBlockedList list isAdded =>
    { s with blocked := (if isAdded then s.blocked.insertContractMethodBlockedList factorFails list
      else s.blocked.deleteContractMethodBlockedList list).getD s.blocked }
  | setChainConfig config => { s with chainConfig := some config }

/-- Setting the chain configuration drops the one that was read last. -/
def Change.invalidates : Change Config → Bool
  | setChainConfig _ => true
  | _ => false

end

section Keeper

variable {Config : Type} (mars : ℕ) (factorFails : Bytes → Bool)

def higherThanMars (height : ℕ) : Prop := mars ≠ 0 ∧ mars < height

instance (height : ℕ) : Decidable (higherThanMars mars height) :=
  inferInstanceAs (Decidable (_ ∧ _))

/-- The two stores, and the chain configuration that was read last. -/
structure Keeper (Config : Type) where
  evmStore : Settings Config
  paramStore : Settings Config
  cci : Option Config

namespace Keeper

/-- The store that every accessor reads from and writes to. -/
def store (height : ℕ) (k : Keeper Config) : Settings Config :=
  if higherThanMars mars height then k.paramStore else k.evmStore

def getChainConfig (height : ℕ) (k : Keeper Config) : Option Config :=
  k.cci.or (k.store mars height).chainConfig

def apply (height : ℕ) (k : Keeper Config) (change : Change Config) : Keeper Config where
  evmStore := if higherThanMars mars height then k.evmStore else change.apply factorFails k.evmStore
  paramStore :=
    if higherThanMars mars height then change.apply factorFails k.paramStore else k.paramStore
  cci := if change.invalidates then none else k.cci

/-- A chain configuration that is missing is moved as the zero value. -/
def migrateDataInMarsHeight [Inhabited Config] (height : ℕ) (k : Keeper Config) : Keeper Config :=
  let old := k.store mars height
  let config := k.getChainConfig mars height
  let methodBlocked := old.blocked.getContractMethodBlockedList.filter (!·.isAllMethodBlocked)
  { k with
    cci := config
    paramStore :=
      { chainConfig := some (config.getD default)
        whitelist := setContractDeploymentWhitelist k.paramStore.whitelist old.whitelist.keys
        blocked := methodBlocked.foldl BlockedList.setContractMethodBlocked
          (k.paramStore.blocked.setContractBlockedList old.blocked.getContractBlockedList) } }

def beginBlock [Inhabited Config] (height : ℕ) (k : Keeper Config) : Keeper Config :=
  if height = mars then k.migrateDataInMarsHeight mars height else k

variable {mars} {k : Keeper Config} {height : ℕ}

theorem migrate_paramStore [Inhabited Config] (store : k.store mars height = k.evmStore)
    (config : k.getChainConfig mars height = k.evmStore.chainConfig)
    (fresh : k.paramStore = .empty) (present : k.evmStore.chainConfig.isSome)
    (filled : ∀ addr cms, k.evmStore.blocked.get addr = some (some cms) → cms.1 ≠ []) :
    (k.migrateDataInMarsHeight mars height).paramStore = k.evmStore := by
  obtain ⟨_, known⟩ := Option.isSome_iff_exists.mp present
  simp only [migrateDataInMarsHeight, store, config, fresh, Settings.empty, rewrite_whitelist,
    BlockedList.rewrite filled, known, Option.getD_some]
  rw [← known]

end Keeper

end Keeper

section World

variable {Config : Type} (mars : ℕ) (factorFails : Bytes → Bool)

inductive Op (Config : Type)
  | beginBlock
  | change (change : Change Config)
  | getChainConfig
  | restart

/-- A chain beside the one state that every change is applied to. -/
structure World (Config : Type) where
  height : ℕ
  keeper : Keeper Config
  settings : Settings Config

namespace World

def genesis (settings : Settings Config) : World Config := ⟨0, ⟨settings, .empty, none⟩, settings⟩

def step [Inhabited Config] (w : World Config) : Op Config → World Config
  | .beginBlock =>
    { w with height := w.height + 1, keeper := w.keeper.beginBlock mars (w.height + 1) }
  | .change change =>
    { w with
      keeper := w.keeper.apply mars factorFails w.height change
      settings := change.apply factorFails w.settings }
  | .getChainConfig =>
    { w with keeper := { w.keeper with cci := w.keeper.getChainConfig mars w.height } }
  | .restart => { w with keeper := { w.keeper with cci := none } }

/-- The accessors read what the changes made, in order, of the state at genesis. -/
structure Faithful (w : World Config) : Prop where
  store : w.keeper.store mars w.height = w.settings
  config : w.keeper.getChainConfig mars w.height = w.settings.chainConfig

/-- No change in the block of height Mars has an effect. When it begins, a chain configuration is
there and no blocked contract has an empty list of methods. -/
def Kept (w : World Config) : Op Config → Prop
  | .beginBlock => w.height + 1 = mars → w.keeper.evmStore.chainConfig.isSome ∧
      ∀ addr cms, w.keeper.evmStore.blocked.get addr = some (some cms) → cms.1 ≠ []
  | .change change => mars ≠ 0 → w.height = mars →
      change.apply factorFails w.keeper.evmStore = w.keeper.evmStore
  | _ => True

structure Sound (w : World Config) : Prop where
  evm : ¬ higherThanMars mars w.height → w.keeper.evmStore = w.settings
  fresh : w.height < mars → w.keeper.paramStore = .empty
  moved : mars ≠ 0 → mars ≤ w.height → w.keeper.paramStore = w.settings
  cached : ∀ config, w.keeper.cci = some config → w.settings.chainConfig = some config

variable {mars factorFails} {w : World Config}

theorem Sound.faithful (sound : Sound mars w) : Faithful mars w := by
  have store : w.keeper.store mars w.height = w.settings := by
    unfold Keeper.store
    split
    · next higher => exact sound.moved higher.1 higher.2.le
    · next lower => exact sound.evm lower
  refine ⟨store, ?_⟩
  rw [Keeper.getChainConfig, store]
  cases cached : w.keeper.cci with
  | none => rfl
  | some config => exact (sound.cached config cached).symm

theorem genesis_sound (settings : Settings Config) : Sound mars (genesis settings) where
  evm _ := rfl
  fresh _ := rfl
  moved chosen reached := absurd (Nat.le_zero.mp reached) chosen
  cached config held := by cases held

variable [Inhabited Config]

theorem Sound.beginBlock (sound : Sound mars w) (kept : Kept mars factorFails w .beginBlock) :
    Sound mars (w.step mars factorFails .beginBlock) := by
  by_cases reached : w.height + 1 = mars
  · have lower : ¬ higherThanMars mars w.height := fun higher => by
      have above := higher.2
      omega
    have same := sound.evm lower
    have now : ¬ higherThanMars mars (w.height + 1) := fun higher => absurd higher.2 (by omega)
    obtain ⟨present, filled⟩ := kept reached
    have store : w.keeper.store mars (w.height + 1) = w.keeper.evmStore := if_neg now
    have config : w.keeper.getChainConfig mars (w.height + 1) = w.keeper.evmStore.chainConfig := by
      rw [Keeper.getChainConfig, store, same]
      cases cached : w.keeper.cci with
      | none => rfl
      | some config => exact (sound.cached config cached).symm
    have moved := Keeper.migrate_paramStore store config (sound.fresh (by omega)) present filled
    simp only [step, Keeper.beginBlock, if_pos reached]
    refine ⟨fun _ => same, fun before => absurd before (by simp [reached]), fun _ _ => moved.trans same, ?_⟩
    intro found held
    rw [← same, ← config]
    exact held
  · simp only [step, Keeper.beginBlock, if_neg reached]
    refine ⟨fun lower => sound.evm fun higher => lower ⟨higher.1, Nat.lt_succ_of_lt higher.2⟩,
      fun before => sound.fresh (Nat.lt_of_succ_lt before),
      fun chosen past => sound.moved chosen (by simp at past; omega), sound.cached⟩

theorem Sound.change (sound : Sound mars w) {change : Change Config}
    (kept : Kept mars factorFails w (.change change)) :
    Sound mars (w.step mars factorFails (.change change)) where
  evm lower := by
    simp only [step] at lower
    simp only [step, Keeper.apply, if_neg lower, sound.evm lower]
  fresh before := by
    have lower : ¬ higherThanMars mars w.height := fun higher => absurd higher.2 (by simp [step] at before; omega)
    simpa only [step, Keeper.apply, if_neg lower] using sound.fresh before
  moved chosen past := by
    simp only [step, Keeper.apply]
    split
    · rw [sound.moved chosen past]
    rename_i lower
    -- In the block of height Mars the change goes to the old store only.
    have now : w.height = mars := by
      by_contra other
      exact lower ⟨chosen, lt_of_le_of_ne past (Ne.symm other)⟩
    have idle := kept chosen now
    rw [sound.evm lower] at idle
    rw [idle, sound.moved chosen past]
  cached config held := by
    cases change with
    | setChainConfig new => cases held
    | _ => exact sound.cached config held

theorem Sound.step (sound : Sound mars w) {op : Op Config} (kept : Kept mars factorFails w op) :
    Sound mars (w.step mars factorFails op) := by
  cases op with
  | beginBlock => exact sound.beginBlock kept
  | change => exact sound.change kept
  | getChainConfig =>
    exact ⟨sound.evm, sound.fresh, sound.moved, fun _ held => sound.faithful.config.symm.trans held⟩
  | restart => exact ⟨sound.evm, sound.fresh, sound.moved, fun config held => by cases held⟩

theorem migration_keeps_settings (mars : ℕ) (factorFails : Bytes → Bool)
    (settings : Settings Config) (ops : List (Op Config))
    (kept : Run.Along (step mars factorFails) (Kept mars factorFails) (genesis settings) ops) :
    ∀ w ∈ Run.visited (step mars factorFails) (genesis settings) ops, Faithful mars w := by
  have sound := Run.invariant_visited (Sound mars) (fun w op held => held.step)
    (genesis_sound settings) kept
  exact fun w reached => (sound w reached).faithful

/-- The deployer admitted in the block of height 2 is unknown from the next block on, and so is the
contract that a proposal blocked with an empty list of methods. -/
theorem mars_block_change_lost : (∃ w ∈ Run.visited (step 2 fun _ => false) (genesis ⟨some 5, ∅, ∅⟩)
      [.beginBlock, .beginBlock, .change (.manageContractDeploymentWhitelist [[7]] true),
        .beginBlock], ¬ Faithful 2 w) ∧
    ∃ w ∈ Run.visited (step 2 fun _ => false) (genesis ⟨some 5, ∅, ∅⟩)
      [.change (.manageContractMethodBlockedList [⟨[7], []⟩] true), .beginBlock, .beginBlock,
        .beginBlock], ¬ Faithful 2 w := by
  refine ⟨⟨_, Run.exec_mem_visited _ _ _, fun faithful => ?_⟩,
    ⟨_, Run.exec_mem_visited _ _ _, fun faithful => ?_⟩⟩
  · have seen := congrArg (fun s => (s.whitelist.get [7]).isSome) faithful.store
    revert seen
    decide
  · have seen := congrArg (fun s => (s.blocked.get [7]).isSome) faithful.store
    revert seen
    decide +kernel

def earlyAdmission : List (Op ℕ) :=
  [.change (.manageContractDeploymentWhitelist [[7]] true), .beginBlock, .beginBlock, .beginBlock]

theorem migration_keeps_settings_early : let allowed : Bytes → Bool := fun _ => false
    let settings : Settings ℕ := ⟨some 5, ∅, ∅⟩
    Run.Along (step 2 allowed) (Kept 2 allowed) (genesis settings) earlyAdmission ∧
      ∀ w ∈ Run.visited (step 2 allowed) (genesis settings) earlyAdmission, Faithful 2 w := by
  intro allowed settings
  have kept : Run.Along (step 2 allowed) (Kept 2 allowed) (genesis settings) earlyAdmission := by
    refine ⟨fun _ now => absurd now (by decide), fun now => absurd now (by decide),
      fun _ => ⟨rfl, ?_⟩, fun now => absurd now (by decide), trivial⟩
    intro addr cms found
    cases found
  exact ⟨kept, migration_keeps_settings 2 _ _ _ kept⟩

end World

end World

end Exchain.Mars
