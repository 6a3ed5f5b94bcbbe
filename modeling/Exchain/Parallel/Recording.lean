import Exchain.Parallel.TxExecution

/- The read list of a transaction's store holds exactly the values that Get
took from the parent, one for each key; so a second execution over a parent
that agrees with the read list goes the same way. -/

namespace Exchain.Parallel

open Store CacheKV List

variable {K Out : Type} [LinearOrder K]

namespace TxStore

/-- An operation that takes nothing from the parent. -/
structure KeepsReads (store store' : TxStore K) : Prop where
  readList : store'.tx.readList = store.tx.readList
  disabled : store'.tx.disableCacheReadList = store.tx.disableCacheReadList
  indexed : store.layers.Indexed → store'.layers.Indexed

variable {store : TxStore K}

theorem indexed_layers : store.layers.Indexed ↔ Layers.Indexed store.inner ∧ store.tx.Indexed := by
  simp only [layers, Layers.Indexed, mem_append, mem_singleton]
  constructor
  · exact fun all => ⟨fun layer inside => all layer (.inl inside), all store.tx (.inr rfl)⟩
  rintro ⟨inner, tx⟩ layer (inside | rfl)
  · exact inner layer inside
  · exact tx

theorem KeepsReads.of_layers {store' : TxStore K} (readList : store'.tx.readList = store.tx.readList)
    (disabled : store'.tx.disableCacheReadList = store.tx.disableCacheReadList)
    (inner : Layers.Indexed store.inner → Layers.Indexed store'.inner)
    (tx : store.tx.Indexed → store'.tx.Indexed) : KeepsReads store store' := by
  refine ⟨readList, disabled, fun indexed => ?_⟩
  rw [indexed_layers] at indexed ⊢
  exact ⟨inner indexed.1, tx indexed.2⟩

theorem setDirty_keepsReads (store : TxStore K) (key : K) (value : CValue) :
    KeepsReads store (store.setDirty key value) := by
  obtain ⟨inner, _⟩ := store
  cases inner with
  | nil => exact .of_layers rfl rfl id fun indexed => setDirty_indexed indexed key value
  | cons =>
    refine .of_layers rfl rfl (fun indexed => ?_) id
    obtain ⟨first, rest⟩ := forall_mem_cons.mp indexed
    exact forall_mem_cons.mpr ⟨setDirty_indexed first key value, rest⟩

theorem cacheWrap_keepsReads (store : TxStore K) : KeepsReads store store.cacheWrap :=
  .of_layers rfl rfl (fun indexed => forall_mem_cons.mpr ⟨new_indexed, indexed⟩) id

theorem discard_keepsReads (store : TxStore K) : KeepsReads store store.discard :=
  .of_layers rfl rfl (fun indexed layer inside => indexed layer (mem_of_mem_tail inside)) id

theorem dirtyItems_keepsReads (store : TxStore K) (domain : Domain K) :
    KeepsReads store (store.dirtyItems domain) := by
  refine .of_layers rfl rfl (fun indexed layer inside => ?_) (dirtyItems_indexed · domain)
  obtain ⟨before, within, rfl⟩ := mem_map.mp inside
  exact dirtyItems_indexed (indexed before within) domain

theorem write_keepsReads (store : TxStore K) : KeepsReads store store.write := by
  obtain ⟨inner, tx⟩ := store
  match inner with
  | [] => exact ⟨rfl, rfl, id⟩
  | [top] =>
    refine .of_layers (top.writeToCacheKv_reads tx).1 (top.writeToCacheKv_reads tx).2
      (fun _ => ?_) (writeToCacheKv_indexed top)
    intro layer inside
    rw [mem_singleton.mp inside]
    exact new_indexed
  | top :: next :: below =>
    refine .of_layers rfl rfl (fun indexed => ?_) id
    obtain ⟨-, second, rest⟩ := forall_mem_cons.mp indexed |>.imp_right forall_mem_cons.mp
    exact forall_mem_cons.mpr
      ⟨new_indexed, forall_mem_cons.mpr ⟨writeToCacheKv_indexed top second, rest⟩⟩

theorem asks_eq (store : TxStore K) (key : K) :
    store.asks key = (Layers.asks store.inner key && Layers.asks [store.tx] key) := by
  rw [asks, layers, Layers.asks_append]

theorem get_tx (enabled : store.tx.disableCacheReadList = false) (parent : Content) (key : K) :
    (store.get parent key).2.tx =
      if store.asks key then store.tx.setRead key parent else store.tx := by
  rw [asks_eq, get]
  cases innerAsks : Layers.asks store.inner key with
  | false => rfl
  | true =>
    cases txAsks : Layers.asks [store.tx] key with
    | false => exact (CacheKV.get_knows txAsks parent none).2
    | true => rw [get_asks txAsks, enabled]; rfl

theorem get_indexed (indexed : store.layers.Indexed) (parent : Content)
    (key : K) (enabled : store.tx.disableCacheReadList = false) :
    (store.get parent key).2.layers.Indexed := by
  rw [indexed_layers] at indexed ⊢
  refine ⟨Layers.get_indexed indexed.1 _ key, ?_⟩
  rw [get_tx enabled]
  split
  · exact setRead_indexed indexed.2 key parent
  · exact indexed.2

theorem get_knows {key : K} (knows : store.asks key = false)
    (parent parent' : Content) : store.get parent key = store.get parent' key := by
  rw [asks_eq] at knows
  rw [get, get]
  cases innerAsks : Layers.asks store.inner key with
  | false =>
    rw [Layers.get_knows innerAsks (store.tx.get parent key).1 (store.tx.get parent' key).1]
    rfl
  | true =>
    rw [innerAsks] at knows
    obtain ⟨same, kept⟩ := CacheKV.get_knows knows parent parent'
    rw [same, kept, (CacheKV.get_knows knows parent' parent).2]

end TxStore

namespace Execution

/-- The read list is what the parent was asked for and answered. -/
structure Recorded (e : Execution K Out) : Prop where
  enabled : e.store.tx.disableCacheReadList = false
  reads : ∀ key content,
    e.store.tx.readList.lookup key = some content ↔ Observation.read key content ∈ e.trace
  indexed : e.store.layers.Indexed
  scans : ∀ scan, Observation.scan scan ∈ e.trace → scan.layers.Indexed

theorem start_recorded (prog : TxProg K Out) : (start prog).Recorded := by
  refine ⟨rfl, ?_, ?_, ?_⟩
  · simp [start, new]
  · rw [TxStore.indexed_layers]
    exact ⟨fun _ inside => absurd inside (by simp [start]), new_indexed⟩
  · simp [start]

variable {e : Execution K Out}

variable (recorded : e.Recorded)
include recorded

theorem Recorded.of_keepsReads
    {store : TxStore K} (keeps : TxStore.KeepsReads e.store store) (prog : TxProg K Out) :
    Recorded ⟨prog, store, e.trace⟩ := by
  refine ⟨keeps.disabled.trans recorded.enabled, ?_, keeps.indexed recorded.indexed, recorded.scans⟩
  rw [keeps.readList]
  exact recorded.reads

theorem step_recorded (view : View K) : (e.step view).Recorded := by
  obtain ⟨prog, store, trace⟩ := e
  cases prog with
  | done out => exact recorded
  | set key value next => exact recorded.of_keepsReads (store.setDirty_keepsReads key _) next
  | delete key next => exact recorded.of_keepsReads (store.setDirty_keepsReads key _) next
  | cacheWrap next => exact recorded.of_keepsReads store.cacheWrap_keepsReads next
  | write next => exact recorded.of_keepsReads store.write_keepsReads next
  | discard next => exact recorded.of_keepsReads store.discard_keepsReads next
  | iterate domain _ _ next =>
    have kept := recorded.of_keepsReads (store.dirtyItems_keepsReads domain) (next [])
    refine ⟨kept.enabled, ?_, kept.indexed, ?_⟩
    · intro key content
      refine (kept.reads key content).trans ?_
      simp [step]
    intro scan inside
    rcases mem_cons.mp inside with same | inside
    · cases same
      exact recorded.indexed
    · exact recorded.scans scan inside
  | get key next =>
    have after := TxStore.get_tx recorded.enabled (view.get key) key
    have unread : store.asks key = true → store.tx.readList.lookup key = none := by
      intro asks
      rw [TxStore.asks_eq, Bool.and_eq_true] at asks
      have unknown := asks.2
      simp only [Layers.asks, all_cons, all_nil, Bool.and_true, Bool.and_eq_true,
        Option.isNone_iff_eq_none] at unknown
      exact unknown.2
    refine ⟨?_, ?_, TxStore.get_indexed recorded.indexed _ _ recorded.enabled, ?_⟩
    · change (store.get (view.get key) key).2.tx.disableCacheReadList = false
      rw [after]
      split <;> exact recorded.enabled
    · intro key' content
      change (store.get (view.get key) key).2.tx.readList.lookup key' = some content ↔
        Observation.read key' content ∈
          if store.asks key then .read key (view.get key) :: trace else trace
      rw [after]
      cases asks : store.asks key with
      | false => exact recorded.reads key' content
      | true =>
        simp only [if_true, setRead, mem_cons, Observation.read.injEq]
        rw [← recorded.reads key' content]
        by_cases same : key' = key
        · subst same
          simp [unread asks, eq_comm]
        · simp [same]
    · intro scan inside
      change Observation.scan scan ∈
        if store.asks key then .read key (view.get key) :: trace else trace at inside
      refine recorded.scans scan ?_
      cases asks : store.asks key with
      | false | true => simpa [asks] using inside

omit recorded in
theorem run_recorded (prog : TxProg K Out) (views : List (View K)) : (run prog views).Recorded :=
  Run.invariant_exec Recorded (fun _ view recorded => step_recorded recorded view)
    (start_recorded prog) views

theorem step_readList (view : View K) {key : K}
    {content : Content} (read : e.store.tx.readList.lookup key = some content) :
    (e.step view).store.tx.readList.lookup key = some content := by
  rw [(step_recorded recorded view).reads]
  rw [recorded.reads] at read
  obtain ⟨prog, store, trace⟩ := e
  cases prog with
  | get key' next =>
    change _ ∈ if store.asks key' then Observation.read key' (view.get key') :: trace else trace
    split
    · exact mem_cons_of_mem _ read
    · exact read
  | iterate => exact mem_cons_of_mem _ read
  | done | set | delete | cacheWrap | write | discard => exact read

theorem exec_readList (views : List (View K))
    {key : K} {content : Content} (read : e.store.tx.readList.lookup key = some content) :
    (Run.exec step e views).store.tx.readList.lookup key = some content := by
  induction views generalizing e with
  | nil => exact read
  | cons view rest ih => exact ih (step_recorded recorded view) (step_readList recorded view read)

end Execution

/-- The program opens no iterator. -/
inductive TxProg.PointReads : TxProg K Out → Prop
  | done (out : Out) : PointReads (.done out)
  | get {key : K} {next : Content → TxProg K Out} (all : ∀ content, PointReads (next content)) :
      PointReads (.get key next)
  | set {key : K} {value : Bytes} {next : TxProg K Out} (rest : PointReads next) :
      PointReads (.set key value next)
  | delete {key : K} {next : TxProg K Out} (rest : PointReads next) : PointReads (.delete key next)
  | cacheWrap {next : TxProg K Out} (rest : PointReads next) : PointReads (.cacheWrap next)
  | write {next : TxProg K Out} (rest : PointReads next) : PointReads (.write next)
  | discard {next : TxProg K Out} (rest : PointReads next) : PointReads (.discard next)

namespace Execution

variable {e : Execution K Out}

theorem step_pointReads (points : e.prog.PointReads) (view : View K) :
    (e.step view).prog.PointReads := by
  obtain ⟨_, _⟩ := e
  cases points with
  | done out => exact .done out
  | get all => exact all _
  | set rest => exact rest
  | delete rest => exact rest
  | cacheWrap rest => exact rest
  | write rest => exact rest
  | discard rest => exact rest

theorem run_pointReads {prog : TxProg K Out} (points : prog.PointReads) (views : List (View K)) :
    (run prog views).prog.PointReads :=
  Run.invariant_exec (fun e : Execution K Out => e.prog.PointReads)
    (fun _ view points => step_pointReads points view) points views

theorem step_congr (points : e.prog.PointReads) {view view' : View K}
    (agree : ∀ key next, e.prog = .get key next → e.store.asks key = true →
      view'.get key = view.get key) : e.step view' = e.step view := by
  obtain ⟨_, store, _⟩ := e
  cases points with
  | get all =>
    rename_i key next
    simp only [step]
    cases asks : store.asks key with
    | true => rw [agree key next rfl asks]
    | false =>
      rw [TxStore.get_knows asks (view'.get key) (view.get key)]
      rfl
  | done | set | delete | cacheWrap | write | discard => rfl

/-- An execution over a moving parent is one over any parent that holds everything it has read. -/
theorem exec_replay (recorded : e.Recorded) (points : e.prog.PointReads)
    (views : List (View K)) (view : View K)
    (agree : ∀ key content, (Run.exec step e views).store.tx.readList.lookup key = some content →
        view.get key = content) :
    Run.exec step e (views.map fun _ => view) = Run.exec step e views := by
  induction views generalizing e with
  | nil => rfl
  | cons now rest ih =>
    have same : e.step view = e.step now := by
      refine step_congr points ?_
      intro key next reading asks
      -- the answer is recorded at once and is still there at the end
      have inTrace : Observation.read key (now.get key) ∈ (e.step now).trace := by
        simp [step, reading, asks]
      have recordedNext := step_recorded recorded now
      refine agree key _ ?_
      exact exec_readList recordedNext rest ((recordedNext.reads _ _).mpr inTrace)
    rw [map_cons, Run.exec_cons, same]
    exact ih (step_recorded recorded now) (step_pointReads points now) agree

end Execution

end Exchain.Parallel
