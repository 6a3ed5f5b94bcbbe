import Exchain.Mempool.ByteAccounting

namespace Exchain.Mempool.CListMempool

open List

variable {keys : KeyRegime}

/-- The operations that change the queue or the counter. -/
inductive Op (keys : KeyRegime)
  | addTx (t : MempoolTx) (decoded : keys.Decoded t)
  | removeTx (position : Nat)
  | removeTxByKey (key : List UInt8)
  | update (height : Int) (block : List BlockTx) (config : UpdateConfig)
  | recheck (valid : MempoolTx → Bool)
  | deleteMin (mempoolSize : Nat)

def step (mem : CListMempool) : Op keys → CListMempool
  | .addTx t _ =>
    match mem.addTx keys t with
    | .ok mem' => mem'
    | .error _ => mem
  | .removeTx position =>
    match mem.txs.sortedTxs[position]? with
    | some e => mem.removeTx keys e
    | none => mem
  | .removeTxByKey key => (mem.removeTxByKey key).2
  | .update height block config => (mem.update keys height block config).1
  | .recheck valid => mem.recheckTxs keys valid
  | .deleteMin mempoolSize => (mem.deleteMinGPTxOnlyFull keys mempoolSize).1

/-- The counter is the number of queued bytes, isFull rejects nothing that fits, and
deleteMinGPTxOnlyFull never runs into an empty queue. -/
structure Accounted (keys : KeyRegime) (mem : CListMempool) : Prop where
  counted : mem.txsBytes = totalBytes mem.txs.sortedTxs
  fits : ∀ mempoolSize txSize, mem.size < mempoolSize →
    totalBytes mem.txs.sortedTxs + txSize ≤ mem.maxTxsBytes →
    mem.isFull mempoolSize txSize = .ok ()
  shrinks : ∀ mempoolSize, (mem.deleteMinGPTxOnlyFull keys mempoolSize).2 = true

/-- No queued transaction is replaced, and once a block's own are out none of an account whose nonce
the block moved is left up to that nonce. -/
def LeavesCounted (mem : CListMempool) : Op keys → Prop
  | .addTx t _ => ∀ old, mem.txs.item t.fromAddr t.nonce = some old →
      t.gasPrice ≤ multiPriceBump old.gasPrice mem.txs.txPriceBump
  | .update height block config =>
    ∀ address nonce,
      (cleanBlock keys height config.isSealed block mem ∅).2.lookup address = some nonce →
      ∀ e ∈ (cleanBlock keys height config.isSealed block mem ∅).1.txs.sortedTxs,
        e.fromAddr = address → nonce < e.nonce
  | _ => True

theorem new_sound (txPriceBump : Int) (maxTxsBytes : Nat) :
    Sound keys (new txPriceBump maxTxsBytes) where
  synced := GasTxQueue.newGasTxQueue_synced keys txPriceBump
  nonempty := by simp [new, newGasTxQueue]

variable {mem : CListMempool} (sound : Sound keys mem)

include sound

theorem accounted_of_drift (exact_books : mem.drift = 0) : Accounted keys mem where
  counted := (drift_eq_zero_iff mem).mp exact_books
  fits mempoolSize txSize room bytes := by
    have counted := (drift_eq_zero_iff mem).mp exact_books
    rw [isFull, if_neg]
    omega
  shrinks mempoolSize := deleteMinLoop_completes mempoolSize _ sound exact_books (Nat.le_refl _)

/-- The bytes a replacement leaves in the counter. -/
def replacedBytes (mem : CListMempool) (t : MempoolTx) : Nat :=
  match mem.txs.item t.fromAddr t.nonce with
  | some old => old.tx.length
  | none => 0

omit sound in
theorem totalBytes_inserted {q q' : GasTxQueue} {t : MempoolTx}
    (synced : GasTxQueue.Synced keys q) (inserted : GasTxQueue.Inserted keys q q' t) :
    totalBytes q'.sortedTxs + (match q.item t.fromAddr t.nonce with
          | some old => old.tx.length
          | none => 0) =
      t.tx.length + totalBytes q.sortedTxs := by
  have list := inserted.list
  cases found : q.item t.fromAddr t.nonce with
  | none =>
    rw [found] at list
    have sums := (list.map fun e => e.tx.length).sum_eq
    simpa [totalBytes] using sums
  | some old =>
    rw [found] at list
    have sums := (list.map fun e => e.tx.length).sum_eq
    have erased := sum_map_erase (fun e : MempoolTx => e.tx.length)
      (synced.listed _ _ _ found).1
    simp only [map_cons, sum_cons] at sums
    simp only [totalBytes]
    omega

theorem addTx_spec (t : MempoolTx) (decoded : keys.Decoded t) :
    (∃ mem', mem.addTx keys t = .ok mem' ∧ Sound keys mem' ∧
        mem'.drift = mem.drift + replacedBytes mem t ∧
        ∀ old, mem.txs.item t.fromAddr t.nonce = some old →
          multiPriceBump old.gasPrice mem.txs.txPriceBump < t.gasPrice) ∨
      (∃ e, mem.addTx keys t = .error e) ∧ ∃ old, mem.txs.item t.fromAddr t.nonce = some old ∧
          t.gasPrice ≤ multiPriceBump old.gasPrice mem.txs.txPriceBump := by
  rcases GasTxQueue.insert_spec sound.synced t with ⟨q', accepted, inserted⟩ | ⟨refused, cheap⟩
  · refine .inl ⟨{ mem with txs := q', txsBytes := mem.txsBytes + t.tx.length }, ?_, ?_, ?_, ?_⟩
    · simp [addTx, accepted]
    · have own := KeyRegime.txOrTxHashToKey_eq decoded
      refine ⟨inserted.synced sound.synced own, fun e inside => ?_⟩
      rcases (inserted.mem_iff sound.synced e).mp inside with rfl | before
      · exact decoded.nonempty
      · exact sound.nonempty e before.1
    · have bytes := totalBytes_inserted sound.synced inserted
      unfold replacedBytes
      simp only [drift]
      omega
    · exact inserted.pays
  · exact .inr ⟨⟨_, by simp only [addTx, refused]; rfl⟩, cheap⟩

theorem recheckTxs_spec (valid : MempoolTx → Bool) :
    Sound keys (mem.recheckTxs keys valid) ∧ (mem.recheckTxs keys valid).drift = mem.drift :=
  recheck_spec mem.txs.sortedTxs valid sound sound.synced.nodup fun _ inside => inside

/-- The bytes that leave the queue during an operation without leaving the counter. -/
def silentBytes (mem : CListMempool) : Op keys → Nat
  | .addTx t _ =>
    match mem.addTx keys t with
    | .ok _ => replacedBytes mem t
    | .error _ => 0
  | .update height block config =>
    totalBytes ((cleanBlock keys height config.isSealed block mem ∅).1.txs.sortedTxs.filter
      (cleaned (cleanBlock keys height config.isSealed block mem ∅).2))
  | _ => 0

/-- What Update adds to the drift: the bytes CleanItems takes out of the queue. -/
theorem update_spec (height : Int) (block : List BlockTx) (config : UpdateConfig) :
    Sound keys (mem.update keys height block config).1 ∧
      (mem.update keys height block config).1.drift =
        mem.drift + silentBytes mem (.update height block config : Op keys) := by
  have block_spec := cleanBlock_spec height config.isSealed block sound ∅
  unfold update
  dsimp only [silentBytes]
  generalize cleanBlock keys height config.isSealed block mem ∅ = after at block_spec ⊢
  obtain ⟨_, toClean⟩ := after
  obtain ⟨removed_sound, removed_drift, subset⟩ := block_spec
  dsimp only at removed_sound removed_drift subset ⊢
  obtain ⟨clean_sound, clean_drift⟩ := cleanAccounts_spec removed_sound toClean
  rw [removed_drift] at clean_drift
  by_cases idle : (config.isSealed && mem.size == 0) = true
  · rw [if_pos idle]
    have empty : mem.txs.sortedTxs = [] := by
      have none_left := (Bool.and_eq_true_iff.mp idle).2
      exact length_eq_zero_iff.mp (beq_iff_eq.mp none_left)
    rw [empty, subset_nil] at subset
    simp only [subset]
    exact ⟨sound, (Int.add_zero _).symm⟩
  rw [if_neg idle]
  split
  · exact ⟨clean_sound, clean_drift⟩
  cases config.recheck with
  | none =>
    cases config.deleteMin with
    | none => exact ⟨clean_sound, clean_drift⟩
    | some mempoolSize =>
      obtain ⟨final_sound, final_drift⟩ := deleteMinLoop_spec mempoolSize _ clean_sound
      exact ⟨final_sound, final_drift.trans clean_drift⟩
  | some valid =>
    obtain ⟨checked_sound, checked_drift⟩ := recheckTxs_spec clean_sound valid
    rw [clean_drift] at checked_drift
    cases config.deleteMin with
    | none => exact ⟨checked_sound, checked_drift⟩
    | some mempoolSize =>
      obtain ⟨final_sound, final_drift⟩ := deleteMinLoop_spec mempoolSize _ checked_sound
      exact ⟨final_sound, final_drift.trans checked_drift⟩

theorem step_spec (op : Op keys) :
    Sound keys (step mem op) ∧ (step mem op).drift = mem.drift + silentBytes mem op := by
  cases op with
  | addTx t decoded =>
    rcases addTx_spec sound t decoded with ⟨mem', accepted, sound', drift', _⟩ | ⟨⟨e, refused⟩, _⟩
    · simp only [step, silentBytes, accepted]
      exact ⟨sound', drift'⟩
    · simp only [step, silentBytes, refused]
      exact ⟨sound, (Int.add_zero _).symm⟩
  | removeTx position =>
    simp only [step, silentBytes, Int.natCast_zero, Int.add_zero]
    cases found : mem.txs.sortedTxs[position]? with
    | none => exact ⟨sound, rfl⟩
    | some e => exact removeTx_spec sound (mem_of_getElem? found)
  | removeTxByKey key =>
    obtain ⟨sound', drift', _⟩ := removeTxByKey_spec sound key
    exact ⟨sound', drift'.trans (Int.add_zero _).symm⟩
  | update height block config => exact update_spec sound height block config
  | recheck valid =>
    obtain ⟨sound', drift'⟩ := recheckTxs_spec sound valid
    exact ⟨sound', drift'.trans (Int.add_zero _).symm⟩
  | deleteMin mempoolSize =>
    obtain ⟨sound', drift'⟩ := deleteMinLoop_spec mempoolSize mem.size sound
    exact ⟨sound', drift'.trans (Int.add_zero _).symm⟩

theorem silentBytes_eq_zero_iff (op : Op keys) : silentBytes mem op = 0 ↔ LeavesCounted mem op := by
  cases op with
  | addTx t decoded =>
    rcases addTx_spec sound t decoded with
      ⟨mem', accepted, _, _, pays⟩ | ⟨⟨e, refused⟩, old, present, cheap⟩
    · simp only [silentBytes, accepted, replacedBytes, LeavesCounted]
      cases present : mem.txs.item t.fromAddr t.nonce with
      | none => simp
      | some old =>
        have held := sound.nonempty old (sound.synced.listed _ _ _ present).1
        have dear := pays old present
        have bytes : old.tx.length ≠ 0 := fun zero => held (length_eq_zero_iff.mp zero)
        simp only [bytes, false_iff, Option.some.injEq, forall_eq']
        omega
    · simp only [silentBytes, refused, LeavesCounted, present, Option.some.injEq, forall_eq']
      exact iff_of_true trivial cheap
  | update height block config =>
    have removed_sound := (cleanBlock_spec height config.isSealed block sound ∅).1
    simp only [silentBytes, LeavesCounted]
    generalize cleanBlock keys height config.isSealed block mem ∅ = after at removed_sound
    rw [totalBytes_eq_zero_iff fun e inside =>
      removed_sound.nonempty e (mem_filter.mp inside).1, filter_eq_nil_iff]
    constructor
    · rintro left address nonce found e inside rfl
      have stays := left e inside
      rw [cleaned_iff] at stays
      exact Nat.lt_of_not_le fun small => stays ⟨nonce, found, small⟩
    · intro above e inside hit
      obtain ⟨nonce, found, _⟩ := (cleaned_iff _ e).mp hit
      have larger := above e.fromAddr nonce found e inside rfl
      omega
  | removeTx | removeTxByKey | recheck | deleteMin => exact iff_of_true rfl trivial

omit sound

/-- A two-byte transaction of sender "a" with nonce 1. -/
def pairTx (byte : UInt8) (gasPrice : Int) : MempoolTx where
  tx := [byte, byte]
  height := 1
  fromAddr := "a"
  nonce := 1
  gasPrice := gasPrice
  txHash := []

def addPair (byte : UInt8) (gasPrice : Int) : Op KeyRegime.raw := .addTx (pairTx byte gasPrice)
    { nonempty := cons_ne_nil _ _, hash := fun higher => by contradiction }

def replacingOps : List (Op KeyRegime.raw) :=
  [addPair 1 100, addPair 2 200, addPair 3 300, addPair 4 400]

def cleaningOps : List (Op KeyRegime.raw) :=
  [addPair 1 100, .update 2 [⟨[9], [], "a", 1, 0⟩] ⟨false, none, none⟩]

end Exchain.Mempool.CListMempool
