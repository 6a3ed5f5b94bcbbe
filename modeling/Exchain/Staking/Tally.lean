import Exchain.Staking.Validators

namespace Exchain.Staking

open SortedMap
def Store.sharesOn (s : Store) (val : Address) : Dec :=
  s.shares.sum fun key shares => if (ofLex key).1 = val then shares else 0

def Validator.ownShare (v : Validator) : Dec := if v.minSelfDelegation = 0 then 0 else Dec.one

structure Sound (s : Store) : Prop where
  operator : ∀ addr v, s.validators.get addr = some v → v.operatorAddress = addr
  consAddr : ∀ cons addr, s.validatorsByConsAddr.get cons = some addr ↔
    ∃ v, s.validators.get addr = some v ∧ v.consAddress = cons
  power : ∀ key addr, s.validatorsByPower.get key = some addr ↔
    ∃ v, s.validators.get addr = some v ∧ v.jailed = false ∧ v.powerKey = key
  tally : ∀ addr v, s.validators.get addr = some v →
    v.delegatorShares = v.ownShare + s.sharesOn addr
  shares_pos : ∀ key x, s.shares.get key = some x → 0 < x
  shares_val : ∀ key x, s.shares.get key = some x → ∃ v, s.validators.get (ofLex key).1 = some v

theorem operatorAddress_of_powerKey {v w : Validator} (same : v.powerKey = w.powerKey) :
    v.operatorAddress = w.operatorAddress := by
  have second := congrArg (fun key : PowerKey => (ofLex key).2) same
  exact second

namespace Store

theorem sharesOn_setShares (s : Store) (del val addr : Address) (x : Dec) :
    (s.setShares del val x).sharesOn addr =
      s.sharesOn addr + if addr = val then x - (s.shares.get (toLex (val, del))).getD 0 else 0 := by
  rw [sharesOn, setShares, sum_set, ← sharesOn]
  simp only [ofLex_toLex, eq_comm (a := val)]
  cases s.shares.get (toLex (val, del)) with
  | none => simp
  | some old =>
    by_cases same : addr = val
    · simp only [same, if_true, Option.elim_some, Option.getD_some]
      ring
    · simp [same]

theorem sharesOn_deleteShares (s : Store) (del val addr : Address) :
    (s.deleteShares val del).sharesOn addr =
      s.sharesOn addr - if addr = val then (s.shares.get (toLex (val, del))).getD 0 else 0 := by
  rw [sharesOn, deleteShares, sum_delete, ← sharesOn]
  simp only [ofLex_toLex, eq_comm (a := val)]
  cases s.shares.get (toLex (val, del)) with
  | none => simp
  | some old => rfl

theorem sharesOn_congr {s s' : Store} {val : Address}
    (same : ∀ key, (ofLex key).1 = val → s'.shares.get key = s.shares.get key) :
    s'.sharesOn val = s.sharesOn val := by
  apply sum_eq_of_get
  intro key
  by_cases atVal : (ofLex key).1 = val
  · rw [same key atVal]
  · simp only [atVal]
    cases s'.shares.get key <;> cases s.shares.get key <;> rfl

end Store

theorem Sound.no_shares {s : Store} (sound : Sound s) {val : Address} (none_added : s.sharesOn val = 0)
    (del : Address) : s.shares.get (toLex (val, del)) = none := by
  cases found : s.shares.get (toLex (val, del)) with
  | none => rfl
  | some x =>
    have below := le_sum (f := fun key x => if (ofLex key).1 = val then x else (0 : Int))
      (fun key y stored => by
        split
        · exact (sound.shares_pos key y stored).le
        · exact le_rfl) found
    rw [ofLex_toLex, if_pos rfl] at below
    exact absurd (lt_of_lt_of_le (sound.shares_pos _ x found) below) (by
      rw [← Store.sharesOn, none_added]
      exact lt_irrefl 0)

variable {s s' : Store}

theorem Sound.of_same (sound : Sound s) (validators : s'.validators = s.validators)
    (byCons : s'.validatorsByConsAddr = s.validatorsByConsAddr)
    (byPower : s'.validatorsByPower = s.validatorsByPower) (shares : s'.shares = s.shares) :
    Sound s' where
  operator addr v := by
    rw [validators]
    exact sound.operator addr v
  consAddr cons addr := by
    rw [byCons, validators]
    exact sound.consAddr cons addr
  power key addr := by
    rw [byPower, validators]
    exact sound.power key addr
  tally addr v := by
    rw [validators, Store.sharesOn, shares]
    exact sound.tally addr v
  shares_pos key x := by
    rw [shares]
    exact sound.shares_pos key x
  shares_val key x := by
    rw [shares, validators]
    exact sound.shares_val key x

theorem Sound.at_powerKey (sound : Sound s) {v w : Validator} {addr : Address}
    (found : s.validators.get addr = some w) (same : w.powerKey = v.powerKey) :
    addr = v.operatorAddress :=
  (sound.operator addr w found).symm.trans (operatorAddress_of_powerKey same)

variable {v : Validator}

/-- Without the entry of one validator, the power index lists the others. -/
theorem Sound.power_others (sound : Sound s)
    (stored : s.validators.get v.operatorAddress = some v) (key : PowerKey) (addr : Address) :
    (if key = v.powerKey then none else s.validatorsByPower.get key) = some addr ↔
      addr ≠ v.operatorAddress ∧ s.validatorsByPower.get key = some addr := by
  split
  · rename_i same
    refine iff_of_false (by simp) ?_
    rintro ⟨elsewhere, found⟩
    obtain ⟨_, entry, -, atKey⟩ := (sound.power key addr).mp found
    exact elsewhere (sound.at_powerKey entry (atKey.trans same))
  · rename_i differ
    refine (and_iff_right_of_imp fun found here => ?_).symm
    exact differ ((Lists.at_entry sound.power stored found).mpr here).2.symm

/-- Writing one validator, with its power index entry, keeps the books when the shares still add up.
-/
theorem Sound.replace (sound : Sound s) (v' : Validator)
    (stored : s.validators.get v.operatorAddress = some v)
    (operator : v'.operatorAddress = v.operatorAddress) (cons : v'.consAddress = v.consAddress)
    (validators : s'.validators = s.validators.set v.operatorAddress v')
    (byCons : s'.validatorsByConsAddr = s.validatorsByConsAddr)
    (byPower : ∀ key, s'.validatorsByPower.get key =
      if v'.jailed = false ∧ key = v'.powerKey then some v.operatorAddress
      else if key = v.powerKey then none else s.validatorsByPower.get key)
    (others : ∀ addr, addr ≠ v.operatorAddress → s'.sharesOn addr = s.sharesOn addr)
    (tally : v'.delegatorShares = v'.ownShare + s'.sharesOn v.operatorAddress)
    (shares_pos : ∀ key x, s'.shares.get key = some x → 0 < x)
    (shares_val : ∀ key x, s'.shares.get key = some x →
      (ofLex key).1 = v.operatorAddress ∨ ∃ y, s.shares.get key = some y) : Sound s' where
  operator := by
    rw [validators]
    exact forall_set operator fun addr _ => sound.operator addr
  consAddr := by
    refine Lists.update sound.consAddr v.operatorAddress (some v')
      (fun addr => by rw [validators, get_set]) ?_ ?_
    · rintro c _ ⟨⟩ rfl
      have found := (sound.consAddr _ _).mpr ⟨v, stored, cons.symm⟩
      refine ⟨byCons ▸ found, fun addr w entry same => ?_⟩
      exact (Lists.at_entry sound.consAddr entry found).mp same |>.symm
    · intro c other addr
      rw [byCons]
      refine (and_iff_right_of_imp fun found here => other v' rfl ?_).symm
      exact cons.trans ((Lists.at_entry sound.consAddr stored found).mpr here)
  power := by
    refine Lists.update sound.power v.operatorAddress (some v')
      (fun addr => by rw [validators, get_set]) ?_ ?_
    · rintro key _ ⟨⟩ ⟨free, rfl⟩
      refine ⟨(byPower _).trans (if_pos ⟨free, rfl⟩), fun addr w found same => ?_⟩
      exact (sound.at_powerKey found same.2).trans operator
    · intro key other addr
      rw [byPower, if_neg fun entry => other v' rfl ⟨entry.1, entry.2.symm⟩]
      exact sound.power_others stored key addr
  tally := by
    rw [validators]
    refine forall_set tally fun addr elsewhere => ?_
    rw [others addr elsewhere]
    exact sound.tally addr
  shares_pos := shares_pos
  shares_val key x found := by
    rw [validators, get_set]
    split
    · exact ⟨v', rfl⟩
    rename_i elsewhere
    obtain ⟨y, before⟩ := (shares_val key x found).resolve_left elsewhere
    exact sound.shares_val key y before

theorem Sound.drop (sound : Sound s) (stored : s.validators.get v.operatorAddress = some v)
    (validators : s'.validators = s.validators.delete v.operatorAddress)
    (byCons : s'.validatorsByConsAddr = s.validatorsByConsAddr.delete v.consAddress)
    (byPower : ∀ key, s'.validatorsByPower.get key =
      if key = v.powerKey then none else s.validatorsByPower.get key)
    (shares : ∀ key, s'.shares.get key =
      if (ofLex key).1 = v.operatorAddress then none else s.shares.get key) : Sound s' where
  operator addr w found := by
    rw [validators, get_delete] at found
    split at found
    · cases found
    exact sound.operator addr w found
  consAddr := by
    refine Lists.update sound.consAddr v.operatorAddress none
      (fun addr => by rw [validators, get_delete]) (by simp) fun c _ addr => ?_
    rw [byCons, get_delete_eq_some]
    exact and_congr_left fun found =>
      not_congr (eq_comm.trans (Lists.at_entry sound.consAddr stored found))
  power := by
    refine Lists.update sound.power v.operatorAddress none
      (fun addr => by rw [validators, get_delete]) (by simp) fun key _ addr => ?_
    rw [byPower]
    exact sound.power_others stored key addr
  tally addr w found := by
    rw [validators, get_delete] at found
    split at found
    · cases found
    rename_i elsewhere
    have same : s'.sharesOn addr = s.sharesOn addr := by
      apply Store.sharesOn_congr
      intro key atAddr
      rw [shares, if_neg]
      rw [atAddr]
      exact elsewhere
    rw [same]
    exact sound.tally addr w found
  shares_pos key x found := by
    rw [shares] at found
    split at found
    · cases found
    exact sound.shares_pos key x found
  shares_val key x found := by
    rw [shares] at found
    split at found
    · cases found
    rename_i elsewhere
    rw [validators, get_delete, if_neg elsewhere]
    exact sound.shares_val key x found

end Exchain.Staking
