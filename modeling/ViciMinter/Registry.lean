import ViciMinter.History
import ViciMinter.Traceless

/-!
# The registry of reserves

What holds of the registered reserves in every reachable state, as long as the
id counter has not wrapped (`WellFormed`). A reserve with a lock or a pending key
cannot be removed, and only operations on registered reserves take them; the
other conditions are checked by `add_reserve` and `update_reserve` and touched by
nothing else.
-/

namespace ViciMinter

open Lts

/-! ## Valid configurations -/

/-- What `validate_reserve_config` asks for. -/
structure ConfigOk (config : ReserveConfig) : Prop where
  label : config.label ≠ ""
  minBalance : config.minBalance ≤ config.targetBalance
  maxBalance : Within config.maxBalance config.targetBalance
  lifetime : ∀ min ∈ config.lifetimeReceivedMinimum, Within config.lifetimeReceivedMaximum min
  rates : ∀ limits ∈ config.rateLimits, ∀ p ∈ limits.hourWindows.zip limits.hourWindows.tail,
    p.2.2 * p.1.1 < p.1.2 * p.2.1

theorem validateRateLimits_ok {limits : RateLimits} : validateRateLimits limits = .ok () ↔
    ∀ p ∈ limits.hourWindows.zip limits.hourWindows.tail, p.2.2 * p.1.1 < p.1.2 * p.2.1 := by
  have hall : ((limits.hourWindows.zip limits.hourWindows.tail).all
      fun p => tighter p.1 p.2) = true ↔
      ∀ p ∈ limits.hourWindows.zip limits.hourWindows.tail, p.2.2 * p.1.1 < p.1.2 * p.2.1 := by
    simp only [List.all_eq_true, tighter, decide_eq_true_eq]
  rw [← hall]
  simp only [validateRateLimits]
  split
  · next h => simp only [h]
  · next h => simp only [reduceCtorEq, h]

theorem validateBalanceInvariants_ok {lo target : Nat} {hi lifetimeMin lifetimeMax : Option Nat}
    {label : String} : validateBalanceInvariants lo target hi lifetimeMin lifetimeMax label = .ok () ↔
      label ≠ "" ∧ lo ≤ target ∧ Within hi target ∧
      ∀ min ∈ lifetimeMin, Within lifetimeMax min := by
  simp only [validateBalanceInvariants, bind, Except.bind, pure, Except.pure, throw, throwThe,
    MonadExceptOf.throw, ite_error_eq_ok, String.isEmpty_iff, gt_iff_lt, Nat.not_lt]
  refine and_congr Iff.rfl (and_congr Iff.rfl ?_)
  -- the two optional comparisons, each present or absent
  cases hi <;> cases lifetimeMin <;> cases lifetimeMax <;> simp [ite_error_eq_ok]

theorem validateReserveConfig_ok {config : ReserveConfig} :
    validateReserveConfig config = .ok () ↔ ConfigOk config := by
  have hsplit : validateReserveConfig config = .ok () ↔
      validateBalanceInvariants config.minBalance config.targetBalance config.maxBalance
        config.lifetimeReceivedMinimum config.lifetimeReceivedMaximum config.label = .ok () ∧
      ∀ limits ∈ config.rateLimits, validateRateLimits limits = .ok () := by
    unfold validateReserveConfig
    simp only [bind, Except.bind, pure, Except.pure]
    cases validateBalanceInvariants config.minBalance config.targetBalance config.maxBalance
      config.lifetimeReceivedMinimum config.lifetimeReceivedMaximum config.label with
    | error e => simp
    | ok u =>
      rcases config.rateLimits with _ | limits
      · simp
      · cases h : validateRateLimits limits <;> simp [h]
  rw [hsplit, validateBalanceInvariants_ok]
  simp only [validateRateLimits_ok]
  constructor
  · rintro ⟨⟨hlabel, hmin, hmax, hlife⟩, hrates⟩
    exact ⟨hlabel, hmin, hmax, hlife, hrates⟩
  · rintro ⟨hlabel, hmin, hmax, hlife, hrates⟩
    exact ⟨⟨hlabel, hmin, hmax, hlife⟩, hrates⟩

/-- A new reserve is validated like its configuration. -/
theorem validateAddReserveArg_eq (arg : AddReserveArg) :
    validateAddReserveArg arg = validateReserveConfig arg.config := rfl

theorem Account.eq_comm (a b : Account) : a.eq b = b.eq a := by
  rw [Bool.eq_iff_iff, Account.eq_iff, Account.eq_iff]
  exact ⟨Eq.symm, Eq.symm⟩

/-! ## The id counter -/

/-- A call of `add_reserve`. -/
def Event.adds : Event → Bool
  | addReserve _ => true
  | _ => false

namespace World

/-- A new reserve does not exhaust the counter. -/
def CountsUp (w : World) (e : Event) : Prop :=
  ∀ w' id, w.step e = some (w', .added (.ok id)) → w.state.nextReserveId.toNat + 1 < UInt64.size

/-- A step leaves the counter alone, or adds one to it. -/
theorem Did.next_cases {w w' : World} {e : Event} {o : Output} (hd : Did w e o w') :
    (∀ id, o ≠ .added (.ok id)) ∧ w'.state.nextReserveId = w.state.nextReserveId ∨
    (∃ arg, e = .addReserve arg) ∧ o = .added (.ok w.state.nextReserveId) ∧
      w'.state.nextReserveId = w.state.nextReserveId + 1 := by
  cases hd with
  | quiet _ hq =>
    refine .inl ⟨?_, rfl⟩
    intro id heq
    subst heq
    exact hq.elim nofun
  | dropped _ _ hq | missed _ _ _ _ hq =>
    refine .inl ⟨?_, rfl⟩
    intro id heq
    subst heq
    cases hq
  | committed _ _ _ _ hq =>
    refine .inl ⟨?_, by simp⟩
    intro id heq
    subst heq
    cases hq
  | updated | removed | policySet | issued | lost | released => exact .inl ⟨nofun, rfl⟩
  | begunRebalance | begunTopup => exact .inl ⟨nofun, by simp⟩
  | added => exact .inr ⟨⟨_, rfl⟩, rfl, rfl⟩

theorem toNat_succ {n : UInt64} (h : n.toNat + 1 < UInt64.size) :
    (n + 1).toNat = n.toNat + 1 := by
  rw [UInt64.toNat_add]
  exact Nat.mod_eq_of_lt h

theorem next_le {w w' : World} {e : Event} {o : Output} (hc : CountsUp w e)
    (hs : w.step e = some (w', o)) : w.state.nextReserveId ≤ w'.state.nextReserveId := by
  rcases (step_did hs).next_cases with ⟨-, h⟩ | ⟨-, rfl, h⟩
  · rw [h]
    exact UInt64.le_refl _
  · rw [h, UInt64.le_iff_toNat_le, tick_state, toNat_succ (hc _ _ hs)]
    omega

/-- The counter grows by at most the number of calls. -/
theorem next_toNat_le {w w' : World} {tr : List Event} (h : Run Step anyEvent w tr w') :
    w'.state.nextReserveId.toNat ≤ w.state.nextReserveId.toNat + tr.countP Event.adds := by
  induction h with
  | nil => omega
  | @cons w v w' e tr _ hs _ ih =>
    obtain ⟨o, hs⟩ := hs
    rw [List.countP_cons]
    rcases (step_did hs).next_cases with ⟨-, hn⟩ | ⟨⟨arg, rfl⟩, -, hn⟩
    · rw [hn, tick_state] at ih
      omega
    · rw [hn, tick_state, UInt64.toNat_add] at ih
      have hle := Nat.mod_le (w.state.nextReserveId.toNat + UInt64.toNat 1) (2 ^ 64)
      have hone : UInt64.toNat 1 = 1 := rfl
      simp only [Event.adds, if_true]
      omega

/-- Fewer than 2^64 calls of `add_reserve` do not exhaust the counter. -/
theorem countsUp_run {w w' : World} {tr : List Event} (h : Run Step anyEvent w tr w')
    (hfew : w.state.nextReserveId.toNat + tr.countP Event.adds < UInt64.size) :
    Run Step CountsUp w tr w' := by
  induction h with
  | nil => exact .nil _
  | @cons w v w' e tr _ hs hr ih =>
    obtain ⟨o, hs⟩ := hs
    have hd := step_did hs
    rw [List.countP_cons] at hfew
    have hup : CountsUp w e := by
      intro v' id hs'
      obtain ⟨arg, rfl, -⟩ := (step_did hs').added_ok
      unfold Event.adds at hfew
      simp only [if_true] at hfew
      omega
    refine .cons hup ⟨o, hs⟩ (ih ?_)
    rcases hd.next_cases with ⟨-, hn⟩ | ⟨⟨arg, rfl⟩, rfl, hn⟩
    · rw [hn, tick_state]
      omega
    · rw [hn, tick_state, toNat_succ (hup _ _ hs)]
      simp only [Event.adds, if_true] at hfew
      omega

/-! ## Well-formedness -/

structure WellFormed (w : World) : Prop where
  valid : ∀ (id : ReserveId) record, w.state.reserves[id]? = some record →
    validateReserveConfig record.config = .ok ()
  distinct : ∀ (id id' : ReserveId) record record', w.state.reserves[id]? = some record →
    w.state.reserves[id']? = some record' → id ≠ id' →
    record.config.account.eq record'.config.account = false
  below : ∀ (id : ReserveId) record, w.state.reserves[id]? = some record →
    id < w.state.nextReserveId
  locked : ∀ id ∈ w.state.reserveMintInflight, ∃ record, w.state.reserves[id]? = some record
  pending : ∀ (k : String) id,
    w.state.idempotency[k]? = some (IdempotencyRecord.pending id) →
    ∃ record, w.state.reserves[id]? = some record

theorem wellFormed_init (ledgerId : Principal) : WellFormed (init ledgerId) where
  valid id record h := by simp [init, State.default] at h
  distinct id id' record record' h := by simp [init, State.default] at h
  below id record h := by simp [init, State.default] at h
  locked id h := by simp [init, State.default] at h
  pending k id h := by simp [init, State.default] at h

section
variable {w w' : World} {e : Event} {o : Output}

/-- The reserve of an operation that begins is registered. -/
theorem Did.begins_registered {r : ReserveId} (hd : Did w e o w') (hb : e.begins = some r)
    (hc : o.calls = true) : ∃ record, w'.state.reserves[r]? = some record := by
  rcases hd.call_cases hc with ⟨id, record, rfl, hrec, -, -, rfl⟩ |
    ⟨arg, now, record, rfl, hstart, -, rfl⟩ | ⟨_, _, _, _, _, _, rfl, _⟩
  · cases hb
    exact ⟨record, by simpa using hrec⟩
  · cases hb
    exact ⟨record, by simpa using hstart.registered⟩
  · cases hb

theorem WellFormed.valid_did (h : WellFormed w) (hd : Did w e o w') {id : ReserveId}
    {record : ReserveRecord} (hrec : w'.state.reserves[id]? = some record) :
    validateReserveConfig record.config = .ok () := by
  cases hd.wrote hrec with
  | kept hrec => exact h.valid id _ hrec
  | added =>
    obtain ⟨arg, ⟨⟩, -, hv, -⟩ := hd.added_ok
    rwa [validateAddReserveArg_eq] at hv
  | updated hid hold hap =>
    cases hd with
    | quiet _ hq => exact hq.elim nofun
    | updated hold' hap' hv =>
      cases hid
      cases hold.symm.trans hold'
      cases hap.symm.trans hap'
      exact hv
    | dropped _ _ ho => cases ho
  | @minted _ _ _ old _ _ hm => exact h.valid id old hm.before

/-- Where the account of a registered reserve comes from. -/
theorem Did.account_cases (hd : Did w e o w') {id : ReserveId} {record : ReserveRecord}
    (hrec : w'.state.reserves[id]? = some record) :
    (∃ old, w.state.reserves[id]? = some old ∧
      old.config.account = record.config.account) ∨
    id = w.state.nextReserveId ∧ ∀ (id' : ReserveId) other,
      w.state.reserves[id']? = some other →
      other.config.account.eq record.config.account = false := by
  cases hd.wrote hrec with
  | kept hrec => exact .inl ⟨_, hrec, rfl⟩
  | added hid hacc =>
    refine .inr ⟨hid.symm, fun id' other hother => Bool.eq_false_iff.mpr fun heq => ?_⟩
    exact hacc id' other hother (Account.eq_iff.mp heq)
  | @updated _ old _ _ hold hap => exact .inl ⟨old, hold, (UpdateReserveArg.apply_keeps hap).1.symm⟩
  | minted hm => exact .inl ⟨_, hm.before, rfl⟩

theorem WellFormed.distinct_did (h : WellFormed w) (hd : Did w e o w') {id id' : ReserveId}
    {record record' : ReserveRecord} (hrec : w'.state.reserves[id]? = some record)
    (hrec' : w'.state.reserves[id']? = some record') (hne : id ≠ id') :
    record.config.account.eq record'.config.account = false := by
  rcases hd.account_cases hrec with ⟨old, hold, ha⟩ | ⟨hid, hnew⟩ <;>
    rcases hd.account_cases hrec' with ⟨old', hold', ha'⟩ | ⟨hid', hnew'⟩
  · rw [← ha, ← ha']
    exact h.distinct id id' old old' hold hold' hne
  · rw [← ha]
    exact hnew' id old hold
  · rw [Account.eq_comm, ← ha']
    exact hnew id' old' hold'
  · exact (hne (hid.trans hid'.symm)).elim

theorem WellFormed.below_did (h : WellFormed w)
    (hc : ∀ id, o = .added (.ok id) → w.state.nextReserveId.toNat + 1 < UInt64.size)
    (hd : Did w e o w') {id : ReserveId} {record : ReserveRecord}
    (hrec : w'.state.reserves[id]? = some record) : id < w'.state.nextReserveId := by
  rcases hd.next_cases with ⟨hno, hn⟩ | ⟨-, ho, hn⟩
  · obtain ⟨old, hold⟩ := hd.registered (hno id) hrec
    rw [hn]
    exact h.below id old hold
  · rw [UInt64.lt_iff_toNat_lt, hn, toNat_succ (hc _ ho)]
    by_cases hid : id = w.state.nextReserveId
    · rw [hid]
      omega
    · have hne : o ≠ .added (.ok id) := by
        intro heq
        subst heq
        cases ho
        exact hid rfl
      obtain ⟨old, hold⟩ := hd.registered hne hrec
      exact Nat.lt_succ_of_lt (UInt64.lt_iff_toNat_lt.mp (h.below id old hold))

theorem WellFormed.locked_did (h : WellFormed w) (hd : Did w e o w') {id : ReserveId}
    (hid : id ∈ w'.state.reserveMintInflight) : ∃ record, w'.state.reserves[id]? = some record := by
  rcases hd.relocked hid with hold | ⟨-, hb, hc⟩
  · obtain ⟨record, hrec⟩ := h.locked id hold
    exact hd.still_registered hold hrec
  · exact hd.begins_registered hb hc

/-- A reserve with a pending key is not removed. -/
theorem WellFormed.pending_did (h : WellFormed w) (hd : Did w e o w') {k : String}
    {id : ReserveId} (hk : w'.state.idempotency[k]? = some (IdempotencyRecord.pending id)) :
    ∃ record, w'.state.reserves[id]? = some record := by
  rcases hd.pended hk with hold | ⟨-, hb, -, hc⟩
  · obtain ⟨record, hrec⟩ := h.pending k id hold
    exact (hd.still_or_removed hrec).resolve_right fun hr => hr.2.2 k hold
  · exact hd.begins_registered hb hc

end

theorem WellFormed.step {w w' : World} {e : Event} (hc : CountsUp w e) (h : WellFormed w)
    (hs : Step w e w') : WellFormed w' := by
  obtain ⟨o, hs⟩ := hs
  have hd := step_did hs
  have ht : WellFormed (w.tick e) := ⟨h.valid, h.distinct, h.below, h.locked, h.pending⟩
  refine ⟨fun _ _ => ht.valid_did hd, fun _ _ _ _ => ht.distinct_did hd,
    fun _ _ => ht.below_did ?_ hd, fun _ => ht.locked_did hd, fun _ _ => ht.pending_did hd⟩
  intro id heq
  subst heq
  exact hc w' id hs

theorem wellFormed_run {ledgerId : Principal} {tr : List Event} {w : World}
    (h : Run Step CountsUp (init ledgerId) tr w) : WellFormed w :=
  h.invariant (fun _ _ _ hc hw hs => hw.step hc hs) (wellFormed_init ledgerId)

/-- The counter never goes back. -/
theorem next_le_run {w w' : World} {tr : List Event} (h : Run Step CountsUp w tr w') :
    w.state.nextReserveId ≤ w'.state.nextReserveId :=
  h.invariant (I := fun v => w.state.nextReserveId ≤ v.state.nextReserveId)
    (fun _ _ _ hc hle ⟨_, hs⟩ => UInt64.le_trans hle (next_le hc hs)) (UInt64.le_refl _)

/-- The registry is well formed in every state that fewer than 2^64 calls of
`add_reserve` reach, and the id of a removed reserve is not assigned again. -/
theorem registry_well_formed {ledgerId : Principal} {tr : List Event} {w : World}
    (h : Run Step anyEvent (init ledgerId) tr w) (hfew : tr.countP Event.adds < 2 ^ 64) :
    WellFormed w ∧
    (∀ (id : ReserveId) record, w.state.reserves[id]? = some record → ConfigOk record.config) ∧
    ∀ id config w₁ tr' w₂ arg w₃ id',
      w.step (.removeReserve id) = some (w₁, .removed (.ok config)) →
      Run Step anyEvent w₁ tr' w₂ → tr.countP Event.adds + tr'.countP Event.adds < 2 ^ 64 →
      w₂.step (.addReserve arg) = some (w₃, .added (.ok id')) → id' ≠ id := by
  have hup : Run Step CountsUp (init ledgerId) tr w :=
    countsUp_run h (by simpa [init, State.default, UInt64.size] using hfew)
  have hw := wellFormed_run hup
  refine ⟨hw, fun id record hrec => validateReserveConfig_ok.mp (hw.valid id record hrec),
    fun id config w₁ tr' w₂ arg w₃ id' hr h' hsum ha => ?_⟩
  have hnext : w.state.nextReserveId.toNat ≤ tr.countP Event.adds := by
    simpa [init, State.default] using next_toNat_le h
  -- the id of a registered reserve is below the counter, and the counter only grows
  have hlt : id < w.state.nextReserveId := by
    cases step_did hr with
    | quiet _ hq =>
      obtain ⟨_, hq⟩ := hq
      cases hq
    | removed hrec => exact hw.below id _ hrec
    | dropped _ _ ho => cases ho
  have heq : w₁.state.nextReserveId = w.state.nextReserveId := by
    rcases (step_did hr).next_cases with ⟨-, hn⟩ | ⟨-, ho, -⟩
    · exact hn
    · cases ho
  have hle : w₁.state.nextReserveId ≤ w₂.state.nextReserveId :=
    next_le_run (countsUp_run h' (by rw [heq]; simp only [UInt64.size]; omega))
  have hid : w₂.state.nextReserveId = id' := by
    obtain ⟨_, _, hid, -⟩ := (step_did ha).added_ok
    exact hid
  intro heq
  subst heq
  rw [heq, hid] at hle
  exact UInt64.lt_irrefl _ (UInt64.lt_of_lt_of_le hlt hle)

/-- A reserve is registered, locked by a top-up with a key, and released; another
one is removed before the stale top-up ends. -/
def registrySample : List Event :=
  [.addReserve Sample.reserve, .addReserve { Sample.reserve with account := ⟨⟨[3]⟩, none⟩ },
    .manualTopup ⟨0, 5, some "k"⟩ 1, .releaseStuckMintState 0 none, .removeReserve 1,
    .rebalance 0, .lose 1]

theorem registry_well_formed_sample : ∃ w,
    Run Step anyEvent (init Sample.ledgerId) registrySample w ∧
    0 ∈ w.state.reserveMintInflight ∧ WellFormed w := by
  have h : Run Step anyEvent (init Sample.ledgerId) registrySample _ := run_last_any (by decide)
  exact ⟨_, h, by decide, (registry_well_formed h (by decide)).1⟩

end World

end ViciMinter
