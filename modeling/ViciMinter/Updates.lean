import ViciMinter.History

/-!
# The configuration of a reserve

`update_reserve` replaces the whole record, and a mint that was under way when it
did commits to the record it finds. So a configuration is what the successful
updates of its reserve make of the one it was added with, one after the other
(`Run.config`), and each field is the last one that an update carried
(`merge_foldl`).
-/

namespace ViciMinter

open Lts

/-! ## The last value carried -/

/-- The last value that an element of `l` carries, or the initial one. -/
def carried {α β : Type} (f : α → Option β) (l : List α) (initial : β) : β :=
  (l.filterMap f).getLast?.getD initial

section
variable {α β : Type} (f : α → Option β)

@[simp] theorem carried_nil (b : β) : carried f [] b = b := rfl

theorem carried_cons (a : α) (l : List α) (b : β) :
    carried f (a :: l) b = carried f l ((f a).getD b) := by
  cases h : f a with
  | none => simp [carried, h]
  | some b' => simp [carried, h, List.getLast?_cons]

end

/-- The config with the fields of `arg` replaced. -/
def UpdateReserveArg.merge (arg : UpdateReserveArg) (config : ReserveConfig) : ReserveConfig where
  account := config.account
  minBalance := arg.minBalance.getD config.minBalance
  targetBalance := arg.targetBalance.getD config.targetBalance
  maxBalance := arg.maxBalance.getD config.maxBalance
  maxTopupPerRebalance := arg.maxTopupPerRebalance.getD config.maxTopupPerRebalance
  lifetimeReceivedMinimum :=
    (arg.lifetimeReceivedMinimum.map some).getD config.lifetimeReceivedMinimum
  lifetimeReceivedMaximum := arg.lifetimeReceivedMaximum.getD config.lifetimeReceivedMaximum
  rateLimits := arg.rateLimits.getD config.rateLimits
  enabled := arg.enabled.getD config.enabled
  allowManualTopup := arg.allowManualTopup.getD config.allowManualTopup
  allowAutoRebalance := arg.allowAutoRebalance.getD config.allowAutoRebalance
  purpose := arg.purpose.getD config.purpose
  label := arg.label.getD config.label

/-- An update that is accepted replaces just the fields it carries. -/
theorem UpdateReserveArg.apply_merge {arg : UpdateReserveArg} {config updated : ReserveConfig}
    (h : arg.apply config = .ok updated) : updated = arg.merge config := by
  unfold UpdateReserveArg.apply at h
  simp only at h
  split at h
  · next hnone =>
    cases h
    simp [merge, hnone]
  · next hsome _ =>
    split at h
    · cases h
    · cases h
      simp [merge, hsome]
  · next hsome _ =>
    cases h
    simp [merge, hsome]

/-- The fields of `initial`, each with the last value that an update carried. -/
def lastCarried (l : List UpdateReserveArg) (initial : ReserveConfig) : ReserveConfig where
  account := initial.account
  minBalance := carried (·.minBalance) l initial.minBalance
  targetBalance := carried (·.targetBalance) l initial.targetBalance
  maxBalance := carried (·.maxBalance) l initial.maxBalance
  maxTopupPerRebalance := carried (·.maxTopupPerRebalance) l initial.maxTopupPerRebalance
  lifetimeReceivedMinimum :=
    carried (·.lifetimeReceivedMinimum.map some) l initial.lifetimeReceivedMinimum
  lifetimeReceivedMaximum := carried (·.lifetimeReceivedMaximum) l initial.lifetimeReceivedMaximum
  rateLimits := carried (·.rateLimits) l initial.rateLimits
  enabled := carried (·.enabled) l initial.enabled
  allowManualTopup := carried (·.allowManualTopup) l initial.allowManualTopup
  allowAutoRebalance := carried (·.allowAutoRebalance) l initial.allowAutoRebalance
  purpose := carried (·.purpose) l initial.purpose
  label := carried (·.label) l initial.label

theorem merge_foldl (l : List UpdateReserveArg) (config : ReserveConfig) :
    l.foldl (fun c arg => arg.merge c) config = lastCarried l config := by
  induction l generalizing config with
  | nil => rfl
  | cons arg l ih =>
    rw [List.foldl_cons, ih]
    unfold lastCarried UpdateReserveArg.merge
    simp only [carried_cons]

/-! ## Along a run -/

def updateOf (r : ReserveId) : Event → Output → Option UpdateReserveArg
  | .updateReserve arg, .updated (.ok ()) => if arg.id = r then some arg else none
  | _, _ => none

namespace World

/-- The successful updates of `r` among the events `tr`. -/
def updatesOf (r : ReserveId) : World → List Event → List UpdateReserveArg
  | _, [] => []
  | w, e :: tr =>
    match w.step e with
    | some (w', o) => (updateOf r e o).toList ++ updatesOf r w' tr
    | none => []

theorem updateOf_quiet {r : ReserveId} {e : Event} {o : Output} (h : o.quiet) :
    updateOf r e o = none := by
  cases o with
  | updated res =>
    obtain ⟨err, rfl⟩ := h
    cases e <;> rfl
  | _ => cases e <;> rfl

theorem Did.config {r : ReserveId} {w w' : World} {e : Event} {o : Output} (hd : Did w e o w')
    (ho : o ≠ .added (.ok r)) {record record' : ReserveRecord}
    (hrec : w.state.reserves[r]? = some record) (hrec' : w'.state.reserves[r]? = some record') :
    record'.config = (updateOf r e o).toList.foldl (fun c arg => arg.merge c) record.config := by
  have hsame : w'.state.reserves[r]? = w.state.reserves[r]? → updateOf r e o = none →
      record'.config = (updateOf r e o).toList.foldl (fun c arg => arg.merge c) record.config := by
    intro heq hnone
    cases hrec.symm.trans (heq.symm.trans hrec')
    rw [hnone]
    rfl
  cases hd with
  | quiet _ hq => exact hsame rfl (updateOf_quiet hq)
  | policySet | released | issued | lost | missed => exact hsame rfl rfl
  | begunRebalance | begunTopup => exact hsame (by simp) rfl
  | dropped _ hend =>
    rcases hend with ⟨_, _, _, _, _, rfl, _⟩ | ⟨_, _, _, rfl, _⟩ <;> exact hsame rfl rfl
  | added =>
    refine hsame ?_ rfl
    rw [register_record, if_neg]
    intro heq
    subst heq
    exact ho rfl
  | removed =>
    refine hsame ?_ rfl
    rw [Std.ExtTreeMap.getElem?_erase] at hrec' ⊢
    split at hrec'
    · cases hrec'
    · next hne => exact if_neg hne
  | @updated arg old updated hold hap =>
    by_cases hr : arg.id = r
    · subst hr
      simp only [Std.ExtTreeMap.getElem?_insert_self, Option.some.injEq] at hrec'
      cases hrec.symm.trans hold
      cases hrec'
      simp [updateOf, UpdateReserveArg.apply_merge hap]
    · exact hsame (by simp [Std.ExtTreeMap.getElem?_insert, hr]) (if_neg hr)
  | @committed n op m old _ _ _ _ _ hold =>
    by_cases hr : op.reserveId = r
    · subst hr
      rw [finish_state, commit_record, if_pos rfl] at hrec'
      cases hrec.symm.trans hold
      cases hrec'
      rfl
    · refine hsame ?_ rfl
      rw [finish_state, commit_record, if_neg hr]

theorem registered_start {r : ReserveId} {w w' : World} {tr : List Event}
    (h : Run Step (AddsOther r) w tr w') {record' : ReserveRecord}
    (hrec' : w'.state.reserves[r]? = some record') :
    ∃ record, w.state.reserves[r]? = some record := by
  induction h with
  | nil => exact ⟨record', hrec'⟩
  | cons ha hs _ ih =>
    obtain ⟨record, hrec⟩ := ih hrec'
    obtain ⟨o, hs⟩ := hs
    refine registered_before ?_ hs hrec
    intro heq
    subst heq
    exact ha _ hs

theorem config_run {r : ReserveId} {w w' : World} {tr : List Event}
    (h : Run Step (AddsOther r) w tr w') {record record' : ReserveRecord}
    (hrec : w.state.reserves[r]? = some record) (hrec' : w'.state.reserves[r]? = some record') :
    record'.config = (updatesOf r w tr).foldl (fun c arg => arg.merge c) record.config := by
  induction h generalizing record with
  | nil =>
    cases hrec.symm.trans hrec'
    rfl
  | cons ha hs hr ih =>
    obtain ⟨record₁, hrec₁⟩ := registered_start hr hrec'
    obtain ⟨o, hs⟩ := hs
    have ho : o ≠ .added (.ok r) := by
      intro heq
      subst heq
      exact ha _ hs
    rw [ih hrec₁ hrec', (step_did hs).config ho hrec hrec₁]
    simp only [updatesOf, hs, List.foldl_append]

theorem last_added (r : ReserveId) {w w' : World} {tr : List Event}
    (h : Run Step anyEvent w tr w') : Run Step (AddsOther r) w tr w' ∨
    ∃ tr₀ w₀ arg w₁ tr₁, tr = tr₀ ++ .addReserve arg :: tr₁ ∧ Run Step anyEvent w tr₀ w₀ ∧
      w₀.step (.addReserve arg) = some (w₁, .added (.ok r)) ∧
      Run Step (AddsOther r) w₁ tr₁ w' := by
  induction h with
  | nil => exact .inl (.nil _)
  | @cons w v w' e tr _ hs _ ih =>
    rcases ih with ih | ⟨tr₀, w₀, arg, w₁, tr₁, rfl, h₀, ha, h₁⟩
    · by_cases ho : AddsOther r w e
      · exact .inl (.cons ho hs ih)
      · unfold AddsOther at ho
        simp only [ne_eq, not_forall, not_not] at ho
        obtain ⟨v', hv'⟩ := ho
        obtain ⟨arg, rfl, -⟩ := (step_did hv').added_ok
        obtain ⟨o, hs⟩ := hs
        cases hs.symm.trans hv'
        exact .inr ⟨[], w, arg, v, tr, rfl, .nil w, hs, ih⟩
    · exact .inr ⟨e :: tr₀, w₀, arg, w₁, tr₁, rfl, .cons trivial hs h₀, ha, h₁⟩

theorem added_record {w w' : World} {arg : AddReserveArg} {r : ReserveId}
    (h : w.step (.addReserve arg) = some (w', .added (.ok r))) :
    w'.state.reserves[r]? = some ⟨arg.config, 0, []⟩ := by
  obtain ⟨arg, ⟨⟩, rfl, -, rfl⟩ := (step_did h).added_ok
  simp

/-- An update leaves the mints of every reserve alone. -/
theorem Did.update_keeps {w w' : World} {arg : UpdateReserveArg} {o : Output}
    (hd : Did w (.updateReserve arg) o w') (id : ReserveId) :
    (w'.state.reserves[id]?.map fun record => (record.lifetimeMinted, record.mintEvents)) =
      w.state.reserves[id]?.map fun record => (record.lifetimeMinted, record.mintEvents) := by
  cases hd with
  | quiet => rfl
  | @updated _ old _ hold =>
    by_cases hid : arg.id = id
    · subst hid
      simp [hold]
    · simp [Std.ExtTreeMap.getElem?_insert, hid]
  | dropped _ hend => rcases hend with ⟨_, _, _, _, _, h, _⟩ | ⟨_, _, _, h, _⟩ <;> cases h

/-- The end of a mint leaves every configuration alone. -/
theorem Did.mint_keeps {w w' : World} {n : OpId} {reply : Reply (Except TransferError Nat)}
    {o : Output} (hd : Did w (.transferReply n reply) o w') (id : ReserveId) :
    w'.state.reserves[id]?.map (·.config) = w.state.reserves[id]?.map (·.config) := by
  cases hd with
  | quiet h => cases h
  | dropped | missed => rfl
  | @committed _ op _ old _ _ _ _ _ hold =>
    rw [finish_state, commit_record]
    by_cases hid : op.reserveId = id
    · subst hid
      rw [if_pos rfl, hold]
      rfl
    · rw [if_neg hid]

/-- In every reachable state, each field of a configuration is the last one that
a successful update of the reserve carried since it was added, or else the one it
was added with. Updates leave the mints alone, and mints the configurations. -/
theorem config_last_carried {ledgerId : Principal} {tr : List Event} {w : World} {r : ReserveId}
    {record : ReserveRecord} (h : Run Step anyEvent (init ledgerId) tr w)
    (hrec : w.state.reserves[r]? = some record) :
    (∃ tr₀ w₀ arg w₁ tr₁, tr = tr₀ ++ .addReserve arg :: tr₁ ∧
      Run Step anyEvent (init ledgerId) tr₀ w₀ ∧
      w₀.step (.addReserve arg) = some (w₁, .added (.ok r)) ∧ Run Step (AddsOther r) w₁ tr₁ w ∧
      record.config = lastCarried (updatesOf r w₁ tr₁) arg.config) ∧
    (∀ (v : World) arg v' o, v.step (.updateReserve arg) = some (v', o) → ∀ id : ReserveId,
      (v'.state.reserves[id]?.map fun record => (record.lifetimeMinted, record.mintEvents)) =
        v.state.reserves[id]?.map fun record => (record.lifetimeMinted, record.mintEvents)) ∧
    ∀ (v : World) n reply v' o, v.step (.transferReply n reply) = some (v', o) →
      ∀ id : ReserveId,
        v'.state.reserves[id]?.map (·.config) = v.state.reserves[id]?.map (·.config) := by
  refine ⟨?_, fun v arg v' o hs id => ?_, fun v n reply v' o hs id => ?_⟩
  · rcases last_added r h with hno | ⟨tr₀, w₀, arg, w₁, tr₁, htr, h₀, ha, h₁⟩
    · cases (untouched_run hno).unregistered.symm.trans hrec
    · refine ⟨tr₀, w₀, arg, w₁, tr₁, htr, h₀, ha, h₁, ?_⟩
      rw [config_run h₁ (added_record ha) hrec, merge_foldl]
  · exact (step_did hs).update_keeps id
  · exact (step_did hs).mint_keeps id

/-- A rebalance during which the target is lowered and the maximum is set, and
an update that is refused. -/
def updatedMeanwhile : List Event :=
  [.addReserve Sample.reserve, .rebalance 0,
    .updateReserve { Sample.update with targetBalance := some 50, maxBalance := some (some 60) },
    .updateReserve { Sample.update with maxBalance := some (some 40) },
    .balanceReply 0 (.answered 0) 1, .transferReply 0 (.answered (.ok 7))]

theorem config_last_carried_sample : ∃ w record,
    Run Step anyEvent (init Sample.ledgerId) updatedMeanwhile w ∧
    w.state.reserves[(0 : ReserveId)]? = some record ∧ record.config.targetBalance = 50 ∧
    ∃ (arg : AddReserveArg) (w₁ : World) (tr₁ : List Event),
      record.config = lastCarried (updatesOf 0 w₁ tr₁) arg.config := by
  have h : Run Step anyEvent (init Sample.ledgerId) updatedMeanwhile
      (last step (init Sample.ledgerId) updatedMeanwhile) := run_last_any (by decide)
  have hrec : (last step (init Sample.ledgerId) updatedMeanwhile).state.reserves[(0 : ReserveId)]? =
      some ⟨{ Sample.reserve.config with targetBalance := 50, maxBalance := some 60 }, 100,
        [⟨1, 100⟩]⟩ := by decide
  obtain ⟨_, _, arg, w₁, tr₁, _, _, _, _, hconfig⟩ := (config_last_carried h hrec).1
  exact ⟨_, _, h, hrec, rfl, arg, w₁, tr₁, hconfig⟩

end World

end ViciMinter
