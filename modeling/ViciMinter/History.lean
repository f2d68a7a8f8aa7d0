import ViciMinter.Lock
import ViciMinter.Lib.Window

/-!
# The mints of a reserve

`history r` lists every mint committed to `r` since it was registered, pruned or
not. The record of `r` is a summary of it: the counter is its total (`Tally`),
the kept events are its end (`Recent`), and a live rebalance still holds the
record it has copied (`SnapshotExact`).

An id counts as one reserve as long as `add_reserve` does not return it again
(`AddsOther`), which the wrapping `u64` counter does after 2^64 registrations.
-/

namespace ViciMinter

open Lts

/-- What `l` adds up to. -/
abbrev minted (l : List MintEvent) : Nat := Window.total MintEvent.amount l

namespace World

/-- All mints committed to `r`, in the order of their commits. -/
def history (w : World) (r : ReserveId) : List MintEvent :=
  (w.commits.filter fun c => c.reserveId = r).map Commit.event

section
variable (w : World) (s : State) (n : OpId) (op : Op) (r : ReserveId) (e : Event)

@[simp] theorem history_tick : (w.tick e).history r = w.history r := rfl
@[simp] theorem history_finish_nil : (w.finish s n []).history r = w.history r := by
  simp [history]

theorem history_finish (c : Commit) : (w.finish s n [c]).history r =
    w.history r ++ if c.reserveId = r then [c.event] else [] := by
  by_cases h : c.reserveId = r <;> simp [history, h]

end

/-! ## What a step does to a history and a record -/

/-- A mint is committed to `r` by a step from `w` to `w'`. -/
structure Minted (r : ReserveId) (w w' : World) (n : OpId) (op : Op) (m : MintEvent)
    (record : ReserveRecord) : Prop where
  live : w.ops n = some op
  reserve : op.reserveId = r
  mint : op.mint = some m
  before : w.state.reserves[r]? = some record
  ended : w'.ops n = none
  history : w'.history r = w.history r ++ [m]

theorem Did.clock_eq {w w' : World} {e : Event} {o : Output} (hd : Did w e o w') :
    w'.clock = w.clock := by
  cases hd <;> rfl

theorem Did.history_cases {w w' : World} {e : Event} {o : Output} (hd : Did w e o w')
    (r : ReserveId) :
    w'.history r = w.history r ∨ ∃ n op m record, Minted r w w' n op m record := by
  cases hd with
  | quiet | added | updated | removed | policySet | released | issued => exact .inl rfl
  | begunRebalance | begunTopup => exact .inl rfl
  | dropped | missed | lost => exact .inl (history_finish_nil _ _ _ _)
  | @committed n op m record _ _ _ hop hm hrec =>
    by_cases hr : op.reserveId = r
    · exact .inr ⟨n, op, m, record, hop, hr, hm, hr ▸ hrec, by simp,
        by simp [history_finish, hr]⟩
    · exact .inl (by simp [history_finish, hr])

/-- How `r` got the record it has after a step. -/
inductive Wrote (r : ReserveId) (w w' : World) : Event → Output → ReserveRecord → Prop where
  | kept {e : Event} {o : Output} {record : ReserveRecord} :
      w.state.reserves[r]? = some record → w'.history r = w.history r → Wrote r w w' e o record
  | added {arg : AddReserveArg} : w.state.nextReserveId = r →
      (∀ (id : ReserveId) (record : ReserveRecord), w.state.reserves[id]? = some record →
        record.config.account.canon ≠ arg.account.canon) →
      Wrote r w w' (.addReserve arg) (.added (.ok r)) ⟨arg.config, 0, []⟩
  | updated {arg : UpdateReserveArg} {record : ReserveRecord} {updated : ReserveConfig} :
      arg.id = r → w.state.reserves[r]? = some record → arg.apply record.config = .ok updated →
      w'.history r = w.history r →
      Wrote r w w' (.updateReserve arg) (.updated (.ok ())) { record with config := updated }
  | minted {n : OpId} {op : Op} {m : MintEvent} {record : ReserveRecord}
      {reply : Reply (Except TransferError Nat)} {o : Output} : Minted r w w' n op m record →
      Wrote r w w' (.transferReply n reply) o (record.mint m.amount m.timestampNs)

theorem Did.wrote {r : ReserveId} {w w' : World} {e : Event} {o : Output} (hd : Did w e o w')
    {record' : ReserveRecord} (hrec' : w'.state.reserves[r]? = some record') :
    Wrote r w w' e o record' := by
  cases hd with
  | quiet | policySet | released | issued => exact .kept hrec' rfl
  | begunRebalance | begunTopup => exact .kept (by simpa using hrec') rfl
  | dropped | missed | lost => exact .kept hrec' (history_finish_nil _ _ _ _)
  | added _ hacc =>
    rw [register_record] at hrec'
    split at hrec'
    · next hr =>
      cases hrec'
      subst hr
      exact .added rfl hacc
    · exact .kept hrec' rfl
  | updated hold hap =>
    simp only [Std.ExtTreeMap.getElem?_insert, Std.LawfulEqCmp.compare_eq_iff_eq] at hrec'
    split at hrec'
    · next hr =>
      cases hrec'
      exact .updated hr (hr ▸ hold) hap rfl
    · exact .kept hrec' rfl
  | removed =>
    simp only [Std.ExtTreeMap.getElem?_erase] at hrec'
    split at hrec'
    · cases hrec'
    · exact .kept hrec' rfl
  | committed hop hm hrec =>
    rw [finish_state, commit_record] at hrec'
    split at hrec'
    · next hr =>
      cases hrec'
      exact .minted ⟨hop, hr, hm, hr ▸ hrec, by simp, by simp [history_finish, hr]⟩
    · next hr => exact .kept hrec' (by simp [history_finish, hr])

/-- A reserve that is registered after a step was registered before. -/
theorem Did.registered {r : ReserveId} {w w' : World} {e : Event} {o : Output}
    (ho : o ≠ .added (.ok r)) (hd : Did w e o w') {record' : ReserveRecord}
    (hrec' : w'.state.reserves[r]? = some record') :
    ∃ record, w.state.reserves[r]? = some record := by
  cases hd.wrote hrec' with
  | kept hrec => exact ⟨_, hrec⟩
  | added => exact (ho rfl).elim
  | updated _ hrec => exact ⟨_, hrec⟩
  | minted hm => exact ⟨_, hm.before⟩

/-! ## Registration -/

/-- The step does not register a reserve under the id `r`. -/
def AddsOther (r : ReserveId) (w : World) (e : Event) : Prop :=
  ∀ w', w.step e ≠ some (w', .added (.ok r))

instance (r : ReserveId) (w : World) (e : Event) : Decidable (AddsOther r w e) :=
  decidable_of_iff ((w.step e).all (fun q => q.2 ≠ .added (.ok r)) = true) <| by
    cases h : w.step e <;> simp [AddsOther, h, Prod.ext_iff]

/-- A reserve is registered under the next id, as it was asked for. -/
theorem Did.added_ok {r : ReserveId} {w w' : World} {e : Event}
    (hd : Did w e (.added (.ok r)) w') :
    ∃ arg, e = .addReserve arg ∧ w.state.nextReserveId = r ∧
      validateAddReserveArg arg = .ok () ∧ w' = { w with state := w.state.register arg } := by
  cases hd with
  | quiet _ hq => exact hq.elim nofun
  | added hv => exact ⟨_, rfl, rfl, hv, rfl⟩
  | dropped _ _ hq => cases hq
  | committed _ _ _ _ hm => cases hm
  | missed _ _ _ _ hm => cases hm

/-- A new reserve does not take the id of a registered one. -/
def AddsNew (w : World) (e : Event) : Prop :=
  ∀ arg, e = .addReserve arg → w.state.reserves[w.state.nextReserveId]? = none

instance (w : World) (e : Event) : Decidable (AddsNew w e) :=
  match e with
  | .addReserve arg =>
    decidable_of_iff (w.state.reserves[w.state.nextReserveId]? = none) <| by
      constructor
      · rintro h _ ⟨⟩
        exact h
      · exact fun h => h arg rfl
  | .updateReserve _ | .removeReserve _ | .setGlobalPolicy _ | .releaseStuckMintState _ _
  | .rebalance _ | .balanceReply _ _ _ | .manualTopup _ _ | .transferReply _ _ | .lose _ =>
    .isTrue (by rintro _ ⟨⟩)

/-- `r` was never registered. -/
structure Untouched (r : ReserveId) (w : World) : Prop where
  unregistered : w.state.reserves[r]? = none
  idle : ∀ n op, w.ops n = some op → op.reserveId ≠ r
  uncommitted : w.history r = []

theorem untouched_init (r : ReserveId) (ledgerId : Principal) : Untouched r (init ledgerId) where
  unregistered := by simp [init, State.default]
  idle n op h := by simp [init] at h
  uncommitted := rfl

theorem Untouched.did {r : ReserveId} {w w' : World} {e : Event} {o : Output}
    (ho : o ≠ .added (.ok r)) (h : Untouched r w) (hd : Did w e o w') : Untouched r w' := by
  refine ⟨?_, fun n op hop hid => ?_, ?_⟩
  · by_contra hne
    obtain ⟨record', hrec'⟩ := Option.ne_none_iff_exists'.mp hne
    obtain ⟨record, hrec⟩ := hd.registered ho hrec'
    cases h.unregistered.symm.trans hrec
  · rcases hd.origin hop with ⟨old, hold, he, -⟩ | hb
    · exact h.idle n old hold (he.trans hid)
    · obtain ⟨record, hrec⟩ := hb.before
      cases h.unregistered.symm.trans (hid ▸ hrec)
  · rcases hd.history_cases r with hh | ⟨n, op, m, record, hm⟩
    · rw [hh, h.uncommitted]
    · exact (h.idle n op hm.live hm.reserve).elim

theorem Untouched.step {r : ReserveId} {w w' : World} {e : Event} (ha : AddsOther r w e)
    (h : Untouched r w) (hs : Step w e w') : Untouched r w' := by
  obtain ⟨o, hs⟩ := hs
  refine Untouched.did (w := w.tick e) ?_ ⟨h.unregistered, h.idle, h.uncommitted⟩ (step_did hs)
  rintro rfl
  exact ha w' hs

theorem untouched_run {r : ReserveId} {ledgerId : Principal} {tr : List Event} {w : World}
    (h : Run Step (AddsOther r) (init ledgerId) tr w) : Untouched r w :=
  h.invariant (fun _ _ _ ha hu hs => hu.step ha hs) (untouched_init r ledgerId)

/-- `w` was reached from `w₁`, in which `arg` has just been registered as `r`,
and `tr` are the steps since then. They satisfy `ok`. -/
def Since (ledgerId : Principal) (arg : AddReserveArg) (r : ReserveId)
    (ok : World → Event → Prop) (w₁ : World) (tr : List Event) (w : World) : Prop :=
  ∃ tr₀ w₀, Run Step (AddsOther r) (init ledgerId) tr₀ w₀ ∧
    w₀.step (.addReserve arg) = some (w₁, .added (.ok r)) ∧
    Run Step (fun w e => AddsOther r w e ∧ ok w e) w₁ tr w

/-- A reserve that has just been registered. -/
structure Registered (arg : AddReserveArg) (r : ReserveId) (w : World) : Prop where
  record : w.state.reserves[r]? = some ⟨arg.config, 0, []⟩
  idle : ∀ n op, w.ops n = some op → op.reserveId ≠ r
  uncommitted : w.history r = []
  fresh : Fresh w

theorem Since.registered {ledgerId : Principal} {arg : AddReserveArg} {r : ReserveId}
    {ok : World → Event → Prop} {w₁ w : World} {tr : List Event}
    (h : Since ledgerId arg r ok w₁ tr w) : Registered arg r w₁ := by
  obtain ⟨tr₀, w₀, h₀, hs, -⟩ := h
  have hu := untouched_run h₀
  have hf : Fresh w₀ := h₀.invariant (fun _ _ _ _ hf hs => hf.step hs) (fresh_init ledgerId)
  obtain ⟨arg, ⟨⟩, rfl, -, rfl⟩ := (step_did hs).added_ok
  exact ⟨by simp, hu.idle, hu.uncommitted, hf⟩

/-- A computed run since a registration. -/
theorem since_last {arg : AddReserveArg} {ok : World → Event → Prop} {tr : List Event}
    (okb : World → Event → Bool) (hok : ∀ w e, okb w e = true → AddsOther 0 w e ∧ ok w e)
    (ha : ((init Sample.ledgerId).step (.addReserve arg)).map Prod.snd = some (.added (.ok 0)))
    (h : (exec step (Sample.registered arg) tr).isSome = true)
    (hb : okAlong step okb (Sample.registered arg) tr = true) :
    Since Sample.ledgerId arg 0 ok (Sample.registered arg) tr
      (last step (Sample.registered arg) tr) :=
  ⟨[], _, .nil _, step_last_eq ha, run_last okb hok h hb⟩

theorem Registered.exclusive {arg : AddReserveArg} {r : ReserveId} {w : World}
    (h : Registered arg r w) : Exclusive r w where
  locked n op hop hid := (h.idle n op hop hid).elim
  one n _ op _ hop _ hid _ := (h.idle n op hop hid).elim
  registered n op hop hid := (h.idle n op hop hid).elim

theorem registered_before {r : ReserveId} {w w' : World} {e : Event} {o : Output}
    (ho : o ≠ .added (.ok r)) (hs : w.step e = some (w', o)) {record' : ReserveRecord}
    (hrec' : w'.state.reserves[r]? = some record') :
    ∃ record, w.state.reserves[r]? = some record :=
  Did.registered (w := w.tick e) ho (step_did hs) hrec'

/-! ## The counter -/

/-- The recorded lifetime total is the total of the history. -/
def Tally (r : ReserveId) (w : World) : Prop :=
  ∀ record, w.state.reserves[r]? = some record → record.lifetimeMinted = minted (w.history r)

theorem Registered.tally {arg : AddReserveArg} {r : ReserveId} {w : World}
    (h : Registered arg r w) : Tally r w := by
  intro record hrec
  rw [h.record] at hrec
  cases hrec
  rw [h.uncommitted]
  rfl

theorem Tally.did {r : ReserveId} {w w' : World} {e : Event} {o : Output}
    (ho : o ≠ .added (.ok r)) (h : Tally r w) (hd : Did w e o w') : Tally r w' := by
  intro record' hrec'
  cases hd.wrote hrec' with
  | kept hrec hh => rw [hh, h _ hrec]
  | added => exact (ho rfl).elim
  | updated _ hrec _ hh => rw [hh, ← h _ hrec]
  | @minted _ _ m record _ _ hm =>
    rw [hm.history, minted, Window.total_append, Window.total_singleton]
    exact congrArg (· + m.amount) (h record hm.before)

theorem Tally.step {r : ReserveId} {w w' : World} {e : Event} (ha : AddsOther r w e)
    (h : Tally r w) (hs : Step w e w') : Tally r w' := by
  obtain ⟨o, hs⟩ := hs
  refine Tally.did (w := w.tick e) ?_ h (step_did hs)
  rintro rfl
  exact ha w' hs

/-- The kept events add up to no more than the counter. -/
def EventsBounded (r : ReserveId) (w : World) : Prop :=
  ∀ record, w.state.reserves[r]? = some record → minted record.mintEvents ≤ record.lifetimeMinted

theorem minted_prune_le (l : List MintEvent) (now : Nat) :
    minted (pruneOldEvents l now) ≤ minted l := by
  rw [pruneOldEvents_eq]
  exact Window.total_le_of_sublist List.filter_sublist

theorem EventsBounded.did {r : ReserveId} {w w' : World} {e : Event} {o : Output}
    (h : EventsBounded r w) (hd : Did w e o w') : EventsBounded r w' := by
  intro record' hrec'
  cases hd.wrote hrec' with
  | kept hrec => exact h _ hrec
  | added => exact Nat.le_refl _
  | @updated _ old _ _ hrec => exact h old hrec
  | @minted _ _ m record _ _ hm =>
    have hp := minted_prune_le (record.mintEvents ++ [⟨m.timestampNs, m.amount⟩]) m.timestampNs
    have ho := h record hm.before
    simp only [ReserveRecord.mint, minted, Window.total_append,
      Window.total_singleton] at hp ho ⊢
    omega

theorem EventsBounded.step {r : ReserveId} {w w' : World} {e : Event} (h : EventsBounded r w)
    (hs : Step w e w') : EventsBounded r w' :=
  let ⟨_, hs⟩ := hs
  EventsBounded.did (w := w.tick e) h (step_did hs)

/-! ## The snapshot of a rebalance -/

/-- What a live rebalance has copied as `f` still is `g` of the record. -/
def Copies {κ : Type} (f : MintSnapshot → κ) (g : ReserveRecord → κ) (r : ReserveId)
    (w : World) : Prop :=
  ∀ n snap record, w.ops n = some (.awaitBalance r snap) → w.state.reserves[r]? = some record →
    f snap = g record

theorem Copies.did {κ : Type} {f : MintSnapshot → κ} {g : ReserveRecord → κ} {r : ReserveId}
    {w w' : World} {e : Event} {o : Output}
    (hfg : ∀ s record, f (State.snapshot s record) = g record)
    (hup : ∀ arg record updated, e = .updateReserve arg → w.state.reserves[arg.id]? = some record →
      arg.id = r → arg.apply record.config = .ok updated →
      g { record with config := updated } = g record)
    (ho : o = .added (.ok r) → w.state.reserves[r]? = none) (hx : Exclusive r w)
    (h : Copies f g r w) (hd : Did w e o w') : Copies f g r w' := by
  intro n snap record hop hrec
  cases hd.became hop with
  | kept hold =>
    cases hd.wrote hrec with
    | kept hrec => exact h n snap record hold hrec
    | added =>
      -- a live operation finds its reserve registered, so `r` is not the new id
      obtain ⟨old, hrec⟩ := hx.registered n _ hold rfl
      cases (ho rfl).symm.trans hrec
    | @updated _ old _ hid hrec' hap =>
      exact (h n snap old hold hrec').trans (hup _ old _ rfl (hid ▸ hrec') hid hap).symm
    | minted hm =>
      -- the operation that ended is the only one on `r`
      cases hx.one n _ _ _ hold hm.live rfl hm.reserve
      cases hm.ended.symm.trans hop
  | rebalance _ hold =>
    cases hd.wrote hrec with
    | kept hrec =>
      cases hold.symm.trans hrec
      exact hfg _ _

/-- A live rebalance has copied the counter and the events as they still are. -/
def SnapshotExact (r : ReserveId) (w : World) : Prop :=
  ∀ n snap record, w.ops n = some (.awaitBalance r snap) → w.state.reserves[r]? = some record →
    snap.lifetimeMinted = record.lifetimeMinted ∧ snap.mintEvents = record.mintEvents

theorem snapshotExact_iff {r : ReserveId} {w : World} : SnapshotExact r w ↔
    Copies (fun snap => (snap.lifetimeMinted, snap.mintEvents))
      (fun record => (record.lifetimeMinted, record.mintEvents)) r w := by
  unfold SnapshotExact Copies
  simp only [Prod.mk.injEq]

theorem SnapshotExact.did {r : ReserveId} {w w' : World} {e : Event} {o : Output}
    (ho : o = .added (.ok r) → w.state.reserves[r]? = none) (hx : Exclusive r w)
    (h : SnapshotExact r w) (hd : Did w e o w') : SnapshotExact r w' :=
  snapshotExact_iff.mpr <|
    (snapshotExact_iff.mp h).did (fun _ _ => rfl) (fun _ _ _ _ _ _ _ => rfl) ho hx hd

theorem Registered.snapshotExact {arg : AddReserveArg} {r : ReserveId} {w : World}
    (h : Registered arg r w) : SnapshotExact r w :=
  fun n _ _ hop _ => (h.idle n _ hop rfl).elim

/-! ## The kept events -/

/-- `time()` does not go back. -/
def ClockMonotone (w : World) (e : Event) : Prop := ∀ t, e.time = some t → w.clock ≤ t

instance (w : World) (e : Event) : Decidable (ClockMonotone w e) :=
  decidable_of_iff (e.time.all (fun t => w.clock ≤ t) = true) <| by
    cases h : e.time <;> simp [ClockMonotone, h]

/-- The history is in order of time, and the record keeps its entries from `c` on,
a year before anything that may still come. -/
structure Recent (r : ReserveId) (c : Nat) (w : World) : Prop where
  cutoff : c ≤ w.clock - nanosPerYear
  past : ∀ m ∈ w.history r, m.timestampNs ≤ w.clock
  kept : ∀ record, w.state.reserves[r]? = some record →
    record.mintEvents = Window.since MintEvent.timestampNs c (w.history r)
  live : ∀ n op m, w.ops n = some op → op.reserveId = r → op.mint = some m →
    m.timestampNs ≤ w.clock ∧ c ≤ m.timestampNs - nanosPerYear ∧
    ∀ m' ∈ w.history r, m'.timestampNs ≤ m.timestampNs

theorem Registered.recent {arg : AddReserveArg} {r : ReserveId} {w : World}
    (h : Registered arg r w) : Recent r 0 w where
  cutoff := Nat.zero_le _
  past := by simp [h.uncommitted]
  kept record hrec := by
    rw [h.record] at hrec
    cases hrec
    simp [h.uncommitted, Window.since]
  live n op m hop hid := (h.idle n op hop hid).elim

theorem Recent.tick {r : ReserveId} {c : Nat} {w : World} {e : Event} (hm : ClockMonotone w e)
    (h : Recent r c w) : Recent r c (w.tick e) := by
  have hle : w.clock ≤ (w.tick e).clock := by
    cases ht : e.time with
    | none => simp [ht]
    | some t => simpa [ht] using hm t ht
  exact ⟨h.cutoff.trans (Nat.sub_le_sub_right hle _), fun m hm => (h.past m hm).trans hle, h.kept,
    fun n op m hop hid hmint =>
      let ⟨h1, h2⟩ := h.live n op m hop hid hmint
      ⟨h1.trans hle, h2⟩⟩

/-- Recording a mint prunes at most what a year-long window no longer counts. -/
theorem pruned_eq {c : Nat} {l : List MintEvent} {m : MintEvent}
    (hc : c ≤ m.timestampNs - nanosPerYear) :
    pruneOldEvents (Window.since MintEvent.timestampNs c l ++ [m]) m.timestampNs =
      Window.since MintEvent.timestampNs (m.timestampNs - nanosPerYear) (l ++ [m]) := by
  have hm : [m] = Window.since MintEvent.timestampNs c [m] := by
    have : c ≤ m.timestampNs := hc.trans (Nat.sub_le _ _)
    simp [Window.since, this]
  rw [pruneOldEvents_eq, hm, ← Window.since_append, Window.since_since hc, ← hm]

theorem Recent.did {r : ReserveId} {c : Nat} {w w' : World} {e : Event} {o : Output}
    (ho : o ≠ .added (.ok r)) (hx : Exclusive r w) (hclk : ∀ t, e.time = some t → w.clock = t)
    (h : Recent r c w) (hd : Did w e o w') : ∃ c', Recent r c' w' := by
  rcases hd.history_cases r with hh | ⟨n, op, m, record, hm⟩
  · refine ⟨c, ?_, ?_, fun record' hrec' => ?_, fun n op m hop hid hmint => ?_⟩
    · rw [hd.clock_eq]
      exact h.cutoff
    · rw [hh, hd.clock_eq]
      exact h.past
    · rw [hh]
      cases hd.wrote hrec' with
      | kept hrec => exact h.kept _ hrec
      | added => exact (ho rfl).elim
      | @updated _ old _ _ hrec => exact h.kept old hrec
      | minted hm => simp [hm.history] at hh
    · rw [hh, hd.clock_eq]
      cases hd.became hop with
      | kept hold => exact h.live n op m hold hid hmint
      | rebalance => cases hmint
      | topup =>
        cases hmint
        rw [← hclk _ rfl]
        exact ⟨Nat.le_refl _, h.cutoff, h.past⟩
      | issued _ hissued =>
        cases hmint
        rw [hissued.time, ← hclk _ rfl]
        exact ⟨Nat.le_refl _, h.cutoff, h.past⟩
  · obtain ⟨hle, hcm, hord⟩ := h.live n op m hm.live hm.reserve hm.mint
    refine ⟨m.timestampNs - nanosPerYear, ?_, ?_, fun record' hrec' => ?_,
      fun n' op' m' hop' hid' => ?_⟩
    · rw [hd.clock_eq]
      omega
    · rw [hm.history, hd.clock_eq]
      simpa [or_imp, forall_and, hle] using h.past
    · cases hd.wrote hrec' with
      | kept _ hh => simp [hm.history] at hh
      | added => exact (ho rfl).elim
      | updated _ _ _ hh => simp [hm.history] at hh
      | minted hm' =>
        have he := hm.history.symm.trans hm'.history
        rw [List.append_cancel_left_eq, List.cons.injEq] at he
        obtain ⟨rfl, -⟩ := he
        rw [hm.history, ReserveRecord.mint, h.kept _ hm'.before]
        exact pruned_eq hcm
    · -- another operation on `r` would be `n` itself
      rcases hd.origin hop' with ⟨old, hold, he, -⟩ | hb
      · cases hx.one n' n old op hold hm.live (he.trans hid') hm.reserve
        cases hm.ended.symm.trans hop'
      · exact (hb.free (hid' ▸ hx.locked n op hm.live hm.reserve)).elim

end World

end ViciMinter
