import ViciMinter.History
import ViciMinter.Lib.TwoPhase

/-!
# Quotas

A setting `f` of a reserve (its lifetime maximum, its rate limits) is a quota:
it admits a mint against the mints so far. A live operation has one mint, and
while it is live the reserve has no other, so a reserve refines a two-phase slot
(`Shows.sim`): a transfer that is issued is admitted, and its commit appends it.

What the slot keeps is then a fact about every reachable state: the lifetime
maximum bounds the counter (`lifetime_max`), and no window of the rate limits,
wherever it lies, holds more than its limit (`rate_limits_hold`).
-/

namespace ViciMinter

open Lts

/-- What both mint paths check of a mint, against the record they have read. -/
structure Fits (config : ReserveConfig) (lifetimeMinted : Nat) (mintEvents : List MintEvent)
    (m : MintEvent) : Prop where
  lifetime : Within config.lifetimeReceivedMaximum (lifetimeMinted + m.amount)
  rate : ∀ limits ∈ config.rateLimits, WithinLimits limits mintEvents m.timestampNs m.amount

namespace World

def Issues (r : ReserveId) (m : MintEvent) (w w' : World) : Prop :=
  (∀ n op, w.ops n = some op → op.reserveId = r → op.mint = none) ∧
  ∃ n op, w'.ops n = some op ∧ op.reserveId = r ∧ op.mint = some m

/-- A mint is issued after it was checked against the record of its reserve. A
rebalance checks it against the configuration it has copied. -/
theorem Did.fits {r : ReserveId} {m : MintEvent} {w w' : World} {e : Event} {o : Output}
    (hx : Exclusive r w) (hse : SnapshotExact r w) (hi : Issues r m w w') (hd : Did w e o w') :
    ∃ record config, w.state.reserves[r]? = some record ∧ e.time = some m.timestampNs ∧
      (config = record.config ∨
        ∃ n snap, w.ops n = some (.awaitBalance r snap) ∧ config = snap.config) ∧
      Fits config record.lifetimeMinted record.mintEvents m := by
  obtain ⟨hnone, n, op, hop, hid, hm⟩ := hi
  cases hd.became hop with
  | kept hold => cases (hnone n op hold hid).symm.trans hm
  | rebalance => cases hm
  | topup _ hrec _ hok =>
    cases hm
    subst hid
    exact ⟨_, _, hrec, rfl, .inl rfl, hok.lifetime, hok.rate⟩
  | issued hold hk =>
    cases hm
    obtain rfl : _ = r := hk.reserve.symm.trans hid
    obtain ⟨record, hrec⟩ := hx.registered _ _ hold rfl
    obtain ⟨h1, h2⟩ := hse _ _ record hold hrec
    refine ⟨record, _, hrec, congrArg some hk.time.symm, .inr ⟨_, _, hold, rfl⟩, ?_, ?_⟩
    · rw [← h1]
      exact hk.minted.lifetime
    · rw [← h2]
      simpa [hk.time] using hk.rate

/-! ## A reserve is a slot -/

section
variable {κ : Type} (f : ReserveConfig → Option κ) (le : κ → κ → Prop) (r : ReserveId)

/-- While `r` stays registered, `f` keeps a value and changes only along `le`. -/
def Keeps (w : World) (e : Event) : Prop :=
  ∀ w' record record' c, Step w e w' → w.state.reserves[r]? = some record →
    w'.state.reserves[r]? = some record' → f record.config = some c →
    ∃ c', f record'.config = some c' ∧ le c c'

instance [DecidableRel le] (w : World) (e : Event) : Decidable (Keeps f le r w e) :=
  decidable_of_iff ((w.step e).all (fun q =>
    match w.state.reserves[r]?, q.1.state.reserves[r]? with
    | some record, some record' =>
      (f record.config).all fun c => (f record'.config).any fun c' => le c c'
    | _, _ => true) = true) <| by
    constructor
    · rintro h w' record record' c ⟨o, hs⟩ hr hr' hf
      simpa [hs, hr, hr', hf, Option.any_eq_true] using h
    · intro h
      rw [Option.all_eq_true]
      rintro ⟨w', o⟩ hs
      dsimp only
      split
      · next record record' hr hr' =>
        rw [Option.all_eq_true]
        intro c hf
        obtain ⟨c', hc', hle⟩ := h w' record record' c ⟨o, hs⟩ hr hr' hf
        simp [hc', hle]
      · rfl

/-- The slot `q` shows what `w` knows about `r`. -/
structure Shows (w : World) (q : TwoPhase.Slot κ MintEvent) : Prop where
  log : q.log = w.history r
  conf : ∀ record, w.state.reserves[r]? = some record → f record.config = some q.conf
  snap : ∀ n snap, w.ops n = some (.awaitBalance r snap) →
    ∃ c, f snap.config = some c ∧ le c q.conf
  pending : ∀ n op, w.ops n = some op → op.reserveId = r → q.pending = op.mint
  idle : (∀ n op, w.ops n = some op → op.reserveId ≠ r) → q.pending = none

/-- What `w` and `w'` have in common when the step was not about `r`. -/
structure SameOn (w w' : World) : Prop where
  history : w'.history r = w.history r
  config : ∀ record', w'.state.reserves[r]? = some record' →
    ∃ record, w.state.reserves[r]? = some record ∧ record'.config = record.config
  ops : ∀ n op, op.reserveId = r → (w'.ops n = some op ↔ w.ops n = some op)

variable {f le r} {w w' : World} {q : TwoPhase.Slot κ MintEvent}

theorem Shows.frame (h : Shows f le r w q) (hs : SameOn r w w') : Shows f le r w' q where
  log := h.log.trans hs.history.symm
  conf record' hrec' := by
    obtain ⟨record, hrec, hc⟩ := hs.config record' hrec'
    rw [hc]
    exact h.conf record hrec
  snap n snap hop := h.snap n snap ((hs.ops n _ rfl).mp hop)
  pending n op hop hid := h.pending n op ((hs.ops n op hid).mp hop) hid
  idle hi := h.idle fun n op hop hid => hi n op ((hs.ops n op hid).mpr hop) hid

theorem sameOn_suspend {s : State} {op : Op} (hr : s.reserves = w.state.reserves)
    (hid : op.reserveId ≠ r) (hn : w.ops w.nextOp = none) : SameOn r w (w.suspend s op) where
  history := rfl
  config record' h := ⟨record', by rwa [← hr], rfl⟩
  ops n op' hid' := by
    rw [suspend_ops_some]
    constructor
    · rintro (⟨-, h⟩ | ⟨-, h⟩)
      · subst h
        exact (hid hid').elim
      · exact h
    · intro h
      refine .inr ⟨?_, h⟩
      rintro rfl
      simp [hn] at h

theorem sameOn_finish {s : State} {n : OpId} {op : Op} {l : List Commit}
    (hop : w.ops n = some op) (hid : op.reserveId ≠ r)
    (hr : s.reserves[r]? = w.state.reserves[r]?) (hl : (w.finish s n l).history r = w.history r) :
    SameOn r w (w.finish s n l) where
  history := hl
  config record' h := ⟨record', by rwa [← hr], rfl⟩
  ops m op' hid' := by
    rw [finish_ops_some]
    refine ⟨fun h => h.2, fun h => ⟨?_, h⟩⟩
    · rintro rfl
      rw [hop] at h
      cases h
      exact hid hid'

theorem sameOn_of_eq (hs : w'.state.reserves = w.state.reserves) (ho : w'.ops = w.ops)
    (hl : w'.commits = w.commits) : SameOn r w w' where
  history := by rw [World.history, hl, World.history]
  config record' h := ⟨record', by rwa [← hs], rfl⟩
  ops n op _ := by rw [ho]

theorem Exclusive.idle_of_free (hx : Exclusive r w) (hfree : r ∉ w.state.reserveMintInflight) :
    ∀ n op, w.ops n = some op → op.reserveId ≠ r :=
  fun n op hop hid => hfree (hx.locked n op hop hid)

theorem Exclusive.idle_finish (hx : Exclusive r w) {s : State} {n : OpId} {op : Op}
    {l : List Commit} (hop : w.ops n = some op) (hid : op.reserveId = r) {m : OpId} {op' : Op}
    (hop' : (w.finish s n l).ops m = some op') : op'.reserveId ≠ r := by
  intro hid'
  obtain ⟨hne, hop'⟩ := finish_ops_some.mp hop'
  exact hne (hx.one m n op' op hop' hop hid' hid)

theorem Exclusive.only_suspend (hx : Exclusive r w) (hfree : r ∉ w.state.reserveMintInflight)
    {s : State} {op : Op} {m : OpId} {op' : Op} (hop' : (w.suspend s op).ops m = some op')
    (hid' : op'.reserveId = r) : op' = op := by
  rcases suspend_ops_some.mp hop' with ⟨-, h⟩ | ⟨-, h⟩
  · exact h.symm
  · exact (hfree (hx.locked m op' h hid')).elim

theorem Shows.finish (h : Shows f le r w q) (hx : Exclusive r w) {s : State} {n : OpId} {op : Op}
    {l : List Commit} {log : List MintEvent} (hop : w.ops n = some op) (hid : op.reserveId = r)
    (hl : log = (w.finish s n l).history r)
    (hr : ∀ record', s.reserves[r]? = some record' →
      ∃ record, w.state.reserves[r]? = some record ∧ record'.config = record.config) :
    Shows f le r (w.finish s n l) { q with log := log, pending := none } where
  log := hl
  conf record' hrec' := by
    obtain ⟨record, hrec, hc⟩ := hr record' hrec'
    rw [hc]
    exact h.conf record hrec
  snap m snap hop' := (hx.idle_finish hop hid hop' rfl).elim
  pending m op' hop' hid' := (hx.idle_finish hop hid hop' hid').elim
  idle _ := rfl

theorem Shows.updated {old : ReserveRecord} {updated : ReserveConfig} {c : κ}
    (htrans : ∀ {a b c}, le a b → le b c → le a c) (h : Shows f le r w q)
    (hc : f updated = some c) (hle : le q.conf c) :
    Shows f le r { w with state := { w.state with
      reserves := w.state.reserves.insert r { old with config := updated } } }
      { q with conf := c } where
  log := h.log
  conf record' hrec' := by
    rw [Std.ExtTreeMap.getElem?_insert_self] at hrec'
    cases hrec'
    exact hc
  snap n snap hop := by
    obtain ⟨c', hc', hle'⟩ := h.snap n snap hop
    exact ⟨c', hc', htrans hle' hle⟩
  pending := h.pending
  idle := h.idle

theorem Shows.begunRebalance {record : ReserveRecord} (hrefl : ∀ c, le c c)
    (h : Shows f le r w q) (hx : Exclusive r w) (hfree : r ∉ w.state.reserveMintInflight)
    (hrec : w.state.reserves[r]? = some record) :
    Shows f le r (w.suspend (w.state.begin r none) (.awaitBalance r (w.state.snapshot record)))
      q := by
  have hnone : q.pending = none := h.idle (hx.idle_of_free hfree)
  refine ⟨h.log, by simpa using h.conf, fun n snap hop => ?_, fun n op hop hid => ?_,
    fun _ => hnone⟩
  · cases hx.only_suspend hfree hop rfl
    exact ⟨q.conf, h.conf record hrec, hrefl _⟩
  · rw [hx.only_suspend hfree hop hid]
    exact hnone

theorem Shows.begunTopup {arg : ManualTopupArg} {now : Nat} (h : Shows f le arg.reserveId w q)
    (hx : Exclusive arg.reserveId w) (hfree : arg.reserveId ∉ w.state.reserveMintInflight) :
    Issues arg.reserveId ⟨now, arg.amount⟩ w
      (w.suspend (w.state.begin arg.reserveId arg.idempotencyKey) (.awaitTopup ⟨arg, now⟩)) ∧
    q.pending = none ∧
    Shows f le arg.reserveId
      (w.suspend (w.state.begin arg.reserveId arg.idempotencyKey) (.awaitTopup ⟨arg, now⟩))
      { q with pending := some ⟨now, arg.amount⟩ } := by
  have hidle := hx.idle_of_free hfree
  have hnew : (w.suspend (w.state.begin arg.reserveId arg.idempotencyKey)
      (.awaitTopup ⟨arg, now⟩)).ops w.nextOp = some (.awaitTopup ⟨arg, now⟩) := by simp
  refine ⟨⟨fun n op hop hid => (hidle n op hop hid).elim, _, _, hnew, rfl, rfl⟩, h.idle hidle,
    h.log, by simpa using h.conf, fun n snap hop => ?_, fun n op hop hid => ?_,
    fun hno => (hno _ _ hnew rfl).elim⟩
  · cases hx.only_suspend hfree hop rfl
  · rw [hx.only_suspend hfree hop hid]
    rfl

theorem Shows.issued {n : OpId} {snap : MintSnapshot} {k : RebalanceMint} (h : Shows f le r w q)
    (hx : Exclusive r w) (hop : w.ops n = some (.awaitBalance r snap)) (hid : k.id = r) :
    Issues r ⟨k.now, k.mintAmount⟩ w
      { w with ops := Function.update w.ops n (some (.awaitRebalance k)) } ∧
    q.pending = none ∧
    Shows f le r { w with ops := Function.update w.ops n (some (.awaitRebalance k)) }
      { q with pending := some ⟨k.now, k.mintAmount⟩ } := by
  have hone : ∀ m op, w.ops m = some op → op.reserveId = r → m = n := fun m op hm hmid =>
    hx.one m n op _ hm hop hmid rfl
  -- the operation is the only one on `r` afterwards, too
  have honly : ∀ m op, Function.update w.ops n (some (.awaitRebalance k)) m = some op →
      op.reserveId = r → op = .awaitRebalance k := by
    intro m op hm hmid
    rcases update_eq_some.mp hm with ⟨-, hm⟩ | ⟨hne, hm⟩
    · exact (Option.some.inj hm).symm
    · exact (hne (hone m op hm hmid)).elim
  refine ⟨⟨fun m op hm hmid => ?_, n, .awaitRebalance k, by simp, hid, rfl⟩,
    h.pending n _ hop rfl, h.log, h.conf, fun m snap' hm => ?_, fun m op hm hmid => ?_,
    fun hno => (hno n (.awaitRebalance k) (by simp) hid).elim⟩
  · obtain rfl := hone m op hm hmid
    cases hop.symm.trans hm
    rfl
  · cases honly m _ hm rfl
  · rw [honly m op hm hmid]
    rfl

theorem sameOn_issued {n : OpId} {id : ReserveId} {snap : MintSnapshot} {k : RebalanceMint}
    (hop : w.ops n = some (.awaitBalance id snap)) (hkid : k.id = id) (hid : id ≠ r) :
    SameOn r w { w with ops := Function.update w.ops n (some (.awaitRebalance k)) } where
  history := rfl
  config record' hrec' := ⟨record', hrec', rfl⟩
  ops m op hmid := by
    rw [update_eq_some]
    constructor
    · rintro (⟨-, hm⟩ | ⟨-, hm⟩)
      · cases hm
        exact (hid (hkid.symm.trans hmid)).elim
      · exact hm
    · intro hm
      refine .inr ⟨?_, hm⟩
      rintro rfl
      cases hop.symm.trans hm
      exact hid hmid

theorem Shows.committed {n : OpId} {op : Op} {m : MintEvent} {record : ReserveRecord}
    {block : Nat} (h : Shows f le op.reserveId w q) (hx : Exclusive op.reserveId w)
    (hop : w.ops n = some op) (hrec : w.state.reserves[op.reserveId]? = some record) :
    Shows f le op.reserveId (w.finish
        (w.state.commit op.reserveId op.key record m.amount m.timestampNs block) n
        [⟨n, op.reserveId, op.key, m, block⟩])
      { q with log := q.log ++ [m], pending := none } := by
  refine h.finish hx hop rfl ?_ fun record' hrec' => ?_
  · simp [history_finish, h.log]
  · rw [commit_record, if_pos rfl] at hrec'
    cases hrec'
    exact ⟨record, hrec, rfl⟩

/-- Every step on a reserve is a step of its slot, or none. -/
theorem Shows.sim {adm : κ → List MintEvent → MintEvent → Prop} {e : Event} {o : Output}
    (hrefl : ∀ c, le c c) (htrans : ∀ {a b c}, le a b → le b c → le a c)
    (hx : Exclusive r w) (hn : w.ops w.nextOp = none) (ho : o ≠ .added (.ok r))
    (hc : ∀ record record' c, w.state.reserves[r]? = some record →
      w'.state.reserves[r]? = some record' → f record.config = some c →
      ∃ c', f record'.config = some c' ∧ le c c')
    (hadm : ∀ m, Issues r m w w' → adm q.conf (w.history r) m) (h : Shows f le r w q)
    (hd : Did w e o w') :
    Shows f le r w' q ∨ ∃ a q', TwoPhase.Step adm le q a q' ∧ Shows f le r w' q' := by
  have hw : ∀ record', w'.state.reserves[r]? = some record' → Wrote r w w' e o record' :=
    fun _ hrec' => hd.wrote hrec'
  cases hd with
  | quiet | policySet | released => exact .inl (h.frame (sameOn_of_eq rfl rfl rfl))
  | added =>
    refine .inl (h.frame ⟨rfl, fun record' hrec' => ⟨record', ?_, rfl⟩, fun _ _ _ => Iff.rfl⟩)
    cases hw record' hrec' with
    | kept hrec => exact hrec
    | added => exact (ho rfl).elim
  | removed =>
    refine .inl (h.frame ⟨rfl, fun record' hrec' => ⟨record', ?_, rfl⟩, fun _ _ _ => Iff.rfl⟩)
    cases hw record' hrec' with
    | kept hrec => exact hrec
  | @updated arg old updated hold =>
    by_cases hid : arg.id = r
    · subst hid
      obtain ⟨c', hc', hle⟩ := hc old { old with config := updated } q.conf hold (by simp)
        (h.conf old hold)
      exact .inr ⟨.configure c', _, .configure hle, h.updated htrans hc' hle⟩
    · refine .inl (h.frame ⟨rfl, fun record' hrec' => ⟨record', ?_, rfl⟩, fun _ _ _ => Iff.rfl⟩)
      cases hw record' hrec' with
      | kept hrec => exact hrec
      | updated hr => exact (hid hr).elim
  | @begunRebalance id record hrec hfree =>
    by_cases hid : id = r
    · subst hid
      exact .inl (h.begunRebalance hrefl hx hfree hrec)
    · exact .inl (h.frame (sameOn_suspend (by simp) hid hn))
  | @begunTopup arg now record hrec hfree =>
    by_cases hid : arg.reserveId = r
    · subst hid
      obtain ⟨hi, hnone, hshow⟩ := h.begunTopup hx hfree
      exact .inr ⟨.accept ⟨now, arg.amount⟩, _, .accept hnone (h.log ▸ hadm _ hi), hshow⟩
    · exact .inl (h.frame (sameOn_suspend (by simp) hid hn))
  | @issued n id snap reply now k hop hk =>
    by_cases hid : id = r
    · subst hid
      obtain ⟨hi, hnone, hshow⟩ := h.issued hx hop hk.reserve
      exact .inr ⟨.accept ⟨k.now, k.mintAmount⟩, _, .accept hnone (h.log ▸ hadm _ hi), hshow⟩
    · exact .inl (h.frame (sameOn_issued hop hk.reserve hid))
  | @dropped n op _ _ hop =>
    by_cases hid : op.reserveId = r
    · exact .inr ⟨.cancel, _, .cancel, h.finish hx hop hid (by simpa using h.log)
        fun record' hrec' => ⟨record', hrec', rfl⟩⟩
    · exact .inl (h.frame (sameOn_finish hop hid rfl (by simp)))
  | @lost n op hop =>
    by_cases hid : op.reserveId = r
    · exact .inr ⟨.cancel, _, .cancel, h.finish hx hop hid (by simpa using h.log)
        fun record' hrec' => ⟨record', hrec', rfl⟩⟩
    · exact .inl (h.frame (sameOn_finish hop hid rfl (by simp)))
  | @committed n op m record block _ _ hop hm hrec =>
    by_cases hid : op.reserveId = r
    · subst hid
      exact .inr ⟨.append, _, .append ((h.pending n op hop rfl).trans hm),
        h.committed hx hop hrec⟩
    · refine .inl (h.frame (sameOn_finish hop hid ?_ ?_))
      · rw [commit_record, if_neg hid]
      · simp [history_finish, hid]
  | @missed n op _ _ _ hop _ hnone =>
    by_cases hid : op.reserveId = r
    · obtain ⟨record, hrec⟩ := hx.registered n op hop hid
      simp [hid, hrec] at hnone
    · exact .inl (h.frame (sameOn_finish hop hid rfl (by simp)))

/-- Along a run a reserve shows a sound slot, if every mint that fits a
configuration is admitted by its setting. -/
theorem slot_run {adm : κ → List MintEvent → MintEvent → Prop} {Good : κ → List MintEvent → Prop}
    {I : World → Event → Prop} {arg : AddReserveArg} {c₀ : κ} {w₁ : World} {tr : List Event}
    (hrefl : ∀ c, le c c) (htrans : ∀ {a b c}, le a b → le b c → le a c)
    (hk : TwoPhase.Keeps adm le Good)
    (hI : ∀ w e, I w e → Fresh w ∧ Exclusive r w ∧ SnapshotExact r w ∧ AddsOther r w e ∧
      Keeps f le r w e)
    (hadm : ∀ w e record config c m, I w e → w.state.reserves[r]? = some record →
      e.time = some m.timestampNs → f config = some c →
      Fits config record.lifetimeMinted record.mintEvents m → adm c (w.history r) m)
    (hr : Run Step I w₁ tr w) (h₁ : Registered arg r w₁) (hf : f arg.config = some c₀)
    (hgood : Good c₀ []) :
    ∃ q, Shows f le r w q ∧ TwoPhase.Sound adm Good q ∧ le c₀ q.conf := by
  have hstart : Shows f le r w₁ ⟨c₀, [], none⟩ := by
    refine ⟨h₁.uncommitted.symm, fun record hrec => ?_, fun n snap hop => ?_, ?_, fun _ => rfl⟩
    · rw [h₁.record] at hrec
      cases hrec
      exact hf
    · exact (h₁.idle n _ hop rfl).elim
    · exact fun n op hop hid => (h₁.idle n op hop hid).elim
  have hsim : ∃ tr' q, Run (TwoPhase.Step adm le) anyEvent ⟨c₀, [], none⟩ tr' q ∧
      Shows f le r w q := by
    refine hr.simulate ?_ hstart
    rintro w e w' q hi ⟨o, hs⟩ hq
    obtain ⟨hfr, hx, hse, ha, hc⟩ := hI w e hi
    have hd := step_did hs
    have hne : o ≠ .added (.ok r) := by
      rintro rfl
      exact ha w' hs
    have hadmit : ∀ m, Issues r m (w.tick e) w' → adm q.conf (w.history r) m := by
      intro m him
      obtain ⟨record, config, hrec, ht, hconf, hfits⟩ := Did.fits hx.tick hse him hd
      -- what was decided on an older configuration still stands
      obtain ⟨c, hfc, hle⟩ : ∃ c, f config = some c ∧ le c q.conf := by
        rcases hconf with rfl | ⟨n, snap, hop, rfl⟩
        exacts [⟨_, hq.conf record hrec, hrefl _⟩, hq.snap n snap hop]
      exact hk.admitted hle (hadm w e record config c m hi hrec ht hfc hfits)
    rcases Shows.sim (w := w.tick e) hrefl htrans hx.tick (hfr _ (Nat.le_refl _)) hne
      (fun record record' c => hc w' record record' c ⟨o, hs⟩) hadmit
      ⟨hq.log, hq.conf, hq.snap, hq.pending, hq.idle⟩ hd with h | ⟨a, q', hstep, h⟩
    exacts [.inl h, .inr ⟨a, q', trivial, hstep, h⟩]
  obtain ⟨tr', q, hq, hshow⟩ := hsim
  exact ⟨q, hshow, TwoPhase.Run.sound hk hq ⟨hgood, nofun⟩, TwoPhase.Run.conf_le hrefl htrans hq⟩

end

/-! ## The lifetime maximum -/

def lifetimeAdmits (M : Nat) (l : List MintEvent) (m : MintEvent) : Prop :=
  minted l + m.amount ≤ M

theorem lifetime_keeps {le : Nat → Nat → Prop} (hle : ∀ {a b}, le a b → a ≤ b) :
    TwoPhase.Keeps lifetimeAdmits le fun M l => minted l ≤ M where
  append _ h := by simpa [minted, lifetimeAdmits] using h
  configure hc h := Nat.le_trans h (hle hc)
  admitted hc h := Nat.le_trans h (hle hc)

/-- No step lowers or clears the lifetime maximum of `r`. -/
abbrev KeepsLifetimeMax : ReserveId → World → Event → Prop :=
  Keeps ReserveConfig.lifetimeReceivedMaximum (· ≤ ·)

/-- What holds of a reserve while no operation on it is force-released. -/
structure Tracked (r : ReserveId) (w : World) : Prop where
  fresh : Fresh w
  exclusive : Exclusive r w
  snapshot : SnapshotExact r w
  tally : Tally r w

theorem Registered.tracked {arg : AddReserveArg} {r : ReserveId} {w : World}
    (h : Registered arg r w) : Tracked r w :=
  ⟨h.fresh, h.exclusive, h.snapshotExact, h.tally⟩

theorem Tracked.step {r : ReserveId} {w w' : World} {e : Event} (ha : AddsOther r w e)
    (hi : ReleaseIdle r w e) (h : Tracked r w) (hs : Step w e w') : Tracked r w' := by
  obtain ⟨o, hs'⟩ := id hs
  have hne : o ≠ .added (.ok r) := by
    rintro rfl
    exact ha w' hs'
  exact ⟨h.fresh.step hs, h.exclusive.step hi hs,
    SnapshotExact.did (w := w.tick e) (fun h => (hne h).elim) h.exclusive.tick h.snapshot
      (step_did hs'),
    Tally.did (w := w.tick e) hne h.tally (step_did hs')⟩

/-- What holds of it while `time()` does not go back either. -/
structure Timed (r : ReserveId) (w : World) : Prop extends Tracked r w where
  recent : ∃ c, Recent r c w

theorem Registered.timed {arg : AddReserveArg} {r : ReserveId} {w : World}
    (h : Registered arg r w) : Timed r w := ⟨h.tracked, 0, h.recent⟩

theorem Timed.step {r : ReserveId} {w w' : World} {e : Event} (ha : AddsOther r w e)
    (hi : ReleaseIdle r w e) (hm : ClockMonotone w e) (h : Timed r w) (hs : Step w e w') :
    Timed r w' := by
  refine ⟨h.toTracked.step ha hi hs, ?_⟩
  obtain ⟨c, hc⟩ := h.recent
  obtain ⟨o, hs⟩ := hs
  refine (hc.tick hm).did ?_ h.exclusive.tick (fun t ht => by simp [ht]) (step_did hs)
  rintro rfl
  exact ha w' hs

theorem Since.timed {ledgerId : Principal} {arg : AddReserveArg} {r : ReserveId} {w₁ w : World}
    {tr : List Event}
    (h : Since ledgerId arg r (fun w e => ReleaseIdle r w e ∧ ClockMonotone w e) w₁ tr w) :
    Timed r w := by
  have h₁ := h.registered
  obtain ⟨_, _, _, _, hr⟩ := h
  exact hr.invariant (fun _ _ _ ⟨ha, hi, hm⟩ ht hs => ht.step ha hi hm hs) h₁.timed

theorem lifetime_slot {le : Nat → Nat → Prop} {ledgerId : Principal} {arg : AddReserveArg}
    {r : ReserveId} {M : Nat} {w₁ w : World} {tr : List Event} (hrefl : ∀ a, le a a)
    (htrans : ∀ {a b c}, le a b → le b c → le a c) (hle : ∀ {a b}, le a b → a ≤ b)
    (hM : arg.lifetimeReceivedMaximum = some M)
    (h : Since ledgerId arg r (fun w e => ReleaseIdle r w e ∧
      Keeps ReserveConfig.lifetimeReceivedMaximum le r w e) w₁ tr w) :
    Tracked r w ∧ ∃ q, Shows ReserveConfig.lifetimeReceivedMaximum le r w q ∧
      TwoPhase.Sound lifetimeAdmits (fun M l => minted l ≤ M) q ∧ le M q.conf := by
  have h₁ := h.registered
  obtain ⟨_, _, _, _, hr⟩ := h
  have hstep : ∀ w e w', AddsOther r w e ∧ ReleaseIdle r w e ∧
      Keeps ReserveConfig.lifetimeReceivedMaximum le r w e →
      Tracked r w → Step w e w' → Tracked r w' := fun _ _ _ hok ht hs => ht.step hok.1 hok.2.1 hs
  refine ⟨hr.invariant hstep h₁.tracked, slot_run hrefl htrans (lifetime_keeps hle) ?_ ?_
    (hr.strengthen hstep h₁.tracked) h₁ hM (Nat.zero_le M)⟩
  · rintro w e ⟨⟨ha, -, hc⟩, ht⟩
    exact ⟨ht.fresh, ht.exclusive, ht.snapshot, ha, hc⟩
  · rintro w e record config c m ⟨-, ht⟩ hrec - hfc hfits
    have := hfits.lifetime
    rw [hfc, ht.tally record hrec] at this
    exact this

/-- The counter of a reserve never exceeds its lifetime maximum. -/
theorem lifetime_max {ledgerId : Principal} {arg : AddReserveArg} {r : ReserveId} {M : Nat}
    {w₁ w : World} {tr : List Event} (hM : arg.lifetimeReceivedMaximum = some M)
    (h : Since ledgerId arg r (fun w e => ReleaseIdle r w e ∧ KeepsLifetimeMax r w e) w₁ tr w)
    {record : ReserveRecord} (hrec : w.state.reserves[r]? = some record) :
    ∃ M', record.config.lifetimeReceivedMaximum = some M' ∧ record.lifetimeMinted ≤ M' := by
  obtain ⟨ht, q, hq, ⟨hgood, -⟩, -⟩ := lifetime_slot Nat.le_refl Nat.le_trans id hM h
  refine ⟨q.conf, hq.conf record hrec, ?_⟩
  rw [ht.tally record hrec, ← hq.log]
  exact hgood

def lifetimeArg : AddReserveArg := { Sample.reserve with lifetimeReceivedMaximum := some 100 }

def lifetimeSample : List Event :=
  [.rebalance 0, .balanceReply 0 (.answered 40) 1, .transferReply 0 (.answered (.ok 7)),
    .updateReserve { Sample.update with lifetimeReceivedMaximum := some (some 130) },
    .manualTopup ⟨0, 70, none⟩ 2, .transferReply 1 (.answered (.ok 8))]

theorem lifetime_max_sample : ∃ w₁ w record M',
    Since Sample.ledgerId lifetimeArg 0 (fun w e => ReleaseIdle 0 w e ∧ KeepsLifetimeMax 0 w e)
      w₁ lifetimeSample w ∧
    w.state.reserves[(0 : ReserveId)]? = some record ∧ record.lifetimeMinted = 130 ∧
    record.config.lifetimeReceivedMaximum = some M' ∧ record.lifetimeMinted ≤ M' := by
  have h : Since Sample.ledgerId lifetimeArg 0
      (fun w e => ReleaseIdle 0 w e ∧ KeepsLifetimeMax 0 w e) (Sample.registered lifetimeArg)
      lifetimeSample (last step (Sample.registered lifetimeArg) lifetimeSample) := by
    refine since_last (fun w e => e.calm ∧ AddsOther 0 w e ∧ KeepsLifetimeMax 0 w e) ?_ (by decide)
      (by decide) (by decide)
    intro w e hok
    obtain ⟨hc, ha, hk⟩ := of_decide_eq_true hok
    exact ⟨ha, releaseIdle_of_calm hc, hk⟩
  obtain ⟨record, hrec, hm⟩ := Option.map_eq_some_iff.mp (show Option.map
    ReserveRecord.lifetimeMinted (last step (Sample.registered lifetimeArg)
      lifetimeSample).state.reserves[(0 : ReserveId)]? = some 130 by decide)
  obtain ⟨M', hM', hle⟩ := lifetime_max rfl h hrec
  exact ⟨_, _, record, M', h, hrec, hm, hM', hle⟩

/-! ## Rate limits -/

/-- What rate limits admit: nothing older than the mints so far, and room in
every window that ends with the mint. -/
def limitsAdmit (limits : RateLimits) (l : List MintEvent) (m : MintEvent) : Prop :=
  (∀ m' ∈ l, m'.timestampNs ≤ m.timestampNs) ∧
  ∀ W L, (W, some L) ∈ limits.windows →
    Window.usage MintEvent.timestampNs MintEvent.amount m.timestampNs W l + m.amount ≤ L

/-- Every window is within its limit, wherever it lies. -/
def limitsHold (limits : RateLimits) (l : List MintEvent) : Prop :=
  ∀ W L, (W, some L) ∈ limits.windows →
    Window.Capped MintEvent.timestampNs MintEvent.amount W L l

theorem limits_keep : TwoPhase.Keeps limitsAdmit Eq limitsHold where
  append h ha W L hW := (h W L hW).append ha.1 (ha.2 W L hW)
  configure := by rintro _ _ _ rfl h; exact h
  admitted := by rintro _ _ _ _ rfl h; exact h

theorem limitsAdmit_of_fits {r : ReserveId} {c : Nat} {w : World} {e : Event}
    {record : ReserveRecord} {config : ReserveConfig} {limits : RateLimits} {m : MintEvent}
    (hm : ClockMonotone w e) (h : Recent r c w) (hrec : w.state.reserves[r]? = some record)
    (ht : e.time = some m.timestampNs) (hl : config.rateLimits = some limits)
    (hfits : Fits config record.lifetimeMinted record.mintEvents m) :
    limitsAdmit limits (w.history r) m := by
  have hnow := hm _ ht
  refine ⟨fun m' hm' => (h.past m' hm').trans hnow, fun W L hW => ?_⟩
  have hfit := hfits.rate limits hl _ hW
  have hyear := windows_le_year hW
  have hcut := h.cutoff
  rw [within_some, usageInWindow_eq, h.kept record hrec, Window.usage_since (by omega)] at hfit
  exact hfit

/-- No interval of the length of a window holds more than the window's limit,
summed over all mints ever committed. -/
theorem rate_limits_hold {ledgerId : Principal} {arg : AddReserveArg} {r : ReserveId}
    {limits : RateLimits} {w₁ w : World} {tr : List Event} (hl : arg.rateLimits = some limits)
    (h : Since ledgerId arg r (fun w e => ReleaseIdle r w e ∧ ClockMonotone w e ∧
      Keeps ReserveConfig.rateLimits Eq r w e) w₁ tr w)
    (W L : Nat) (hW : (W, some L) ∈ limits.windows) (t : Nat) :
    minted ((w.history r).filter fun m => t ≤ m.timestampNs ∧ m.timestampNs ≤ t + W) ≤ L := by
  have h₁ := h.registered
  obtain ⟨_, _, _, _, hr⟩ := h
  have hinv := hr.strengthen (I := Timed r)
    (fun _ _ _ ⟨ha, hi, hm, _⟩ ht hs => ht.step ha hi hm hs) h₁.timed
  have hslot : ∃ q, Shows ReserveConfig.rateLimits Eq r w q ∧
      TwoPhase.Sound limitsAdmit limitsHold q ∧ limits = q.conf := by
    refine slot_run (fun _ => rfl) Eq.trans limits_keep ?_ ?_ hinv h₁ hl
      fun W L _ => Window.Capped.nil W L
    · rintro w e ⟨⟨ha, -, -, hc⟩, ht⟩
      exact ⟨ht.fresh, ht.exclusive, ht.snapshot, ha, hc⟩
    · rintro w e record config c m ⟨⟨-, -, hm, -⟩, -, c', hc⟩ hrec htime hfc hfits
      exact limitsAdmit_of_fits hm hc hrec htime hfc hfits
  obtain ⟨q, hq, ⟨hgood, -⟩, rfl⟩ := hslot
  rw [← hq.log]
  exact hgood W L hW t

def limitsArg : AddReserveArg :=
  { Sample.reserve with rateLimits := some ⟨some 50, none, none, none, none⟩ }

def limitsSample : List Event :=
  [.rebalance 0, .balanceReply 0 (.answered 75) 1, .transferReply 0 (.answered (.ok 7)),
    .manualTopup ⟨0, 25, none⟩ nanosPerHour, .transferReply 1 (.answered (.ok 8))]

theorem rate_limits_hold_sample : ∃ w₁ w,
    Since Sample.ledgerId limitsArg 0 (fun w e => ReleaseIdle 0 w e ∧ ClockMonotone w e ∧
      Keeps ReserveConfig.rateLimits Eq 0 w e) w₁ limitsSample w ∧
    w.history 0 = [⟨1, 25⟩, ⟨nanosPerHour, 25⟩] ∧
    minted ((w.history 0).filter fun m => 1 ≤ m.timestampNs ∧ m.timestampNs ≤ 1 + nanosPerHour)
      ≤ 50 := by
  have h : Since Sample.ledgerId limitsArg 0 (fun w e => ReleaseIdle 0 w e ∧ ClockMonotone w e ∧
      Keeps ReserveConfig.rateLimits Eq 0 w e) (Sample.registered limitsArg) limitsSample
      (last step (Sample.registered limitsArg) limitsSample) := by
    refine since_last (fun w e => e.calm ∧ AddsOther 0 w e ∧ ClockMonotone w e ∧
      Keeps ReserveConfig.rateLimits Eq 0 w e) ?_ (by decide) (by decide) (by decide)
    intro w e hok
    obtain ⟨hc, ha, hm, hk⟩ := of_decide_eq_true hok
    exact ⟨ha, releaseIdle_of_calm hc, hm, hk⟩
  exact ⟨_, _, h, by decide, rate_limits_hold rfl h nanosPerHour 50 (by decide) 1⟩

end World

end ViciMinter
