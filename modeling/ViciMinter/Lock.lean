import ViciMinter.Steps

/-!
# The mint lock

Under `ReleaseIdle r` (no forced release of `r` while an operation on it is
live) the operations on `r` exclude each other: `Exclusive r`. If this holds for
every reserve, a live top-up also keeps its key pending (`KeysPending`), and if
no operation is lost nothing else is ever locked or pending (`NoLeftover`).
Together these say exactly when the lock is held and a key is pending.

A forced release of a live operation leaves it running without the lock. Its
last segment then releases a lock that may be another operation's:
`kept_iff_spares` says that this is the only way to lose it.
-/

namespace ViciMinter

open Lts

namespace World

/-! ## Step predicates -/

/-- No forced release of `r` while an operation on it is live. -/
def ReleaseIdle (r : ReserveId) (w : World) (e : Event) : Prop :=
  ∀ key, e = .releaseStuckMintState r key → ¬ w.Live r

/-- No forced release of any reserve with a live operation. -/
def ReleasesIdle (w : World) (e : Event) : Prop := ∀ r, ReleaseIdle r w e

/-- No operation is lost. -/
def NotLost (_ : World) (e : Event) : Prop := ∀ n, e ≠ .lose n

/-! ## Mutual exclusion -/

/-- Operations on `r` hold its lock, exclude each other, and find it registered. -/
structure Exclusive (r : ReserveId) (w : World) : Prop where
  locked : ∀ n op, w.ops n = some op → op.reserveId = r → r ∈ w.state.reserveMintInflight
  one : ∀ n n' op op', w.ops n = some op → w.ops n' = some op' → op.reserveId = r →
    op'.reserveId = r → n = n'
  registered : ∀ n op, w.ops n = some op → op.reserveId = r →
    ∃ record, w.state.reserves[r]? = some record

theorem exclusive_init (r : ReserveId) (ledgerId : Principal) : Exclusive r (init ledgerId) where
  locked n op h := by simp [init] at h
  one n n' op op' h := by simp [init] at h
  registered n op h := by simp [init] at h

theorem Exclusive.did {r : ReserveId} {w w' : World} {e : Event} {o : Output}
    (hi : ReleaseIdle r w e) (h : Exclusive r w) (hd : Did w e o w') : Exclusive r w' := by
  refine ⟨fun n op hop hid => ?_, fun n n' op op' hop hop' hid hid' => ?_,
    fun n op hop hid => ?_⟩
  · rcases hd.origin hop with ⟨old, hold, he, -⟩ | hb
    · have hr := h.locked n old hold (he.trans hid)
      rcases hd.unlocked hr with hr | ⟨key, rfl⟩ | ⟨m, op', hop', hid', -, hend⟩
      · exact hr
      · exact (hi key rfl ⟨n, old, hold, he.trans hid⟩).elim
      · -- only `n` itself could have ended on `r`
        cases h.one n m old op' hold hop' (he.trans hid) hid'
        simp [hop] at hend
    · exact hid ▸ hb.locked
  · rcases hd.origin hop with ⟨old, hold, he, -⟩ | hb <;>
      rcases hd.origin hop' with ⟨old', hold', he', -⟩ | hb'
    · exact h.one n n' old old' hold hold' (he.trans hid) (he'.trans hid')
    · exact (hb'.free (hid' ▸ h.locked n old hold (he.trans hid))).elim
    · exact (hb.free (hid ▸ h.locked n' old' hold' (he'.trans hid'))).elim
    · exact hb.next.trans hb'.next.symm
  · rcases hd.origin hop with ⟨old, hold, he, -⟩ | hb
    · obtain ⟨record, hrec⟩ := h.registered n old hold (he.trans hid)
      exact hd.still_registered (h.locked n old hold (he.trans hid)) hrec
    · exact hid ▸ hb.registered

theorem ReleaseIdle.tick {r : ReserveId} {w : World} {e : Event} (h : ReleaseIdle r w e) :
    ReleaseIdle r (w.tick e) e := h

theorem Exclusive.tick {r : ReserveId} {w : World} {e : Event} (h : Exclusive r w) :
    Exclusive r (w.tick e) := ⟨h.locked, h.one, h.registered⟩

theorem Exclusive.step {r : ReserveId} {w w' : World} {e : Event} (hi : ReleaseIdle r w e)
    (h : Exclusive r w) (hs : Step w e w') : Exclusive r w' :=
  let ⟨_, hs⟩ := hs
  h.tick.did hi.tick (step_did hs)

/-! ## Pending keys -/

/-- A live top-up keeps its key pending for its reserve. -/
def KeysPending (w : World) : Prop :=
  ∀ n op (k : String), w.ops n = some op → op.key = some k →
    w.state.idempotency[k]? = some (IdempotencyRecord.pending op.reserveId)

theorem KeysPending.did {w w' : World} {e : Event} {o : Output}
    (hi : ReleasesIdle w e) (hx : ∀ r, Exclusive r w) (h : KeysPending w)
    (hd : Did w e o w') : KeysPending w' := by
  intro n op k hop hk
  rcases hd.origin hop with ⟨old, hold, hid, hkey⟩ | hb
  · have hp := h n old k hold (hkey.trans hk)
    rw [← hid]
    rcases hd.unpended hp with hp | ⟨key, rfl⟩ | ⟨m, op', hop', hk', hend, -⟩
    · exact hp
    · exact (hi old.reserveId key rfl ⟨n, old, hold, rfl⟩).elim
    · -- two live top-ups with one key are on one reserve, so they are one
      have hp' := h m op' k hop' hk'
      rw [hp, Option.some.injEq, IdempotencyRecord.pending.injEq] at hp'
      cases (hx old.reserveId).one n m old op' hold hop' rfl hp'.symm
      simp [hop] at hend
  · exact hb.pending k hk

theorem KeysPending.step {w w' : World} {e : Event} (hi : ReleasesIdle w e)
    (hx : ∀ r, Exclusive r w) (h : KeysPending w) (hs : Step w e w') : KeysPending w' :=
  let ⟨_, hs⟩ := hs
  KeysPending.did (w := w.tick e) hi (fun r => (hx r).tick) h (step_did hs)

/-! ## How an operation ends -/

/-- Neither the lock of `id` nor `key` is taken. -/
structure Cleared (s : State) (id : ReserveId) (key : Option String) : Prop where
  lock : id ∉ s.reserveMintInflight
  key : ∀ (k : String) r, key = some k → s.idempotency[k]? ≠ some (IdempotencyRecord.pending r)

theorem drop_cleared {s : State} {id : ReserveId} {key : Option String}
    (h : ∀ k : String, key = some k →
      s.idempotency[k]? = some (IdempotencyRecord.pending id)) :
    Cleared (s.drop id key) id key where
  lock := by simp
  key k r hk := by simp [dropPending_getElem?, hk, h k hk]

theorem commit_cleared {s : State} {id : ReserveId} {key : Option String} {record : ReserveRecord}
    {a t b : Nat} : Cleared (s.commit id key record a t b) id key where
  lock := by simp
  key k r hk := by simp [commit_getElem?, hk]

/-- However an operation ends, it leaves its lock and its key cleared. -/
theorem Did.cleared {w w' : World} {e : Event} {o : Output} (hd : Did w e o w')
    (hl : NotLost w e) (hx : ∀ r, Exclusive r w) (hp : KeysPending w) {n : OpId} {op : Op}
    (hop : w.ops n = some op) (hend : w'.ops n = none) : Cleared w'.state op.reserveId op.key := by
  cases hd with
  | quiet | added | updated | removed | policySet | released => simp [hop] at hend
  | begunRebalance | begunTopup =>
    by_cases hn : n = w.nextOp
    · simp [hn] at hend
    · simp [hn, hop] at hend
  | @issued m =>
    by_cases hn : n = m
    · simp [hn] at hend
    · simp [hn, hop] at hend
  | @dropped m op' _ _ hop' | @committed m op' _ _ _ _ _ hop' =>
    by_cases hn : n = m
    · subst hn
      cases hop.symm.trans hop'
      first
        | exact commit_cleared
        | exact drop_cleared fun k hk => hp n op k hop hk
    · simp [hn, hop] at hend
  | missed hop' _ hnone =>
    obtain ⟨record, hrec⟩ := (hx _).registered _ _ hop' rfl
    simp [hrec] at hnone
  | lost => exact (hl _ rfl).elim

/-! ## Nothing left over -/

/-- Every lock and every pending key belong to a live operation. -/
structure NoLeftover (w : World) : Prop where
  lock : ∀ r ∈ w.state.reserveMintInflight, w.Live r
  key : ∀ (k : String) r, w.state.idempotency[k]? = some (IdempotencyRecord.pending r) →
    ∃ n op, w.ops n = some op ∧ op.reserveId = r ∧ op.key = some k

theorem NoLeftover.did {w w' : World} {e : Event} {o : Output} (hl : NotLost w e)
    (hx : ∀ r, Exclusive r w) (hp : KeysPending w) (hn : w.ops w.nextOp = none)
    (h : NoLeftover w) (hd : Did w e o w') : NoLeftover w' := by
  refine ⟨fun r hr => ?_, fun k r hk => ?_⟩
  · rcases hd.relocked hr with hold | ⟨hnew, -⟩
    · obtain ⟨n, op, hop, hid⟩ := h.lock r hold
      rcases hd.stays hn hop with ⟨op', hop', hid', -⟩ | hend
      · exact ⟨n, op', hop', hid'.trans hid⟩
      · exact ((hd.cleared hl hx hp hop hend).lock (hid ▸ hr)).elim
    · exact hnew
  · rcases hd.pended hk with hold | ⟨hnew, -⟩
    · obtain ⟨n, op, hop, hid, hkey⟩ := h.key k r hold
      rcases hd.stays hn hop with ⟨op', hop', hid', hkey'⟩ | hend
      · exact ⟨n, op', hop', hid'.trans hid, hkey'.trans hkey⟩
      · exact ((hd.cleared hl hx hp hop hend).key k r hkey hk).elim
    · exact hnew

theorem NoLeftover.tick {w : World} {e : Event} (h : NoLeftover w) : NoLeftover (w.tick e) :=
  ⟨h.lock, h.key⟩

theorem NoLeftover.step {w w' : World} {e : Event} (hl : NotLost w e) (hx : ∀ r, Exclusive r w)
    (hp : KeysPending w) (hn : w.ops w.nextOp = none) (h : NoLeftover w) (hs : Step w e w') :
    NoLeftover w' :=
  let ⟨_, hs⟩ := hs
  NoLeftover.did (w := w.tick e) hl (fun r => (hx r).tick) hp hn h.tick (step_did hs)

/-! ## Exactness -/

/-- No forced release of a reserve with a live operation, and no lost operation. -/
def Guarded (w : World) (e : Event) : Prop := ReleasesIdle w e ∧ NotLost w e

structure Locks (w : World) : Prop where
  fresh : Fresh w
  exclusive : ∀ r, Exclusive r w
  pending : KeysPending w
  rest : NoLeftover w

theorem locks_init (ledgerId : Principal) : Locks (init ledgerId) where
  fresh := fresh_init ledgerId
  exclusive r := exclusive_init r ledgerId
  pending n op k h := by simp [init] at h
  rest := ⟨by simp [init, State.default], by simp [init, State.default]⟩

theorem Locks.step {w w' : World} {e : Event} (hg : Guarded w e) (h : Locks w)
    (hs : Step w e w') : Locks w' :=
  { fresh := h.fresh.step hs
    exclusive := fun r => (h.exclusive r).step (hg.1 r) hs
    pending := h.pending.step hg.1 h.exclusive hs
    rest := h.rest.step hg.2 h.exclusive h.pending (h.fresh _ (Nat.le_refl _)) hs }

/-- The lock and the pending keys say exactly what is live. -/
structure Exact (w : World) : Prop where
  lock : ∀ r, r ∈ w.state.reserveMintInflight ↔ ∃! n, ∃ op, w.ops n = some op ∧ op.reserveId = r
  one : ∀ n n' op op', w.ops n = some op → w.ops n' = some op' → op.reserveId = op'.reserveId →
    n = n'
  key : ∀ (k : String) r, w.state.idempotency[k]? = some (IdempotencyRecord.pending r) ↔
    ∃ n arg now, w.ops n = some (.awaitTopup ⟨arg, now⟩) ∧ arg.reserveId = r ∧
      arg.idempotencyKey = some k

theorem Locks.exact {w : World} (h : Locks w) : Exact w where
  lock r := by
    refine ⟨fun hr => ?_, fun ⟨n, ⟨op, hop, hid⟩, _⟩ => (h.exclusive r).locked n op hop hid⟩
    obtain ⟨n, op, hop, hid⟩ := h.rest.lock r hr
    refine ⟨n, ⟨op, hop, hid⟩, ?_⟩
    rintro n' ⟨op', hop', hid'⟩
    exact (h.exclusive r).one n' n op' op hop' hop hid' hid
  one n n' op op' hop hop' he := (h.exclusive op'.reserveId).one n n' op op' hop hop' he rfl
  key k r := by
    constructor
    · intro hk
      obtain ⟨n, op, hop, hid, hkey⟩ := h.rest.key k r hk
      cases op with
      | awaitTopup t => exact ⟨n, t.arg, t.now, hop, hid, hkey⟩
      | awaitBalance | awaitRebalance => cases hkey
    · rintro ⟨n, arg, now, hop, rfl, hkey⟩
      exact h.pending n _ k hop hkey

/-- A top-up that takes lock and key and then fails its checks leaves both cleared. -/
theorem Did.cleared_topup {w w' : World} {arg : ManualTopupArg} {now : Nat} {s : State}
    {snap : MintSnapshot} {r : Except MinterError ManualTopupResponse}
    (hd : Did w (.manualTopup arg now) (.toppedUp r) w')
    (hb : manualTopupBegin w.state arg = (s, .ok (.started snap))) :
    Cleared w'.state arg.reserveId arg.idempotencyKey := by
  rcases manualTopupBegin_cases w.state arg with ⟨r', -, hns, he⟩ | ⟨record, -, hlock, hkey, -⟩
  · rw [he] at hb
    cases hb
    exact (hns snap rfl).elim
  · cases hd with
    | quiet => exact ⟨hlock, fun k r hk => by simp [hkey k hk]⟩
    | dropped _ h => rcases h with ⟨_, _, _, _, _, h, _⟩ | ⟨_, _, _, h, _⟩ <;> cases h

theorem Did.faultless {w w' : World} {e : Event} {o : Output} (hd : Did w e o w')
    (hx : ∀ r, Exclusive r w) : o.faultless := by
  have hdrop : ∀ o : Output, o.dropped → o.faultless := by
    intro o ho
    cases o <;> first | exact ho | trivial
  cases hd with
  | @quiet _ o _ ho => cases o <;> first | exact ho | trivial
  | dropped _ _ ho => exact hdrop o ho
  | committed _ _ _ _ ho =>
    cases o with
    | rebalanced | toppedUp =>
      obtain ⟨_, _, rfl⟩ := ho
      exact noFault_ok _
    | _ => trivial
  | missed hop _ hnone =>
    obtain ⟨record, hrec⟩ := (hx _).registered _ _ hop rfl
    simp [hrec] at hnone
  | added | updated | removed | policySet | released | begunRebalance | begunTopup | issued |
    lost => trivial

/-- Along guarded runs the locks and pending keys are exact, every operation
that ends clears its own, and the branch of a missing reserve never runs. -/
theorem locks_exact {ledgerId : Principal} {tr : List Event} {w : World}
    (h : Run Step Guarded (init ledgerId) tr w) :
    Exact w ∧ ∀ e w' o, Guarded w e → w.step e = some (w', o) →
      o.faultless ∧
      (∀ n op, w.ops n = some op → w'.ops n = none →
        Cleared w'.state op.reserveId op.key) ∧
      ∀ arg now s snap r, e = .manualTopup arg now →
        manualTopupBegin w.state arg = (s, .ok (.started snap)) → o = .toppedUp r →
        Cleared w'.state arg.reserveId arg.idempotencyKey := by
  have hw : Locks w := h.invariant (fun _ _ _ hg hl hs => hl.step hg hs) (locks_init ledgerId)
  refine ⟨hw.exact, fun e w' o hg hs => ?_⟩
  have hd := step_did hs
  have hx : ∀ r, Exclusive r (w.tick e) := fun r => (hw.exclusive r).tick
  refine ⟨hd.faultless hx, fun n op hop hend => ?_, ?_⟩
  · exact hd.cleared hg.2 hx hw.pending hop hend
  · rintro arg now s snap r rfl hb rfl
    exact hd.cleared_topup hb

theorem guarded_of_calm (w : World) (e : Event) (h : e.calm = true) : Guarded w e := by
  constructor
  · rintro r key rfl
    cases h
  · rintro n rfl
    cases h

theorem releaseIdle_of_calm {r : ReserveId} {w : World} {e : Event} (h : e.calm = true) :
    ReleaseIdle r w e := (guarded_of_calm w e h).1 r

/-- A rebalance and a refused top-up, then a top-up that is still live. -/
def lockSample : List Event :=
  [.addReserve Sample.reserve, .rebalance 0, .manualTopup ⟨0, 5, some "k"⟩ 1,
    .balanceReply 0 (.answered 40) 2, .transferReply 0 (.answered (.ok 7)),
    .manualTopup ⟨0, 5, some "k"⟩ 3]

theorem locks_exact_sample : ∃ w, Run Step Guarded (init Sample.ledgerId) lockSample w ∧
    w.ops 1 = some (.awaitTopup ⟨⟨0, 5, some "k"⟩, 3⟩) ∧ Exact w := by
  have h : Run Step Guarded (init Sample.ledgerId) lockSample
      (last step (init Sample.ledgerId) lockSample) :=
    run_last _ guarded_of_calm (by decide) (by decide)
  exact ⟨_, h, by decide, (locks_exact h).1⟩

end World

end ViciMinter
