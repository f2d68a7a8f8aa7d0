import ViciMinter.Calls
import ViciMinter.System

/-!
# The balance ceiling

`max_balance` bounds what a rebalance mints: it reads the balance, and until its
transfer is applied nobody else mints to the account, so the balance it has read
is an upper bound. A manual top-up reads no balance, and its checks do not look
at `max_balance`: in `topup_overfills` one mints above it.

`mints_respect_max` says for one account, and the reserve registered with it, what
is missing: no mint leaves the balance above the maximum, if every top-up is checked
against it and no operation begins while the ledger still has an older transfer to
the account. Nothing is asked of other reserves.
-/

namespace ViciMinter

open Lts

def Request.account (q : Request) : Principal × Subaccount := q.transfer.toAccount.canon

namespace World

variable {account : Principal × Subaccount}

/-! ## The reserve of an account -/

def Owns (w : World) (account : Principal × Subaccount) (r : ReserveId)
    (record : ReserveRecord) : Prop :=
  w.state.reserves[r]? = some record ∧ record.config.account.canon = account

/-- The reserve of the account is not force-released while it has a live operation,
no update sets its `max_balance`, and its id is not in use when it is given out and
not given out again. -/
structure KeepsReserve (account : Principal × Subaccount) (w : World) (e : Event) : Prop where
  release : ∀ r record, w.Owns account r record → ReleaseIdle r w e
  max : ∀ arg record, e = .updateReserve arg → w.Owns account arg.id record →
    arg.maxBalance = none
  idle : ∀ arg, e = .addReserve arg → arg.account.canon = account → ¬ w.Live w.state.nextReserveId
  next : ∀ arg r record, e = .addReserve arg → w.Owns account r record →
    w.state.nextReserveId ≠ r

theorem KeepsReserve.tick {w : World} {e : Event} (h : KeepsReserve account w e) :
    KeepsReserve account (w.tick e) e := ⟨h.release, h.max, h.idle, h.next⟩

section
variable {r : ReserveId} {w w' : World} {e : Event} {o : Output}

/-- The reserve of the account has just been added, or it was that of the account
before the step, with the same maximum. -/
theorem Did.owned (hk : KeepsReserve account w e) (hd : Did w e o w') {record' : ReserveRecord}
    (hown' : w'.Owns account r record') :
    (∃ arg, e = .addReserve arg ∧ o = .added (.ok r) ∧ w.state.nextReserveId = r ∧
      arg.account.canon = account ∧ ∀ id record, ¬ w.Owns account id record) ∨
    ∃ record, w.Owns account r record ∧
      record'.config.maxBalance = record.config.maxBalance := by
  obtain ⟨hrec', hacc'⟩ := hown'
  cases hd.wrote hrec' with
  | kept hrec => exact .inr ⟨record', ⟨hrec, hacc'⟩, rfl⟩
  | added hid hne =>
    refine .inl ⟨_, rfl, rfl, hid, hacc', fun id record hown => hne id record hown.1 ?_⟩
    exact hown.2.trans hacc'.symm
  | updated hid hrec hap =>
    obtain ⟨h1, h2⟩ := UpdateReserveArg.apply_keeps hap
    have hown : w.Owns account r _ := ⟨hrec, (congrArg Account.canon h1).symm.trans hacc'⟩
    rw [hk.max _ _ rfl (hid ▸ hown)] at h2
    exact .inr ⟨_, hown, h2⟩
  | minted hm => exact .inr ⟨_, ⟨hm.before, hacc'⟩, rfl⟩

/-- The reserve of the account stays that of the account until it is removed. -/
theorem Did.still_owned (hk : KeepsReserve account w e) (hd : Did w e o w')
    {record : ReserveRecord} (hown : w.Owns account r record)
    (hrem : e = .removeReserve r → r ∈ w.state.reserveMintInflight) :
    ∃ record', w'.Owns account r record' := by
  rcases hd.still_or_removed hown.1 with ⟨record', hrec'⟩ | ⟨he, hfree, -⟩
  · refine ⟨record', hrec', ?_⟩
    cases hd.wrote hrec' with
    | kept hrec =>
      cases hrec.symm.trans hown.1
      exact hown.2
    | added hid => exact (hk.next _ r record rfl hown hid).elim
    | updated _ hrec hap =>
      cases hrec.symm.trans hown.1
      exact (congrArg Account.canon (UpdateReserveArg.apply_keeps hap).1).trans hown.2
    | minted hm =>
      cases hm.before.symm.trans hown.1
      exact hown.2
  · exact (hfree (hrem he)).elim

end

/-- At most one reserve has the account, its operations exclude each other, and a
rebalance that waits for the balance of the account is one of it and has copied its
account and its maximum. -/
structure Accounts (account : Principal × Subaccount) (w : World) : Prop where
  exclusive : ∀ r record, w.Owns account r record → Exclusive r w
  distinct : ∀ r r' record record', w.Owns account r record → w.Owns account r' record' → r = r'
  copies : ∀ r record, w.Owns account r record →
    Copies (fun snap => (snap.config.account, snap.config.maxBalance))
      (fun record => (record.config.account, record.config.maxBalance)) r w
  waits : ∀ n id snap, w.ops n = some (.awaitBalance id snap) →
    snap.config.account.canon = account → ∃ record, w.Owns account id record

theorem accounts_init (account : Principal × Subaccount) (ledgerId : Principal) :
    Accounts account (init ledgerId) where
  exclusive r _ _ := exclusive_init r ledgerId
  distinct r r' record record' h := by simp [Owns, init, State.default] at h
  copies r record h := by simp [Owns, init, State.default] at h
  waits n id snap h := by simp [init] at h

theorem Accounts.tick {w : World} {e : Event} (h : Accounts account w) :
    Accounts account (w.tick e) :=
  ⟨fun r record hown => (h.exclusive r record hown).tick, h.distinct, h.copies, h.waits⟩

theorem KeepsReserve.unused {r : ReserveId} {w w' : World} {arg : AddReserveArg}
    (hk : KeepsReserve account w (.addReserve arg)) (hacc : arg.account.canon = account)
    (hid : w.state.nextReserveId = r) (hd : Did w (.addReserve arg) (.added (.ok r)) w') {n : OpId}
    {op : Op} (hop : w'.ops n = some op) : op.reserveId ≠ r := by
  intro he
  exact hk.idle arg rfl hacc ⟨n, op, hd.ops_of_calls rfl hop, he.trans hid.symm⟩

theorem Accounts.did {w w' : World} {e : Event} {o : Output} (hk : KeepsReserve account w e)
    (h : Accounts account w) (hd : Did w e o w') : Accounts account w' := by
  refine ⟨fun r record' hown' => ?_, fun r r' record record' hown hown' => ?_,
    fun r record' hown' => ?_, fun n id snap hop hacc => ?_⟩
  · rcases hd.owned hk hown' with ⟨arg, rfl, rfl, hid, hacc, -⟩ | ⟨record, hown, -⟩
    · refine ⟨fun n op hop he => ?_, fun n n' op op' hop _ he => ?_, fun n op hop he => ?_⟩
      all_goals exact (hk.unused hacc hid hd hop he).elim
    · exact (h.exclusive r record hown).did (hk.release r record hown) hd
  · rcases hd.owned hk hown with ⟨arg, rfl, rfl, -, -, hno⟩ | ⟨old, hold, -⟩ <;>
      rcases hd.owned hk hown' with ⟨arg', he, ho, -, -, hno'⟩ | ⟨old', hold', -⟩
    · cases ho
      rfl
    · exact (hno r' old' hold').elim
    · exact (hno' r old hold).elim
    · exact h.distinct r r' old old' hold hold'
  · rcases hd.owned hk hown' with ⟨arg, rfl, rfl, hid, hacc, -⟩ | ⟨record, hown, -⟩
    · exact fun n snap _ hop _ => (hk.unused hacc hid hd hop rfl).elim
    · refine (h.copies r record hown).did (fun _ _ => rfl) ?_ ?_ (h.exclusive r record hown) hd
      · rintro arg old updated rfl hold rfl hap
        cases hown.1.symm.trans hold
        obtain ⟨h1, h2⟩ := UpdateReserveArg.apply_keeps hap
        rw [hk.max arg record rfl hown] at h2
        exact Prod.ext h1 h2
      · rintro rfl
        obtain ⟨arg, rfl, hid, -⟩ := hd.added_ok
        exact (hk.next arg r record rfl hown hid).elim
  · cases hd.became hop with
    | kept hold =>
      obtain ⟨record, hown⟩ := h.waits n id snap hold hacc
      exact hd.still_owned hk hown fun _ => (h.exclusive id record hown).locked n _ hold rfl
    | rebalance _ hrec => exact hd.still_owned hk ⟨hrec, hacc⟩ nofun

theorem Accounts.copied {w : World} (h : Accounts account w) {n : OpId} {id : ReserveId}
    {snap : MintSnapshot} {record : ReserveRecord} (hop : w.ops n = some (.awaitBalance id snap))
    (hown : w.Owns account id record) :
    snap.config.account.canon = account ∧
      snap.config.maxBalance = record.config.maxBalance := by
  obtain ⟨h1, h2⟩ := Prod.ext_iff.mp (h.copies id record hown n snap record hop hown.1)
  exact ⟨(congrArg Account.canon h1).trans hown.2, h2⟩

end World

namespace System

/-! ## What is assumed -/

section
variable (account : Principal × Subaccount)

/-- The minter keeps the reserve of the account, and no transfer for an older reserve
is open under its id when it is given out. -/
structure Steady (s : System) (e : SysEvent) : Prop where
  keeps : OnMinter (World.KeepsReserve account) s e
  unsent : ∀ arg n q, e = .minter (.addReserve arg) → arg.account.canon = account →
    s.ledger.inbox n = some q → q.reserveId ≠ s.world.state.nextReserveId

/-- The minter is told the balance of the account that the ledger has read, and nobody
but the minter credits it while it is the account of a reserve. -/
structure Outside (s : System) (e : SysEvent) : Prop where
  truthful : ∀ n id snap b now, e = .minter (.balanceReply n (.answered b) now) →
    s.world.ops n = some (.awaitBalance id snap) → snap.config.account.canon = account →
    s.ledger.quotes n = some b
  spends : ∀ x r record, e = .move account x → s.world.Owns account r record →
    x ≤ s.ledger.balance account

/-- The event begins an operation on the reserve of the account. -/
def Begins (w : World) : Event → Prop
  | .rebalance id => ∃ record, w.Owns account id record ∧ id ∉ w.state.reserveMintInflight
  | .manualTopup arg now =>
    ∃ record, Starts w.state arg now record ∧ record.config.account.canon = account
  | _ => False

/-- No operation begins on the reserve of the account while the ledger has a transfer to
the account that it has not handled. -/
def NoneOpen (s : System) (e : SysEvent) : Prop :=
  ∀ ev n q, e = .minter ev → Begins account s.world ev → s.ledger.inbox n = some q →
    q.account = account → q.transfer.amount = 0

/-- The check a top-up does not make. -/
def ToppedWithin (s : System) (e : SysEvent) : Prop :=
  ∀ arg now record, e = .minter (.manualTopup arg now) → Starts s.world.state arg now record →
    record.config.account.canon = account → arg.amount = 0 ∨
    Within record.config.maxBalance (s.ledger.balance account + arg.amount)

/-- A mint for the reserve of the account credits the account, and leaves its balance at
most at the maximum. -/
def Respects (s : System) (e : SysEvent) : Prop :=
  ∀ n q record max, e = .handle n true → s.ledger.inbox n = some q →
    s.world.Owns account q.reserveId record → record.config.maxBalance = some max →
    0 < q.transfer.amount →
    q.account = account ∧ s.ledger.balance account + q.transfer.amount ≤ max

/-! ## Quotes and open transfers -/

/-- What a rebalance that waits for the balance of the account is told is at least the
balance, and an open transfer still fits. -/
structure Covered (s : System) : Prop where
  linked : Linked s
  accounts : World.Accounts account s.world
  unasked : ∀ n, s.world.nextOp ≤ n → s.ledger.queries n = none ∧ s.ledger.quotes n = none
  asked : ∀ n id snap a, s.world.ops n = some (.awaitBalance id snap) →
    s.ledger.queries n = some a → a = snap.config.account
  quote : ∀ n id snap b, s.world.ops n = some (.awaitBalance id snap) →
    snap.config.account.canon = account → s.ledger.quotes n = some b → s.ledger.balance account ≤ b
  /-- Nothing is on its way to the account while a rebalance waits for its balance. -/
  apart : ∀ n id snap k q, s.world.ops n = some (.awaitBalance id snap) →
    snap.config.account.canon = account → s.ledger.inbox k = some q → q.account = account →
    q.transfer.amount = 0
  single : ∀ n n' q q', s.ledger.inbox n = some q → s.ledger.inbox n' = some q' →
    q.account = account → q'.account = account →
    n = n' ∨ q.transfer.amount = 0 ∨ q'.transfer.amount = 0
  aimed : ∀ n q record, s.ledger.inbox n = some q → s.world.Owns account q.reserveId record →
    q.account = account
  fits : ∀ n q record, s.ledger.inbox n = some q → s.world.Owns account q.reserveId record →
    q.transfer.amount = 0 ∨
    Within record.config.maxBalance (s.ledger.balance account + q.transfer.amount)

end

variable {account : Principal × Subaccount}

theorem covered_init (account : Principal × Subaccount) (ledgerId : Principal) :
    Covered account (init ledgerId) where
  linked := linked_init ledgerId
  accounts := World.accounts_init account ledgerId
  unasked _ _ := ⟨rfl, rfl⟩
  asked n id snap a h := by simp [init, World.init] at h
  quote n id snap b h := by simp [init, World.init] at h
  apart n id snap k q h := by simp [init, World.init] at h
  single n n' q q' h := by simp [init, Ledger.empty] at h
  aimed n q record h := by simp [init, Ledger.empty] at h
  fits n q record h := by simp [init, Ledger.empty] at h

section
variable {s : System} {w : World}

/-- The reserve of the account had it and its maximum before, if it has an open transfer. -/
def SameReserve (account : Principal × Subaccount) (s : System) (w : World) : Prop :=
  ∀ n q record', s.ledger.inbox n = some q → w.Owns account q.reserveId record' →
    ∃ record, s.world.Owns account q.reserveId record ∧
      record'.config.maxBalance = record.config.maxBalance

/-- A segment that calls nothing and leaves only operations that were there. -/
theorem Covered.of_ops (h : Covered account s) (hl : Linked ⟨w, s.ledger⟩)
    (ha : World.Accounts account w) (hn : s.world.nextOp ≤ w.nextOp)
    (ho : ∀ n op, w.ops n = some op → s.world.ops n = some op) (hr : SameReserve account s w) :
    Covered account ⟨w, s.ledger⟩ where
  linked := hl
  accounts := ha
  unasked n hle := h.unasked n (Nat.le_trans hn hle)
  asked n id snap a hop := h.asked n id snap a (ho _ _ hop)
  quote n id snap b hop := h.quote n id snap b (ho _ _ hop)
  apart n id snap k q hop := h.apart n id snap k q (ho _ _ hop)
  single := h.single
  aimed n q record' hq hown' := by
    obtain ⟨record, hown, -⟩ := hr n q record' hq hown'
    exact h.aimed n q record hq hown
  fits n q record' hq hown' := by
    obtain ⟨record, hown, hmax⟩ := hr n q record' hq hown'
    rw [hmax]
    exact h.fits n q record hq hown

theorem owns_congr {w w' : World} (hr : w.state.reserves = w'.state.reserves) {r : ReserveId}
    {record : ReserveRecord} : w.Owns account r record ↔ w'.Owns account r record := by
  unfold World.Owns
  rw [hr]

theorem Covered.ask {ledgerId : Principal} {id : ReserveId} {snap : MintSnapshot}
    (h : Covered account s)
    (hl : Linked ⟨w, s.ledger.receive w (.balanceCall s.world.nextOp ledgerId
      snap.config.account)⟩) (ha : World.Accounts account w)
    (hn : w.nextOp = s.world.nextOp + 1)
    (ho : w.ops = Function.update s.world.ops s.world.nextOp (some (.awaitBalance id snap)))
    (hr : w.state.reserves = s.world.state.reserves)
    (hnone : ∀ k q, snap.config.account.canon = account → s.ledger.inbox k = some q →
      q.account = account → q.transfer.amount = 0) :
    Covered account ⟨w, s.ledger.receive w (.balanceCall s.world.nextOp ledgerId
      snap.config.account)⟩ where
  linked := hl
  accounts := ha
  unasked n hle := by
    have hlt : s.world.nextOp < n := by simp only [hn] at hle; exact hle
    simpa [Ledger.receive, hlt.ne'] using h.unasked n hlt.le
  asked n id' snap' a hop hq := by
    rw [ho, World.update_eq_some] at hop
    unfold Ledger.receive at hq
    simp only [Function.update_apply] at hq
    rcases hop with ⟨rfl, hop⟩ | ⟨hne, hop⟩
    · cases hop
      simpa using hq.symm
    · rw [if_neg hne] at hq
      exact h.asked n id' snap' a hop hq
  quote n id' snap' b hop hacc hq := by
    rw [ho, World.update_eq_some] at hop
    rcases hop with ⟨rfl, hop⟩ | ⟨hne, hop⟩
    · simp [Ledger.receive, (h.unasked _ (Nat.le_refl _)).2] at hq
    · exact h.quote n id' snap' b hop hacc hq
  apart n id' snap' k q hop hacc := by
    rw [ho, World.update_eq_some] at hop
    rcases hop with ⟨rfl, hop⟩ | ⟨hne, hop⟩
    · cases hop
      exact hnone k q hacc
    · exact h.apart n id' snap' k q hop hacc
  single := h.single
  aimed n q record hq hown := h.aimed n q record hq ((owns_congr hr).mp hown)
  fits n q record hq hown := h.fits n q record hq ((owns_congr hr).mp hown)

/-- A transfer is sent. It goes to the account if and only if its reserve has it; then it
fits, and nothing else is on its way there. -/
theorem Covered.send {n : OpId} {ledgerId : Principal} {arg : TransferArg}
    (h : Covered account s) (op : Op)
    (hl : Linked ⟨w, s.ledger.receive w (.transferCall n ledgerId arg)⟩)
    (ha : World.Accounts account w) (hn : s.world.nextOp ≤ w.nextOp) (hop : w.ops n = some op)
    (hwait : ∀ id snap, op ≠ .awaitBalance id snap)
    (ho : ∀ k op', k ≠ n → w.ops k = some op' → s.world.ops k = some op')
    (hr : w.state.reserves = s.world.state.reserves)
    (hown : arg.toAccount.canon = account → ∃ record, s.world.Owns account op.reserveId record)
    (haim : ∀ record, s.world.Owns account op.reserveId record → arg.toAccount.canon = account)
    (hnone : arg.toAccount.canon = account → ∀ k q, s.ledger.inbox k = some q →
      q.account = account → q.transfer.amount = 0)
    (hfits : ∀ record, s.world.Owns account op.reserveId record → arg.amount = 0 ∨
      Within record.config.maxBalance (s.ledger.balance account + arg.amount)) :
    Covered account ⟨w, s.ledger.receive w (.transferCall n ledgerId arg)⟩ := by
  -- an open transfer is the new one or an old one
  have hin : ∀ k q, (s.ledger.receive w (.transferCall n ledgerId arg)).inbox k = some q →
      k = n ∧ ⟨n, op.reserveId, op.key, arg⟩ = q ∨ k ≠ n ∧ s.ledger.inbox k = some q :=
    fun k q => (Ledger.receive_inbox_some ledgerId hop).mp
  have hne : ∀ k id snap, w.ops k = some (.awaitBalance id snap) → k ≠ n := by
    rintro k id snap hk rfl
    rw [hop] at hk
    exact hwait id snap (Option.some.inj hk)
  have hwaits : ∀ k id snap, w.ops k = some (.awaitBalance id snap) →
      s.world.ops k = some (.awaitBalance id snap) :=
    fun k id snap hk => ho k _ (hne k id snap hk) hk
  have hqueries : (s.ledger.receive w (.transferCall n ledgerId arg)).queries =
      s.ledger.queries := by simp [Ledger.receive, hop]
  refine ⟨hl, ha, fun k hle => ?_, fun k id snap a hk hq => ?_, fun k id snap b hk hacc hq => ?_,
    fun k id snap j q hk hacc hq he => ?_, fun k k' q q' hq hq' he he' => ?_,
    fun k q record hq hrec => ?_, fun k q record hq hrec => ?_⟩
  · simpa [hqueries] using h.unasked k (Nat.le_trans hn hle)
  · exact h.asked k id snap a (hwaits k id snap hk) (by rwa [hqueries] at hq)
  · simpa using h.quote k id snap b (hwaits k id snap hk) hacc (by simpa using hq)
  · rcases hin j q hq with ⟨rfl, rfl⟩ | ⟨-, hq⟩
    · -- two operations on the account would be one
      obtain ⟨record, hrec⟩ := hown he
      obtain ⟨record', hrec'⟩ := ha.waits k id snap hk hacc
      have hrec := (owns_congr hr).mpr hrec
      obtain rfl := ha.distinct _ _ _ _ hrec hrec'
      exact (hne k _ snap hk ((ha.exclusive _ _ hrec).one k j _ op hk hop rfl rfl)).elim
    · exact h.apart k id snap j q (hwaits k id snap hk) hacc hq he
  · rcases hin k q hq with ⟨rfl, rfl⟩ | ⟨-, hold⟩ <;>
      rcases hin k' q' hq' with ⟨rfl, rfl⟩ | ⟨-, hold'⟩
    · exact .inl rfl
    · exact .inr (.inr (hnone he k' q' hold' he'))
    · exact .inr (.inl (hnone he' k q hold he))
    · exact h.single k k' q q' hold hold' he he'
  · rw [owns_congr hr] at hrec
    rcases hin k q hq with ⟨rfl, rfl⟩ | ⟨-, hq⟩
    · exact haim record hrec
    · exact h.aimed k q record hq hrec
  · rw [owns_congr hr] at hrec
    rcases hin k q hq with ⟨rfl, rfl⟩ | ⟨-, hq⟩
    · simpa using hfits record hrec
    · simpa using h.fits k q record hq hrec

end

theorem sameReserve_of_step {s : System} {w : World} {e : Event} {o : Output}
    (hst : Steady account s (.minter e)) (hs : s.world.step e = some (w, o)) :
    SameReserve account s w := by
  intro n q record' hq hown'
  have hd := World.step_did hs
  rcases hd.owned (w := s.world.tick e) (hst.keeps e rfl).tick hown' with
    ⟨arg, rfl, -, hid, hacc, -⟩ | h
  · exact (hst.unsent arg n q rfl hacc hq hid.symm).elim
  · exact h

theorem Covered.segment {s : System} {w : World} {e : Event} {o : Output} (h : Covered account s)
    (hst : Steady account s (.minter e)) (hout : Outside account s (.minter e))
    (hnone : NoneOpen account s (.minter e)) (htop : ToppedWithin account s (.minter e))
    (hs : s.world.step e = some (w, o)) : Covered account ⟨w, s.ledger.receive w o⟩ := by
  have hl := h.linked.segment hs
  have ha : World.Accounts account w :=
    h.accounts.tick.did (w := s.world.tick e) (hst.keeps e rfl).tick (World.step_did hs)
  have hr := sameReserve_of_step hst hs
  have hd := World.step_did hs
  cases hc : o.calls with
  | false =>
    rw [Ledger.receive_of_calls hc] at hl ⊢
    exact h.of_ops hl ha hd.nextOp_le
      (fun n op hop => hd.ops_of_calls (w := s.world.tick e) hc hop) hr
  | true =>
    rcases hd.call_cases hc with ⟨id, record, rfl, hrec, hlock, rfl, rfl⟩ |
      ⟨arg, now, record, rfl, hstart, rfl, rfl⟩ |
      ⟨n, id, snap, reply, now, k, rfl, hop, hk, rfl, rfl⟩
    · refine h.ask hl ha rfl rfl (by simp) fun k q hacc => ?_
      exact hnone _ k q rfl ⟨record, ⟨hrec, hacc⟩, hlock⟩
    · refine h.send (.awaitTopup ⟨arg, now⟩) hl ha (Nat.le_succ _) (by simp) (by simp) ?_ (by simp)
        (fun hacc => ⟨record, hstart.registered, hacc⟩) (fun record' hown => ?_)
        (fun hacc k q => hnone _ k q rfl ⟨record, hstart, hacc⟩) (fun record' hown => ?_)
      · intro k op hk hop
        exact ((World.suspend_ops_some.mp hop).resolve_left fun h => hk h.1).2
      · cases hstart.registered.symm.trans hown.1
        exact hown.2
      · cases hstart.registered.symm.trans hown.1
        exact htop arg now record rfl hstart hown.2
    · have hid : (Op.awaitRebalance k).reserveId = id := hk.reserve
      refine h.send (.awaitRebalance k) hl ha (Nat.le_refl _) (by simp) (by simp) ?_ rfl
        (fun hacc => hid ▸ h.accounts.waits n id snap hop hacc) (fun record hown => ?_)
        (fun hacc j q => h.apart n id snap j q hop hacc) (fun record hown => .inr ?_)
      · intro j op hj hop'
        simpa [hj] using hop'
      · exact (h.accounts.copied hop (hid ▸ hown)).1
      · obtain ⟨hacc, hmax⟩ := h.accounts.copied hop (hid ▸ hown)
        have hq := h.quote n id snap k.balance hop hacc
          (hout.truthful n id snap k.balance now (by rw [hk.balance]) hop hacc)
        rw [← hmax]
        exact hk.minted.balance.mono (Nat.add_le_add_right hq _)

theorem Covered.answer {s s' : System} {n : OpId} (h : Covered account s) (hl : Linked s')
    {a : Account} (hq : s.ledger.queries n = some a)
    (hs : s' = { s with ledger := { s.ledger with
      queries := Function.update s.ledger.queries n none
      quotes := Function.update s.ledger.quotes n (some (s.ledger.balance a.canon)) } }) :
    Covered account s' := by
  subst hs
  refine ⟨hl, h.accounts, fun k hle => ?_, fun k id snap a' hop ha => ?_,
    fun k id snap b hop hacc hb => ?_, h.apart, h.single, h.aimed, h.fits⟩
  · have hne : k ≠ n := by
      rintro rfl
      simp [(h.unasked k hle).1] at hq
    simpa [hne] using h.unasked k hle
  · simp only [Function.update_apply] at ha
    split at ha
    · cases ha
    · exact h.asked k id snap a' hop ha
  · simp only [Function.update_apply] at hb
    split at hb
    · next hk =>
      cases hb
      rw [h.asked k id snap a hop (hk ▸ hq), hacc]
    · exact h.quote k id snap b hop hacc hb

theorem Covered.of_balance {s s' : System} (h : Covered account s) (hl : Linked s')
    (hw : s'.world = s.world) (hqs : s'.ledger.queries = s.ledger.queries)
    (hqt : s'.ledger.quotes = s.ledger.quotes)
    (hin : ∀ k q, s'.ledger.inbox k = some q → s.ledger.inbox k = some q)
    (hbal : ∀ r record, s.world.Owns account r record →
      s'.ledger.balance account ≤ s.ledger.balance account ∨
      (∀ n id snap, s.world.ops n = some (.awaitBalance id snap) →
        snap.config.account.canon ≠ account) ∧
      ∀ k q, s'.ledger.inbox k = some q → q.account = account → q.transfer.amount = 0) :
    Covered account s' where
  linked := hl
  accounts := hw ▸ h.accounts
  unasked k hle := by
    rw [hqs, hqt]
    exact h.unasked k (hw ▸ hle)
  asked k id snap a hop hq := h.asked k id snap a (hw ▸ hop) (hqs ▸ hq)
  quote k id snap b hop hacc hq := by
    rw [hw] at hop
    rw [hqt] at hq
    obtain ⟨record, hown⟩ := h.accounts.waits k id snap hop hacc
    refine Nat.le_trans ?_ (h.quote k id snap b hop hacc hq)
    rcases hbal id record hown with hle | ⟨hne, -⟩
    · exact hle
    · exact (hne k id snap hop hacc).elim
  apart k id snap j q hop hacc hq := h.apart k id snap j q (hw ▸ hop) hacc (hin j q hq)
  single k k' q q' hq hq' := h.single k k' q q' (hin k q hq) (hin k' q' hq')
  aimed k q record hq hown := h.aimed k q record (hin k q hq) (hw ▸ hown)
  fits k q record hq hown := by
    rw [hw] at hown
    have ha := h.aimed k q record (hin k q hq) hown
    rcases h.fits k q record (hin k q hq) hown with h0 | hfits
    · exact .inl h0
    · rcases hbal _ record hown with hle | ⟨-, h0⟩
      · exact .inr (hfits.mono (Nat.add_le_add_right hle _))
      · exact .inl (h0 k q hq ha)

theorem Covered.apply {s : System} {n : OpId} {q : Request} (h : Covered account s)
    (hl : Linked { s with ledger := (s.ledger.take n).apply q })
    (hq : s.ledger.inbox n = some q) :
    Covered account { s with ledger := (s.ledger.take n).apply q } := by
  have hin : ∀ k q', ((s.ledger.take n).apply q).inbox k = some q' →
      k ≠ n ∧ s.ledger.inbox k = some q' := fun k q' => Ledger.take_inbox_some.mp
  have hbal : ((s.ledger.take n).apply q).balance account =
      s.ledger.balance account + if account = q.account then q.transfer.amount else 0 := by
    unfold Ledger.apply Ledger.take
    simp only [Function.update_apply, Request.account]
    split <;> simp [*]
  refine h.of_balance hl rfl rfl rfl (fun k q' hk => (hin k q' hk).2) fun r record _ => ?_
  rw [hbal]
  by_cases hacc : q.account = account ∧ q.transfer.amount ≠ 0
  · refine .inr ⟨fun k id snap hop he => ?_, fun k q' hk he => ?_⟩
    · exact hacc.2 (h.apart k id snap n q hop he hq hacc.1)
    · obtain ⟨hne, hk⟩ := hin k q' hk
      rcases h.single k n q' q hk hq he hacc.1 with h1 | h1 | h1
      · exact (hne h1).elim
      · exact h1
      · exact (hacc.2 h1).elim
  · left
    split
    · next he => simp [not_and_not_right.mp hacc he.symm]
    · omega

theorem Covered.step {s s' : System} {e : SysEvent} (hst : Steady account s e)
    (hout : Outside account s e) (hnone : NoneOpen account s e) (htop : ToppedWithin account s e)
    (h : Covered account s) (hs : Step s e s') : Covered account s' := by
  have hl := h.linked.step hs
  rcases step_cases hs with ⟨ev, w, o, rfl, hw, rfl⟩ | ⟨n, a, rfl, hq, rfl⟩ |
    ⟨n, q, rfl, hq, rfl⟩ | ⟨n, q, rfl, hq, rfl⟩ | ⟨a, x, rfl, rfl⟩
  · exact h.segment hst hout hnone htop hw
  · exact h.answer hl hq rfl
  · exact h.apply hl hq
  · exact h.of_balance hl rfl rfl rfl (fun k q' hk => (Ledger.take_inbox_some.mp hk).2)
      fun _ _ _ => .inl (Nat.le_refl _)
  · refine h.of_balance hl rfl rfl rfl (fun _ _ => id) fun r record hown => .inl ?_
    simp only [Function.update_apply]
    split
    · next he =>
      subst he
      exact hout.spends x r record rfl hown
    · omega

/-! ## The ceiling -/

theorem Covered.respects {s : System} (h : Covered account s) (e : SysEvent) :
    Respects account s e := by
  rintro n q record max rfl hq hown hmax hpos
  refine ⟨h.aimed n q record hq hown, ?_⟩
  rcases h.fits n q record hq hown with h0 | hfits
  · exact (hpos.ne' h0).elim
  · rwa [hmax, within_some] at hfits

/-- No mint leaves the balance of a reserve above its maximum, if every top-up of it is
checked against it and no operation on it begins while an older transfer to its account
is open. -/
theorem mints_respect_max {ledgerId : Principal} {tr : List SysEvent} {s : System}
    (h : Run Step (fun s e => Steady account s e ∧ Outside account s e ∧ NoneOpen account s e ∧
      ToppedWithin account s e) (init ledgerId) tr s) :
    Run Step (Respects account) (init ledgerId) tr s := by
  have hcovered := h.strengthen (I := Covered account)
    (fun _ _ _ ⟨hst, hout, hnone, htop⟩ hc hs => hc.step hst hout hnone htop hs)
    (covered_init account ledgerId)
  exact hcovered.mono fun _ e ⟨_, hc⟩ => hc.respects e

/-- A top-up that is not within the maximum is on its way all the same. -/
theorem topup_exceeds {s : System} {arg : ManualTopupArg} {now max : Nat}
    {record : ReserveRecord} (hstart : Starts s.world.state arg now record)
    (hacc : record.config.account.canon = account) (hpos : 0 < arg.amount)
    (hmax : record.config.maxBalance = some max)
    (hover : max < s.ledger.balance account + arg.amount) :
    ∃ s', Step s (.minter (.manualTopup arg now)) s' ∧
      ¬ Respects account s' (.handle s.world.nextOp true) := by
  have hw : s.world.step (.manualTopup arg now) =
      some ((s.world.tick (.manualTopup arg now)).suspend
        (s.world.state.begin arg.reserveId arg.idempotencyKey) (.awaitTopup ⟨arg, now⟩),
        .transferCall s.world.nextOp s.world.state.ledgerId
          (TopupMint.transfer ⟨arg, now⟩ record.config.account)) := by
    simp [World.step, World.advance, manualTopupIssue_eq, topupDecision_inr.mpr hstart]
  refine ⟨_, ⟨_, by rw [step, hw]⟩, fun hr => ?_⟩
  have hle := (hr s.world.nextOp ⟨s.world.nextOp, arg.reserveId, arg.idempotencyKey,
    TopupMint.transfer ⟨arg, now⟩ record.config.account⟩ record max rfl
    (by simp [Ledger.receive, Op.reserveId, Op.key])
    ⟨by simpa using hstart.registered, hacc⟩ hmax hpos).2
  rw [Ledger.receive_balance] at hle
  exact absurd hle (Nat.not_le_of_lt hover)

/-! ## Samples -/

/-- The assumptions on the outside, as a test that looks at all open transfers to the
account. The reserves are registered before the first operation. -/
def outsideTest (account : Principal × Subaccount) (s : System) : SysEvent → Bool
  | .minter (.addReserve _) =>
    s.world.nextOp = 0 ∧ s.world.state.reserves[s.world.state.nextReserveId]? = none
  | .minter (.updateReserve arg) => arg.maxBalance = none
  | .minter (.releaseStuckMintState _ _) => false
  | .minter (.balanceReply n (.answered b) _) => s.ledger.quotes n = some b
  | .minter (.rebalance _) => s.opened.all fun q => q.account = account → q.transfer.amount = 0
  | .minter (.manualTopup _ _) =>
    s.opened.all fun q => q.account = account → q.transfer.amount = 0
  | .move a x => x ≤ s.ledger.balance a
  | _ => true

theorem assumed_of_test {s : System} {e : SysEvent} (hl : Linked s)
    (h : outsideTest account s e = true) :
    Steady account s e ∧ Outside account s e ∧ NoneOpen account s e := by
  refine ⟨⟨?_, ?_⟩, ⟨?_, ?_⟩, ?_⟩
  · rintro ev rfl
    refine ⟨?_, ?_, ?_, ?_⟩
    · rintro r record - key rfl
      cases h
    · rintro arg record rfl -
      exact of_decide_eq_true h
    · rintro arg rfl - ⟨n, op, hop, -⟩
      have hzero : s.world.nextOp = 0 := (of_decide_eq_true h).1
      cases (hl.fresh n (hzero ▸ Nat.zero_le n)).symm.trans hop
    · rintro arg r record rfl ⟨hrec, -⟩ rfl
      cases (of_decide_eq_true h).2.symm.trans hrec
  · rintro arg n q rfl - hq
    have hzero : s.world.nextOp = 0 := (of_decide_eq_true h).1
    exact (Nat.not_lt_zero n (hzero ▸ (hl.sent n q hq).2.1)).elim
  · rintro n id snap b now rfl - -
    exact of_decide_eq_true h
  · rintro x r record rfl -
    exact of_decide_eq_true h
  · rintro ev n q rfl hb hq hacc
    have hall : ∀ h : (s.opened.all fun q => q.account = account → q.transfer.amount = 0) = true,
        q.transfer.amount = 0 := fun h =>
      of_decide_eq_true (List.all_eq_true.mp h q (hl.mem_opened hq)) hacc
    cases ev with
    | rebalance | manualTopup => exact hall h
    | _ => cases hb

def toppedTest (account : Principal × Subaccount) (s : System) : SysEvent → Bool
  | .minter (.manualTopup arg _) => (s.world.state.reserves[arg.reserveId]?).all fun record =>
    record.config.account.canon = account → arg.amount = 0 ∨
      Within record.config.maxBalance (s.ledger.balance account + arg.amount)
  | _ => true

theorem topped_of_test {s : System} {e : SysEvent} (h : toppedTest account s e = true) :
    ToppedWithin account s e := by
  rintro arg now record rfl hstart
  rw [toppedTest, hstart.registered] at h
  exact of_decide_eq_true h

def cappedReserve : AddReserveArg := { Sample.reserve with maxBalance := some 150 }

def overfull : List SysEvent :=
  [.minter (.addReserve cappedReserve), .minter (.manualTopup ⟨0, 200, none⟩ 1)]

/-- The reserve holds 200 when the ledger applies it. -/
theorem topup_overfills : ∃ s s' record, Run Step (fun s e =>
      Steady cappedReserve.account.canon s e ∧ Outside cappedReserve.account.canon s e ∧
      NoneOpen cappedReserve.account.canon s e) (init Sample.ledgerId) overfull s ∧
    s.world.Owns cappedReserve.account.canon 0 record ∧
    record.config.maxBalance = some 150 ∧ s.ledger.balance cappedReserve.account.canon = 0 ∧
    s.step (.handle 0 true) = some (s', none) ∧
    s'.ledger.balance cappedReserve.account.canon = 200 ∧
    ¬ Respects cappedReserve.account.canon s (.handle 0 true) := by
  have h : Run Step (fun s e => outsideTest cappedReserve.account.canon s e = true)
      (init Sample.ledgerId) overfull (last step (init Sample.ledgerId) overfull) :=
    run_last (outsideTest cappedReserve.account.canon) (fun _ _ => id) (by decide) (by decide)
  have h := (h.strengthen (fun _ _ _ _ hl hs => Linked.step hl hs) (linked_init _)).mono
    fun s e ⟨ht, hl⟩ => assumed_of_test hl ht
  have hown : (last step (init Sample.ledgerId) overfull).world.Owns cappedReserve.account.canon 0
      ⟨cappedReserve.config, 0, []⟩ := ⟨by decide, rfl⟩
  refine ⟨_, _, _, h, hown, rfl, by decide, step_last_eq (by decide), by decide, fun hr => ?_⟩
  have hle := (hr 0 ⟨0, 0, none, mintToArg cappedReserve.account 200 "topup:0" 1⟩ _ 150 rfl
    (by decide) hown rfl (by decide)).2
  exact absurd hle (by decide)

def openReserve : AddReserveArg := { Sample.reserve with account := ⟨⟨[3]⟩, none⟩ }

/-- A rebalance after a top-up and before one, while the owner spends. Meanwhile the other
reserve is topped up twice, the first time with a lost reply. -/
def spentBetween : List SysEvent :=
  [.minter (.addReserve cappedReserve), .minter (.addReserve openReserve),
    .minter (.manualTopup ⟨1, 500, none⟩ 1), .minter (.transferReply 0 (.callFailed "timeout")),
    .minter (.manualTopup ⟨0, 40, none⟩ 1), .handle 1 true,
    .minter (.transferReply 1 (.answered (.ok 0))),
    .minter (.rebalance 0), .quote 2, .move cappedReserve.account.canon 10,
    .minter (.manualTopup ⟨1, 500, none⟩ 2),
    .minter (.balanceReply 2 (.answered 40) 2), .handle 2 true,
    .minter (.transferReply 2 (.answered (.ok 1))), .handle 0 true, .handle 3 true,
    .minter (.manualTopup ⟨0, 80, none⟩ 3), .handle 4 true]

theorem mints_respect_max_sample : ∃ s, Run Step (fun s e =>
      Steady cappedReserve.account.canon s e ∧ Outside cappedReserve.account.canon s e ∧
      NoneOpen cappedReserve.account.canon s e ∧ ToppedWithin cappedReserve.account.canon s e)
      (init Sample.ledgerId) spentBetween s ∧
    s.ledger.balance cappedReserve.account.canon = 150 ∧
    s.ledger.balance openReserve.account.canon = 1000 ∧
    Run Step (Respects cappedReserve.account.canon) (init Sample.ledgerId) spentBetween s := by
  have h : Run Step (fun s e => outsideTest cappedReserve.account.canon s e = true ∧
      toppedTest cappedReserve.account.canon s e = true)
      (init Sample.ledgerId) spentBetween (last step (init Sample.ledgerId) spentBetween) :=
    run_last (fun s e => outsideTest cappedReserve.account.canon s e = true ∧
      toppedTest cappedReserve.account.canon s e = true)
      (fun _ _ => of_decide_eq_true) (by decide) (by decide)
  have h := (h.strengthen (fun _ _ _ _ hl hs => Linked.step hl hs) (linked_init _)).mono
    fun s e ⟨⟨ht, htop⟩, hl⟩ =>
      let ⟨hst, hout, hnone⟩ := assumed_of_test hl ht
      And.intro hst (And.intro hout (And.intro hnone (topped_of_test htop)))
  exact ⟨_, h, by decide, by decide, mints_respect_max h⟩

end System

end ViciMinter
