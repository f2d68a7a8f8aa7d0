import ViciMinter.Quota
import ViciMinter.System

/-!
# The supply of a reserve

`supply` is what the ledger has minted for a reserve, and it splits into the
blocks of live operations (`unsettled`) and the others (`settled`). What a
commit adds to the history is the block of the operation that ends, so
everything follows from how the ledger's answers relate to its blocks.

If an answer is a success exactly when the transfer was applied, the settled
blocks add up to the counter (`conservation`). If no transfer is applied whose
operation gets an error, they add up to no more than the counter, and the supply
respects the lifetime maximum (`supply_le_max`). Otherwise an error path forgets
an applied mint: `lost_mints` exceeds the maximum.
-/

namespace ViciMinter

open Lts

abbrev requested (l : List Request) : Nat := Window.total (fun q => q.transfer.amount) l

namespace System

/-- What the ledger has minted for `r`. -/
def supply (s : System) (r : ReserveId) : Nat :=
  requested (s.ledger.blocks.filter fun b => b.reserveId = r)

/-- The part of it whose operations have ended. -/
def settled (s : System) (r : ReserveId) : Nat :=
  requested (s.ledger.blocks.filter fun b => b.reserveId = r ∧ s.world.ops b.op = none)

/-- The part of it whose operations are still live. -/
def unsettled (s : System) (r : ReserveId) : Nat :=
  requested (s.ledger.blocks.filter fun b => b.reserveId = r ∧ s.world.ops b.op ≠ none)

def mintedBy (s : System) (n : OpId) (r : ReserveId) : Nat :=
  requested (s.ledger.blocks.filter fun b => b.reserveId = r ∧ b.op = n)

theorem supply_eq (s : System) (r : ReserveId) : s.settled r + s.unsettled r = s.supply r := by
  unfold settled unsettled
  rw [← Window.total_filter_or, supply]
  · congr 1
    refine List.filter_congr fun b _ => ?_
    by_cases h : s.world.ops b.op = none <;> by_cases hr : b.reserveId = r <;> simp [h, hr]
  · intro b _ h
    simp only [decide_eq_true_eq] at h
    simp [h.2]

theorem mintedBy_eq_zero {s : System} {r : ReserveId} {n : OpId}
    (hno : ∀ b ∈ s.ledger.blocks, b.op = n → b.reserveId = r → b.transfer.amount = 0) :
    s.mintedBy n r = 0 := by
  unfold mintedBy requested Window.total
  rw [List.sum_eq_zero_iff]
  simp only [List.mem_map, List.mem_filter, decide_eq_true_eq]
  rintro _ ⟨b, ⟨hb, hr, hn⟩, rfl⟩
  exact hno b hb hn hr

/-- A live operation whose transfer was applied has minted the mint it will record. -/
theorem Linked.mintedBy_eq {s : System} (h : Linked s) {r : ReserveId} {n : OpId} {op : Op}
    {m : MintEvent} {b : Request} (hop : s.world.ops n = some op) (hm : op.mint = some m)
    (hb : b ∈ s.ledger.blocks) (hbn : b.op = n) :
    s.mintedBy n r = if op.reserveId = r then m.amount else 0 := by
  obtain ⟨hid, -, m', hm', ha⟩ := h.live n op b hop (.inr ⟨hb, hbn⟩)
  obtain rfl : m' = m := Option.some.inj (hm'.symm.trans hm)
  split
  · next hr =>
    have honce := h.once
    obtain ⟨l₁, l₂, hl⟩ := List.append_of_mem hb
    rw [hl, List.pairwise_append, List.pairwise_cons] at honce
    obtain ⟨-, ⟨h₂, -⟩, h₁⟩ := honce
    have e₁ : l₁.filter (fun b => b.reserveId = r ∧ b.op = n) = [] := by
      refine List.filter_eq_nil_iff.mpr fun x hx => ?_
      have := h₁ x hx b List.mem_cons_self
      simp [← hbn, this]
    have e₂ : l₂.filter (fun b => b.reserveId = r ∧ b.op = n) = [] := by
      refine List.filter_eq_nil_iff.mpr fun x hx => ?_
      have := h₂ x hx
      simp [← hbn, this.symm]
    rw [mintedBy, hl, List.filter_append, List.filter_cons_of_pos (by simp [hid.trans hr, hbn]), e₁,
      e₂, List.nil_append, requested, Window.total_singleton, ha]
  · next hr =>
    refine mintedBy_eq_zero fun b' hb' hbn' hr' => ?_
    obtain ⟨hid', -⟩ := h.live n op b' hop (.inr ⟨hb', hbn'⟩)
    exact (hr (hid'.symm.trans hr')).elim

theorem Linked.mintedBy_le {s : System} (h : Linked s) {r : ReserveId} {n : OpId} {op : Op}
    {m : MintEvent} (hop : s.world.ops n = some op) (hm : op.mint = some m) :
    s.mintedBy n r ≤ if op.reserveId = r then m.amount else 0 := by
  by_cases hb : ∃ b ∈ s.ledger.blocks, b.op = n
  · obtain ⟨b, hb, hbn⟩ := hb
    exact (h.mintedBy_eq hop hm hb hbn).le
  · rw [mintedBy_eq_zero fun b hb' hbn _ => (hb ⟨b, hb', hbn⟩).elim]
    exact Nat.zero_le _

theorem Linked.mintedBy_other {s : System} (h : Linked s) {r : ReserveId} {n : OpId} {op : Op}
    (hop : s.world.ops n = some op) (hr : op.reserveId ≠ r) : s.mintedBy n r = 0 :=
  mintedBy_eq_zero fun b hb hbn hbr =>
    (hr ((h.live n op b hop (.inr ⟨hb, hbn⟩)).1.symm.trans hbr)).elim

/-! ## What a segment settles -/

theorem settled_congr {s s' : System} {r : ReserveId} (hb : s'.ledger.blocks = s.ledger.blocks)
    (ho : ∀ b ∈ s.ledger.blocks, s'.world.ops b.op = none ↔ s.world.ops b.op = none) :
    s'.settled r = s.settled r := by
  rw [settled, settled, hb]
  congr 1
  refine List.filter_congr fun b hb => ?_
  simp [ho b hb]

theorem settled_finish {s s' : System} {r : ReserveId} {n : OpId}
    (hb : s'.ledger.blocks = s.ledger.blocks)
    (ho : s'.world.ops = Function.update s.world.ops n none) (hn : s.world.ops n ≠ none) :
    s'.settled r = s.settled r + s.mintedBy n r := by
  rw [settled, settled, mintedBy, ← Window.total_filter_or, hb, ho]
  · congr 1
    refine List.filter_congr fun b _ => ?_
    rw [Function.update_apply]
    by_cases h : b.op = n <;> by_cases hr : b.reserveId = r <;> simp [h, hr]
  · intro b _ h
    simp only [decide_eq_true_eq] at h
    have : b.op ≠ n := by
      rintro rfl
      exact hn h.2
    simp [this]

/-- How operation `n` ends, and what that adds to the history of `r`. -/
inductive Settles (s : System) (w : World) (r : ReserveId) (n : OpId) (op : Op) : Event → Prop where
  | committed {reply : Reply (Except TransferError Nat)} {block : Nat} {m : MintEvent} :
      mintToResult reply = .ok block → op.mint = some m →
      w.history r = s.world.history r ++ (if op.reserveId = r then [m] else []) →
      Settles s w r n op (.transferReply n reply)
  | missed {reply : Reply (Except TransferError Nat)} :
      s.world.state.reserves[op.reserveId]? = none → w.history r = s.world.history r →
      Settles s w r n op (.transferReply n reply)
  | failed {reply : Reply (Except TransferError Nat)} {err : MinterError} :
      mintToResult reply = .error err → w.history r = s.world.history r →
      Settles s w r n op (.transferReply n reply)
  | lost : w.history r = s.world.history r → Settles s w r n op (.lose n)
  /-- A rebalance that decided against a mint. -/
  | unissued {e : Event} : op.mint = none → w.history r = s.world.history r →
      Settles s w r n op e

theorem Linked.segment_settles {s : System} {w : World} {e : Event} {o : Output} (h : Linked s)
    (hs : s.world.step e = some (w, o)) (r : ReserveId) :
    (settled ⟨w, s.ledger.receive w o⟩ r = s.settled r ∧ w.history r = s.world.history r) ∨
    ∃ n op, s.world.ops n = some op ∧
      settled ⟨w, s.ledger.receive w o⟩ r = s.settled r + s.mintedBy n r ∧
      Settles s w r n op e := by
  have hd := World.step_did hs
  have hnone : ∀ {n op}, s.world.ops n = some op → s.world.ops n ≠ none := by
    intro n op hop
    simp [hop]
  cases hd with
  | quiet | added | updated | removed | policySet | released =>
    exact .inl ⟨settled_congr Ledger.receive_blocks fun _ _ => Iff.rfl, rfl⟩
  | begunRebalance | begunTopup =>
    refine .inl ⟨settled_congr Ledger.receive_blocks fun b hb => ?_, rfl⟩
    simp [(h.made b hb).ne]
  | issued hop =>
    refine .inl ⟨settled_congr Ledger.receive_blocks fun b hb => ?_, rfl⟩
    simp only [Function.update_apply]
    split
    · next hbn => simpa [hbn] using hnone hop
    · exact Iff.rfl
  | @dropped n op _ _ hop hend =>
    refine .inr ⟨n, op, hop, settled_finish Ledger.receive_blocks rfl (hnone hop), ?_⟩
    rcases hend with ⟨_, _, _, _, rfl, rfl, _⟩ | ⟨reply, err, _, rfl, hr⟩
    · exact .unissued rfl (by simp)
    · exact .failed hr (by simp)
  | @committed n op m _ _ _ _ hop hm _ hr =>
    exact .inr ⟨n, op, hop, settled_finish Ledger.receive_blocks rfl (hnone hop),
      .committed hr hm (by simp [World.history_finish])⟩
  | @missed n op _ _ _ hop _ hrec =>
    exact .inr ⟨n, op, hop, settled_finish Ledger.receive_blocks rfl (hnone hop),
      .missed hrec (by simp)⟩
  | @lost n op hop =>
    exact .inr ⟨n, op, hop, settled_finish Ledger.receive_blocks rfl (hnone hop),
      .lost (by simp)⟩

theorem settled_apply {s : System} {r : ReserveId} {n : OpId} {q : Request}
    (hq : q.reserveId = r → s.world.ops q.op = none → q.transfer.amount = 0) :
    settled { s with ledger := (s.ledger.take n).apply q } r = s.settled r := by
  rw [settled, settled, Ledger.apply_blocks, Ledger.take_blocks, List.filter_append, requested,
    Window.total_append]
  by_cases h : q.reserveId = r ∧ s.world.ops q.op = none
  · simp [h, hq h.1 h.2]
  · simp [h]

theorem Registered.settled {arg : AddReserveArg} {r : ReserveId} {s : System}
    (h : Registered arg r s) : s.settled r = 0 := by
  unfold System.settled
  rw [List.filter_eq_nil_iff.mpr]
  · rfl
  · intro b hb
    simp [h.unsent b (.inl hb)]

/-! ## Conservation -/

/-- The minter gets `Ok(b)` exactly when its transfer was applied as block `b`;
nothing is applied after its operation has ended, and no operation is lost. -/
structure Reliable (s : System) (e : SysEvent) : Prop where
  answer : ∀ n reply, e = .minter (.transferReply n reply) → ∀ b, mintToResult reply = .ok b ↔
    ∃ q, s.ledger.blocks[b]? = some q ∧ q.op = n
  apply : ∀ n, e = .handle n true → s.world.ops n ≠ none
  keep : ∀ n, e ≠ .minter (.lose n)

/-- What is settled of a registered reserve is its history. -/
def Balanced (r : ReserveId) (s : System) : Prop :=
  ∀ record, s.world.state.reserves[r]? = some record → s.settled r = minted (s.world.history r)

theorem Balanced.segment {r : ReserveId} {s : System} {w : World} {e : Event} {o : Output}
    (hl : Linked s) (hrel : Reliable s (.minter e)) (ho : o ≠ .added (.ok r)) (h : Balanced r s)
    (hs : s.world.step e = some (w, o)) : Balanced r ⟨w, s.ledger.receive w o⟩ := by
  intro record' hrec'
  obtain ⟨record, hrec⟩ := World.registered_before ho hs hrec'
  have hbal := h record hrec
  rcases hl.segment_settles hs r with ⟨h1, h2⟩ | ⟨n, op, hop, h1, hset⟩
  · rw [h1, h2, hbal]
  rw [h1]
  cases hset with
  | @committed reply block m hr hm hh =>
    obtain ⟨q, hq, hqn⟩ := (hrel.answer n reply rfl block).mp hr
    rw [hh, hl.mintedBy_eq hop hm (List.mem_of_getElem? hq) hqn, minted, Window.total_append, hbal]
    split <;> simp
  | missed hnone hh =>
    have hne : op.reserveId ≠ r := by
      rintro rfl
      simp [hrec] at hnone
    rw [hh, hl.mintedBy_other hop hne, hbal, Nat.add_zero]
  | @failed reply err hr hh =>
    have hno : ∀ b ∈ s.ledger.blocks, b.op ≠ n := by
      intro b hb hbn
      obtain ⟨i, hi⟩ := List.getElem?_of_mem hb
      have := (hrel.answer n reply rfl i).mpr ⟨b, hi, hbn⟩
      simp [hr] at this
    rw [hh, mintedBy_eq_zero fun b hb hbn _ => (hno b hb hbn).elim, hbal, Nat.add_zero]
  | lost => exact (hrel.keep n rfl).elim
  | unissued hm hh =>
    rw [hh, mintedBy_eq_zero fun b hb hbn _ => ((hl.unsent hop hm).2 b hb hbn).elim, hbal,
      Nat.add_zero]

theorem Balanced.step {r : ReserveId} {s s' : System} {e : SysEvent} (hl : Linked s)
    (hrel : Reliable s e) (ha : OnMinter (World.AddsOther r) s e) (h : Balanced r s)
    (hs : Step s e s') : Balanced r s' := by
  rcases step_cases hs with ⟨ev, w, o, rfl, hw, rfl⟩ | ⟨_, _, rfl, _, rfl⟩ | ⟨n, q, rfl, hq, rfl⟩ |
    ⟨n, q, rfl, hq, rfl⟩ | ⟨_, _, rfl, rfl⟩
  · refine h.segment hl hrel ?_ hw
    rintro rfl
    exact ha ev rfl w hw
  · exact h
  · intro record hrec
    have hqn := (hl.sent n q hq).1
    rw [settled_apply fun _ hno => (hrel.apply n rfl (hqn ▸ hno)).elim]
    exact h record hrec
  · exact h
  · exact h

/-- With a reliable ledger, the counter and the mints that are not recorded yet
add up to what the ledger has minted, and the kept events to no more than the
counter. -/
theorem conservation {ledgerId : Principal} {arg : AddReserveArg} {r : ReserveId}
    {s₁ s : System} {tr : List SysEvent} (h : Since ledgerId arg r Reliable s₁ tr s)
    {record : ReserveRecord} (hrec : s.world.state.reserves[r]? = some record) :
    record.lifetimeMinted + s.unsettled r = s.supply r ∧
    minted record.mintEvents ≤ record.lifetimeMinted := by
  have hinv : Linked s ∧ Balanced r s ∧ World.Tally r s.world ∧ World.EventsBounded r s.world := by
    refine h.invariant (I := fun s => Linked s ∧ Balanced r s ∧ World.Tally r s.world ∧
      World.EventsBounded r s.world) (fun h₁ => ⟨h₁.linked, ?_, h₁.world.tally, ?_⟩) ?_
    · intro _ _
      rw [h₁.settled, h₁.world.uncommitted]
      rfl
    · intro record hrec
      rw [h₁.world.record] at hrec
      cases hrec
      exact Nat.le_refl _
    · rintro s e s' ha hrel ⟨hl, hb, ht, he⟩ hs
      refine ⟨hl.step hs, hb.step hl hrel ha hs, ?_⟩
      rcases world_step hs with ⟨ev, rfl, hw⟩ | hw
      · exact ⟨ht.step (ha ev rfl) hw, he.step hw⟩
      · exact hw ▸ ⟨ht, he⟩
  obtain ⟨-, hb, ht, he⟩ := hinv
  refine ⟨?_, he record hrec⟩
  rw [ht record hrec, ← hb record hrec]
  exact s.supply_eq r

def reliableTest (s : System) : SysEvent → Bool
  | .minter (.transferReply n reply) =>
    (List.range s.ledger.blocks.length).all (fun i => mintToResult reply = .ok i ↔
      s.ledger.blocks[i]?.map Request.op = some n) &&
    match mintToResult reply with
    | .ok b => b < s.ledger.blocks.length
    | .error _ => true
  | .handle n true => s.world.ops n ≠ none
  | .minter (.lose _) => false
  | _ => true

theorem reliable_of_test {s : System} {e : SysEvent} (h : reliableTest s e = true) :
    Reliable s e where
  answer := by
    rintro n reply rfl b
    unfold reliableTest at h
    rw [Bool.and_eq_true, List.all_eq_true] at h
    obtain ⟨hall, hlt⟩ := h
    by_cases hb : b < s.ledger.blocks.length
    · rw [of_decide_eq_true (hall b (List.mem_range.mpr hb)), Option.map_eq_some_iff]
    · rw [List.getElem?_eq_none (Nat.le_of_not_lt hb)]
      simp only [reduceCtorEq, false_and, exists_false, iff_false]
      intro hr
      rw [hr] at hlt
      exact hb (of_decide_eq_true hlt)
  apply := by
    rintro n rfl
    exact of_decide_eq_true h
  keep := by
    rintro n rfl
    cases h

/-- A rebalance is force-released and overtaken by a top-up. Its reply arrives
after an update, that of the top-up has not arrived. -/
def overtaken : List SysEvent :=
  [.minter (.rebalance 0), .quote 0, .minter (.balanceReply 0 (.answered 0) 1),
    .minter (.releaseStuckMintState 0 none), .handle 0 true,
    .minter (.manualTopup ⟨0, 10, none⟩ 2), .handle 1 true,
    .minter (.updateReserve { Sample.update with maxBalance := some (some 200) }),
    .minter (.transferReply 0 (.answered (.ok 0)))]

theorem conservation_sample : ∃ s₁ s record,
    Since Sample.ledgerId Sample.reserve 0 Reliable s₁ overtaken s ∧
    s.world.state.reserves[(0 : ReserveId)]? = some record ∧ record.lifetimeMinted = 100 ∧
    s.unsettled 0 = 10 ∧ record.lifetimeMinted + s.unsettled 0 = s.supply 0 ∧
    minted record.mintEvents ≤ record.lifetimeMinted := by
  have h : Since Sample.ledgerId Sample.reserve 0 Reliable (registered Sample.reserve) overtaken
      (last step (registered Sample.reserve) overtaken) := by
    refine since_last (fun s e => OnMinter (World.AddsOther 0) s e ∧ reliableTest s e = true) ?_
      (by decide) (by decide) (by decide)
    intro s e hok
    obtain ⟨ha, ht⟩ := of_decide_eq_true hok
    exact ⟨ha, reliable_of_test ht⟩
  obtain ⟨record, hrec, hm⟩ := Option.map_eq_some_iff.mp (show Option.map
    ReserveRecord.lifetimeMinted (last step (registered Sample.reserve)
      overtaken).world.state.reserves[(0 : ReserveId)]? = some 100 by decide)
  exact ⟨_, _, record, h, hrec, hm, by decide, conservation h hrec⟩

/-! ## The supply ceiling -/

/-- No transfer for `r` is applied whose operation gets an error or is lost,
neither before that nor after it. -/
structure ErrorsMintNothing (r : ReserveId) (s : System) (e : SysEvent) : Prop where
  late : ∀ n q, e = .handle n true → s.ledger.inbox n = some q → q.reserveId = r →
    s.world.ops n = none → q.transfer.amount = 0
  failed : ∀ n reply err, e = .minter (.transferReply n reply) → mintToResult reply = .error err →
    ∀ b ∈ s.ledger.blocks, b.op = n → b.reserveId = r → b.transfer.amount = 0
  lost : ∀ n, e = .minter (.lose n) →
    ∀ b ∈ s.ledger.blocks, b.op = n → b.reserveId = r → b.transfer.amount = 0

/-- Nothing is settled that is not in the history. -/
def Backed (r : ReserveId) (s : System) : Prop := s.settled r ≤ minted (s.world.history r)

theorem Backed.segment {r : ReserveId} {s : System} {w : World} {e : Event} {o : Output}
    (hl : Linked s) (hx : World.Exclusive r s.world) (herr : ErrorsMintNothing r s (.minter e))
    (h : Backed r s) (hs : s.world.step e = some (w, o)) :
    Backed r ⟨w, s.ledger.receive w o⟩ := by
  unfold Backed at h ⊢
  rcases hl.segment_settles hs r with ⟨h1, h2⟩ | ⟨n, op, hop, h1, hset⟩
  · rwa [h1, h2]
  rw [h1]
  cases hset with
  | @committed reply block m hr hm hh =>
    have hle := hl.mintedBy_le (r := r) hop hm
    rw [hh]
    simp only [minted, Window.total_append] at h ⊢
    split at hle <;> simp [*] <;> omega
  | missed hnone hh =>
    have hne : op.reserveId ≠ r := by
      rintro rfl
      obtain ⟨record, hrec⟩ := hx.registered n op hop rfl
      simp [hrec] at hnone
    rwa [hh, hl.mintedBy_other hop hne]
  | @failed reply err hr hh => rwa [hh, mintedBy_eq_zero (herr.failed n reply err rfl hr)]
  | lost hh => rwa [hh, mintedBy_eq_zero (herr.lost n rfl)]
  | unissued hm hh =>
    rwa [hh, mintedBy_eq_zero fun b hb hbn _ => ((hl.unsent hop hm).2 b hb hbn).elim]

theorem Backed.step {r : ReserveId} {s s' : System} {e : SysEvent} (hl : Linked s)
    (hx : World.Exclusive r s.world) (herr : ErrorsMintNothing r s e) (h : Backed r s)
    (hs : Step s e s') : Backed r s' := by
  rcases step_cases hs with ⟨ev, w, o, rfl, hw, rfl⟩ | ⟨_, _, rfl, _, rfl⟩ | ⟨n, q, rfl, hq, rfl⟩ |
    ⟨n, q, rfl, hq, rfl⟩ | ⟨_, _, rfl, rfl⟩
  · exact h.segment hl hx herr hw
  · exact h
  · have hqn := (hl.sent n q hq).1
    unfold Backed
    rwa [settled_apply fun hqr hno => herr.late n q rfl hq hqr (hqn ▸ hno)]
  · exact h
  · exact h

theorem unsettled_le {κ : Type} {f : ReserveConfig → Option κ} {le : κ → κ → Prop} {r : ReserveId}
    {s : System} {q : TwoPhase.Slot κ MintEvent} (hl : Linked s) (hx : World.Exclusive r s.world)
    (hq : World.Shows f le r s.world q) :
    s.unsettled r = 0 ∨ ∃ m, q.pending = some m ∧ s.unsettled r ≤ m.amount := by
  by_cases hno : ∃ b ∈ s.ledger.blocks, b.reserveId = r ∧ s.world.ops b.op ≠ none
  · obtain ⟨b, hb, hbr, hlive⟩ := hno
    obtain ⟨op, hop⟩ := Option.ne_none_iff_exists'.mp hlive
    obtain ⟨hid, -, m, hm, -⟩ := hl.live b.op op b hop (.inr ⟨hb, rfl⟩)
    have hopr : op.reserveId = r := hid.symm.trans hbr
    refine .inr ⟨m, (hq.pending b.op op hop hopr).trans hm, ?_⟩
    -- every such block is of the one live operation on `r`
    have hle : s.unsettled r ≤ s.mintedBy b.op r := by
      refine Window.total_filter_le fun b' hb' h => ?_
      obtain ⟨hbr', hlive'⟩ := of_decide_eq_true h
      obtain ⟨op', hop'⟩ := Option.ne_none_iff_exists'.mp hlive'
      have hid' := (hl.live b'.op op' b' hop' (.inr ⟨hb', rfl⟩)).1
      exact decide_eq_true
        ⟨hbr', hx.one b'.op b.op op' op hop' hop (hid'.symm.trans hbr') hopr⟩
    refine hle.trans ((hl.mintedBy_le hop hm).trans ?_)
    rw [if_pos hopr]
  · left
    unfold unsettled
    rw [List.filter_eq_nil_iff.mpr]
    · rfl
    · intro b hb h
      exact hno ⟨b, hb, of_decide_eq_true h⟩

/-- If errors mint nothing, the ledger never mints more for a reserve than its
lifetime maximum. -/
theorem supply_le_max {ledgerId : Principal} {arg : AddReserveArg} {r : ReserveId} {M : Nat}
    {s₁ s : System} {tr : List SysEvent} (hM : arg.lifetimeReceivedMaximum = some M)
    (h : Since ledgerId arg r (fun s e => OnMinter (fun w e => World.ReleaseIdle r w e ∧
      World.Keeps ReserveConfig.lifetimeReceivedMaximum Eq r w e) s e ∧
      ErrorsMintNothing r s e) s₁ tr s) : s.supply r ≤ M := by
  obtain ⟨tr', hw⟩ := h.world fun s e hok => hok.1
  obtain ⟨ht, q, hq, ⟨hgood, hpend⟩, rfl⟩ :=
    World.lifetime_slot (fun _ => rfl) Eq.trans Nat.le_of_eq hM hw
  have hinv : Linked s ∧ Backed r s ∧ World.Tracked r s.world := by
    refine h.invariant (I := fun s => Linked s ∧ Backed r s ∧ World.Tracked r s.world)
      (fun h₁ => ⟨h₁.linked, ?_, h₁.world.tracked⟩) ?_
    · rw [Backed, h₁.settled]
      omega
    · rintro s e s' ha ⟨hok, herr⟩ ⟨hl, hb, ht⟩ hs
      refine ⟨hl.step hs, hb.step hl ht.exclusive herr hs, ?_⟩
      rcases world_step hs with ⟨ev, rfl, hw⟩ | hw
      · exact ht.step (ha ev rfl) (hok ev rfl).1 hw
      · exact hw ▸ ht
  obtain ⟨hl, hb, -⟩ := hinv
  unfold Backed at hb
  rw [← hq.log] at hb
  rw [← s.supply_eq r]
  rcases unsettled_le hl ht.exclusive hq with h0 | ⟨m, hm, hle⟩
  · omega
  · have := hpend m hm
    unfold World.lifetimeAdmits at this
    omega

def lostReplies : List SysEvent :=
  [.minter (.manualTopup ⟨0, 60, none⟩ 1), .handle 0 true,
    .minter (.transferReply 0 (.callFailed "timeout")),
    .minter (.manualTopup ⟨0, 60, none⟩ 2), .handle 1 true,
    .minter (.transferReply 1 (.callFailed "timeout"))]

/-- The ledger has minted 120 for a reserve whose lifetime maximum is 100. -/
theorem lost_mints : ∃ s₁ s, Since Sample.ledgerId World.lifetimeArg 0 (fun s e =>
      OnMinter (World.Keeps ReserveConfig.lifetimeReceivedMaximum Eq 0) s e ∧ Calm s e ∧
      Dedups s e) s₁ lostReplies s ∧
    World.lifetimeArg.lifetimeReceivedMaximum = some 100 ∧ s.supply 0 = 120 :=
  ⟨_, _, since_last (fun s e => OnMinter (World.AddsOther 0) s e ∧
    OnMinter (World.Keeps ReserveConfig.lifetimeReceivedMaximum Eq 0) s e ∧ Calm s e ∧ Dedups s e)
    (fun _ _ => of_decide_eq_true) (by decide) (by decide) (by decide), rfl, by decide⟩

def errorsTest (r : ReserveId) (s : System) : SysEvent → Bool
  | .handle n true => (s.ledger.inbox n).all fun q =>
    q.reserveId = r → s.world.ops n = none → q.transfer.amount = 0
  | .minter (.transferReply n reply) =>
    match mintToResult reply with
    | .ok _ => true
    | .error _ => s.ledger.blocks.all fun b => b.op = n → b.reserveId = r → b.transfer.amount = 0
  | .minter (.lose n) =>
    s.ledger.blocks.all fun b => b.op = n → b.reserveId = r → b.transfer.amount = 0
  | _ => true

theorem errors_of_test {r : ReserveId} {s : System} {e : SysEvent} (h : errorsTest r s e = true) :
    ErrorsMintNothing r s e where
  late := by
    rintro n q rfl hq
    rw [errorsTest, hq] at h
    exact of_decide_eq_true h
  failed := by
    rintro n reply err rfl hr b hb
    rw [errorsTest, hr] at h
    exact of_decide_eq_true (List.all_eq_true.mp h b hb)
  lost := by
    rintro n rfl b hb
    exact of_decide_eq_true (List.all_eq_true.mp h b hb)

def refusedOnce : List SysEvent :=
  [.minter (.manualTopup ⟨0, 60, none⟩ 1), .handle 0 false,
    .minter (.transferReply 0 (.answered (.error (.other "TooOld")))),
    .minter (.manualTopup ⟨0, 100, none⟩ 2), .handle 1 true,
    .minter (.transferReply 1 (.answered (.ok 0)))]

theorem supply_le_max_sample : ∃ s₁ s, Since Sample.ledgerId World.lifetimeArg 0 (fun s e =>
      OnMinter (fun w e => World.ReleaseIdle 0 w e ∧
        World.Keeps ReserveConfig.lifetimeReceivedMaximum Eq 0 w e) s e ∧
      ErrorsMintNothing 0 s e) s₁ refusedOnce s ∧
    s.ledger.blocks.length = 1 ∧ s.supply 0 ≤ 100 := by
  have h : Since Sample.ledgerId World.lifetimeArg 0 (fun s e =>
      OnMinter (fun w e => World.ReleaseIdle 0 w e ∧
        World.Keeps ReserveConfig.lifetimeReceivedMaximum Eq 0 w e) s e ∧
      ErrorsMintNothing 0 s e) (registered World.lifetimeArg) refusedOnce
      (last step (registered World.lifetimeArg) refusedOnce) := by
    refine since_last (fun s e => OnMinter (World.AddsOther 0) s e ∧ Calm s e ∧
      OnMinter (World.Keeps ReserveConfig.lifetimeReceivedMaximum Eq 0) s e ∧
      errorsTest 0 s e = true) ?_ (by decide) (by decide) (by decide)
    intro s e hok
    obtain ⟨ha, hc, hk, ht⟩ := of_decide_eq_true hok
    exact ⟨ha, fun ev he => ⟨World.releaseIdle_of_calm (hc ev he).1, hk ev he⟩, errors_of_test ht⟩
  exact ⟨_, _, h, by decide, supply_le_max rfl h⟩

end System

end ViciMinter
