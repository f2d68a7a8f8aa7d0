import ViciMinter.Lib.Decimal
import ViciMinter.Supply

/-!
# The ledger's books

A block of the ledger shows the transfer and no more. Its memo names the reserve, and the
key of a top-up as far as 32 bytes go: `readMemo` reads them back, whatever the id and
the key are. So what the ledger has minted for a reserve can be added up from its blocks
alone, and two keys that fit are told apart (`auditable`).
-/

namespace ViciMinter

open Lts

/-! ## Memos -/

/-- What a memo says: who minted, for which reserve, and the first bytes of the key. -/
inductive Memo where
  | rebalance (id : Nat)
  | topup (id : Nat) (key : Option (List UInt8))
  deriving DecidableEq, Repr

def Memo.reserve : Memo → Nat
  | rebalance id => id
  | topup id _ => id

def Memo.key : Memo → Option (List UInt8)
  | rebalance _ => none
  | topup _ key => key

def readMemo (memo : List UInt8) : Option Memo :=
  match memo.dropPrefix? (Decimal.bytes "rebalance:") with
  | some digits => some (.rebalance (Decimal.number digits))
  | none =>
    match memo.dropPrefix? (Decimal.bytes "topup:") with
    | some rest =>
      let id := Decimal.number (rest.takeWhile Decimal.isDigit)
      match rest.dropWhile Decimal.isDigit with
      | [] => some (.topup id none)
      | _ :: key => some (.topup id (some key))
    | none => none

/-- The bytes that are left for a key, after `topup:`, the id and a colon. -/
def keyRoom (id : ReserveId) : Nat := 25 - (Decimal.bytes (toString id)).length

/-- The part of a key that a memo holds. -/
def keyPart (id : ReserveId) (key : String) : List UInt8 := (Decimal.bytes key).take (keyRoom id)

theorem memoBytes_eq (text : String) : memoBytes text = (Decimal.bytes text).take 32 := rfl

theorem bytes_id (id : ReserveId) :
    Decimal.bytes (toString id) = Decimal.bytes (toString id.toNat) := rfl

theorem length_id (id : ReserveId) : (Decimal.bytes (toString id)).length ≤ 20 := by
  rw [bytes_id]
  exact Decimal.length_bytes_le (by decide) (id.toNat_lt.trans (by decide))

theorem bytes_rebalance :
    Decimal.bytes "rebalance:" = [114, 101, 98, 97, 108, 97, 110, 99, 101, 58] := by decide

theorem bytes_topup : Decimal.bytes "topup:" = [116, 111, 112, 117, 112, 58] := by decide

theorem bytes_colon : Decimal.bytes ":" = [58] := by decide

theorem readMemo_rebalance (id : ReserveId) :
    readMemo (memoBytes ("rebalance:" ++ toString id)) = some (.rebalance id.toNat) := by
  have hlen := length_id id
  have hwhole : memoBytes ("rebalance:" ++ toString id) =
      Decimal.bytes "rebalance:" ++ Decimal.bytes (toString id) := by
    rw [memoBytes_eq, Decimal.bytes_append]
    refine List.take_of_length_le ?_
    rw [List.length_append, bytes_rebalance]
    simp only [List.length_cons, List.length_nil]
    omega
  rw [hwhole, readMemo, List.dropPrefix?_append_of_beq _ (BEq.rfl), bytes_id]
  simp only [Decimal.number_bytes]

/-- A memo that begins with `topup:` does not begin with `rebalance:`. -/
theorem readMemo_topup_eq (rest : List UInt8) : readMemo (Decimal.bytes "topup:" ++ rest) =
    match rest.dropWhile Decimal.isDigit with
    | [] => some (.topup (Decimal.number (rest.takeWhile Decimal.isDigit)) none)
    | _ :: key =>
      some (.topup (Decimal.number (rest.takeWhile Decimal.isDigit)) (some key)) := by
  have hno : (Decimal.bytes "topup:" ++ rest).dropPrefix? (Decimal.bytes "rebalance:") = none := by
    rw [bytes_rebalance, bytes_topup]
    rfl
  rw [readMemo, hno, List.dropPrefix?_append_of_beq _ (BEq.rfl)]

theorem readMemo_topup (arg : ManualTopupArg) : readMemo (memoBytes arg.memo) =
    some (.topup arg.reserveId.toNat (arg.idempotencyKey.map (keyPart arg.reserveId))) := by
  have hlen := length_id arg.reserveId
  have hsix : (Decimal.bytes "topup:").length = 6 := by rw [bytes_topup]; rfl
  have hone : (Decimal.bytes ":").length = 1 := by rw [bytes_colon]; rfl
  unfold ManualTopupArg.memo
  cases arg.idempotencyKey with
  | none =>
    have hwhole : memoBytes ("topup:" ++ toString arg.reserveId) =
        Decimal.bytes "topup:" ++ (Decimal.bytes (toString arg.reserveId) ++ []) := by
      rw [memoBytes_eq, Decimal.bytes_append, List.append_nil]
      refine List.take_of_length_le ?_
      rw [List.length_append]
      omega
    obtain ⟨hdigits, hrest⟩ := Decimal.digits_before arg.reserveId.toNat [] (by simp)
    rw [hwhole, readMemo_topup_eq, bytes_id, hdigits, hrest, Decimal.number_bytes]
    rfl
  | some key =>
    have hwhole : memoBytes ("topup:" ++ toString arg.reserveId ++ ":" ++ key) =
        Decimal.bytes "topup:" ++ (Decimal.bytes (toString arg.reserveId) ++
          58 :: keyPart arg.reserveId key) := by
      rw [memoBytes_eq, Decimal.bytes_append, Decimal.bytes_append, Decimal.bytes_append,
        List.take_append, List.take_of_length_le]
      · simp only [bytes_colon, List.append_assoc, List.cons_append, List.nil_append,
          List.append_cancel_left_eq, List.cons.injEq, true_and, keyPart, keyRoom]
        congr 1
        simp only [List.length_append, List.length_cons, List.length_nil, hsix]
        omega
      · simp only [List.length_append, hsix, hone]
        omega
    obtain ⟨hdigits, hrest⟩ := Decimal.digits_before arg.reserveId.toNat
      (58 :: keyPart arg.reserveId key) (by rintro b ⟨⟩; decide)
    rw [hwhole, readMemo_topup_eq, bytes_id, hdigits, hrest, Decimal.number_bytes]
    rfl

/-! ## Requests -/

theorem keyPart_inj {id : ReserveId} {key key' : String}
    (hfit : (Decimal.bytes key).length ≤ keyRoom id)
    (hfit' : (Decimal.bytes key').length ≤ keyRoom id) (h : keyPart id key = keyPart id key') :
    key = key' := by
  unfold keyPart at h
  rw [List.take_of_length_le hfit, List.take_of_length_le hfit'] at h
  exact Decimal.bytes_inj h

/-- A memo holds the whole key, if there is one. -/
def Request.Fits (q : Request) : Prop :=
  ∀ key ∈ q.key, (Decimal.bytes key).length ≤ keyRoom q.reserveId

/-- The memo of `q` says for which reserve it was sent, and with which key. -/
def Request.Labelled (q : Request) : Prop :=
  ∃ memo, q.transfer.memo.bind readMemo = some memo ∧ memo.reserve = q.reserveId.toNat ∧
    memo.key = q.key.map (keyPart q.reserveId)

theorem Request.Labelled.reserve {q : Request} (h : q.Labelled) :
    (q.transfer.memo.bind readMemo).map Memo.reserve = some q.reserveId.toNat := by
  obtain ⟨memo, hread, hid, -⟩ := h
  rw [hread, Option.map_some, hid]

/-- Requests with one memo are for one reserve, and on one key if it fits. -/
theorem Request.Labelled.same {q q' : Request} (h : q.Labelled) (h' : q'.Labelled)
    (hmemo : q.transfer.memo = q'.transfer.memo) :
    q.reserveId = q'.reserveId ∧ (q.Fits → q'.Fits → q.key = q'.key) := by
  obtain ⟨memo, hread, hid, hkey⟩ := h
  obtain ⟨memo', hread', hid', hkey'⟩ := h'
  obtain rfl : memo = memo' := Option.some.inj (hread.symm.trans (hmemo ▸ hread'))
  have hr : q.reserveId = q'.reserveId := UInt64.toNat_inj.mp (hid.symm.trans hid')
  refine ⟨hr, fun hfit hfit' => ?_⟩
  unfold Request.Fits at hfit hfit'
  rw [← hr] at hkey' hfit'
  have heq := hkey.symm.trans hkey'
  generalize q.key = key at hfit heq
  generalize q'.key = key' at hfit' heq
  cases key <;> cases key' <;> simp only [Option.map_none, Option.map_some, reduceCtorEq,
    Option.some.injEq] at heq
  · rfl
  · next key key' => rw [keyPart_inj (hfit key rfl) (hfit' key' rfl) heq]

/-- What the transfers that name reserve `r` add up to. -/
def audit (l : List TransferArg) (r : ReserveId) : Nat :=
  Window.total TransferArg.amount
    (l.filter fun t => (t.memo.bind readMemo).map Memo.reserve = some r.toNat)

namespace System

/-- Every request a segment sends is labelled. -/
theorem labelled_receive {w w' : World} {e : Event} {n : OpId} {ledgerId : Principal}
    {t : TransferArg} {op : Op} (hs : w.step e = some (w', .transferCall n ledgerId t))
    (hop : w'.ops n = some op) : Request.Labelled ⟨n, op.reserveId, op.key, t⟩ := by
  rcases World.issue_cases hs with ⟨arg, now, record, rfl, rfl, -, rfl, rfl⟩ |
    ⟨id, snap, reply, now, k, rfl, -, hk, rfl, rfl⟩
  · obtain rfl : Op.awaitTopup ⟨arg, now⟩ = op := by simpa using hop
    exact ⟨_, readMemo_topup arg, rfl, rfl⟩
  · obtain rfl : Op.awaitRebalance k = op := by simpa using hop
    exact ⟨_, readMemo_rebalance k.id, rfl, rfl⟩

theorem labelled_step {s s' : System} {e : SysEvent} (h : ∀ q, s.AtLedger q → q.Labelled)
    (hs : Step s e s') {q : Request} (hq : s'.AtLedger q) : q.Labelled := by
  rcases step_cases hs with ⟨ev, w, o, rfl, hw, rfl⟩ | ⟨_, _, rfl, _, rfl⟩ |
    ⟨n, sent, rfl, hsent, rfl⟩ | ⟨n, sent, rfl, -, rfl⟩ | ⟨_, _, rfl, rfl⟩
  · rcases atLedger_receive hq with hq | ⟨n, _, t, op, rfl, hop, rfl⟩
    · exact h q hq
    · exact labelled_receive hw hop
  · exact h q hq
  · exact h q (atLedger_apply hsent hq)
  · exact h q (atLedger_take hq)
  · exact h q hq

theorem labelled {ledgerId : Principal} {ok : System → SysEvent → Prop} {tr : List SysEvent}
    {s : System} (h : Run Step ok (init ledgerId) tr s) : ∀ q, s.AtLedger q → q.Labelled := by
  refine h.invariant (I := fun s => ∀ q, s.AtLedger q → q.Labelled)
    (fun _ _ _ _ hi hs q hq => labelled_step hi hs hq) ?_
  rintro q (hq | ⟨n, hq⟩) <;> simp [init, Ledger.empty] at hq

/-- Every memo that was sent is read back. So the memos of the blocks are enough to know
what was minted for each reserve, and no two keys that fit share one. -/
theorem auditable {ledgerId : Principal} {tr : List SysEvent} {s : System}
    (h : Run Step anyEvent (init ledgerId) tr s) :
    (∀ q, s.AtLedger q → q.Labelled) ∧
    (∀ r, audit (s.ledger.blocks.map Request.transfer) r = s.supply r) ∧
    ∀ b ∈ s.ledger.blocks, ∀ b' ∈ s.ledger.blocks, b.transfer.memo = b'.transfer.memo →
      b.reserveId = b'.reserveId ∧ (b.Fits → b'.Fits → b.key = b'.key) := by
  have hlabelled : ∀ b ∈ s.ledger.blocks, b.Labelled := fun b hb => labelled h b (.inl hb)
  refine ⟨labelled h, fun r => ?_, fun b hb b' hb' => (hlabelled b hb).same (hlabelled b' hb')⟩
  rw [audit, supply, requested, List.filter_map, Window.total, Window.total, List.map_map]
  congr 2
  refine List.filter_congr fun b hb => ?_
  simp only [Function.comp_apply, (hlabelled b hb).reserve, Option.some.injEq,
    UInt64.toNat_inj]

/-- Two reserves, each topped up and the second one rebalanced as well. -/
def threeMints : List SysEvent :=
  [.minter (.addReserve Sample.reserve),
    .minter (.addReserve { Sample.reserve with account := ⟨⟨[8]⟩, none⟩ }),
    .minter (.manualTopup ⟨0, 10, some "first"⟩ 1), .handle 0 true,
    .minter (.manualTopup ⟨1, 20, some "second"⟩ 2), .handle 1 true,
    .minter (.transferReply 1 (.answered (.ok 1))), .minter (.rebalance 1), .quote 2,
    .minter (.balanceReply 2 (.answered 20) 3), .handle 2 true]

theorem auditable_sample : ∃ s, Run Step anyEvent (init Sample.ledgerId) threeMints s ∧
    (∀ q, s.AtLedger q → q.Labelled) ∧
    audit (s.ledger.blocks.map Request.transfer) 0 = 10 ∧
    audit (s.ledger.blocks.map Request.transfer) 1 = 100 ∧
    ∀ b ∈ s.ledger.blocks, ∀ b' ∈ s.ledger.blocks, b.transfer.memo = b'.transfer.memo →
      b.reserveId = b'.reserveId ∧ (b.Fits → b'.Fits → b.key = b'.key) := by
  have h : Run Step anyEvent (init Sample.ledgerId) threeMints
      (last step (init Sample.ledgerId) threeMints) := run_last_any (by decide)
  obtain ⟨hlabelled, haudit, hsame⟩ := auditable h
  refine ⟨_, h, hlabelled, ?_, ?_, hsame⟩
  · rw [haudit 0]
    decide
  · rw [haudit 1]
    decide

end System

end ViciMinter
