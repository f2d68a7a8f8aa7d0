import ViciMinter.Solo

/-!
# Queries and previews

`api/query/api.rs`, and the previews of `api/admin/api.rs` with their await: a preview
copies the record when it begins and computes from the copy when the balance arrives
(`previewInner_eq`). None of them changes the state.
-/

namespace ViciMinter

/-! ## Queries -/

structure ReserveInfo where
  id : ReserveId
  config : ReserveConfig
  lifetimeMinted : Nat
  deriving DecidableEq, Repr

def listReserves (s : State) : List ReserveInfo :=
  s.reserves.toList.map fun (id, record) =>
    { id, config := record.config, lifetimeMinted := record.lifetimeMinted }

def getReserveImpl (s : State) (id : ReserveId) : Except MinterError ReserveInfo :=
  match s.reserves[id]? with
  | some record => .ok { id, config := record.config, lifetimeMinted := record.lifetimeMinted }
  | none => .error (.reserveNotFound id)

def getGlobalPolicy (s : State) : GlobalPolicy := s.globalPolicy

def getLedgerId (s : State) : Principal := s.ledgerId

/-! ## The segments of a preview -/

def previewBegin (s : State) (id : ReserveId) : Except MinterError MintSnapshot :=
  match s.reserves[id]? with
  | none => .error (.reserveNotFound id)
  | some record => .ok (s.snapshot record)

/-- From the balance reply to the end. -/
def previewEnd (id : ReserveId) (snap : MintSnapshot) (reply : Reply Nat) (now : Nat) :
    Except MinterError PreviewRebalanceResponse :=
  match getBalanceResult reply with
  | .error e => .error e
  | .ok balance =>
    match computeRebalance snap.config balance snap.lifetimeMinted snap.policy with
    | .error e => .error e
    | .ok computed =>
      let budget := availableMintBudget snap.config.rateLimits snap.mintEvents now
      let wouldMint := match budget with
        | some b => if computed.mintAmount > b then b else computed.mintAmount
        | none => computed.mintAmount
      .ok { reserveId := id, action := computed.action, currentBalance := balance,
            targetBalance := snap.config.targetBalance,
            cyclicalDeficit := computed.cyclicalDeficit,
            lifetimeDeficit := computed.lifetimeDeficit, wouldMint, rateLimitBudget := budget }

/-- The two segments in a row are the whole preview. -/
theorem previewInner_eq (s : State) (id : ReserveId) (reply : Reply Nat) (now : Nat) :
    previewInner s id reply now =
      (s, match previewBegin s id with
        | .error e => .error e
        | .ok snap => previewEnd id snap reply now) := by
  unfold previewInner previewBegin previewEnd
  cases s.reserves[id]? with
  | none => rfl
  | some record =>
    simp only
    cases getBalanceResult reply with
    | error e => rfl
    | ok balance =>
      simp only
      cases computeRebalance (s.snapshot record).config balance
        (s.snapshot record).lifetimeMinted (s.snapshot record).policy <;> rfl

end ViciMinter
