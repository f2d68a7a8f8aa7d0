import ViciMinter.Registry
import ViciMinter.Stable

/-!
# Upgrades

The upgrade hooks of `lib.rs`, and the canister with its upgrades: a `Canister` is
a `World` and the stable memory, and an upgrade saves the state, drops the suspended
operations and starts the new code. With `Arg::Upgrade` it does to the minter what
losing its operations does (`world_run`), so invariants of the minter hold across
such upgrades (`wellFormed_run`). With `Arg::Init` the saved state is not read:
`upgrades_safe_iff` says when nothing is lost.
-/

namespace ViciMinter

open Lts

/-! ## The hooks -/

structure InitArg where
  ledgerId : Principal
  deriving DecidableEq, Repr

inductive Arg where
  | init (arg : InitArg)
  | upgrade
  deriving DecidableEq, Repr

def Principal.anonymous : Principal := ⟨[4]⟩

def preUpgrade (candid : Candid) (limit : Nat) (m : StableMemory) (state : State) :
    Option StableMemory := saveState candid limit m state

/-- The new code starts with `State::default()`. -/
def postUpgrade (candid : Candid) (m : StableMemory) (arg : Arg) : Option State :=
  let state := State.default .anonymous
  match arg with
  | .upgrade => do
    let (state, restored) ← tryRestoreState candid m state
    if !restored then none else some state
  | .init initArg => some { state with ledgerId := initArg.ledgerId }

/-! ## The canister with its upgrades -/

/-- The two states differ in the ledger id at most. -/
structure SameData (s s' : State) : Prop where
  reserves : s'.reserves = s.reserves
  nextReserveId : s'.nextReserveId = s.nextReserveId
  globalPolicy : s'.globalPolicy = s.globalPolicy
  idempotency : s'.idempotency = s.idempotency
  reserveMintInflight : s'.reserveMintInflight = s.reserveMintInflight

theorem SameData.refl (s : State) : SameData s s := ⟨rfl, rfl, rfl, rfl, rfl⟩

/-- Nothing but the ledger id is stored. -/
def NothingToLose (s : State) : Prop := s = State.default s.ledgerId

theorem nothingToLose_iff {s : State} {ledgerId : Principal} :
    NothingToLose s ↔ SameData s (State.default ledgerId) := by
  cases s
  constructor
  · intro h
    injection h with _ h₁ h₂ h₃ h₄ h₅
    exact ⟨h₂.symm, h₁.symm, h₃.symm, h₄.symm, h₅.symm⟩
  · rintro ⟨h₁, h₂, h₃, h₄, h₅⟩
    cases h₁
    cases h₂
    cases h₃
    cases h₄
    cases h₅
    rfl

theorem postUpgrade_cases {candid : Candid} (hinv : candid.Inverse) {limit : Nat}
    {m m' : StableMemory} {s s' : State} {arg : Arg} (hpre : preUpgrade candid limit m s = some m')
    (hpost : postUpgrade candid m' arg = some s') :
    arg = .upgrade ∧ s' = s ∨ ∃ initArg, arg = .init initArg ∧
      s' = State.default initArg.ledgerId := by
  cases arg with
  | init initArg => exact .inr ⟨initArg, rfl, (Option.some.inj hpost).symm⟩
  | upgrade =>
    obtain ⟨bytes, he, hstored⟩ := saveState_stored hpre
    unfold postUpgrade at hpost
    simp only [hstored.tryRestoreState (hinv s bytes he)] at hpost
    split at hpost
    · cases hpost
    · exact .inl ⟨rfl, (Option.some.inj hpost).symm⟩

/-- A canister is its minter and the stable memory. -/
structure Canister where
  world : World
  memory : StableMemory

inductive CanisterEvent where
  | call (e : Event)
  | upgrade (limit : Nat) (arg : Arg)

namespace Canister

def init (ledgerId : Principal) (memory : StableMemory) : Canister :=
  ⟨World.init ledgerId, memory⟩

/-- An upgrade drops the suspended operations with the rest of the heap. It does not
happen if one of its hooks traps. -/
def step (candid : Candid) (c : Canister) : CanisterEvent → Option (Canister × Option Output)
  | .call e => do
    let (world, o) ← c.world.step e
    some ({ c with world }, some o)
  | .upgrade limit arg => do
    let memory ← preUpgrade candid limit c.memory c.world.state
    let state ← postUpgrade candid memory arg
    some (⟨{ c.world with state, ops := fun _ => none }, memory⟩, none)

abbrev Step (candid : Candid) : Canister → CanisterEvent → Canister → Prop :=
  Lts.ofFun (step candid)

/-- An upgrade loses nothing, and `Arg::Init` is accepted only if there is nothing. -/
def Safe (candid : Candid) (c : Canister) (e : CanisterEvent) : Prop :=
  ∀ limit arg c', e = .upgrade limit arg → Step candid c e c' →
    SameData c.world.state c'.world.state ∧
    ((∃ initArg, arg = .init initArg) → NothingToLose c.world.state)

/-- `Arg::Init` is passed only where there is nothing to lose. -/
def Harmless (c : Canister) (e : CanisterEvent) : Prop :=
  ∀ limit arg, e = .upgrade limit arg → arg = .upgrade ∨ NothingToLose c.world.state

variable {candid : Candid} {c c' : Canister}

theorem step_upgrade {limit : Nat} {arg : Arg} (h : Step candid c (.upgrade limit arg) c') :
    ∃ m s', preUpgrade candid limit c.memory c.world.state = some m ∧
      postUpgrade candid m arg = some s' ∧
      c' = ⟨{ c.world with state := s', ops := fun _ => none }, m⟩ := by
  obtain ⟨o, h⟩ := h
  simp only [step, Option.bind_eq_bind, Option.bind_eq_some_iff, Option.some.injEq,
    Prod.mk.injEq] at h
  obtain ⟨m, hpre, s', hpost, rfl, -⟩ := h
  exact ⟨m, s', hpre, hpost, rfl⟩

theorem safe_iff {e : CanisterEvent} (hinv : candid.Inverse) (h : Step candid c e c') :
    Safe candid c e ↔ Harmless c e := by
  constructor
  · intro hsafe limit arg heq
    subst heq
    cases arg with
    | upgrade => exact .inl rfl
    | init initArg => exact .inr ((hsafe limit _ c' rfl h).2 ⟨initArg, rfl⟩)
  · rintro hharm limit arg c'' rfl hstep
    obtain ⟨m, s', hpre, hpost, rfl⟩ := step_upgrade hstep
    rcases postUpgrade_cases hinv hpre hpost with ⟨rfl, rfl⟩ | ⟨initArg, rfl, rfl⟩
    · exact ⟨.refl _, nofun⟩
    · have hnone := (hharm limit _ rfl).resolve_left nofun
      exact ⟨nothingToLose_iff.mp hnone, fun _ => hnone⟩

/-- Upgrades lose nothing in a run if and only if none of them passes `Arg::Init` to a
canister that has something to lose. -/
theorem upgrades_safe_iff (hinv : candid.Inverse) {ledgerId : Principal} {m : StableMemory}
    {tr : List CanisterEvent} :
    Run (Step candid) (Safe candid) (init ledgerId m) tr c ↔
      Run (Step candid) Harmless (init ledgerId m) tr c := by
  constructor
  · exact Run.weaken fun c e c' hsafe hstep => (safe_iff hinv hstep).mp hsafe
  · exact Run.weaken fun c e c' hharm hstep => (safe_iff hinv hstep).mpr hharm

def knows (tr : List Event) : Candid :=
  Sample.candid [(last World.step (World.init Sample.ledgerId) tr).state]

def fresh : Canister := init Sample.ledgerId ⟨0, fun _ => 0⟩

/-- A reserve is registered, then the canister is upgraded with `Arg::Init`: the
reserve is gone. -/
theorem init_forgets : ∃ c c', (knows [.addReserve Sample.reserve]).Inverse ∧
    Run (Step (knows [.addReserve Sample.reserve])) anyEvent fresh
      [.call (.addReserve Sample.reserve)] c ∧
    Step (knows [.addReserve Sample.reserve]) c (.upgrade 1 (.init ⟨Sample.ledgerId⟩)) c' ∧
    c.world.state.reserves[(0 : ReserveId)]? = some ⟨Sample.reserve.config, 0, []⟩ ∧
    c'.world.state.reserves[(0 : ReserveId)]? = none ∧
    ¬ Safe (knows [.addReserve Sample.reserve]) c (.upgrade 1 (.init ⟨Sample.ledgerId⟩)) := by
  have hrun : Run (Step (knows [.addReserve Sample.reserve])) anyEvent fresh
      [.call (.addReserve Sample.reserve)] _ := run_last_any (by decide)
  refine ⟨_, _, Sample.candid_inverse _, hrun, step_last (by decide), by decide, by decide, ?_⟩
  intro hsafe
  have hnone := (hsafe _ _ _ rfl (step_last (by decide))).2 ⟨_, rfl⟩
  revert hnone
  unfold NothingToLose
  decide

def upgradedMeanwhile : List CanisterEvent :=
  [.call (.addReserve Sample.reserve), .call (.rebalance 0), .upgrade 1 .upgrade]

theorem upgrades_safe_iff_sample : ∃ c,
    Run (Step (knows [.addReserve Sample.reserve, .rebalance 0]))
      (Safe (knows [.addReserve Sample.reserve, .rebalance 0])) fresh upgradedMeanwhile c := by
  have hrun : ∃ c, Run (Step (knows [.addReserve Sample.reserve, .rebalance 0])) Harmless fresh
      upgradedMeanwhile c := by
    refine ⟨_, run_last (fun _ e => match e with
      | .upgrade _ arg => decide (arg = .upgrade)
      | .call _ => true) ?_ (by decide) (by decide)⟩
    intro c e h limit arg heq
    subst heq
    exact .inl (of_decide_eq_true h)
  obtain ⟨c, hrun⟩ := hrun
  exact ⟨c, (upgrades_safe_iff (Sample.candid_inverse _)).mpr hrun⟩

/-! ## Upgrades only drop operations -/

theorem lose_all {ok : World → Event → Prop} (hlose : ∀ w n, ok w (.lose n)) (k : OpId) {w : World}
    (hk : ∀ n, k ≤ n → w.ops n = none) :
    ∃ tr, Run World.Step ok w tr { w with ops := fun _ => none } := by
  induction k generalizing w with
  | zero =>
    have hops : w.ops = fun _ => none := funext fun n => hk n n.zero_le
    exact ⟨[], hops ▸ .nil w⟩
  | succ k ih =>
    cases hop : w.ops k with
    | none =>
      refine ih fun n hn => ?_
      rcases Nat.eq_or_lt_of_le hn with rfl | hlt
      · exact hop
      · exact hk n hlt
    | some op =>
      have hs : w.step (.lose k) = some (w.finish w.state k [], .lost) := by
        unfold World.step World.advance
        simp only [World.tick_ops, hop]
        rfl
      obtain ⟨tr, hr⟩ := ih (w := w.finish w.state k []) fun n hn => by
        rcases Nat.eq_or_lt_of_le hn with rfl | hlt
        · simp
        · simp [Function.update_apply, hk n hlt]
      refine ⟨.lose k :: tr, .cons (hlose w k) ⟨.lost, hs⟩ ?_⟩
      simpa [World.finish] using hr

/-- What `ok` allows of the calls, and upgrades with `Arg::Upgrade`. -/
def Allowed (ok : World → Event → Prop) (c : Canister) : CanisterEvent → Prop
  | .call e => ok c.world e
  | .upgrade _ arg => arg = .upgrade

/-- Upgrades with `Arg::Upgrade` do to the minter what losing its operations does. -/
theorem world_run (hinv : candid.Inverse) {ok : World → Event → Prop}
    (hlose : ∀ w n, ok w (.lose n)) {ledgerId : Principal} {m : StableMemory}
    {tr : List CanisterEvent} (h : Run (Step candid) (Allowed ok) (init ledgerId m) tr c) :
    ∃ tr', Run World.Step ok (World.init ledgerId) tr' c.world := by
  have hsim : ∀ c e c' w, Allowed ok c e → Step candid c e c' → c.world = w ∧ w.Fresh →
      ∃ tr w', Run World.Step ok w tr w' ∧ c'.world = w' ∧ w'.Fresh := by
    rintro c e c' _ hallowed ⟨o, hs⟩ ⟨rfl, hfresh⟩
    cases e with
    | call e =>
      simp only [step, Option.bind_eq_bind, Option.bind_eq_some_iff, Option.some.injEq,
        Prod.mk.injEq] at hs
      obtain ⟨⟨w', o'⟩, hstep, rfl, -⟩ := hs
      exact ⟨[e], w', .cons hallowed ⟨o', hstep⟩ (.nil w'), rfl, hfresh.step ⟨o', hstep⟩⟩
    | upgrade limit arg =>
      obtain ⟨tr, hr⟩ := lose_all hlose c.world.nextOp hfresh
      obtain ⟨m, s', hpre, hpost, rfl⟩ := step_upgrade ⟨o, hs⟩
      rcases postUpgrade_cases hinv hpre hpost with ⟨-, rfl⟩ | ⟨initArg, harg, -⟩
      · exact ⟨tr, _, hr, rfl, fun _ _ => rfl⟩
      · cases hallowed.symm.trans harg
  obtain ⟨tr', w, hr, rfl, -⟩ := h.simulate_run hsim ⟨rfl, World.fresh_init ledgerId⟩
  exact ⟨tr', hr⟩

/-- So what holds in all runs of the minter also holds with such upgrades. -/
theorem wellFormed_run (hinv : candid.Inverse) {ledgerId : Principal} {m : StableMemory}
    {tr : List CanisterEvent}
    (h : Run (Step candid) (Allowed World.CountsUp) (init ledgerId m) tr c) : c.world.WellFormed := by
  have hlose : ∀ (w : World) n, World.CountsUp w (.lose n) := by
    intro w n w' id hs
    obtain ⟨_, hadd, -⟩ := (World.step_did hs).added_ok
    cases hadd
  obtain ⟨tr', hr⟩ := world_run hinv hlose h
  exact World.wellFormed_run hr

end Canister

end ViciMinter
