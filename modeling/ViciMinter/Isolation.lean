import ViciMinter.Lib.Sweep
import ViciMinter.Solo

/-!
# Rebalancing all reserves

`rebalance_all` is a sweep of `rebalance_one` over the registered ids. Each of
its rebalances reads its own record, its own lock and what no rebalance changes,
and writes no more than its own record (`rebalanceOne_local`). The rules of a
sweep then say that the reserves do not influence each other.
-/

namespace ViciMinter

open Lts

/-- The state but for the reserves. -/
def State.shared (s : State) : State := { s with reserves := ∅ }

theorem State.ext_shared {s t : State} (hr : ∀ id : ReserveId, s.reserves[id]? = t.reserves[id]?)
    (hs : s.shared = t.shared) : s = t := by
  have hres : s.reserves = t.reserves := Std.ExtTreeMap.ext_getElem? fun {id} => hr id
  cases s
  cases t
  simp only [State.shared, State.mk.injEq] at hs hres ⊢
  exact ⟨hs.1, hs.2.1, hres, hs.2.2.2⟩

theorem rebalanceOne_shared (env : Replies) (s : State) (id : ReserveId) :
    (rebalanceOne env s id).1.shared = s.shared := by
  rcases rebalanceOne_cases env s id with h | ⟨record, k, block, -, h⟩
  · rw [h]
  · rw [h]
    rfl

theorem rebalanceOne_frame (env : Replies) (s : State) {id j : ReserveId} (hj : j ≠ id) :
    (rebalanceOne env s id).1.reserves[j]? = s.reserves[j]? := by
  rcases rebalanceOne_cases env s id with h | ⟨record, k, block, -, h⟩
  · rw [h]
  · simp [h, Std.ExtTreeMap.getElem?_insert, hj.symm]

/-- A rebalance only depends on its own record and on what is shared. -/
theorem rebalanceOne_congr (env : Replies) {s t : State} {id : ReserveId}
    (hrec : s.reserves[id]? = t.reserves[id]?) (hs : s.shared = t.shared) :
    (rebalanceOne env s id).2 = (rebalanceOne env t id).2 ∧
    (rebalanceOne env s id).1.reserves[id]? = (rebalanceOne env t id).1.reserves[id]? := by
  unfold State.shared at hs
  simp only [State.mk.injEq, true_and] at hs
  obtain ⟨hledger, -, hpolicy, -, hlock⟩ := hs
  rw [rebalanceOne_eq, rebalanceOne_eq, ← hrec, ← hlock]
  cases hs : s.reserves[id]? with
  | none => exact ⟨rfl, hrec⟩
  | some record =>
    have hsnap : s.snapshot record = t.snapshot record := by
      unfold State.snapshot
      simp only [hledger, hpolicy]
    simp only [← hsnap]
    split
    · exact ⟨rfl, hrec⟩
    cases hdec : rebalanceDecision id (s.snapshot record) env.balance env.now with
    | inl r => exact ⟨rfl, hrec⟩
    | inr k =>
      obtain rfl := rebalanceDecision_id hdec
      unfold settleRebalance
      cases mintToResult env.transfer with
      | error e => exact ⟨rfl, hrec⟩
      | ok block => simp

theorem rebalanceOne_local (env : ReserveId → Replies) :
    Sweep.Local (fun id s => rebalanceOne (env id) s id)
      (fun (id : ReserveId) (s : State) => s.reserves[id]?) State.shared where
  result id _ _ hrec hs := (rebalanceOne_congr (env id) hrec hs).1
  own id _ _ hrec hs := (rebalanceOne_congr (env id) hrec hs).2
  frame id _ s hj := rebalanceOne_frame (env id) s hj
  shared id s := rebalanceOne_shared (env id) s id

theorem rebalanceEach_eq (env : ReserveId → Replies) (l : List ReserveId) (s : State) :
    rebalanceEach env s l = Sweep.sweep (fun id s => rebalanceOne (env id) s id) s l := by
  induction l generalizing s with
  | nil => rfl
  | cons id l ih => rw [Sweep.sweep_cons, ← ih]; rfl

/-- The ids in ascending order. -/
theorem keys_ascending (s : State) : s.reserves.keys.Pairwise (· < ·) := by
  refine Std.ExtTreeMap.ordered_keys.imp fun {a b} h => ?_
  exact Std.compare_eq_lt.mp h

/-- The result of each reserve is that of its rebalance alone, in ascending
order of the ids; no order of the ids changes a result or the final state; and a
result and a final record depend on the replies to their own reserve only. -/
theorem rebalanceAll_isolated (env : ReserveId → Replies) (s : State) :
    ((rebalanceAll env s).2 = s.reserves.keys.map (fun id => (rebalanceOne (env id) s id).2) ∧
      s.reserves.keys.Pairwise (· < ·) ∧
      ∀ id, id ∈ s.reserves.keys ↔ ∃ record, s.reserves[id]? = some record) ∧
    (∀ id ∈ s.reserves.keys,
      (rebalanceAll env s).1.reserves[id]? = (rebalanceOne (env id) s id).1.reserves[id]?) ∧
    (∀ l, l.Perm s.reserves.keys → rebalanceEach env s l =
      ((rebalanceAll env s).1, l.map fun id => (rebalanceOne (env id) s id).2)) ∧
    ∀ (env' : ReserveId → Replies) (i : Nat) (id : ReserveId),
      s.reserves.keys[i]? = some id → env' id = env id →
      (rebalanceAll env' s).2[i]? = (rebalanceAll env s).2[i]? ∧
      (rebalanceAll env' s).1.reserves[id]? = (rebalanceAll env s).1.reserves[id]? := by
  have hnodup : s.reserves.keys.Nodup := Std.ExtTreeMap.nodup_keys
  have hresults : ∀ env : ReserveId → Replies, (rebalanceAll env s).2 =
      s.reserves.keys.map fun id => (rebalanceOne (env id) s id).2 := by
    intro env
    unfold rebalanceAll
    rw [rebalanceEach_eq]
    exact (rebalanceOne_local env).sweep_results hnodup s
  have hown : ∀ (env : ReserveId → Replies), ∀ id ∈ s.reserves.keys,
      (rebalanceAll env s).1.reserves[id]? =
        (rebalanceOne (env id) s id).1.reserves[id]? := by
    intro env id hid
    unfold rebalanceAll
    rw [rebalanceEach_eq]
    exact (rebalanceOne_local env).sweep_own hnodup hid s
  refine ⟨⟨hresults env, keys_ascending s, fun id => ?_⟩, hown env, fun l hl => ?_,
    fun env' i id hi henv => ?_⟩
  · rw [Std.ExtTreeMap.mem_keys, ← Std.ExtTreeMap.isSome_getElem?_iff_mem,
      Option.isSome_iff_exists]
  · have hln : l.Nodup := hl.nodup_iff.mpr hnodup
    unfold rebalanceAll
    rw [rebalanceEach_eq, rebalanceEach_eq]
    refine Prod.ext ?_ ((rebalanceOne_local env).sweep_results hln s)
    exact (rebalanceOne_local env).sweep_perm (fun _ _ hr hs => State.ext_shared hr hs) hln hl s
  · refine ⟨?_, ?_⟩
    · rw [hresults env', hresults env, List.getElem?_map, List.getElem?_map, hi]
      simp only [Option.map_some, henv]
    · have hid : id ∈ s.reserves.keys := List.mem_of_getElem? hi
      rw [hown env' id hid, hown env id hid, henv]

/-! ## The sweep as a run -/

/-- `rebalance_all`, not interrupted, is a run of the world. -/
theorem World.rebalanceAll_run (env : ReserveId → Replies) (w : World) :
    ∃ tr w', Run World.Step anyEvent w tr w' ∧ w'.state = (rebalanceAll env w.state).1 := by
  have heach : ∀ (l : List ReserveId) (w : World), ∃ tr w', Run World.Step anyEvent w tr w' ∧
      w'.state = (rebalanceEach env w.state l).1 := by
    intro l
    induction l with
    | nil => exact fun w => ⟨[], w, .nil w, rfl⟩
    | cons id l ih =>
      intro w
      obtain ⟨tr₁, w₁, e, w₂, h₁, hs, hw₂⟩ := rebalanceOne_run (env id) w id
      obtain ⟨tr₂, w', h₂, hw'⟩ := ih w₂
      refine ⟨tr₁ ++ e :: tr₂, w', h₁.append (.cons trivial ⟨_, hs⟩ h₂), ?_⟩
      rw [hw', hw₂]
      rfl
  exact heach w.state.reserves.keys w

end ViciMinter
