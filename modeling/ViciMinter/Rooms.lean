import ViciMinter.Reserve

/-!
# The room that caps leave

A cap leaves a room, or nothing to heed if it is unset. What several caps admit is
bounded by the least of their rooms, so the budget of the rate limits is the least room
of the windows (`availableMintBudget_eq`), and it admits what fits in every window
(`within_budget_iff`).
-/

namespace ViciMinter

/-! ## Rooms -/

/-- What an optional cap leaves after `used`; nothing if there is no cap. -/
def room (cap : Option Nat) (used : Nat) : List Nat := (cap.map (· - used)).toList

@[simp] theorem room_none (used : Nat) : room none used = [] := rfl
@[simp] theorem room_some (c used : Nat) : room (some c) used = [c - used] := rfl

theorem mem_room {cap : Option Nat} {used r : Nat} :
    r ∈ room cap used ↔ ∃ c, cap = some c ∧ c - used = r := by
  cases cap with
  | none => simp
  | some c => simp [eq_comm]

/-! ## The least room -/

/-- The least of `d` and the rooms. -/
def least (d : Nat) (rooms : List Nat) : Nat := rooms.foldl min d

@[simp] theorem least_nil (d : Nat) : least d [] = d := rfl

@[simp] theorem least_cons (d a : Nat) (l : List Nat) : least d (a :: l) = least (min d a) l := rfl

theorem least_append (d : Nat) (l l' : List Nat) : least d (l ++ l') = least (least d l) l' :=
  List.foldl_append

theorem least_le (l : List Nat) (d : Nat) : least d l ≤ d := by
  induction l generalizing d with
  | nil => exact Nat.le_refl d
  | cons a l ih => exact (ih _).trans (Nat.min_le_left d a)

/-- `least` does not depend on the order of the rooms. -/
theorem lt_least_iff {x : Nat} (l : List Nat) (d : Nat) :
    x < least d l ↔ x < d ∧ ∀ a ∈ l, x < a := by
  induction l generalizing d with
  | nil => simp
  | cons a l ih =>
    rw [least_cons, ih, Nat.lt_min, List.forall_mem_cons, and_assoc]

theorem le_least_iff {x : Nat} (l : List Nat) (d : Nat) :
    x ≤ least d l ↔ x ≤ d ∧ ∀ r ∈ l, x ≤ r := by
  induction l generalizing d with
  | nil => simp
  | cons r l ih => rw [least_cons, ih, Nat.le_min, List.forall_mem_cons, and_assoc]

/-- Fewer rooms leave more. -/
theorem least_anti {d : Nat} {l l' : List Nat} (h : l' ⊆ l) : least d l ≤ least d l' := by
  obtain ⟨hd, hl⟩ := (le_least_iff l d).mp (Nat.le_refl _)
  exact (le_least_iff l' d).mpr ⟨hd, fun r hr => hl r (h hr)⟩

theorem least_min (a d : Nat) (l : List Nat) : least (min a d) l = min a (least d l) := by
  induction l generalizing d with
  | nil => rfl
  | cons b l ih => rw [least_cons, least_cons, Nat.min_assoc, ih]

theorem min?_eq_least (d : Nat) (l : List Nat) : (d :: l).min? = some (least d l) := rfl

/-- A room of nothing leaves nothing. -/
theorem least_eq_zero {d : Nat} {l : List Nat} (h : 0 ∈ l) : least d l = 0 := by
  by_contra hne
  have hpos := (lt_least_iff l d).mp (Nat.pos_of_ne_zero hne)
  exact Nat.lt_irrefl 0 (hpos.2 0 h)

@[simp] theorem least_zero (l : List Nat) : least 0 l = 0 := Nat.le_zero.mp (least_le l 0)

/-! ## The budget -/

/-- What the configured windows leave. -/
def windowRooms (rateLimits : Option RateLimits) (events : List MintEvent) (now : Nat) :
    List Nat :=
  match rateLimits with
  | none => []
  | some limits => limits.windows.flatMap fun w => room w.2 (usageInWindow events now w.1)

theorem tightenBudget_eq (events : List MintEvent) (now w : Nat) (limit budget : Option Nat) :
    tightenBudget events now budget (w, limit) =
      (budget.toList ++ room limit (usageInWindow events now w)).min? := by
  cases limit with
  | none => cases budget <;> rfl
  | some limit =>
    unfold tightenBudget
    simp only [natSub_eq, room_some]
    generalize usageInWindow events now w = used
    cases budget with
    | none =>
      simp only [Option.toList_none, List.nil_append, List.min?_singleton, Option.some.injEq]
      split <;> omega
    | some b =>
      simp only [Option.toList_some, List.singleton_append, min?_eq_least, least_cons, least_nil,
        Option.some.injEq]
      repeat' split
      all_goals omega

/-- The minimum of a list continues from the minimum of a first part. -/
theorem min?_append (l l' : List Nat) : (l.min?.toList ++ l').min? = (l ++ l').min? := by
  cases l with
  | nil => rfl
  | cons a l =>
    simp only [min?_eq_least, Option.toList_some, List.cons_append, List.nil_append,
      least_append]

/-- The budget is the least room of the configured windows. -/
theorem availableMintBudget_eq (rateLimits : Option RateLimits) (events : List MintEvent)
    (now : Nat) :
    availableMintBudget rateLimits events now = (windowRooms rateLimits events now).min? := by
  cases rateLimits with
  | none => rfl
  | some limits =>
    have hfold : ∀ (l : List (Nat × Option Nat)) (budget : List Nat),
        l.foldl (tightenBudget events now) budget.min? =
          (budget ++ l.flatMap fun w => room w.2 (usageInWindow events now w.1)).min? := by
      intro l
      induction l with
      | nil => simp
      | cons w l ih =>
        intro budget
        rw [List.foldl_cons, tightenBudget_eq, min?_append, ih, List.flatMap_cons,
          List.append_assoc]
    have h := hfold limits.windows []
    rw [List.min?_nil, List.nil_append] at h
    rw [availableMintBudget, windowRooms, h]

theorem within_min? {l : List Nat} {a : Nat} : Within l.min? a ↔ ∀ r ∈ l, a ≤ r := by
  cases l with
  | nil => simp
  | cons r l => rw [min?_eq_least, within_some, le_least_iff, List.forall_mem_cons]

theorem le_room_iff {cap : Option Nat} {used a : Nat} (ha : 0 < a) :
    (∀ r ∈ room cap used, a ≤ r) ↔ Within cap (used + a) := by
  cases cap with
  | none => simp
  | some c =>
    simp only [room_some, List.mem_singleton, forall_eq, within_some]
    omega

/-- The budget admits what fits in every window. -/
theorem within_budget_iff {limits : RateLimits} {events : List MintEvent} {now a : Nat}
    (ha : 0 < a) : Within (availableMintBudget (some limits) events now) a ↔
      WithinLimits limits events now a := by
  rw [availableMintBudget_eq, within_min?, windowRooms]
  unfold WithinLimits
  simp only [← le_room_iff ha, List.mem_flatMap, forall_exists_index, and_imp]
  exact ⟨fun h w hw r hr => h r w hw hr, fun h r w hw hr => h w hw r hr⟩

end ViciMinter
