import ViciMinter.Lib.Lts

/-!
# Admission in two phases

A log grows by entries that were admitted against it earlier: an entry is first
admitted (`adm conf log a`) and becomes pending, and later it is appended or
cancelled. While one entry is pending no other is admitted, so the log it was
admitted against is still the log it is appended to. The configuration may
change meanwhile, in the directions `le` allows.

`Run.sound` reduces a property of the log that must hold in every state to three
facts about one append and one change of the configuration.
-/

namespace TwoPhase

variable {κ α : Type}

structure Slot (κ α : Type) where
  conf : κ
  log : List α
  pending : Option α

inductive Act (κ α : Type) where
  | accept (a : α)
  | append
  | cancel
  | configure (c : κ)

/-- The steps of a slot. -/
inductive Step (adm : κ → List α → α → Prop) (le : κ → κ → Prop) :
    Slot κ α → Act κ α → Slot κ α → Prop where
  | accept {s : Slot κ α} {a : α} : s.pending = none → adm s.conf s.log a →
      Step adm le s (.accept a) { s with pending := some a }
  | append {s : Slot κ α} {a : α} : s.pending = some a →
      Step adm le s .append { s with log := s.log ++ [a], pending := none }
  | cancel {s : Slot κ α} : Step adm le s .cancel { s with pending := none }
  | configure {s : Slot κ α} {c : κ} : le s.conf c →
      Step adm le s (.configure c) { s with conf := c }

/-- What must be known of an admission policy to keep `Good`. -/
structure Keeps (adm : κ → List α → α → Prop) (le : κ → κ → Prop)
    (Good : κ → List α → Prop) : Prop where
  append : ∀ {c l a}, Good c l → adm c l a → Good c (l ++ [a])
  configure : ∀ {c c' l}, le c c' → Good c l → Good c' l
  admitted : ∀ {c c' l a}, le c c' → adm c l a → adm c' l a

variable {adm : κ → List α → α → Prop} {le : κ → κ → Prop} {Good : κ → List α → Prop}

/-- The log is good and a pending entry would be admitted again. -/
def Sound (adm : κ → List α → α → Prop) (Good : κ → List α → Prop) (s : Slot κ α) : Prop :=
  Good s.conf s.log ∧ ∀ a ∈ s.pending, adm s.conf s.log a

theorem Step.sound (hk : Keeps adm le Good) {s t : Slot κ α} {e : Act κ α}
    (h : Sound adm Good s) (hs : Step adm le s e t) : Sound adm Good t := by
  obtain ⟨hg, hp⟩ := h
  cases hs with
  | accept hn ha => exact ⟨hg, by rintro _ ⟨⟩; exact ha⟩
  | append ha => exact ⟨hk.append hg (hp _ ha), nofun⟩
  | cancel => exact ⟨hg, nofun⟩
  | configure hle => exact ⟨hk.configure hle hg, fun a ha => hk.admitted hle (hp a ha)⟩

theorem Run.sound (hk : Keeps adm le Good) {s t : Slot κ α} {ok : Slot κ α → Act κ α → Prop}
    {tr : List (Act κ α)} (h : Lts.Run (Step adm le) ok s tr t) (h0 : Sound adm Good s) :
    Sound adm Good t :=
  h.invariant (fun _ _ _ _ hs hstep => hstep.sound hk hs) h0

/-- Along a run the configuration only moves along `le`. -/
theorem Run.conf_le (hrefl : ∀ c, le c c) (htrans : ∀ {a b c}, le a b → le b c → le a c)
    {s t : Slot κ α} {ok : Slot κ α → Act κ α → Prop} {tr : List (Act κ α)}
    (h : Lts.Run (Step adm le) ok s tr t) : le s.conf t.conf := by
  refine h.invariant (I := fun u => le s.conf u.conf) (fun u e v _ hu hstep => ?_) (hrefl _)
  cases hstep with
  | accept | append | cancel => exact hu
  | configure hle => exact htrans hu hle

end TwoPhase
