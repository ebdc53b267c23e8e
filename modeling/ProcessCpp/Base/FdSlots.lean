import Mathlib.Logic.Function.Basic
import ProcessCpp.Base.FdTable
import ProcessCpp.Base.Prelude

/-!
# Slots that hold descriptors

Programs keep the numbers of their descriptors in variables, here called slots: a family
`slot : κ → Option Nat`, where an empty slot holds none.

- `base.Accounts t slot kind`: the table `t` is `base` and what the slots hold, every number
  in one slot only, and each slot's description of that slot's kind;
- `Accounts.closeOpt`, `Accounts.alloc`: closing the descriptor of a slot and emptying it,
  and filling an empty slot with a new one;
- `Accounts.eq_base`: empty slots leave the table as it was.

Unlike `Adds` this is about variables that live on while code runs that does not know
about all of them, so it is stated by the slot and not by the descriptors of one piece of
code.
-/

namespace ProcessCpp.Base

universe u v

namespace FdTable

variable {δ : Type u} {κ : Type v}

/-- `t` has the descriptors of `base` and those in the slots: the number in a slot is free in
`base`, is open in `t` for a description of the slot's kind, and is in no other slot. -/
structure Accounts (base t : FdTable δ) (slot : κ → Option Nat) (kind : κ → δ → Prop) : Prop where
  isOpen : ∀ c n, slot c = some n → ∃ d, t.get n = some d ∧ kind c d
  free : ∀ c n, slot c = some n → base.get n = none
  single : ∀ c c' n, slot c = some n → slot c' = some n → c = c'
  rest : ∀ n, (∀ c, slot c ≠ some n) → t.get n = base.get n

namespace Accounts

variable {base t : FdTable δ} {slot : κ → Option Nat} {kind : κ → δ → Prop}

theorem start (base : FdTable δ) (kind : κ → δ → Prop) :
    Accounts base base (fun _ => none) kind where
  isOpen _ _ h := nomatch h
  free _ _ h := nomatch h
  single _ _ _ h := nomatch h
  rest _ _ := rfl

/-- With all slots empty the table is the base. -/
theorem eq_base (h : Accounts base t slot kind) (hempty : ∀ c, slot c = none) : t = base := by
  refine FdTable.ext (funext fun n => h.rest n fun c hc => ?_)
  rw [hempty c] at hc
  cases hc

/-- Only the kinds of slots that hold something count. -/
theorem of_kind {kind' : κ → δ → Prop} (h : Accounts base t slot kind)
    (hkind : ∀ c d, slot c ≠ none → kind c d → kind' c d) : Accounts base t slot kind' := by
  refine ⟨fun c n hc => ?_, h.free, h.single, h.rest⟩
  obtain ⟨d, hd, hk⟩ := h.isOpen c n hc
  refine ⟨d, hd, hkind c d ?_ hk⟩
  rw [hc]
  exact Option.some_ne_none n

/-- A number that is free in the table is in no slot. -/
theorem ne_of_free (h : Accounts base t slot kind) {n : Nat} (hfree : t.get n = none) (c : κ) :
    slot c ≠ some n := by
  intro hc
  obtain ⟨d, hd, -⟩ := h.isOpen c n hc
  rw [hfree] at hd
  cases hd

variable [DecidableEq κ]

/-- Closing the descriptor of a slot, if it holds one, and emptying the slot. -/
theorem closeOpt (h : Accounts base t slot kind) (c : κ) :
    Accounts base (t.closeOpt (slot c)) (Function.update slot c none) kind where
  isOpen c' n hc' := by
    obtain ⟨-, hnone⟩ | ⟨hne, hslot⟩ := update_cases hc'
    · cases hnone
    · obtain ⟨d, hd, hkind⟩ := h.isOpen c' n hslot
      refine ⟨d, ?_, hkind⟩
      rw [get_closeOpt, if_neg fun hc => hne (h.single c' c n hslot hc)]
      exact hd
  free c' n hc' := by
    obtain ⟨-, hnone⟩ | ⟨-, hslot⟩ := update_cases hc'
    · cases hnone
    · exact h.free c' n hslot
  single c₁ c₂ n h₁ h₂ := by
    obtain ⟨-, hnone⟩ | ⟨-, h₁⟩ := update_cases h₁
    · cases hnone
    obtain ⟨-, hnone⟩ | ⟨-, h₂⟩ := update_cases h₂
    · cases hnone
    exact h.single c₁ c₂ n h₁ h₂
  rest n hn := by
    rw [get_closeOpt]
    by_cases hc : slot c = some n
    · rw [if_pos hc, h.free c n hc]
    · rw [if_neg hc]
      refine h.rest n fun c' hc' => ?_
      have hne : c' ≠ c := by
        rintro rfl
        exact hc hc'
      exact hn c' (by rw [Function.update_of_ne hne, hc'])

/-- Filling an empty slot with a new descriptor. -/
theorem alloc (h : Accounts base t slot kind) {c : κ} (hc : slot c = none) {d : δ}
    (hd : kind c d) :
    Accounts base (t.alloc d).2 (Function.update slot c (some (t.alloc d).1)) kind := by
  have hfree : t.get t.lowestFree = none := t.get_lowestFree
  -- a number that is free is in no slot, so the new one is in one only
  have hother : ∀ c', slot c' ≠ some t.lowestFree := h.ne_of_free hfree
  show Accounts base (t.set t.lowestFree d) (Function.update slot c (some t.lowestFree)) kind
  refine ⟨fun c' n hc' => ?_, fun c' n hc' => ?_, fun c₁ c₂ n h₁ h₂ => ?_, fun n hn => ?_⟩
  · obtain ⟨rfl, hn⟩ | ⟨-, hslot⟩ := update_cases hc'
    · cases hn
      exact ⟨d, by rw [get_set, if_pos rfl], hd⟩
    · obtain ⟨e, he, hkind⟩ := h.isOpen c' n hslot
      refine ⟨e, ?_, hkind⟩
      have hne : n ≠ t.lowestFree := by
        rintro rfl
        exact hother c' hslot
      rw [get_set, if_neg hne]
      exact he
  · obtain ⟨rfl, hn⟩ | ⟨-, hslot⟩ := update_cases hc'
    · cases hn
      exact (h.rest _ hother).symm.trans hfree
    · exact h.free c' n hslot
  · obtain ⟨rfl, hn₁⟩ | ⟨-, h₁⟩ := update_cases h₁
    · obtain ⟨rfl, -⟩ | ⟨-, h₂⟩ := update_cases h₂
      · rfl
      · cases hn₁
        exact absurd h₂ (hother c₂)
    · obtain ⟨-, hn₂⟩ | ⟨-, h₂⟩ := update_cases h₂
      · cases hn₂
        exact absurd h₁ (hother c₁)
      · exact h.single c₁ c₂ n h₁ h₂
  · have hne : n ≠ t.lowestFree := by
      rintro rfl
      exact hn c (Function.update_self ..)
    rw [get_set, if_neg hne]
    refine h.rest n fun c' hc' => ?_
    have hcc : c' ≠ c := by
      rintro rfl
      rw [hc] at hc'
      cases hc'
    exact hn c' (by rw [Function.update_of_ne hcc, hc'])

end Accounts

end FdTable

end ProcessCpp.Base
