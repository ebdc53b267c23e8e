import Mathlib.Data.Multiset.MapFold
import Mathlib.Data.Multiset.AddSub
import Mathlib.Data.Multiset.Dedup
import Mathlib.Data.Nat.Find

/-!
# File descriptor tables

A table maps finitely many numbers to open file descriptions, over an arbitrary
type of descriptions. New descriptors take the lowest free number.

- `set`, `close`, `lowestFree`, `alloc`, `dup`, `dup2`: the operations;
- `closeOpt`: closing a number that may be absent;
- `base.Adds t owned`: `t` is `base` plus the descriptors `owned`, each of them at a
  number that is free in `base`. This is how a piece of code that opens and closes
  descriptors of its own is followed without saying which numbers it gets: the rules
  `Adds.alloc`, `Adds.dup` and `Adds.closeOpt` say what each operation does to
  `owned`, and at the end `owned` is what the code has left behind.
-/

namespace ProcessCpp.Base

universe u

/-- A descriptor table: finitely many numbers are in use. -/
@[ext]
structure FdTable (δ : Type u) where
  get : Nat → Option δ
  finite : ∃ b, ∀ n, b ≤ n → get n = none

namespace FdTable

variable {δ : Type u}

/-! ## Operations -/

/-- No descriptor at all. -/
def empty : FdTable δ := ⟨fun _ => none, 0, fun _ _ => rfl⟩

/-- Put a description at a number. -/
def set (t : FdTable δ) (n : Nat) (d : δ) : FdTable δ where
  get m := if m = n then some d else t.get m
  finite := by
    obtain ⟨b, hb⟩ := t.finite
    refine ⟨max b (n + 1), fun m hm => ?_⟩
    have hne : m ≠ n := by omega
    rw [if_neg hne, hb m (by omega)]

/-- Free a number. -/
def close (t : FdTable δ) (n : Nat) : FdTable δ where
  get m := if m = n then none else t.get m
  finite := by
    obtain ⟨b, hb⟩ := t.finite
    refine ⟨b, fun m hm => ?_⟩
    rw [hb m hm, ite_self]

theorem exists_free (t : FdTable δ) : ∃ n, (t.get n).isNone = true := by
  obtain ⟨b, hb⟩ := t.finite
  exact ⟨b, by rw [hb b (Nat.le_refl b)]; rfl⟩

/-- The lowest number that is free. -/
def lowestFree (t : FdTable δ) : Nat := Nat.find t.exists_free

/-- A new descriptor for a description. -/
def alloc (t : FdTable δ) (d : δ) : Nat × FdTable δ := (t.lowestFree, t.set t.lowestFree d)

def dup (t : FdTable δ) (n : Nat) : Option (Nat × FdTable δ) := (t.get n).map t.alloc

def dup2 (t : FdTable δ) (n target : Nat) : Option (FdTable δ) := (t.get n).map (t.set target)

def closeOpt (t : FdTable δ) : Option Nat → FdTable δ
  | none => t
  | some n => t.close n

@[simp] theorem get_set (t : FdTable δ) (n m : Nat) (d : δ) :
    (t.set n d).get m = if m = n then some d else t.get m := rfl

theorem get_of_set {t : FdTable δ} {n m : Nat} {d e : δ} (h : (t.set n d).get m = some e) :
    d = e ∨ t.get m = some e := by
  rw [get_set] at h
  split at h
  · exact .inl (Option.some.inj h)
  · exact .inr h

@[simp] theorem get_close (t : FdTable δ) (n m : Nat) :
    (t.close n).get m = if m = n then none else t.get m := rfl

theorem get_closeOpt (t : FdTable δ) (o : Option Nat) (m : Nat) :
    (t.closeOpt o).get m = if o = some m then none else t.get m := by
  cases o with
  | none => rfl
  | some n =>
    rw [closeOpt, get_close]
    by_cases h : m = n
    · rw [if_pos h, if_pos (by rw [h])]
    · rw [if_neg h, if_neg fun he => h (Option.some.inj he).symm]

theorem get_of_closeOpt {t : FdTable δ} {o : Option Nat} {m : Nat} {d : δ}
    (h : (t.closeOpt o).get m = some d) : t.get m = some d := by
  rw [get_closeOpt] at h
  split at h
  · cases h
  · exact h

/-- What is still there after a list of numbers has been closed is at none of them. -/
theorem get_of_foldl_closeOpt {os : List (Option Nat)} {t : FdTable δ} {m : Nat} {d : δ}
    (h : (os.foldl closeOpt t).get m = some d) : t.get m = some d ∧ some m ∉ os := by
  induction os generalizing t with
  | nil => exact ⟨h, List.not_mem_nil⟩
  | cons o os ih =>
    obtain ⟨hget, hrest⟩ := ih h
    refine ⟨get_of_closeOpt hget, fun hmem => ?_⟩
    rcases List.mem_cons.mp hmem with rfl | hmem
    · rw [get_closeOpt, if_pos rfl] at hget
      cases hget
    · exact hrest hmem

theorem get_lowestFree (t : FdTable δ) : t.get t.lowestFree = none :=
  Option.isNone_iff_eq_none.mp (Nat.find_spec t.exists_free)

theorem get_ne_none_of_lt {t : FdTable δ} {m : Nat} (h : m < t.lowestFree) : t.get m ≠ none := by
  intro hnone
  exact Nat.find_min t.exists_free h (by rw [hnone]; rfl)

/-- The next number allocated is a greater one, as long as none is freed. -/
theorem lowestFree_lt_set (t : FdTable δ) (d : δ) :
    t.lowestFree < (t.set t.lowestFree d).lowestFree := by
  have hfree := (t.set t.lowestFree d).get_lowestFree
  rw [get_set] at hfree
  split at hfree
  · cases hfree
  · rename_i hne
    have hle : ¬ (t.set t.lowestFree d).lowestFree < t.lowestFree := fun hlt =>
      get_ne_none_of_lt hlt hfree
    omega

/-! ## What a piece of code adds -/

/-- The descriptor at a number that may be absent. -/
def owned : Option Nat → δ → Multiset (Nat × δ)
  | none, _ => 0
  | some n, d => {(n, d)}

@[simp] theorem owned_none (d : δ) : owned none d = 0 := rfl

theorem owned_some (n : Nat) (d : δ) : owned (some n) d = {(n, d)} := rfl

@[simp] theorem mem_owned {o : Option Nat} {d : δ} {x : Nat × δ} :
    x ∈ owned o d ↔ o = some x.1 ∧ d = x.2 := by
  cases o with
  | none => simp [owned]
  | some n =>
    rw [owned, Multiset.mem_singleton]
    constructor
    · rintro rfl
      exact ⟨rfl, rfl⟩
    · rintro ⟨hn, rfl⟩
      cases hn
      rfl

/-- `t` is `base` with the descriptors `own` added, at numbers free in `base`. -/
structure Adds (base t : FdTable δ) (own : Multiset (Nat × δ)) : Prop where
  get_iff : ∀ n d, t.get n = some d ↔ base.get n = some d ∨ (n, d) ∈ own
  free : ∀ n d, (n, d) ∈ own → base.get n = none
  nodup : (own.map Prod.fst).Nodup

namespace Adds

variable {base t : FdTable δ} {own : Multiset (Nat × δ)}

theorem nil (base : FdTable δ) : Adds base base 0 where
  get_iff n d := by simp
  free n d h := absurd h (Multiset.notMem_zero _)
  nodup := Multiset.nodup_zero

/-- Nothing added: the table is the base. -/
theorem eq_base (h : Adds base t 0) : t = base := by
  refine FdTable.ext (funext fun n => Option.ext fun d => ?_)
  simpa using h.get_iff n d

theorem get_own (h : Adds base t own) {n : Nat} {d : δ} (hmem : (n, d) ∈ own) :
    t.get n = some d :=
  (h.get_iff n d).mpr (.inr hmem)

theorem get_base (h : Adds base t own) {n : Nat} {d : δ} (hbase : base.get n = some d) :
    t.get n = some d :=
  (h.get_iff n d).mpr (.inl hbase)

/-- A number free in the table is free in the base and not among the added. -/
theorem of_free (h : Adds base t own) {n : Nat} (hfree : t.get n = none) :
    base.get n = none ∧ ∀ d, (n, d) ∉ own := by
  constructor
  · cases hbase : base.get n with
    | none => rfl
    | some d =>
      rw [h.get_base hbase] at hfree
      cases hfree
  · intro d hmem
    rw [h.get_own hmem] at hfree
    cases hfree

/-- Whatever is put at a free number is added. -/
theorem set (h : Adds base t own) {n : Nat} (hfree : t.get n = none) (d : δ) :
    Adds base (t.set n d) ((n, d) ::ₘ own) where
  get_iff m e := by
    obtain ⟨hbase, hown⟩ := h.of_free hfree
    rw [get_set, Multiset.mem_cons, Prod.mk.injEq]
    by_cases hm : m = n
    · subst hm
      rw [if_pos rfl, hbase]
      constructor
      · intro he
        cases he
        exact .inr (.inl ⟨rfl, rfl⟩)
      · rintro (he | ⟨-, rfl⟩ | hmem)
        · cases he
        · rfl
        · exact absurd hmem (hown e)
    · rw [if_neg hm, h.get_iff m e]
      simp [hm]
  free m e hmem := by
    rw [Multiset.mem_cons, Prod.mk.injEq] at hmem
    rcases hmem with ⟨rfl, -⟩ | hmem
    · exact (h.of_free hfree).1
    · exact h.free m e hmem
  nodup := by
    rw [Multiset.map_cons, Multiset.nodup_cons]
    refine ⟨fun hmem => ?_, h.nodup⟩
    obtain ⟨⟨m, e⟩, hown, hm⟩ := Multiset.mem_map.mp hmem
    cases hm
    exact (h.of_free hfree).2 e hown

theorem alloc (h : Adds base t own) (d : δ) :
    Adds base (t.alloc d).2 (((t.alloc d).1, d) ::ₘ own) :=
  h.set t.get_lowestFree d

/-- Closing an added descriptor takes it away. -/
theorem close {n : Nat} {d : δ} (h : Adds base t ((n, d) ::ₘ own)) : Adds base (t.close n) own where
  get_iff m e := by
    have hnodup := h.nodup
    rw [Multiset.map_cons, Multiset.nodup_cons] at hnodup
    rw [get_close]
    by_cases hm : m = n
    · subst hm
      rw [if_pos rfl, h.free m d (Multiset.mem_cons_self _ _)]
      constructor
      · intro he
        cases he
      · rintro (he | hmem)
        · cases he
        · exact absurd (Multiset.mem_map_of_mem Prod.fst hmem) hnodup.1
    · rw [if_neg hm, h.get_iff m e, Multiset.mem_cons, Prod.mk.injEq]
      simp [hm]
  free m e hmem := h.free m e (Multiset.mem_cons_of_mem hmem)
  nodup := by
    have hnodup := h.nodup
    rw [Multiset.map_cons, Multiset.nodup_cons] at hnodup
    exact hnodup.2

theorem closeOpt {o : Option Nat} {d : δ} (h : Adds base t (owned o d + own)) :
    Adds base (t.closeOpt o) own := by
  cases o with
  | none =>
    show Adds base t own
    simpa [owned] using h
  | some n =>
    rw [owned, Multiset.singleton_add] at h
    exact h.close

end Adds

end FdTable

end ProcessCpp.Base
