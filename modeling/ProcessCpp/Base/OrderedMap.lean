import Mathlib.Data.List.Perm.Basic
import Mathlib.Order.Lattice

/-!
# Ordered maps

A map from a linearly ordered type as the list of its entries in key order, which is the
order an iteration over it visits them in. `insert` leaves an entry alone that is already
there, as `std::map::insert` does.

`OrderedMap.perm_collect`: inserting the pairs of a list one after the other keeps all of
them, if no key occurs twice.
-/

namespace ProcessCpp.Base

universe u v

/-- The entries of a map, in strictly increasing order of their keys. -/
structure OrderedMap (κ : Type u) (ν : Type v) [LinearOrder κ] where
  entries : List (κ × ν)
  sorted : entries.Pairwise fun a b => a.1 < b.1

namespace OrderedMap

variable {κ : Type u} {ν : Type v} [LinearOrder κ]

def size (m : OrderedMap κ ν) : Nat := m.entries.length

def empty : OrderedMap κ ν := ⟨[], .nil⟩

/-- Insertion into a sorted list of entries. -/
def insertEntry (k : κ) (v : ν) : List (κ × ν) → List (κ × ν)
  | [] => [(k, v)]
  | p :: rest =>
    if k < p.1 then (k, v) :: p :: rest
    else if k = p.1 then p :: rest
    else p :: insertEntry k v rest

theorem mem_insertEntry {k : κ} {v : ν} {l : List (κ × ν)} {q : κ × ν}
    (h : q ∈ insertEntry k v l) : q = (k, v) ∨ q ∈ l := by
  induction l with
  | nil => simpa [insertEntry] using h
  | cons p rest ih =>
    rw [insertEntry] at h
    split_ifs at h with hlt heq
    · simpa using h
    · exact .inr h
    · rcases List.mem_cons.mp h with rfl | hrest
      · exact .inr List.mem_cons_self
      · exact (ih hrest).imp_right (List.mem_cons_of_mem _)

theorem sorted_insertEntry (k : κ) (v : ν) {l : List (κ × ν)}
    (h : l.Pairwise fun a b => a.1 < b.1) :
    (insertEntry k v l).Pairwise fun a b => a.1 < b.1 := by
  induction l with
  | nil => simp [insertEntry]
  | cons p rest ih =>
    obtain ⟨hp, hrest⟩ := List.pairwise_cons.mp h
    rw [insertEntry]
    split_ifs with hlt heq
    · refine List.pairwise_cons.mpr ⟨fun q hq => ?_, h⟩
      rcases List.mem_cons.mp hq with rfl | hq
      · exact hlt
      · exact lt_trans hlt (hp q hq)
    · exact h
    · refine List.pairwise_cons.mpr ⟨fun q hq => ?_, ih hrest⟩
      rcases mem_insertEntry hq with rfl | hq
      · exact lt_of_le_of_ne (not_lt.mp hlt) (Ne.symm heq)
      · exact hp q hq

/-- A key that is not there yet gets an entry of its own. -/
theorem perm_insertEntry {k : κ} (v : ν) {l : List (κ × ν)} (h : k ∉ l.map Prod.fst) :
    (insertEntry k v l).Perm ((k, v) :: l) := by
  induction l with
  | nil => exact .refl _
  | cons p rest ih =>
    rw [List.map_cons, List.mem_cons, not_or] at h
    rw [insertEntry]
    split_ifs with hlt heq
    · exact .refl _
    · exact absurd heq h.1
    · exact ((ih h.2).cons p).trans (.swap _ _ _)

def insert (m : OrderedMap κ ν) (k : κ) (v : ν) : OrderedMap κ ν :=
  ⟨insertEntry k v m.entries, sorted_insertEntry k v m.sorted⟩

/-- The pairs of a list inserted into an empty map, from the front. -/
def collect (l : List (κ × ν)) : OrderedMap κ ν :=
  l.foldl (fun m p => m.insert p.1 p.2) empty

theorem perm_foldl_insert (l : List (κ × ν)) (m : OrderedMap κ ν)
    (h : (m.entries.map Prod.fst ++ l.map Prod.fst).Nodup) :
    (l.foldl (fun m p => m.insert p.1 p.2) m).entries.Perm (m.entries ++ l) := by
  induction l generalizing m with
  | nil => simp
  | cons p l ih =>
    rw [List.map_cons] at h
    have hnew : p.1 ∉ m.entries.map Prod.fst := fun hmem =>
      (List.nodup_append.mp h).2.2 p.1 hmem p.1 List.mem_cons_self rfl
    have hperm : (m.insert p.1 p.2).entries.Perm (p :: m.entries) := perm_insertEntry p.2 hnew
    have hnodup : ((m.insert p.1 p.2).entries.map Prod.fst ++ l.map Prod.fst).Nodup := by
      refine (((hperm.map Prod.fst).append_right _).nodup_iff).mpr ?_
      exact (List.perm_middle.nodup_iff).mp h
    refine (ih _ hnodup).trans ?_
    exact (hperm.append_right l).trans (List.perm_middle.symm)

/-- Pairs with distinct keys are all kept. -/
theorem perm_collect {l : List (κ × ν)} (h : (l.map Prod.fst).Nodup) :
    (collect l).entries.Perm l :=
  perm_foldl_insert l empty h

end OrderedMap

end ProcessCpp.Base
