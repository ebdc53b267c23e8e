import Mathlib.Algebra.Group.Nat.Defs
import Mathlib.Data.List.Basic

/-!
# `std::string` with positions in `size_t`

Positions and counts are 64-bit words: a search that finds nothing gives `npos`, the
largest of them, and arithmetic on positions wraps around. `substr` and `erase` check the
position they start from and throw `std::out_of_range` beyond the end; a count that is too
large is clipped.

- `CxxString`: the characters, with the bound every string keeps (a length is never `npos`);
- `findFirstOf`, `findLastOf`, `substr`, `erase`;
- `findFirstOf_split`, `findLastOf_split`: a search splits the string at the character it
  found. The other lemmas say what the members do in terms of such splits.
-/

namespace ProcessCpp.Base

/-! ## Searching a list of characters -/

theorem findIdx?_of_notMem {l : List Char} {c : Char} (h : c ∉ l) : l.findIdx? (· = c) = none := by
  refine List.findIdx?_eq_none_iff.mpr fun d hd => ?_
  have hne : d ≠ c := fun he => h (he ▸ hd)
  simpa using hne

theorem findIdx?_split {before after : List Char} {c : Char} (h : c ∉ before) :
    (before ++ c :: after).findIdx? (· = c) = some before.length := by
  simp [List.findIdx?_append, List.findIdx?_cons, findIdx?_of_notMem h]

/-! ## The class -/

/-- `std::size_t`. -/
abbrev SizeT : Type := BitVec 64

/-- `std::string`. -/
structure CxxString where
  chars : List Char
  fits : chars.length < 2 ^ 64 - 1
deriving DecidableEq

/-- `std::out_of_range`, with the position and the size it reports. -/
structure OutOfRange where
  pos : SizeT
  size : SizeT
deriving DecidableEq

namespace CxxString

/-- `std::string::npos`. -/
def npos : SizeT := .allOnes 64

def empty : CxxString := ⟨[], by decide⟩

def size (s : CxxString) : SizeT := .ofNat 64 s.chars.length

/-- What a search returns. -/
def position : Option Nat → SizeT
  | some i => .ofNat 64 i
  | none => npos

/-- `s.find_first_of(c)`. -/
def findFirstOf (s : CxxString) (c : Char) : SizeT := position (s.chars.findIdx? (· = c))

/-- `s.find_last_of(c)`: the first place from the end. -/
def findLastOf (s : CxxString) (c : Char) : SizeT :=
  position ((s.chars.reverse.findIdx? (· = c)).map fun i => s.chars.length - 1 - i)

/-- `s.substr(pos, n)`. -/
def substr (s : CxxString) (pos n : SizeT) : Except OutOfRange CxxString :=
  if s.size < pos then .error ⟨pos, s.size⟩
  else .ok ⟨(s.chars.drop pos.toNat).take n.toNat, by
    have hfits := s.fits
    rw [List.length_take, List.length_drop]
    omega⟩

/-- `s.erase(pos)`. -/
def erase (s : CxxString) (pos : SizeT) : Except OutOfRange CxxString :=
  if s.size < pos then .error ⟨pos, s.size⟩
  else .ok ⟨s.chars.take pos.toNat, by
    have hfits := s.fits
    rw [List.length_take]
    omega⟩

/-! ## Positions -/

theorem toNat_size (s : CxxString) : s.size.toNat = s.chars.length := by
  have hfits := s.fits
  rw [size, BitVec.toNat_ofNat, Nat.mod_eq_of_lt (by omega)]

/-- A place in a string, as a word. -/
theorem toNat_place {s : CxxString} {i : Nat} (hi : i ≤ s.chars.length) :
    (BitVec.ofNat 64 i).toNat = i := by
  have hfits := s.fits
  rw [BitVec.toNat_ofNat, Nat.mod_eq_of_lt (by omega)]

/-- A place in a string is not `npos`. -/
theorem place_ne_npos {s : CxxString} {i : Nat} (hi : i ≤ s.chars.length) :
    BitVec.ofNat 64 i ≠ npos := by
  intro heq
  have hfits := s.fits
  have hnat : (BitVec.ofNat 64 i).toNat = npos.toNat := congrArg BitVec.toNat heq
  rw [toNat_place hi] at hnat
  have hnpos : npos.toNat = 2 ^ 64 - 1 := by decide
  omega

variable {s : CxxString} {before after : List Char} {c : Char}

/-- The first of the characters is where the string is split. -/
theorem findFirstOf_split (hs : s.chars = before ++ c :: after) (h : c ∉ before) :
    s.findFirstOf c = .ofNat 64 before.length := by
  rw [findFirstOf, hs, findIdx?_split h]
  rfl

/-- The last of the characters is where the string is split. -/
theorem findLastOf_split (hs : s.chars = before ++ c :: after) (h : c ∉ after) :
    s.findLastOf c = .ofNat 64 before.length := by
  have hrev : s.chars.reverse = after.reverse ++ c :: before.reverse := by simp [hs]
  have hlen : s.chars.length - 1 - after.reverse.length = before.length := by
    rw [hs, List.length_append, List.length_cons, List.length_reverse]
    omega
  rw [findLastOf, hrev, findIdx?_split (by simpa using h), Option.map_some, hlen]
  rfl

theorem findFirstOf_eq_npos (h : c ∉ s.chars) : s.findFirstOf c = npos := by
  rw [findFirstOf, findIdx?_of_notMem h]
  rfl

theorem findLastOf_eq_npos (h : c ∉ s.chars) : s.findLastOf c = npos := by
  rw [findLastOf, findIdx?_of_notMem (by simpa using h)]
  rfl

/-- A search finds nothing exactly when the character does not occur. -/
theorem findFirstOf_eq_npos_iff : s.findFirstOf c = npos ↔ c ∉ s.chars := by
  constructor
  · intro hnpos hmem
    obtain ⟨before, after, hs, hbefore⟩ := List.eq_append_cons_of_mem hmem
    rw [findFirstOf_split hs hbefore] at hnpos
    exact place_ne_npos (s := s) (by simp [hs]) hnpos
  · exact findFirstOf_eq_npos

/-- The last occurrence of a character. -/
theorem split_last (hmem : c ∈ s.chars) :
    ∃ before after, s.chars = before ++ c :: after ∧ c ∉ after := by
  obtain ⟨before, after, hs, hbefore⟩ := List.eq_append_cons_of_mem (List.mem_reverse.mpr hmem)
  refine ⟨after.reverse, before.reverse, ?_, by simpa using hbefore⟩
  rw [← List.reverse_reverse s.chars, hs]
  simp

/-! ## Parts of a string -/

/-- What `substr` and `erase` check holds of every place in the string. -/
theorem not_size_lt_place (hs : s.chars = before ++ after) :
    ¬ s.size < BitVec.ofNat 64 before.length := by
  have hle : before.length ≤ s.chars.length := by simp [hs]
  rw [BitVec.lt_def, toNat_place hle, toNat_size]
  omega

/-- From a place in the string, `substr` takes what is there, up to `n` characters. -/
theorem substr_place {n : SizeT} (hs : s.chars = before ++ after) :
    ∃ t, s.substr (.ofNat 64 before.length) n = .ok t ∧ t.chars = after.take n.toNat := by
  refine ⟨_, if_neg (not_size_lt_place hs), ?_⟩
  show (s.chars.drop (BitVec.ofNat 64 before.length).toNat).take n.toNat = after.take n.toNat
  rw [toNat_place (s := s) (by simp [hs]), hs, List.drop_left]

/-- From a place in the string on, `erase` leaves what is before. -/
theorem erase_place (hs : s.chars = before ++ after) :
    ∃ t, s.erase (.ofNat 64 before.length) = .ok t ∧ t.chars = before := by
  refine ⟨_, if_neg (not_size_lt_place hs), ?_⟩
  show s.chars.take (BitVec.ofNat 64 before.length).toNat = before
  rw [toNat_place (s := s) (by simp [hs]), hs, List.take_left]

end CxxString

end ProcessCpp.Base
