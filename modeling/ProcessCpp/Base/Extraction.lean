import ProcessCpp.Base.IStream

/-!
# Chains of extractions into a record

`in >> r.a >> r.b >> r.c`: a record filled member by member from one stream. Once an
extraction has failed the stream refuses all that follow, so such a chain has a first
operand that could not be extracted, or none.

- `Operand R`: one operand, with the law every extractor keeps: a stream that has failed
  stays so. That a refused operand keeps its value is *not* asked for (`Operand.Keeps`): an
  extractor that goes through a local variable need not do it;
- `Members`: the operands are members of the record that do not overlap;
- `get_extractAll`: what an operand holds at the end, and `get_extractAll_of_failed`, what it
  holds after a failure.
-/

namespace ProcessCpp.Base

universe u

/-- An operand of a chain of extractions: a member of a record and how it is read. -/
structure Operand (R : Type u) where
  Val : Type
  get : R → Val
  set : R → Val → R
  extract : IStream → Val → IStream × Val
  sticky : ∀ s v, s.fail = true → (extract s v).1.fail = true

variable {R : Type u}

namespace Operand

/-- `in >> member`. -/
def apply (r : IStream × R) (f : Operand R) : IStream × R :=
  let e := f.extract r.1 (f.get r.2)
  (e.1, f.set r.2 e.2)

/-- A refused operand keeps its value. -/
def Keeps (f : Operand R) : Prop := ∀ s v, s.fail = true → (f.extract s v).2 = v

/-- Setting one of the members leaves the other alone. -/
def Apart (f g : Operand R) : Prop :=
  (∀ r v, f.get (g.set r v) = f.get r) ∧ ∀ r v, g.get (f.set r v) = g.get r

theorem Apart.symm {f g : Operand R} (h : f.Apart g) : g.Apart f := ⟨h.2, h.1⟩

end Operand

/-- The operands are members of the record that do not overlap. -/
structure Members (fs : List (Operand R)) : Prop where
  get_set : ∀ f ∈ fs, ∀ r v, f.get (f.set r v) = v
  apart : fs.Pairwise Operand.Apart

/-- `in >> a >> b …`. -/
def extractAll (fs : List (Operand R)) (s : IStream) (r : R) : IStream × R :=
  fs.foldl Operand.apply (s, r)

/-- The stream before the operand at the given place. -/
def streamAt (fs : List (Operand R)) (s : IStream) (r : R) (i : Nat) : IStream :=
  (extractAll (fs.take i) s r).1

/-- The operand at the given place could be extracted. -/
def Extracted (fs : List (Operand R)) (s : IStream) (r : R) (i : Nat) : Prop :=
  (streamAt fs s r (i + 1)).fail = false

variable {fs gs : List (Operand R)} {f : Operand R} {s : IStream} {r : R} {i j : Nat}

theorem extractAll_append (fs gs : List (Operand R)) (s : IStream) (r : R) :
    extractAll (fs ++ gs) s r = extractAll gs (extractAll fs s r).1 (extractAll fs s r).2 :=
  List.foldl_append ..

/-- A stream that has failed stays so along the chain. -/
theorem fail_extractAll (fs : List (Operand R)) (hs : s.fail = true) (r : R) :
    (extractAll fs s r).1.fail = true := by
  induction fs generalizing s r with
  | nil => exact hs
  | cons f fs ih => exact ih (f.sticky s _ hs) _

/-- A member that no operand overlaps with is left alone. -/
theorem get_extractAll_of_apart (h : ∀ g ∈ gs, f.Apart g) (s : IStream) (r : R) :
    f.get (extractAll gs s r).2 = f.get r := by
  induction gs generalizing s r with
  | nil => rfl
  | cons g gs ih =>
    obtain ⟨hg, hgs⟩ := List.forall_mem_cons.mp h
    exact (ih hgs _ _).trans (hg.1 r _)

/-- An operand that could be extracted has the streams before it unfailed. -/
theorem Extracted.of_le (h : Extracted fs s r j) (hij : i ≤ j) : Extracted fs s r i := by
  unfold Extracted streamAt at h ⊢
  have hsplit : fs.take (j + 1) = fs.take (i + 1) ++ (fs.take (j + 1)).drop (i + 1) := by
    have htake : (fs.take (j + 1)).take (i + 1) = fs.take (i + 1) := by
      rw [List.take_take, Nat.min_eq_left (by omega)]
    rw [← htake, List.take_append_drop]
  rw [hsplit, extractAll_append] at h
  cases hfail : (extractAll (fs.take (i + 1)) s r).1.fail with
  | false => rfl
  | true =>
    rw [fail_extractAll _ hfail] at h
    cases h

/-- The chain, cut at an operand. -/
theorem split_at (hf : fs[i]? = some f) : fs = fs.take i ++ f :: fs.drop (i + 1) := by
  obtain ⟨hi, rfl⟩ := List.getElem?_eq_some_iff.mp hf
  rw [← List.drop_eq_getElem_cons hi, List.take_append_drop]

/-- A member holds what was extracted for it: nothing before and nothing after its operand
touches it. -/
theorem get_extractAll (hm : Members fs) (hf : fs[i]? = some f) (s : IStream) (r : R) :
    f.get (extractAll fs s r).2 = (f.extract (streamAt fs s r i) (f.get r)).2 := by
  have hsplit := split_at hf
  have happart := hm.apart
  rw [hsplit, List.pairwise_append, List.pairwise_cons] at happart
  obtain ⟨-, ⟨hlater, -⟩, hacross⟩ := happart
  have hearlier : ∀ g ∈ fs.take i, f.Apart g := fun g hg =>
    (hacross g hg f List.mem_cons_self).symm
  have hold := get_extractAll_of_apart hearlier s r
  have hmem : f ∈ fs := List.mem_of_getElem? hf
  calc f.get (extractAll fs s r).2
      = f.get (extractAll (f :: fs.drop (i + 1)) (extractAll (fs.take i) s r).1
          (extractAll (fs.take i) s r).2).2 := by
        rw [← extractAll_append, ← hsplit]
    _ = f.get (Operand.apply (extractAll (fs.take i) s r) f).2 :=
        get_extractAll_of_apart hlater ..
    _ = (f.extract (streamAt fs s r i) (f.get (extractAll (fs.take i) s r).2)).2 :=
        hm.get_set f hmem ..
    _ = (f.extract (streamAt fs s r i) (f.get r)).2 := by rw [hold]

/-- Behind an operand that could not be extracted, a member that is kept where it is refused
has the value it had. -/
theorem get_extractAll_of_failed (hm : Members fs) (hf : fs[j]? = some f) (hkeeps : f.Keeps)
    (hij : i < j) (hfailed : ¬ Extracted fs s r i) : f.get (extractAll fs s r).2 = f.get r := by
  rw [get_extractAll hm hf]
  refine hkeeps _ _ ?_
  -- the stream before the operand is the one after an operand that failed
  cases hfine : (streamAt fs s r j).fail with
  | true => rfl
  | false =>
    have hextracted : Extracted fs s r (j - 1) := by
      unfold Extracted
      rw [Nat.sub_add_cancel (by omega)]
      exact hfine
    exact absurd (hextracted.of_le (by omega)) hfailed

end ProcessCpp.Base
