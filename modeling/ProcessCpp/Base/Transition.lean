/-!
# Labelled transition systems

The shape every run-level result of the development takes: a state, a label for
each step, and what holds in every state a run reaches.

- `LTS.Run T s ls t`: the labels `ls` lead from `s` to `t`;
- `LTS.Run.invariant`: what every step preserves holds along every run (the one
  induction all safety results share), `LTS.Run.invariant_of`, the same relative to an
  invariant already established, and `LTS.Run.history`, for what speaks of the labels so far;
- `LTS.Run.project`: a run of the whole is a run of a part that moves by itself;
- `LTS.restrict T G`: the runs all of whose steps meet the guard `G`. A result
  about `T.restrict G` says what holds as long as every step meets `G`, and
  `LTS.Run.good_iff_restrict` that nothing less will do;
- `LTS.within T P`: the runs that stay inside `P`, and `LTS.within_iff_restrict`, which
  says the same of them.
-/

namespace ProcessCpp.Base

universe u v

/-- A labelled transition system. -/
structure LTS (σ : Type u) (α : Type v) where
  step : σ → α → σ → Prop

namespace LTS

variable {σ : Type u} {α : Type v} {T : LTS σ α}

/-- Finite runs, with the list of their labels. -/
inductive Run (T : LTS σ α) : σ → List α → σ → Prop where
  | nil (s : σ) : Run T s [] s
  | cons {s t u : σ} {a : α} {ls : List α} : T.step s a t → Run T t ls u → Run T s (a :: ls) u

/-- What every step preserves holds along every run. -/
theorem Run.invariant {P : σ → Prop} (hP : ∀ s a t, T.step s a t → P s → P t) {s t : σ}
    {ls : List α} (h : T.Run s ls t) (hs : P s) : P t := by
  induction h with
  | nil => exact hs
  | cons hstep _ ih => exact ih (hP _ _ _ hstep hs)

/-- `Run.invariant` relative to an invariant `Q` that is already established. -/
theorem Run.invariant_of {P Q : σ → Prop} (hQ : ∀ s a t, T.step s a t → Q s → Q t)
    (hP : ∀ s a t, T.step s a t → Q s → P s → P t) {s t : σ} {ls : List α} (h : T.Run s ls t)
    (hqs : Q s) (hs : P s) : P t := by
  have hboth : Q t ∧ P t :=
    h.invariant (P := fun x => Q x ∧ P x)
      (fun x a y hxy hx => ⟨hQ x a y hxy hx.1, hP x a y hxy hx.1 hx.2⟩) ⟨hqs, hs⟩
  exact hboth.2

/-- What holds of the labels so far and the state they led to. -/
theorem Run.history {P : List α → σ → Prop}
    (hP : ∀ ls s a t, T.step s a t → P ls s → P (ls ++ [a]) t) {s t : σ} {ls : List α}
    (h : T.Run s ls t) (hs : P [] s) : P ls t := by
  suffices hfrom : ∀ {before : List α}, P before s → P (before ++ ls) t by
    simpa using hfrom hs
  clear hs
  induction h with
  | nil =>
    intro before hs
    simpa using hs
  | cons hstep _ ih =>
    intro before hs
    have hnext := ih (hP _ _ _ _ hstep hs)
    rwa [List.append_assoc, List.singleton_append] at hnext

theorem Run.append {s t u : σ} {ls ms : List α} (h : T.Run s ls t) (h' : T.Run t ms u) :
    T.Run s (ls ++ ms) u := by
  induction h with
  | nil => exact h'
  | cons hstep _ ih => exact .cons hstep (ih h')

/-- A part `f` of the state that moves by itself: each step either is a step of the part, under
the label that `seen` gives it, or leaves the part alone. -/
theorem Run.project {τ : Type u} {β : Type v} {U : LTS τ β} {f : σ → τ}
    {seen : α → Option β} {Q : σ → Prop} (hQ : ∀ s a t, T.step s a t → Q s → Q t)
    (hseen : ∀ s a t b, T.step s a t → Q s → seen a = some b → U.step (f s) b (f t))
    (hother : ∀ s a t, T.step s a t → Q s → seen a = none → f t = f s) {s t : σ}
    {ls : List α} (h : T.Run s ls t) (hs : Q s) :
    U.Run (f s) (ls.filterMap seen) (f t) := by
  induction h with
  | nil => exact .nil _
  | @cons _ _ _ a _ hstep _ ih =>
    have hrest := ih (hQ _ _ _ hstep hs)
    cases ha : seen a with
    | none =>
      rw [List.filterMap_cons_none ha, ← hother _ _ _ hstep hs ha]
      exact hrest
    | some b =>
      rw [List.filterMap_cons_some ha]
      exact .cons (hseen _ _ _ b hstep hs ha) hrest

/-- The runs all of whose steps meet the guard `G`. -/
def restrict (T : LTS σ α) (G : σ → α → Prop) : LTS σ α where
  step s a t := T.step s a t ∧ G s a

theorem Run.of_restrict {G : σ → α → Prop} {s t : σ} {ls : List α}
    (h : (T.restrict G).Run s ls t) : T.Run s ls t := by
  induction h with
  | nil => exact .nil _
  | cons hstep _ ih => exact .cons hstep.1 ih

/-- A run all of whose labels meet `G`. -/
theorem Run.restrict_of_forall {G : α → Prop} {s t : σ} {ls : List α} (h : T.Run s ls t)
    (hls : ∀ a ∈ ls, G a) : (T.restrict fun _ a => G a).Run s ls t := by
  induction h with
  | nil => exact .nil _
  | cons hstep _ ih =>
    obtain ⟨ha, hls⟩ := List.forall_mem_cons.mp hls
    exact .cons ⟨hstep, ha⟩ (ih hls)

/-- `Run.restrict_of_forall`, the other way round. -/
theorem Run.forall_of_restrict {G : α → Prop} {s t : σ} {ls : List α}
    (h : (T.restrict fun _ a => G a).Run s ls t) : ∀ a ∈ ls, G a := by
  induction h with
  | nil => simp
  | cons hstep _ ih => exact List.forall_mem_cons.mpr ⟨hstep.2, ih⟩

/-- If a step ends in a good state exactly when it starts in one and meets `G`, the runs with
a good end are those with a good start all of whose steps meet `G`. -/
theorem Run.good_iff_start_restrict {Q Good : σ → Prop} {G : σ → α → Prop}
    (hQ : ∀ s a t, T.step s a t → Q s → Q t)
    (hgood : ∀ s a t, T.step s a t → Q s → (Good t ↔ Good s ∧ G s a)) {s t : σ} {ls : List α}
    (h : T.Run s ls t) (hq : Q s) : Good t ↔ Good s ∧ (T.restrict G).Run s ls t := by
  constructor
  · intro ht
    -- a good end was good all along, so this is an induction from the end
    induction h with
    | nil => exact ⟨ht, .nil _⟩
    | cons hstep _ ih =>
      obtain ⟨hmid, hrest⟩ := ih (hQ _ _ _ hstep hq) ht
      obtain ⟨hstart, hG⟩ := (hgood _ _ _ hstep hq).mp hmid
      exact ⟨hstart, .cons ⟨hstep, hG⟩ hrest⟩
  · rintro ⟨hs, hrun⟩
    refine hrun.invariant_of (P := Good) (Q := Q) ?_ ?_ hq hs
    · intro x a y hxy hx
      exact hQ x a y hxy.1 hx
    · intro x a y hxy hx hgx
      exact (hgood x a y hxy.1 hx).mpr ⟨hgx, hxy.2⟩

/-- `Run.good_iff_start_restrict`, from a good start. -/
theorem Run.good_iff_restrict {Q Good : σ → Prop} {G : σ → α → Prop}
    (hQ : ∀ s a t, T.step s a t → Q s → Q t)
    (hgood : ∀ s a t, T.step s a t → Q s → (Good t ↔ Good s ∧ G s a)) {s t : σ} {ls : List α}
    (h : T.Run s ls t) (hq : Q s) (hs : Good s) : Good t ↔ (T.restrict G).Run s ls t := by
  rw [h.good_iff_start_restrict hQ hgood hq]
  exact and_iff_right hs

/-- The runs all of whose steps lead to states of `P`. -/
def within (T : LTS σ α) (P : σ → Prop) : LTS σ α where
  step s a t := T.step s a t ∧ P t

/-- If a step stays inside `P` exactly when it meets `G`, the runs that stay inside `P` are
those all of whose steps meet `G`. `Q` is what the runs inside `P` keep besides. -/
theorem within_iff_restrict {P Q : σ → Prop} {G : σ → α → Prop}
    (hQ : ∀ s a t, T.step s a t → Q s → P s → P t → Q t)
    (hP : ∀ s a t, T.step s a t → Q s → P s → (P t ↔ G s a)) {s t : σ} {ls : List α} (hq : Q s)
    (hs : P s) : (T.within P).Run s ls t ↔ (T.restrict G).Run s ls t := by
  constructor
  · intro h
    induction h with
    | nil => exact .nil _
    | cons hstep _ ih =>
      obtain ⟨hstep, hin⟩ := hstep
      have hG := (hP _ _ _ hstep hq hs).mp hin
      exact .cons ⟨hstep, hG⟩ (ih (hQ _ _ _ hstep hq hs hin) hin)
  · intro h
    induction h with
    | nil => exact .nil _
    | cons hstep _ ih =>
      obtain ⟨hstep, hG⟩ := hstep
      have hin := (hP _ _ _ hstep hq hs).mpr hG
      exact .cons ⟨hstep, hin⟩ (ih (hQ _ _ _ hstep hq hs hin) hin)

end LTS

end ProcessCpp.Base
