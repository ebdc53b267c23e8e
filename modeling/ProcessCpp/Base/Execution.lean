import ProcessCpp.Base.Transition

/-!
# Executions that end

Termination of one party of a labelled transition system, in spite of the others: an
execution goes on until the party is done, takes a step of that party again and again, and
some of its steps, which achieve nothing, happen only finitely often.

- `LTS.Execution T Done s`: an execution from `s`, with what it does once it is done left
  open;
- `Execution.Fair`, `Execution.Finitely`: the party keeps being scheduled; labels of a kind
  stop occurring;
- `Execution.ends`: if no run takes more than `b` steps of the party besides the idle ones,
  every such execution ends;
- `Execution.ends_of_potential`: so does one whose steps all use up a potential, which the
  idle ones may raise by a bounded amount.
-/

namespace ProcessCpp.Base

universe u v

variable {σ : Type u} {α : Type v}

/-- An execution that goes on until it is done. -/
structure LTS.Execution (T : LTS σ α) (Done : σ → Prop) (s : σ) where
  state : Nat → σ
  label : Nat → α
  start : state 0 = s
  step : ∀ n, ¬ Done (state n) → T.step (state n) (label n) (state (n + 1))

namespace LTS.Execution

variable {T : LTS σ α} {Done : σ → Prop} {s : σ}

/-- Until it is done, steps of this kind keep coming. -/
def Fair (e : T.Execution Done s) (own : α → Bool) : Prop :=
  ∀ n, ∃ m, n ≤ m ∧ (Done (e.state m) ∨ own (e.label m) = true)

/-- From some point on there are no steps of this kind. -/
def Finitely (e : T.Execution Done s) (idle : α → Bool) : Prop :=
  ∃ bound, ∀ n, bound ≤ n → idle (e.label n) = false

/-- The labels of the first steps. -/
def labels (e : T.Execution Done s) (n : Nat) : List α := (List.range n).map e.label

theorem labels_succ (e : T.Execution Done s) (n : Nat) :
    e.labels (n + 1) = e.labels n ++ [e.label n] := by
  rw [labels, List.range_succ, List.map_append]
  rfl

/-- An execution that is never done runs. -/
theorem run (e : T.Execution Done s) (hgoes : ∀ n, ¬ Done (e.state n)) (n : Nat) :
    T.Run s (e.labels n) (e.state n) := by
  induction n with
  | zero =>
    rw [e.start]
    exact .nil s
  | succ n ih =>
    rw [e.labels_succ]
    exact ih.append (.cons (e.step n (hgoes n)) (.nil _))

theorem countP_labels_succ (e : T.Execution Done s) (p : α → Bool) (n : Nat) :
    (e.labels (n + 1)).countP p = (e.labels n).countP p + if p (e.label n) then 1 else 0 := by
  rw [e.labels_succ, List.countP_append, List.countP_singleton]

/-- Steps that stop occurring have occurred a bounded number of times. -/
theorem countP_le_of_finitely (e : T.Execution Done s) {idle : α → Bool} {bound : Nat}
    (h : ∀ n, bound ≤ n → idle (e.label n) = false) (n : Nat) :
    (e.labels n).countP idle ≤ bound := by
  induction n with
  | zero => exact Nat.zero_le _
  | succ n ih =>
    rw [e.countP_labels_succ]
    by_cases hn : bound ≤ n
    · rw [h n hn]
      simpa using ih
    · have hlength : (e.labels n).countP idle ≤ n := by
        have hle := List.countP_le_length (l := e.labels n) (p := idle)
        rwa [labels, List.length_map, List.length_range] at hle
      split
      · omega
      · omega

theorem countP_mono (e : T.Execution Done s) (p : α → Bool) {n m : Nat} (h : n ≤ m) :
    (e.labels n).countP p ≤ (e.labels m).countP p := by
  induction m with
  | zero =>
    obtain rfl : n = 0 := by omega
    exact Nat.le_refl _
  | succ m ih =>
    by_cases hnm : n = m + 1
    · subst hnm
      exact Nat.le_refl _
    · have hle := ih (by omega)
      rw [e.countP_labels_succ]
      omega

/-- Steps that keep coming occur any number of times. -/
theorem exists_countP_ge (e : T.Execution Done s) (hgoes : ∀ n, ¬ Done (e.state n))
    {own : α → Bool} (hfair : e.Fair own) (count : Nat) :
    ∃ n, count ≤ (e.labels n).countP own := by
  induction count with
  | zero => exact ⟨0, Nat.zero_le _⟩
  | succ count ih =>
    obtain ⟨n, hn⟩ := ih
    obtain ⟨m, hnm, hm⟩ := hfair n
    have hown := hm.resolve_left (hgoes m)
    refine ⟨m + 1, ?_⟩
    have hle := e.countP_mono own hnm
    rw [e.countP_labels_succ, if_pos hown]
    omega

/-- An execution ends if no run takes more than `b` steps of the party besides the idle
ones. -/
theorem ends (e : T.Execution Done s) {own idle : α → Bool} {b : Nat}
    (hbound : ∀ ls t, T.Run s ls t → ls.countP own ≤ b + ls.countP idle) (hfair : e.Fair own)
    (hidle : e.Finitely idle) : ∃ n, Done (e.state n) := by
  refine Classical.byContradiction fun hnever => ?_
  have hgoes : ∀ n, ¬ Done (e.state n) := fun n hn => hnever ⟨n, hn⟩
  obtain ⟨bound, hbounded⟩ := hidle
  obtain ⟨n, hn⟩ := e.exists_countP_ge hgoes hfair (b + bound + 1)
  have hle := hbound _ _ (e.run hgoes n)
  have hfew := e.countP_le_of_finitely hbounded n
  omega

/-- A potential that every step lowers and an idle one raises by less than `c` bounds the
number of steps. -/
theorem potential_le (e : T.Execution Done s) (hgoes : ∀ n, ¬ Done (e.state n)) {I : σ → Prop}
    (potential : σ → Nat) {idle : α → Bool} {c : Nat} (hI : I s)
    (hstep : ∀ x l y, T.step x l y → I x →
      I y ∧ potential y + 1 ≤ potential x + if idle l then c else 0) (n : Nat) :
    I (e.state n) ∧ potential (e.state n) + n ≤ potential s + c * (e.labels n).countP idle := by
  induction n with
  | zero =>
    rw [e.start]
    exact ⟨hI, Nat.le_add_right _ _⟩
  | succ n ih =>
    obtain ⟨hn, hle⟩ := ih
    obtain ⟨hnext, hlower⟩ := hstep _ _ _ (e.step n (hgoes n)) hn
    refine ⟨hnext, ?_⟩
    rw [e.countP_labels_succ]
    cases hl : idle (e.label n) with
    | false =>
      rw [hl] at hlower
      simp only [Bool.false_eq_true, if_false, Nat.add_zero] at hlower ⊢
      omega
    | true =>
      rw [hl] at hlower
      simp only [if_true, Nat.mul_add, Nat.mul_one] at hlower ⊢
      omega

theorem ends_of_potential (e : T.Execution Done s) {I : σ → Prop} (potential : σ → Nat)
    {idle : α → Bool} {c : Nat} (hI : I s)
    (hstep : ∀ x l y, T.step x l y → I x →
      I y ∧ potential y + 1 ≤ potential x + if idle l then c else 0)
    (hidle : e.Finitely idle) : ∃ n, Done (e.state n) := by
  refine Classical.byContradiction fun hnever => ?_
  have hgoes : ∀ n, ¬ Done (e.state n) := fun n hn => hnever ⟨n, hn⟩
  obtain ⟨bound, hbounded⟩ := hidle
  have hle := (e.potential_le hgoes potential hI hstep (potential s + c * bound + 1)).2
  have hfew := Nat.mul_le_mul_left c
    (e.countP_le_of_finitely hbounded (potential s + c * bound + 1))
  omega

end LTS.Execution

end ProcessCpp.Base
