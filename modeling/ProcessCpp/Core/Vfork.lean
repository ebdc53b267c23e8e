import ProcessCpp.Core.Fork

/-!
# `core::posix::vfork`

fork.cpp:122–178. The text is that of `fork`, with three differences that matter: the
pipes are made whatever the flags say, they are made in place, and the child runs in
the parent's memory. So when the child closes the parent's ends, the `Pipe` objects
forget them in the parent too, while the parent's descriptor table, which the child
does not share, keeps them open. The parent then closes the child's ends, and copies
three pipes that have nothing left.

- `vfork`: the function, with the child's branch run in the shared memory;
- `vfork_spec`: what it leaves, for every table, flags and `main`;
- `vfork_never_agrees`: this is never what `fork` leaves (`fork_wiredAndOwned`).
-/

namespace ProcessCpp.Core

open ProcessCpp.Base ProcessCpp.Posix

/-! ## The function -/

/-- `Pipe stdin_pipe, stdout_pipe, stderr_pipe;` -/
def makeStreams : FdM Streams := do
  let stdin ← Pipe.ctor
  let stdout ← FdM.unwinding stdin.dtor Pipe.ctor
  let stderr ← FdM.unwinding (do stdout.dtor; stdin.dtor) Pipe.ctor
  return ⟨stdin, stdout, stderr⟩

/-- `vfork(2)` with the child's branch: the child runs on a copy of the table and in the
memory of the parent, which waits until `main` has ended or called `exec`. What the
parent finds changed is the memory (here: the pipe objects) and the number of pipes the
system has made; the child's descriptors when `main` starts are part of the result. -/
def vforkChild (flags : StandardStream) (ps : Streams) (main : FdState → FdState) :
    FdM (Streams × (Except Errno Unit × FdState)) := fun k =>
  match closeParentEnds ps k with
  | (.error errno, kc) => (.ok (ps, (.error errno, kc)), k)
  | (.ok ps', kc) =>
    match redirectStreams flags ps' kc with
    | (.error errno, kc) => (.ok (ps', (.error errno, kc)), k)
    | (.ok _, kc) => (.ok (ps', (.ok (), kc)), { k with nextPipe := (main kc).nextPipe })

/-- `core::posix::vfork`. -/
def vfork (self child : Nat) (flags : StandardStream) (main : FdState → FdState) :
    FdM (ForkedChild × (Except Errno Unit × FdState)) := do
  let ps ← makeStreams
  FdM.unwinding ps.dtor sysFork
  let r ← vforkChild flags ps main
  let object ← parentSide self child r.1
  return (object, r.2)

/-! ## What it leaves -/

open FdTable FdM

variable {base : FdTable Descr} {k : FdState} {own : Multiset (Nat × Descr)}

theorem makeStreams_spec (h : Owns base k 0) :
    Returns makeStreams k fun ps k' => ∃ r₀ w₀ r₁ w₁ r₂ w₂ : Nat,
      ps = ⟨⟨some r₀, some w₀⟩, ⟨some r₁, some w₁⟩, ⟨some r₂, some w₂⟩⟩ ∧
      Owns base k' (ps.descrs (Stream.numbered k.nextPipe (k.nextPipe + 1) (k.nextPipe + 2))) := by
  unfold makeStreams
  refine (Pipe.ctor_spec h).bind ?_
  rintro _ k₁ ⟨r₀, w₀, rfl, h₁, hnext₁, -, -, -⟩
  refine ((Pipe.ctor_spec h₁).unwinding _).bind ?_
  rintro _ k₂ ⟨r₁, w₁, rfl, h₂, hnext₂, -, -, -⟩
  refine ((Pipe.ctor_spec h₂).unwinding _).bind ?_
  rintro _ k₃ ⟨r₂, w₂, rfl, h₃, -, -, -, -⟩
  refine Returns.pure ⟨r₀, w₀, r₁, w₁, r₂, w₂, rfl, h₃.congr ?_⟩
  simp only [hnext₂, hnext₁, Streams.descrs, Pipe.descrs, Stream.numbered]
  abel

/-- The parent's branch after the child has emptied the parent's half of each pipe: the
child's ends are closed, the parent's stay in the table, the object gets nothing. -/
theorem parentSide_childPart_spec {ids : Stream → Nat} {ps : Streams}
    (h : Owns base k (ps.descrs ids)) (self child : Nat) :
    Returns (parentSide self child ps.childPart) k fun object k' =>
      (∀ n, ¬ object.OwnsFd n) ∧ (∀ s, object.streamFd s = none) ∧
      Owns base k' (ps.parentEnds ids) := by
  have h₀ := h.congr (ps.descrs_eq_parentEnds ids)
  unfold parentSide
  refine (Pipe.closeReadFd_spec (p := ps.childPart.stdin) h₀).bind ?_
  rintro _ k₁ ⟨rfl, h₁, -, -⟩
  refine (Pipe.closeWriteFd_spec (p := ps.childPart.stdout) h₁).bind ?_
  rintro _ k₂ ⟨rfl, h₂, -, -⟩
  refine (Pipe.closeWriteFd_spec (p := ps.childPart.stderr) h₂).bind ?_
  rintro _ k₃ ⟨rfl, h₃, -, -⟩
  -- all three pipes are empty now, and so is the object made from them
  have hempty := @ForkedChild.ctor_spec base k₃ _ none none none (.other 0) (.other 0) (.other 0)
    h₃ (Multiset.zero_le _) (Multiset.zero_le _) (Multiset.zero_le _) self child
  refine hempty.bind ?_
  rintro ⟨pid, pipes, serr, sin, sout, parentPid, childPid⟩ k₄
    ⟨h₄, hsin, hsout, hserr, hpipes, -, -⟩
  obtain rfl : sin = none := Option.isNone_iff_eq_none.mp (by simpa using hsin)
  obtain rfl : sout = none := Option.isNone_iff_eq_none.mp (by simpa using hsout)
  obtain rfl : serr = none := Option.isNone_iff_eq_none.mp (by simpa using hserr)
  have hclosed : pipes = ⟨Pipe.closed, Pipe.closed, Pipe.closed⟩ := hpipes
  subst hclosed
  have hlocals : Owns base k₄ (readEnd none 0 + (writeEnd none 0 + (readEnd none 0 +
      (writeEnd none 0 + (readEnd none 0 + (writeEnd none 0 + ps.parentEnds ids)))))) := by
    refine h₄.congr ?_
    simp only [owned_none, zero_add]
  refine Returns.bind (Streams.dtor_adds hlocals.adds) ?_
  rintro _ k₅ ⟨h₅, hafter₅, -⟩
  refine Returns.pure ⟨?_, ?_, hlocals.after h₅ hafter₅⟩
  · rintro n ⟨p, hp, hfd⟩
    simp only [List.mem_cons, List.not_mem_nil, or_false, or_self] at hp
    subst hp
    rcases hfd with hfd | hfd <;> cases hfd
  · intro s
    cases s <;> rfl

/-- Whatever the child's branch does, the parent finds its own table as it was and the
pipe objects without the parent's ends. -/
theorem vforkChild_spec (h : Owns base k own) (flags : StandardStream) (ps : Streams)
    (main : FdState → FdState) :
    Returns (vforkChild flags ps main) k fun r k' => r.1 = ps.childPart ∧ Owns base k' own := by
  obtain ⟨kc, hclose⟩ : ∃ kc, closeParentEnds ps k = (.ok ps.childPart, kc) := ⟨_, rfl⟩
  rcases hredirect : redirectStreams flags ps.childPart kc with ⟨errno | _, kr⟩
  · refine ⟨(ps.childPart, (.error errno, kr)), k, ?_, rfl, h⟩
    simp only [vforkChild, hclose, hredirect]
  · refine ⟨(ps.childPart, (.ok (), kr)), { k with nextPipe := (main kr).nextPipe }, ?_, rfl,
      ⟨h.adds, h.quiet⟩⟩
    simp only [vforkChild, hclose, hredirect]

/-- What a call of `vfork` leaves: an object that owns nothing, and in the parent's table
the parent's ends of three new pipes. -/
theorem vfork_spec (hquiet : k.faults = []) (self child : Nat) (flags : StandardStream)
    (main : FdState → FdState) :
    Returns (vfork self child flags main) k fun r k' =>
      (∀ n, ¬ r.1.OwnsFd n) ∧ (∀ s, r.1.streamFd s = none) ∧
      ∃ w₀ r₁ r₂ : Nat, k.table.Adds k'.table (writeEnd (some w₀) k.nextPipe +
        (readEnd (some r₁) (k.nextPipe + 1) + readEnd (some r₂) (k.nextPipe + 2))) := by
  have hstart : Owns k.table k 0 := ⟨Adds.nil _, hquiet⟩
  unfold vfork
  refine (makeStreams_spec hstart).bind ?_
  rintro _ k₁ ⟨r₀, w₀, r₁, w₁, r₂, w₂, rfl, h₁⟩
  refine ((sysFork_spec h₁).unwinding _).bind ?_
  rintro _ _ rfl
  refine (vforkChild_spec h₁ flags _ main).bind ?_
  rintro ⟨ps, side⟩ k₂ ⟨rfl, h₂⟩
  refine (parentSide_childPart_spec h₂ self child).bind ?_
  rintro object k₃ ⟨howns, hnone, h₃⟩
  exact Returns.pure ⟨howns, hnone, w₀, r₁, r₂, h₃.adds⟩

/-- The write end of the first pipe stays open in the parent, and nobody owns it. -/
theorem not_wiredAndOwned {flags : StandardStream} {before after : FdState} {object : ForkedChild}
    {child : FdTable Descr} {w₀ r₁ r₂ : Nat} (howns : ∀ n, ¬ object.OwnsFd n)
    (hadds : before.table.Adds after.table (writeEnd (some w₀) before.nextPipe +
      (readEnd (some r₁) (before.nextPipe + 1) + readEnd (some r₂) (before.nextPipe + 2)))) :
    ¬ WiredAndOwned flags before object child after := by
  intro hagrees
  have hleaked : after.table.get w₀ = some (.pipe before.nextPipe .write) :=
    hadds.get_own (by simp)
  exact howns w₀ (hagrees.no_leak w₀ _ _ (Nat.le_refl _) hleaked)

/-- For every table, flags and `main`, `vfork` returns and has not done what `fork`
does. -/
theorem vfork_never_agrees (table : FdTable Descr) (invalidDone : Bool) (nextPipe self child : Nat)
    (flags : StandardStream) (main : FdState → FdState) :
    ∃ object side after,
      vfork self child flags main ⟨table, invalidDone, nextPipe, []⟩ = (.ok (object, side), after) ∧
      ¬ WiredAndOwned flags ⟨table, invalidDone, nextPipe, []⟩ object side.2.table after := by
  obtain ⟨⟨object, side⟩, after, hvfork, howns, -, w₀, r₁, r₂, hadds⟩ :=
    vfork_spec (k := ⟨table, invalidDone, nextPipe, []⟩) rfl self child flags main
  exact ⟨object, side, after, hvfork, not_wiredAndOwned howns hadds⟩

/-- A call that asks for no redirection at all, in a process without open files, leaves
three descriptors open that nobody owns. -/
theorem vfork_leaks :
    ∃ object side after,
      vfork 1 2 ⟨0⟩ id ⟨FdTable.empty, false, 0, []⟩ = (.ok (object, side), after) ∧
      ¬ WiredAndOwned ⟨0⟩ ⟨FdTable.empty, false, 0, []⟩ object side.2.table after := by
  obtain ⟨⟨object, side⟩, after, hvfork, howns, -, w₀, r₁, r₂, hadds⟩ :=
    vfork_spec (k := ⟨FdTable.empty, false, 0, []⟩) rfl 1 2 ⟨0⟩ id
  exact ⟨object, side, after, hvfork, not_wiredAndOwned howns hadds⟩

end ProcessCpp.Core
