import Mathlib.Algebra.Order.Group.Multiset
import Mathlib.Tactic.Abel
import ProcessCpp.Base.FdTable
import ProcessCpp.Posix.Basic

/-!
# `ChildProcess::Pipe`

The pipe class of child_process.cpp (lines 191–271), over the descriptor table of
one process.

- `FdState`: what the code reads and writes: the table, whether the static of
  `Pipe::invalid` is set up, the number of the next pipe of the system, and which of
  the coming system calls fail;
- `FdM`: computations on it that may throw, with the state kept when they do;
- `Pipe` and its members. A descriptor of `-1` is `none`.

The lemmas follow a piece of code with `base.Adds k.table own`: the table is `base` with
`own` added. Each member says what it does to `own`, which of its calls fail, and how many
it makes (`After`). `Owns base k own` is the same while no call is going to fail.
-/

namespace ProcessCpp.Core

open ProcessCpp.Base ProcessCpp.Posix

/-! ## Descriptors and the calls on them -/

/-- The two ends of a pipe. -/
inductive PipeEnd where
  | read
  | write
deriving DecidableEq, Repr

/-- An open file description: an end of a pipe, or anything else. -/
inductive Descr where
  | other (n : Nat)
  | pipe (id : Nat) (side : PipeEnd)
deriving DecidableEq, Repr

structure FdState where
  table : FdTable Descr
  /-- the static pipe of `Pipe::invalid` has been made and closed -/
  invalidDone : Bool
  nextPipe : Nat
  /-- for each coming call that can fail, the error it fails with -/
  faults : List (Option Errno)

/-- Code that works on descriptors and may throw a `std::system_error`. -/
def FdM (α : Type) : Type := FdState → Except Errno α × FdState

instance : Monad FdM where
  pure a := fun k => (.ok a, k)
  bind x f := fun k =>
    match x k with
    | (.error errno, k') => (.error errno, k')
    | (.ok a, k') => f a k'

namespace FdM

/-- What follows a computation that returned. -/
theorem bind_eq {α β : Type} {x : FdM α} {f : α → FdM β} {a : α} {k k' : FdState}
    (h : x k = (.ok a, k')) : (x >>= f) k = f a k' := by
  show (match x k with
    | (.error errno, k') => (.error errno, k')
    | (.ok a, k') => f a k') = f a k'
  rw [h]

/-- What follows a computation that threw. -/
theorem bind_error {α β : Type} {x : FdM α} {f : α → FdM β} {e : Errno} {k k' : FdState}
    (h : x k = (.error e, k')) : (x >>= f) k = (.error e, k') := by
  show (match x k with
    | (.error errno, k') => (.error errno, k')
    | (.ok a, k') => f a k') = (.error e, k')
  rw [h]

/-- The computation returns, with a result and a state as described. -/
def Returns {α : Type} (x : FdM α) (k : FdState) (post : α → FdState → Prop) : Prop :=
  ∃ a k', x k = (.ok a, k') ∧ post a k'

theorem Returns.bind {α β : Type} {x : FdM α} {f : α → FdM β} {k : FdState}
    {mid : α → FdState → Prop} {post : β → FdState → Prop} (hx : Returns x k mid)
    (hf : ∀ a k', mid a k' → Returns (f a) k' post) : Returns (x >>= f) k post := by
  obtain ⟨a, k', hax, hmid⟩ := hx
  obtain ⟨b, k'', hbf, hpost⟩ := hf a k' hmid
  exact ⟨b, k'', by rw [bind_eq hax, hbf], hpost⟩

theorem Returns.weaken {α : Type} {x : FdM α} {k : FdState} {post post' : α → FdState → Prop}
    (hx : Returns x k post) (himp : ∀ a k', post a k' → post' a k') : Returns x k post' := by
  obtain ⟨a, k', hax, hpost⟩ := hx
  exact ⟨a, k', hax, himp a k' hpost⟩

theorem Returns.pure {α : Type} {a : α} {k : FdState} {post : α → FdState → Prop}
    (h : post a k) : Returns (Pure.pure a) k post :=
  ⟨a, k, rfl, h⟩

/-- Unwinding: on an exception, run the destructors `cleanup`. -/
def unwinding {α : Type} (cleanup : FdM Unit) (body : FdM α) : FdM α := fun k =>
  match body k with
  | (.error errno, k') => (.error errno, (cleanup k').2)
  | (.ok a, k') => (.ok a, k')

theorem Returns.unwinding {α : Type} {body : FdM α} {k : FdState} {post : α → FdState → Prop}
    (h : Returns body k post) (cleanup : FdM Unit) :
    Returns (FdM.unwinding cleanup body) k post := by
  obtain ⟨a, k', hbody, hpost⟩ := h
  refine ⟨a, k', ?_, hpost⟩
  unfold FdM.unwinding
  rw [hbody]

/-- The computation throws, with an error and in a state as described. -/
def Throws {α : Type} (x : FdM α) (k : FdState) (post : Errno → FdState → Prop) : Prop :=
  ∃ e k', x k = (.error e, k') ∧ post e k'

theorem Throws.bind {α β : Type} {x : FdM α} {k : FdState} {post : Errno → FdState → Prop}
    (hx : Throws x k post) (f : α → FdM β) : Throws (x >>= f) k post := by
  obtain ⟨e, k', he, hpost⟩ := hx
  exact ⟨e, k', bind_error he, hpost⟩

/-- The destructors run in the state in which the exception was thrown. -/
theorem Throws.unwinding {α : Type} {body : FdM α} {cleanup : FdM Unit} {k : FdState}
    {mid post : Errno → FdState → Prop} (h : Throws body k mid)
    (hcleanup : ∀ e k', mid e k' → Returns cleanup k' fun _ k'' => post e k'') :
    Throws (FdM.unwinding cleanup body) k post := by
  obtain ⟨e, k', he, hmid⟩ := h
  obtain ⟨_, k'', hrun, hpost⟩ := hcleanup e k' hmid
  refine ⟨e, k'', ?_, hpost⟩
  simp only [FdM.unwinding, he, hrun]

/-- The state as it is. -/
def current : FdM FdState := fun k => (.ok k, k)

theorem Returns.current_bind {α : Type} {f : FdState → FdM α} {k : FdState}
    {post : α → FdState → Prop} (h : Returns (f k) k post) : Returns (current >>= f) k post :=
  h

end FdM

/-- Whether the next call fails. -/
def FdState.nextFault (k : FdState) : Option Errno := k.faults.head?.join

def FdState.called (k : FdState) : FdState := { k with faults := k.faults.tail }

/-- `pipe(2)`. -/
def sysPipe : FdM (Nat × Nat) := fun k =>
  match k.nextFault with
  | some errno => (.error errno, k.called)
  | none =>
    let r := k.table.alloc (.pipe k.nextPipe .read)
    let w := r.2.alloc (.pipe k.nextPipe .write)
    (.ok (r.1, w.1), { k.called with table := w.2, nextPipe := k.nextPipe + 1 })

/-- `dup(2)`; `none` is its `-1`. -/
def sysDup (fd : Nat) : FdM (Option Nat) := fun k =>
  match k.nextFault with
  | some _ => (.ok none, k.called)
  | none =>
    match k.table.dup fd with
    | none => (.ok none, k.called)
    | some (n, t) => (.ok (some n), { k.called with table := t })

/-- `dup2(2)`. -/
def sysDup2 (fd : Option Nat) (target : Nat) : FdM Unit := fun k =>
  match k.nextFault with
  | some errno => (.error errno, k.called)
  | none =>
    match fd.bind fun n => k.table.dup2 n target with
    | none => (.error .ebadf, k.called)
    | some t => (.ok (), { k.called with table := t })

/-- `close(2)`, of a descriptor unless it is `-1`. -/
def closeFd (fd : Option Nat) : FdM Unit := fun k =>
  (.ok (), { k with table := k.table.closeOpt fd })

/-- `dup(2)`, of a descriptor unless it is `-1`. -/
def dupFd : Option Nat → FdM (Option Nat)
  | none => pure none
  | some fd => sysDup fd

/-! ## The class -/

/-- `ChildProcess::Pipe`. -/
structure Pipe where
  readFd : Option Nat
  writeFd : Option Nat
deriving DecidableEq, Repr

namespace Pipe

/-- A pipe without descriptors. -/
def closed : Pipe := ⟨none, none⟩

/-- `Pipe::Pipe()`. -/
def ctor : FdM Pipe := do
  let fds ← sysPipe
  return ⟨some fds.1, some fds.2⟩

/-- `Pipe::Pipe(const Pipe&)`. -/
def copy (rhs : Pipe) : FdM Pipe := do
  let r ← dupFd rhs.readFd
  let w ← dupFd rhs.writeFd
  return ⟨r, w⟩

/-- `Pipe::~Pipe`. -/
def dtor (p : Pipe) : FdM Unit := do
  closeFd p.readFd
  closeFd p.writeFd

/-- `Pipe::close_read_fd`. -/
def closeReadFd (p : Pipe) : FdM Pipe := do
  closeFd p.readFd
  return { p with readFd := none }

/-- `Pipe::close_write_fd`. -/
def closeWriteFd (p : Pipe) : FdM Pipe := do
  closeFd p.writeFd
  return { p with writeFd := none }

/-- `Pipe::operator=`. -/
def assign (p rhs : Pipe) : FdM Pipe := do
  closeFd p.readFd
  closeFd p.writeFd
  let r ← dupFd rhs.readFd
  let w ← dupFd rhs.writeFd
  return ⟨r, w⟩

/-- `Pipe::invalid`: the first call makes the static pipe and closes it. -/
def invalid : FdM Pipe := do
  let k ← FdM.current
  if k.invalidDone then
    copy closed
  else
    let p ← ctor
    let p ← p.closeReadFd
    let p ← p.closeWriteFd
    (fun k => (.ok (), { k with invalidDone := true }) : FdM Unit)
    copy p

end Pipe

/-! ## What the members do to the descriptors a piece of code owns -/

/-- A descriptor for the read end of a pipe. -/
abbrev readEnd (fd : Option Nat) (id : Nat) : Multiset (Nat × Descr) :=
  FdTable.owned fd (.pipe id .read)

/-- A descriptor for the write end of a pipe. -/
abbrev writeEnd (fd : Option Nat) (id : Nat) : Multiset (Nat × Descr) :=
  FdTable.owned fd (.pipe id .write)

open FdTable FdM

variable {base : FdTable Descr} {k k' k'' : FdState} {own : Multiset (Nat × Descr)}

/-- `k'` is a state that `n` calls lead to, as far as faults and the static pipe go. -/
def After (k : FdState) (n : Nat) (k' : FdState) : Prop :=
  k'.faults = k.faults.drop n ∧ k'.invalidDone = k.invalidDone

theorem After.refl (k : FdState) : After k 0 k := ⟨rfl, rfl⟩

theorem After.trans {n m : Nat} (h : After k n k') (h' : After k' m k'') : After k (n + m) k'' := by
  refine ⟨?_, h'.2.trans h.2⟩
  rw [h'.1, h.1, List.drop_drop]

theorem After.called (k : FdState) : After k 1 k.called :=
  ⟨List.drop_one.symm, rfl⟩

theorem After.nextFault {n : Nat} (h : After k n k') :
    k'.nextFault = (k.faults.drop n).head?.join := by
  rw [FdState.nextFault, h.1]

/-- The next `n` calls do not fail. -/
def FdState.Calm (k : FdState) (n : Nat) : Prop :=
  ∀ i, i < n → (k.faults.drop i).head?.join = none

theorem FdState.Calm.nextFault {n : Nat} (h : k.Calm n) (hn : 0 < n) : k.nextFault = none := h 0 hn

theorem FdState.Calm.after {n m : Nat} (h : k.Calm (n + m)) (hafter : After k n k') :
    k'.Calm m := by
  intro i hi
  rw [hafter.1, List.drop_drop]
  exact h (n + i) (by omega)

theorem FdState.calm_of_quiet (h : k.faults = []) (n : Nat) : k.Calm n := by
  intro i _
  rw [h, List.drop_nil]
  rfl

/-- Closing an owned descriptor, or none, whatever fails later. -/
theorem closeFd_adds {fd : Option Nat} {d : Descr} (h : base.Adds k.table (owned fd d + own)) :
    Returns (closeFd fd) k fun _ k' =>
      base.Adds k'.table own ∧ After k 0 k' ∧ k'.nextPipe = k.nextPipe :=
  ⟨(), _, rfl, h.closeOpt, ⟨rfl, rfl⟩, rfl⟩

/-- Duplicating an owned descriptor, or none: it succeeds if it does not fail, and there is
nothing to be seen of a failure but the missing descriptor. -/
theorem dupFd_adds {fd : Option Nat} {d : Descr} (h : base.Adds k.table own)
    (hmem : owned fd d ≤ own) :
    Returns (dupFd fd) k fun fd' k' =>
      base.Adds k'.table (owned fd' d + own) ∧ After k fd.isSome.toNat k' ∧
      k'.nextPipe = k.nextPipe ∧ fd'.isSome = (fd.isSome && k.nextFault.isNone) ∧
      (∀ n, fd' = some n → n = k.table.lowestFree ∧ n < k'.table.lowestFree) ∧
      k.table.lowestFree ≤ k'.table.lowestFree := by
  cases fd with
  | none =>
    refine ⟨none, k, rfl, ?_, After.refl k, rfl, rfl, nofun, Nat.le_refl _⟩
    simpa [owned] using h
  | some n =>
    cases hfault : k.nextFault with
    | some e =>
      refine ⟨none, k.called, ?_, ?_, After.called k, rfl, rfl, nofun, Nat.le_refl _⟩
      · simp only [dupFd, sysDup, hfault]
      · simpa [owned, FdState.called] using h
    | none =>
      have hget : k.table.get n = some d :=
        h.get_own (Multiset.mem_of_le hmem (by simp))
      have hlt := lowestFree_lt_set k.table d
      refine ⟨some k.table.lowestFree, { k.called with table := (k.table.alloc d).2 }, ?_, ?_,
        After.called k, rfl, rfl, fun m hm => ?_, Nat.le_of_lt hlt⟩
      · simp only [dupFd, sysDup, hfault, FdTable.dup, hget, Option.map_some]
        rfl
      · rw [owned, Multiset.singleton_add]
        exact h.alloc d
      · cases hm
        exact ⟨rfl, hlt⟩

theorem Pipe.ctor_throws {e : Errno} (h : k.nextFault = some e) :
    Throws Pipe.ctor k fun _ k' => k' = k.called := by
  refine ⟨e, k.called, bind_error ?_, rfl⟩
  simp only [sysPipe, h]

theorem Pipe.ctor_adds (h : base.Adds k.table own) (hok : k.nextFault = none) :
    Returns Pipe.ctor k fun p k' => ∃ r w, p = ⟨some r, some w⟩ ∧
      base.Adds k'.table (readEnd (some r) k.nextPipe + (writeEnd (some w) k.nextPipe + own)) ∧
      After k 1 k' ∧ k'.nextPipe = k.nextPipe + 1 ∧ r < w ∧ w < k'.table.lowestFree := by
  have hread := h.alloc (.pipe k.nextPipe .read)
  have hwrite := hread.alloc (.pipe k.nextPipe .write)
  let r := k.table.alloc (.pipe k.nextPipe .read)
  let w := r.2.alloc (.pipe k.nextPipe .write)
  have hpipe : sysPipe k =
      (.ok (r.1, w.1), { k.called with table := w.2, nextPipe := k.nextPipe + 1 }) := by
    simp only [sysPipe, hok]
    rfl
  refine ⟨⟨some r.1, some w.1⟩, _, bind_eq hpipe, r.1, w.1, rfl, ?_, After.called k, rfl,
    lowestFree_lt_set _ _, lowestFree_lt_set _ _⟩
  rw [readEnd, writeEnd, owned_some, owned_some, Multiset.singleton_add,
    Multiset.singleton_add, Multiset.cons_swap]
  exact hwrite

theorem Pipe.dtor_adds {p : Pipe} {d e : Descr}
    (h : base.Adds k.table (owned p.readFd d + (owned p.writeFd e + own))) :
    Returns p.dtor k fun _ k' =>
      base.Adds k'.table own ∧ After k 0 k' ∧ k'.nextPipe = k.nextPipe := by
  refine (closeFd_adds h).bind fun _ k₁ ⟨h₁, hafter₁, hnext₁⟩ => ?_
  refine (closeFd_adds h₁).weaken fun _ k₂ ⟨h₂, hafter₂, hnext₂⟩ => ?_
  exact ⟨h₂, hafter₁.trans hafter₂, hnext₂.trans hnext₁⟩

theorem Pipe.closeReadFd_adds {p : Pipe} {d : Descr}
    (h : base.Adds k.table (owned p.readFd d + own)) :
    Returns p.closeReadFd k fun p' k' => p' = ⟨none, p.writeFd⟩ ∧
      base.Adds k'.table own ∧ After k 0 k' ∧ k'.nextPipe = k.nextPipe := by
  refine (closeFd_adds h).bind fun _ k₁ h₁ => ?_
  exact ⟨_, k₁, rfl, rfl, h₁⟩

theorem Pipe.closeWriteFd_adds {p : Pipe} {d : Descr}
    (h : base.Adds k.table (owned p.writeFd d + own)) :
    Returns p.closeWriteFd k fun p' k' => p' = ⟨p.readFd, none⟩ ∧
      base.Adds k'.table own ∧ After k 0 k' ∧ k'.nextPipe = k.nextPipe := by
  refine (closeFd_adds h).bind fun _ k₁ h₁ => ?_
  exact ⟨_, k₁, rfl, rfl, h₁⟩

theorem Pipe.copy_adds {p : Pipe} {d e : Descr} (h : base.Adds k.table own)
    (hr : owned p.readFd d ≤ own) (hw : owned p.writeFd e ≤ own) :
    Returns p.copy k fun p' k' =>
      base.Adds k'.table (owned p'.readFd d + (owned p'.writeFd e + own)) ∧
      After k (p.readFd.isSome.toNat + p.writeFd.isSome.toNat) k' ∧ k'.nextPipe = k.nextPipe ∧
      p'.readFd.isSome = (p.readFd.isSome && k.nextFault.isNone) ∧
      p'.writeFd.isSome =
        (p.writeFd.isSome && (k.faults.drop p.readFd.isSome.toNat).head?.join.isNone) ∧
      (∀ n, p'.readFd = some n → k.table.lowestFree ≤ n) ∧
      (∀ n m, p'.readFd = some n → p'.writeFd = some m → n < m) := by
  refine (dupFd_adds h hr).bind fun r k₁ ⟨h₁, hafter₁, hnext₁, hsome₁, hnum₁, _⟩ => ?_
  have hw' : owned p.writeFd e ≤ owned r d + own := hw.trans (Multiset.le_add_left _ _)
  refine (dupFd_adds h₁ hw').bind fun w k₂ ⟨h₂, hafter₂, hnext₂, hsome₂, hnum₂, _⟩ => ?_
  rw [hafter₁.nextFault] at hsome₂
  refine Returns.pure ⟨?_, hafter₁.trans hafter₂, hnext₂.trans hnext₁, hsome₁, hsome₂, ?_, ?_⟩
  · rw [add_left_comm]
    exact h₂
  · intro n hn
    exact Nat.le_of_eq (hnum₁ n hn).1.symm
  · intro n m hn hm
    rw [(hnum₂ m hm).1]
    exact (hnum₁ n hn).2

/-! While no call fails -/

/-- No call is going to fail, and the table is `base` with `own` added. -/
structure Owns (base : FdTable Descr) (k : FdState) (own : Multiset (Nat × Descr)) : Prop where
  adds : base.Adds k.table own
  quiet : k.faults = []

theorem Owns.nextFault (h : Owns base k own) : k.nextFault = none := by
  rw [FdState.nextFault, h.quiet]
  rfl

theorem Owns.called (h : Owns base k own) : k.called = k := by
  have hfaults := h.quiet
  cases k
  cases hfaults
  rfl

theorem Owns.after {own' : Multiset (Nat × Descr)} {n : Nat} (h : Owns base k own)
    (hadds : base.Adds k'.table own') (hafter : After k n k') : Owns base k' own' := by
  refine ⟨hadds, ?_⟩
  rw [hafter.1, h.quiet, List.drop_nil]

namespace Pipe

/-- A new pipe gets two numbers, the second greater than the first. -/
theorem ctor_spec (h : Owns base k own) :
    Returns ctor k fun p k' => ∃ r w, p = ⟨some r, some w⟩ ∧
      Owns base k' (readEnd (some r) k.nextPipe +
        (writeEnd (some w) k.nextPipe + own)) ∧
      k'.nextPipe = k.nextPipe + 1 ∧ k'.invalidDone = k.invalidDone ∧
      r < w ∧ w < k'.table.lowestFree := by
  refine (ctor_adds h.adds h.nextFault).weaken ?_
  rintro p k' ⟨r, w, hp, hadds, hafter, hnext, hrw, hfree⟩
  exact ⟨r, w, hp, h.after hadds hafter, hnext, hafter.2, hrw, hfree⟩

theorem closeReadFd_spec {p : Pipe} {d : Descr} (h : Owns base k (owned p.readFd d + own)) :
    Returns p.closeReadFd k fun p' k' => p' = ⟨none, p.writeFd⟩ ∧
      Owns base k' own ∧ k'.nextPipe = k.nextPipe ∧ k'.invalidDone = k.invalidDone := by
  refine (closeReadFd_adds h.adds).weaken fun p' k' ⟨hp', hadds, hafter, hnext⟩ => ?_
  exact ⟨hp', h.after hadds hafter, hnext, hafter.2⟩

theorem closeWriteFd_spec {p : Pipe} {d : Descr} (h : Owns base k (owned p.writeFd d + own)) :
    Returns p.closeWriteFd k fun p' k' => p' = ⟨p.readFd, none⟩ ∧
      Owns base k' own ∧ k'.nextPipe = k.nextPipe ∧ k'.invalidDone = k.invalidDone := by
  refine (closeWriteFd_adds h.adds).weaken fun p' k' ⟨hp', hadds, hafter, hnext⟩ => ?_
  exact ⟨hp', h.after hadds hafter, hnext, hafter.2⟩

end Pipe

end ProcessCpp.Core
