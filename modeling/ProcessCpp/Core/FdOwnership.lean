import ProcessCpp.Core.CrossProcessSync

/-!
# Who owns a descriptor

`ChildProcess::Pipe` (child_process.cpp:191–271) and `CrossProcessSync`
(cross_process_sync.cpp:32–60) hold two descriptors each, which they get from `pipe` and
`dup` and close themselves. A number is given out again as soon as it is closed, so a
descriptor closed once too often would be somebody else's.

The members are straight-line code. Here they are lists of statements that run on a pool of
objects, one system call at a time, and `pipe` and `dup` fail whenever the faults say so.

- `Stmt`, `Calls`: the statements, and which of them a member consists of;
- `stale`: a descriptor that the running member has closed and not replaced yet; its number
  is still in the object, and is worth nothing;
- `safe`: the discipline all members follow. A close makes the number stale, and nothing but
  a stale number is overwritten. `Step.account` is proved from it and not from the members;
- `descriptors_owned_once`: what it gives for every sequence of members;
- `copy_performs` and its siblings: the statements do what the members of `Pipe` and
  `CrossProcessSync` do.
-/

namespace ProcessCpp.Core

open ProcessCpp.Base ProcessCpp.Posix

namespace Ownership

/-! ## Statements -/

inductive FdClass where
  | pipe
  | sync
deriving DecidableEq, Repr

/-- The objects of the process, and the function-local static of `Pipe::invalid`. -/
inductive ObjectId where
  | static
  | object (n : Nat)
deriving DecidableEq, Repr

/-- What the members do to `fds`, the array of the object they are called on. -/
inductive Stmt where
  /-- the object comes into being, without descriptors -/
  | create (cls : FdClass)
  /-- `::pipe(fds)`, and an exception if it fails -/
  | pipe
  /-- `::close(fds[side])`; a `Pipe` asks first whether it is `-1` -/
  | close (side : PipeEnd)
  /-- `fds[side] = -1` -/
  | reset (side : PipeEnd)
  /-- `fds[side] = ::dup(rhs.fds[side])`; a `Pipe` asks first whether it is `-1` -/
  | dup (cls : FdClass) (side : PipeEnd) (rhs : ObjectId)
  /-- the object is gone -/
  | finish
deriving DecidableEq, Repr

/-- `Pipe::Pipe()`, `CrossProcessSync::CrossProcessSync()`. -/
def ctorCode (cls : FdClass) : List Stmt := [.create cls, .pipe]

/-- The copy constructors. -/
def copyCode (cls : FdClass) (rhs : ObjectId) : List Stmt :=
  [.create cls, .dup cls .read rhs, .dup cls .write rhs]

/-- The destructors. -/
def dtorCode : List Stmt := [.close .read, .close .write, .finish]

/-- The assignment operators. -/
def assignCode (cls : FdClass) (rhs : ObjectId) : List Stmt :=
  [.close .read, .close .write, .dup cls .read rhs, .dup cls .write rhs]

/-- `Pipe::close_read_fd`, `Pipe::close_write_fd`. -/
def closeCode (side : PipeEnd) : List Stmt := [.close side, .reset side]

/-- The static of `Pipe::invalid` and its `std::call_once`. -/
def staticCode : List Stmt := ctorCode .pipe ++ (closeCode .read ++ closeCode .write)

/-! ## A pool of objects -/

structure Obj where
  cls : FdClass
  fds : PipeEnd → Option Nat

structure Pool where
  k : FdState
  objects : ObjectId → Option Obj
  /-- the object whose member runs, and what is left of the member -/
  task : ObjectId × List Stmt

namespace Pool

def start (k : FdState) : Pool := ⟨k, fun _ => none, (.static, [])⟩

/-- The number in `fds[side]` of an object. -/
def fd (w : Pool) (c : ObjectId) (side : PipeEnd) : Option Nat :=
  (w.objects c).bind fun o => o.fds side

/-- The objects after `fds[side] = v`. -/
def setFd (w : Pool) (c : ObjectId) (side : PipeEnd) (v : Option Nat) : ObjectId → Option Obj :=
  Function.update w.objects c
    ((w.objects c).map fun o => { o with fds := Function.update o.fds side v })

end Pool

/-- The `dup` of a class. -/
def FdClass.dup : FdClass → Option Nat → FdM (Option Nat)
  | .pipe => dupFd
  | .sync => sysDupAny

/-- A statement of a member of `c`, of which `rest` is then left. -/
def Pool.exec (w : Pool) (c : ObjectId) (rest : List Stmt) : Stmt → Pool
  | .create cls => ⟨w.k, Function.update w.objects c (some ⟨cls, fun _ => none⟩), (c, rest)⟩
  | .pipe =>
    match sysPipe w.k with
    | (.ok fds, k') =>
      let w' : Pool := { w with objects := w.setFd c .read (some fds.1) }
      ⟨k', w'.setFd c .write (some fds.2), (c, rest)⟩
    -- the constructor throws, so there is no object and the caller does not go on
    | (.error _, k') => ⟨k', Function.update w.objects c none, (c, [])⟩
  | .close side => ⟨(closeFd (w.fd c side) w.k).2, w.objects, (c, rest)⟩
  | .reset side => ⟨w.k, w.setFd c side none, (c, rest)⟩
  | .dup cls side rhs =>
    match cls.dup (w.fd rhs side) w.k with
    | (.ok fd, k') => ⟨k', w.setFd c side fd, (c, rest)⟩
    -- `dup` does not throw
    | (.error _, k') => ⟨k', w.objects, (c, [])⟩
  | .finish => ⟨w.k, Function.update w.objects c none, (c, rest)⟩

/-- Calls of members. A call of `Pipe::invalid` is `invalid`, after `initStatic` if the
static is not there yet. -/
inductive Op where
  | construct (n : Nat) (cls : FdClass)
  | initStatic
  | invalid (n : Nat)
  | copy (n m : Nat)
  | assign (n m : Nat)
  | closeFd (n : Nat) (side : PipeEnd)
  | destroy (n : Nat)
deriving DecidableEq, Repr

/-- When a member can be called, and what then runs. -/
inductive Calls (w : Pool) : Op → ObjectId × List Stmt → Prop where
  | construct {n} (cls : FdClass) (hn : w.objects (.object n) = none) :
      Calls w (.construct n cls) (.object n, ctorCode cls)
  | initStatic (hstatic : w.objects .static = none) : Calls w .initStatic (.static, staticCode)
  | invalid {n o} (hn : w.objects (.object n) = none) (hstatic : w.objects .static = some o) :
      Calls w (.invalid n) (.object n, copyCode .pipe .static)
  | copy {n m o} (hn : w.objects (.object n) = none) (hm : w.objects (.object m) = some o) :
      Calls w (.copy n m) (.object n, copyCode o.cls (.object m))
  | assign {n m o o'} (hn : w.objects (.object n) = some o) (hm : w.objects (.object m) = some o')
      (hcls : o.cls = o'.cls) :
      Calls w (.assign n m) (.object n, assignCode o.cls (.object m))
  | closeFd {n o} (side : PipeEnd) (hn : w.objects (.object n) = some o) (hcls : o.cls = .pipe) :
      Calls w (.closeFd n side) (.object n, closeCode side)
  | destroy {n o} (hn : w.objects (.object n) = some o) :
      Calls w (.destroy n) (.object n, dtorCode)

inductive Label where
  | call (op : Op)
  | exec (c : ObjectId) (stmt : Stmt)
deriving DecidableEq, Repr

inductive Step (w : Pool) : Label → Pool → Prop where
  | call {op task} (hidle : w.task.2 = []) (hcalls : Calls w op task) :
      Step w (.call op) { w with task := task }
  | exec {c stmt rest} (htask : w.task = (c, stmt :: rest)) :
      Step w (.exec c stmt) (w.exec c rest stmt)

def system : LTS Pool Label where
  step := Step

theorem Step.dup {w : Pool} {c rhs : ObjectId} {cls : FdClass} {side : PipeEnd} {rest : List Stmt}
    {v : Option Nat} {k' : FdState} (htask : w.task = (c, .dup cls side rhs :: rest))
    (hdup : cls.dup (w.fd rhs side) w.k = (.ok v, k')) :
    Step w (.exec c (.dup cls side rhs)) ⟨k', w.setFd c side v, (c, rest)⟩ := by
  have hexec : w.exec c rest (.dup cls side rhs) = ⟨k', w.setFd c side v, (c, rest)⟩ := by
    simp only [Pool.exec, hdup]
  rw [← hexec]
  exact .exec htask

/-! ## The discipline -/

/-- The number in `fds[side]` has been closed, or was never set, when `code` is what is left of
the member: the next thing that happens to it is that it is overwritten or forgotten. -/
def stale : List Stmt → PipeEnd → Bool
  | [], _ => false
  | .close s :: code, side => if s = side then false else stale code side
  | .reset s :: code, side => if s = side then true else stale code side
  | .dup _ s _ :: code, side => if s = side then true else stale code side
  | .create _ :: _, _ => true
  | .pipe :: _, _ => true
  | .finish :: _, _ => true

/-- What is closed is not used again, what is obtained is not overwritten, and there is an
object exactly between `create` and `finish`. -/
def safe : Bool → List Stmt → Bool
  | _, [] => true
  | present, .create _ :: code => !present && safe true code
  | present, .pipe :: code => present && !stale code .read && !stale code .write && safe true code
  | present, .close side :: code => present && stale code side && safe true code
  | present, .reset side :: code => present && !stale code side && safe true code
  | present, .dup _ side _ :: code => present && !stale code side && safe true code
  | present, .finish :: code => present && code.isEmpty

/-- The descriptors the objects hold: the numbers in them, but for stale ones. -/
def Pool.live (w : Pool) (s : ObjectId × PipeEnd) : Option Nat :=
  if s.1 = w.task.1 ∧ stale w.task.2 s.2 = true then none else w.fd s.1 s.2

/-! ## What a statement does to the descriptors -/

namespace Pool

variable {w : Pool} {c : ObjectId} {side : PipeEnd} {rest : List Stmt}

theorem live_of_ne {c' : ObjectId} (h : c' ≠ w.task.1) (side : PipeEnd) :
    w.live (c', side) = w.fd c' side :=
  if_neg fun hs => h hs.1

theorem live_idle (h : w.task.2 = []) (s : ObjectId × PipeEnd) : w.live s = w.fd s.1 s.2 := by
  refine if_neg fun hs => ?_
  rw [h] at hs
  exact Bool.false_ne_true hs.2

theorem fd_setFd {o : Obj} (h : w.objects c = some o) (k : FdState) (task : ObjectId × List Stmt)
    (v : Option Nat) (c' : ObjectId) (side' : PipeEnd) :
    (⟨k, w.setFd c side v, task⟩ : Pool).fd c' side' =
      if (c', side') = (c, side) then v else w.fd c' side' := by
  show (Function.update w.objects c _ c').bind _ = _
  by_cases hc : c' = c
  · subst hc
    rw [Function.update_self, fd, h, Option.map_some, Option.bind_some, Option.bind_some]
    by_cases hside : side' = side
    · rw [hside, if_pos rfl]
      exact Function.update_self ..
    · rw [if_neg fun he => hside (Prod.mk.inj he).2]
      exact Function.update_of_ne hside ..
  · rw [Function.update_of_ne hc, if_neg fun he => hc (Prod.mk.inj he).1]
    rfl

/-- A number that is overwritten was stale, and what is written is not. -/
theorem live_write {o : Obj} {stmt : Stmt} (hc : w.objects c = some o)
    (htask : w.task = (c, stmt :: rest)) (hstale : stale rest side = false)
    (hother : ∀ s, s ≠ side → stale (stmt :: rest) s = stale rest s) (k : FdState)
    (v : Option Nat) :
    (⟨k, w.setFd c side v, (c, rest)⟩ : Pool).live = Function.update w.live (c, side) v := by
  funext ⟨c', side'⟩
  by_cases hcs : (c', side') = (c, side)
  · cases hcs
    rw [Function.update_self, live, fd_setFd hc, if_pos rfl]
    exact if_neg fun hs => Bool.false_ne_true (hstale.symm.trans hs.2)
  · rw [Function.update_of_ne hcs, live, live, fd_setFd hc, if_neg hcs, htask]
    by_cases hc' : c' = c
    · have hside : side' ≠ side := by
        rintro rfl
        exact hcs (by rw [hc'])
      rw [hother side' hside]
    · rw [if_neg fun hs => hc' hs.1, if_neg fun hs => hc' hs.1]

/-- A number that is about to be closed is not stale. -/
theorem live_of_close (htask : w.task = (c, .close side :: rest)) :
    w.live (c, side) = w.fd c side := by
  refine if_neg fun hs => ?_
  rw [htask, stale, if_pos rfl] at hs
  exact Bool.false_ne_true hs.2

/-- A number that is closed is stale from then on. -/
theorem live_close (htask : w.task = (c, .close side :: rest)) (hstale : stale rest side = true)
    (k : FdState) :
    (⟨k, w.objects, (c, rest)⟩ : Pool).live = Function.update w.live (c, side) none := by
  funext ⟨c', side'⟩
  by_cases hcs : (c', side') = (c, side)
  · cases hcs
    rw [Function.update_self]
    exact if_pos ⟨rfl, hstale⟩
  · rw [Function.update_of_ne hcs, live, live, htask]
    by_cases hc' : c' = c
    · have hside : side ≠ side' := by
        rintro rfl
        exact hcs (by rw [hc'])
      rw [stale, if_neg hside]
      rfl
    · rw [if_neg fun hs => hc' hs.1, if_neg fun hs => hc' hs.1]
      rfl

/-- Nothing that is held is touched when all that the statement touches is stale. -/
theorem live_same {objects : ObjectId → Option Obj} {k : FdState} (htask : w.task.1 = c)
    (hc : ∀ side, w.live (c, side) = none)
    (hnone : ∀ side, (⟨k, objects, (c, rest)⟩ : Pool).live (c, side) = none)
    (hother : ∀ c', c' ≠ c → objects c' = w.objects c') :
    (⟨k, objects, (c, rest)⟩ : Pool).live = w.live := by
  funext ⟨c', side'⟩
  by_cases hc' : c' = c
  · subst hc'
    rw [hnone, hc]
  · rw [live_of_ne hc', live_of_ne (by rw [htask]; exact hc')]
    show (objects c').bind _ = _
    rw [hother c' hc']
    rfl

/-- All numbers of the object are stale. -/
theorem live_of_stale (htask : w.task.1 = c) (hstale : stale w.task.2 side = true) :
    w.live (c, side) = none :=
  if_pos ⟨htask.symm, hstale⟩

theorem live_of_fd {c' : ObjectId} (h : w.fd c' side = none) : w.live (c', side) = none := by
  rw [live, h, ite_self]

/-- A new pipe in an object that had none. -/
theorem live_pipe {o : Obj} {k : FdState} {r n : Nat} (hc : w.objects c = some o)
    (htask : w.task.1 = c) (hread : stale rest .read = false)
    (hwrite : stale rest .write = false) :
    (⟨k, Pool.setFd { w with objects := w.setFd c .read (some r) } c .write (some n), (c, rest)⟩ :
      Pool).live =
      Function.update (Function.update w.live (c, .read) (some r)) (c, .write) (some n) := by
  have hc' : (Pool.mk w.k (w.setFd c .read (some r)) w.task).objects c =
      some { o with fds := Function.update o.fds .read (some r) } := by
    show Function.update w.objects c _ c = _
    rw [Function.update_self, hc]
    rfl
  funext ⟨c', side'⟩
  by_cases hcc : c' = c
  · subst hcc
    rw [live, fd_setFd hc', fd_setFd hc]
    cases side' with
    | read => simp [hread]
    | write => simp [hwrite]
  · have hne : ∀ s, (c', side') ≠ (c, s) := fun s he => hcc (Prod.mk.inj he).1
    rw [Function.update_of_ne (hne _), Function.update_of_ne (hne _), live_of_ne hcc,
      live_of_ne (by rw [htask]; exact hcc), fd_setFd hc', fd_setFd hc, if_neg (hne _),
      if_neg (hne _)]

end Pool

section Statements

open FdTable FdM

variable {κ : Type} [DecidableEq κ] {base : FdTable Descr} {k : FdState} {slot : κ → Option Nat}
  {kind : κ → Descr → Prop}

/-- `dup` of whatever number into an empty slot. If it fails the slot stays empty. -/
theorem FdClass.dup_accounts (h : base.Accounts k.table slot kind) {c : κ} (hc : slot c = none)
    (hkind : ∀ d, kind c d) (cls : FdClass) (fd : Option Nat) :
    Returns (cls.dup fd) k fun v k' => base.Accounts k'.table (Function.update slot c v) kind := by
  have hfails : base.Accounts k.table (Function.update slot c none) kind := by
    rw [← hc, Function.update_eq_self]
    exact h
  cases fd with
  | none =>
    cases cls with
    | pipe => exact ⟨none, k, rfl, hfails⟩
    | sync => exact ⟨none, k.called, rfl, hfails⟩
  | some n =>
    have hsys : Returns (sysDup n) k fun v k' =>
        base.Accounts k'.table (Function.update slot c v) kind := by
      unfold sysDup
      cases hfault : k.nextFault with
      | some e => exact ⟨none, k.called, by simp only [hfault], hfails⟩
      | none =>
        cases hget : k.table.get n with
        | none =>
          refine ⟨none, k.called, ?_, hfails⟩
          simp only [hfault, FdTable.dup, hget, Option.map_none]
        | some d =>
          refine ⟨some (k.table.alloc d).1, { k.called with table := (k.table.alloc d).2 }, ?_,
            h.alloc hc (hkind d)⟩
          simp only [hfault, FdTable.dup, hget, Option.map_some]
    cases cls with
    | pipe => exact hsys
    | sync => exact hsys

theorem FdClass.dup_ok (cls : FdClass) (fd : Option Nat) (k : FdState) :
    ∃ v k', cls.dup fd k = (.ok v, k') := by
  have hstart := FdTable.Accounts.start k.table fun (_ : Unit) _ => True
  obtain ⟨v, k', hrun, -⟩ := cls.dup_accounts (c := ()) hstart rfl (fun _ => trivial) fd
  exact ⟨v, k', hrun⟩

end Statements

section Exec

variable {base : FdTable Descr} {w : Pool} {c : ObjectId} {stmt : Stmt} {rest : List Stmt}

/-- The table is what the process started with, and what the objects hold. -/
def Pool.Accounted (base : FdTable Descr) (w : Pool) : Prop :=
  base.Accounts w.k.table w.live fun _ _ => True

namespace Pool.Accounted

theorem of_live {w' : Pool} (h : w.Accounted base) (htable : w'.k.table = w.k.table)
    (hlive : w'.live = w.live) : w'.Accounted base := by
  show base.Accounts w'.k.table w'.live _
  rw [htable, hlive]
  exact h

/-- An object without descriptors comes or goes. -/
theorem setObject {o : Option Obj} {k' : FdState} (h : w.Accounted base) (htask : w.task.1 = c)
    (hstale : ∀ side, w.live (c, side) = none) (ho : ∀ o', o = some o' → o'.fds = fun _ => none)
    (htable : k'.table = w.k.table) :
    (⟨k', Function.update w.objects c o, (c, rest)⟩ : Pool).Accounted base := by
  refine h.of_live htable (live_same htask hstale (fun side => live_of_fd ?_) fun c' hc' => ?_)
  · show (Function.update w.objects c o c).bind _ = none
    rw [Function.update_self]
    cases o with
    | none => rfl
    | some o' => rw [Option.bind_some, ho o' rfl]
  · exact Function.update_of_ne hc' ..

theorem pipe {o : Obj} (h : w.Accounted base) (hc : w.objects c = some o) (htask : w.task.1 = c)
    (hstale : ∀ side, w.live (c, side) = none) (hread : stale rest .read = false)
    (hwrite : stale rest .write = false) : (w.exec c rest .pipe).Accounted base := by
  cases hfault : w.k.nextFault with
  | some e =>
    have hrun : sysPipe w.k = (.error e, w.k.called) := by simp only [sysPipe, hfault]
    simp only [Pool.exec, hrun]
    refine h.setObject htask hstale (fun _ hgone => ?_) rfl
    cases hgone
  | none =>
    have hne : (c, PipeEnd.write) ≠ (c, .read) := by simp
    obtain ⟨⟨r, n⟩, k', hrun, -, haccounts⟩ := sysPipe_accounts hfault h (hstale .read)
      (hstale .write) hne trivial trivial
    simp only [Pool.exec, hrun]
    show base.Accounts k'.table _ _
    rw [Pool.live_pipe hc htask hread hwrite]
    exact haccounts

theorem close {side : PipeEnd} (h : w.Accounted base)
    (htask : w.task = (c, .close side :: rest)) (hclosed : stale rest side = true) :
    (w.exec c rest (.close side)).Accounted base := by
  have hclose := FdTable.Accounts.closeOpt h (c, side)
  rw [live_of_close htask] at hclose
  show base.Accounts (w.k.table.closeOpt (w.fd c side)) _ _
  rw [show (w.exec c rest (.close side)).live = _ from Pool.live_close htask hclosed _]
  exact hclose

/-- A statement of a member that keeps to the discipline. The numbers it writes are stale
before, so what it writes is all they hold. -/
theorem exec (h : w.Accounted base) (htask : w.task = (c, stmt :: rest))
    (hsafe : safe (w.objects c).isSome (stmt :: rest) = true) :
    (w.exec c rest stmt).Accounted base := by
  have hc : w.task.1 = c := by rw [htask]
  have hstale : ∀ side, stale (stmt :: rest) side = true → w.live (c, side) = none := by
    intro side hs
    refine live_of_stale hc ?_
    rw [htask]
    exact hs
  cases stmt with
  | create cls =>
    refine h.setObject hc (fun side => hstale side rfl) (fun o' ho' => ?_) rfl
    cases ho'
    rfl
  | finish => exact h.setObject hc (fun side => hstale side rfl) nofun rfl
  | pipe =>
    simp only [safe, Bool.and_eq_true, Bool.not_eq_true'] at hsafe
    obtain ⟨⟨⟨hpresent, hread⟩, hwrite⟩, -⟩ := hsafe
    obtain ⟨o, ho⟩ := Option.isSome_iff_exists.mp hpresent
    exact h.pipe ho hc (fun side => hstale side rfl) hread hwrite
  | close side =>
    simp only [safe, Bool.and_eq_true] at hsafe
    exact h.close htask hsafe.1.2
  | reset side =>
    simp only [safe, Bool.and_eq_true, Bool.not_eq_true'] at hsafe
    obtain ⟨⟨hpresent, hnew⟩, -⟩ := hsafe
    obtain ⟨o, ho⟩ := Option.isSome_iff_exists.mp hpresent
    refine h.of_live rfl ((Pool.live_write ho htask hnew (fun s hs => ?_) w.k none).trans ?_)
    · rw [stale, if_neg hs.symm]
    · rw [← hstale side (if_pos rfl), Function.update_eq_self]
  | dup cls side rhs =>
    simp only [safe, Bool.and_eq_true, Bool.not_eq_true'] at hsafe
    obtain ⟨⟨hpresent, hnew⟩, -⟩ := hsafe
    obtain ⟨o, ho⟩ := Option.isSome_iff_exists.mp hpresent
    obtain ⟨v, k', hrun, haccounts⟩ :=
      cls.dup_accounts h (hstale side (if_pos rfl)) (fun _ => trivial) (w.fd rhs side)
    simp only [Pool.exec, hrun]
    show base.Accounts k'.table _ _
    rw [Pool.live_write ho htask hnew (fun s hs => by rw [stale, if_neg hs.symm])]
    exact haccounts

end Pool.Accounted

theorem Pool.setFd_isSome (w : Pool) (c : ObjectId) (side : PipeEnd) (v : Option Nat) :
    (w.setFd c side v c).isSome = (w.objects c).isSome := by
  rw [setFd, Function.update_self, Option.isSome_map]

/-- What is left of the member keeps to the discipline as well. -/
theorem safe_exec (hsafe : safe (w.objects c).isSome (stmt :: rest) = true) :
    safe ((w.exec c rest stmt).objects (w.exec c rest stmt).task.1).isSome
      (w.exec c rest stmt).task.2 = true := by
  cases stmt with
  | create cls =>
    simp only [safe, Bool.and_eq_true] at hsafe
    simp only [Pool.exec, Function.update_self]
    exact hsafe.2
  | pipe =>
    simp only [safe, Bool.and_eq_true] at hsafe
    simp only [Pool.exec]
    -- if it fails the constructor has thrown, and nothing is left of it
    split
    · rename_i fds k' _
      show safe (Pool.setFd _ c .write _ c).isSome rest = true
      rw [Pool.setFd_isSome]
      show safe (w.setFd c .read _ c).isSome rest = true
      rw [Pool.setFd_isSome, hsafe.1.1.1]
      exact hsafe.2
    · rfl
  | close side =>
    simp only [safe, Bool.and_eq_true] at hsafe
    show safe (w.objects c).isSome rest = true
    rw [hsafe.1.1]
    exact hsafe.2
  | reset side =>
    simp only [safe, Bool.and_eq_true] at hsafe
    show safe (w.setFd c side none c).isSome rest = true
    rw [Pool.setFd_isSome, hsafe.1.1]
    exact hsafe.2
  | dup cls side rhs =>
    simp only [safe, Bool.and_eq_true] at hsafe
    simp only [Pool.exec]
    split
    · rename_i fd k' _
      show safe (w.setFd c side fd c).isSome rest = true
      rw [Pool.setFd_isSome, hsafe.1.1]
      exact hsafe.2
    · rfl
  | finish =>
    simp only [safe, Bool.and_eq_true, List.isEmpty_iff] at hsafe
    show safe _ rest = true
    rw [hsafe.2]
    rfl

/-- Every member keeps to the discipline, and starts with what the object holds. -/
theorem Calls.safe {op : Op} {task : ObjectId × List Stmt} (h : Calls w op task) :
    safe (w.objects task.1).isSome task.2 = true ∧
      (w.objects task.1 = none ∨ ∀ side, stale task.2 side = false) := by
  cases h with
  | construct cls hn | copy hn _ | invalid hn _ =>
    dsimp only
    rw [hn]
    exact ⟨rfl, .inl rfl⟩
  | initStatic hstatic =>
    dsimp only
    rw [hstatic]
    exact ⟨rfl, .inl rfl⟩
  | assign hn _ _ | destroy hn =>
    dsimp only
    rw [hn]
    exact ⟨rfl, .inr fun side => by cases side <;> rfl⟩
  | closeFd side hn _ =>
    dsimp only
    rw [hn]
    refine ⟨?_, .inr fun side' => ?_⟩
    · cases side <;> rfl
    · cases side <;> cases side' <;> rfl

/-- A call alone changes nothing. -/
theorem Pool.Accounted.call {op : Op} {task : ObjectId × List Stmt} (h : w.Accounted base)
    (hidle : w.task.2 = []) (hcalls : Calls w op task) :
    ({ w with task := task } : Pool).Accounted base := by
  have hlive : ({ w with task := task } : Pool).live = w.live := by
    funext ⟨c, side⟩
    rw [Pool.live_idle hidle]
    rcases hcalls.safe.2 with hnone | hfresh
    · by_cases hc : c = task.1
      · subst hc
        have hfd : w.fd task.1 side = none := by
          rw [Pool.fd, hnone]
          rfl
        rw [hfd]
        exact Pool.live_of_fd (w := { w with task := task }) hfd
      · exact Pool.live_of_ne hc side
    · exact if_neg fun hs => Bool.false_ne_true ((hfresh side).symm.trans hs.2)
  show base.Accounts w.k.table _ _
  rw [hlive]
  exact h

/-- The static holds descriptors only while it is set up. -/
structure Pool.StaticOk (w : Pool) : Prop where
  code : w.task.1 = .static → w.task.2 <:+ staticCode
  resets : ∀ side n, w.fd .static side = some n → w.task.1 = .static ∧ .reset side ∈ w.task.2

theorem Pool.StaticOk.call {op : Op} {task : ObjectId × List Stmt} (h : w.StaticOk)
    (hidle : w.task.2 = []) (hcalls : Calls w op task) :
    ({ w with task := task } : Pool).StaticOk := by
  refine ⟨fun hstatic => ?_, fun side n hfd => ?_⟩
  · cases hcalls with
    | initStatic => exact List.suffix_rfl
    | construct | invalid | copy | assign | closeFd | destroy => cases hstatic
  · obtain ⟨-, hmem⟩ := h.resets side n hfd
    rw [hidle] at hmem
    exact absurd hmem List.not_mem_nil

/-- A member of another object does not touch the static. -/
theorem Pool.exec_objects_of_ne (w : Pool) {c c' : ObjectId} (h : c' ≠ c) (rest : List Stmt)
    (stmt : Stmt) :
    (w.exec c rest stmt).objects c' = w.objects c' ∧ (w.exec c rest stmt).task.1 = c := by
  cases stmt with
  | create | reset | finish => exact ⟨Function.update_of_ne h .., rfl⟩
  | close => exact ⟨rfl, rfl⟩
  | pipe =>
    simp only [exec]
    split
    · refine ⟨?_, rfl⟩
      show Function.update _ c _ c' = _
      rw [Function.update_of_ne h]
      exact Function.update_of_ne h ..
    · exact ⟨Function.update_of_ne h .., rfl⟩
  | dup =>
    simp only [exec]
    split
    · exact ⟨Function.update_of_ne h .., rfl⟩
    · exact ⟨rfl, rfl⟩

/-- The statements of `staticCode` in order: the `pipe` is followed by both resets. -/
theorem suffix_staticCode (h : (stmt :: rest) <:+ staticCode) :
    (stmt = .create .pipe ∨ (stmt = .pipe ∧ ∀ side, .reset side ∈ rest) ∨
      (∃ side, stmt = .close side) ∨ ∃ side, stmt = .reset side) := by
  simp only [staticCode, ctorCode, closeCode, List.cons_append, List.nil_append,
    List.suffix_cons_iff, List.cons.injEq, List.suffix_nil, reduceCtorEq, or_false] at h
  rcases h with ⟨rfl, -⟩ | ⟨rfl, rfl⟩ | ⟨rfl, -⟩ | ⟨rfl, -⟩ | ⟨rfl, -⟩ | ⟨rfl, -⟩
  · exact .inl rfl
  · exact .inr (.inl ⟨rfl, fun side => by cases side <;> simp⟩)
  · exact .inr (.inr (.inl ⟨_, rfl⟩))
  · exact .inr (.inr (.inr ⟨_, rfl⟩))
  · exact .inr (.inr (.inl ⟨_, rfl⟩))
  · exact .inr (.inr (.inr ⟨_, rfl⟩))

theorem Pool.StaticOk.exec (h : w.StaticOk) (htask : w.task = (c, stmt :: rest)) :
    (w.exec c rest stmt).StaticOk := by
  by_cases hc : c = .static
  · subst hc
    have hsuffix : (stmt :: rest) <:+ staticCode := by
      have hcode := h.code (by rw [htask])
      rwa [htask] at hcode
    have hrest : rest <:+ staticCode := (List.suffix_cons stmt rest).trans hsuffix
    have hresets : ∀ side n, w.fd .static side = some n → .reset side ∈ stmt :: rest := by
      intro side n hn
      have hmem := (h.resets side n hn).2
      rwa [htask] at hmem
    -- `create`, `pipe`, a `close` or a `reset`
    rcases suffix_staticCode hsuffix with rfl | ⟨rfl, hboth⟩ | ⟨side, rfl⟩ | ⟨side, rfl⟩
    · refine ⟨fun _ => hrest, fun side n hn => ?_⟩
      have hnone : (Function.update w.objects .static (some ⟨.pipe, fun _ => none⟩) .static).bind
          (fun o => o.fds side) = some n := hn
      rw [Function.update_self] at hnone
      cases hnone
    · simp only [Pool.exec]
      split
      · exact ⟨fun _ => hrest, fun side n _ => ⟨rfl, hboth side⟩⟩
      · refine ⟨fun _ => List.nil_suffix, fun side n hn => ?_⟩
        have hnone : (Function.update w.objects .static none .static).bind
            (fun o => o.fds side) = some n := hn
        rw [Function.update_self] at hnone
        cases hnone
    · refine ⟨fun _ => hrest, fun side' n hn => ⟨rfl, ?_⟩⟩
      exact (List.mem_cons.mp (hresets side' n hn)).resolve_left Stmt.noConfusion
    · refine ⟨fun _ => hrest, fun side' n hn => ⟨rfl, ?_⟩⟩
      cases ho : w.objects .static with
      | none =>
        have hnone : (Function.update w.objects .static ((w.objects .static).map _) .static).bind
            (fun o => o.fds side') = some n := hn
        rw [Function.update_self, ho] at hnone
        cases hnone
      | some o =>
        have hset := (Pool.fd_setFd ho w.k (.static, rest) none .static side').symm.trans hn
        split at hset
        · cases hset
        · rename_i hne
          have hmem := List.mem_cons.mp (hresets side' n hset)
          refine hmem.resolve_left fun he => hne ?_
          rw [Stmt.reset.inj he]
  · obtain ⟨hobjects, hstatic⟩ := w.exec_objects_of_ne (Ne.symm hc) rest stmt
    refine ⟨fun hs => absurd (hstatic.symm.trans hs) hc, fun side n hn => ?_⟩
    rw [Pool.fd, hobjects] at hn
    have htask' := (h.resets side n hn).1
    rw [htask] at htask'
    exact absurd htask' hc

/-! ## Every sequence of members -/

/-- What every step keeps. -/
structure Pool.Ok (base : FdTable Descr) (w : Pool) : Prop where
  accounted : w.Accounted base
  safe : safe (w.objects w.task.1).isSome w.task.2 = true
  static : w.StaticOk

theorem Pool.ok_start (k : FdState) : (Pool.start k).Ok k.table := by
  refine ⟨?_, rfl, fun _ => List.nil_suffix, fun side n hn => nomatch hn⟩
  have hlive : (Pool.start k).live = fun _ => none := by
    funext s
    exact live_idle rfl s
  show k.table.Accounts k.table _ _
  rw [hlive]
  exact FdTable.Accounts.start ..

theorem Step.account {w' : Pool} {l : Label} (h : Step w l w') (hok : w.Ok base) : w'.Ok base := by
  cases h with
  | call hidle hcalls =>
    exact ⟨hok.accounted.call hidle hcalls, hcalls.safe.1, hok.static.call hidle hcalls⟩
  | exec htask =>
    have hsafe := hok.safe
    rw [htask] at hsafe
    exact ⟨hok.accounted.exec htask hsafe, safe_exec hsafe, hok.static.exec htask⟩

end Exec

/-- No member is running on the object. -/
def Pool.Settled (w : Pool) (c : ObjectId) : Prop := w.task.2 = [] ∨ c ≠ w.task.1

theorem Pool.Settled.live {w : Pool} {c : ObjectId} (h : w.Settled c) (side : PipeEnd) :
    w.live (c, side) = w.fd c side := by
  cases h with
  | inl hidle => exact live_idle hidle (c, side)
  | inr hne => exact live_of_ne hne side

/-- Descriptors are owned once: by the objects, in a process that had those of `base`
besides. -/
structure OwnedOnce (base : FdTable Descr) (w : Pool) : Prop where
  /-- The descriptors of the objects are open. -/
  isOpen : ∀ c side n, w.Settled c → w.fd c side = some n → w.k.table.get n ≠ none
  /-- No two are the same. -/
  distinct : ∀ c side c' side' n, w.Settled c → w.Settled c' → w.fd c side = some n →
    w.fd c' side' = some n → c = c' ∧ side = side'
  /-- What is about to be closed is open, was opened by an object, and is in no other. -/
  closesOwn : ∀ c side rest n, w.task = (c, .close side :: rest) → w.fd c side = some n →
    w.k.table.get n ≠ none ∧ base.get n = none ∧ ∀ c' side', c' ≠ c → w.fd c' side' ≠ some n
  /-- Without objects, only those of `base` are left. -/
  noLeak : w.task.2 = [] → (∀ n, w.objects (.object n) = none) → w.k.table = base

/-- In every state of every sequence of members, of any objects of the two classes, whatever
calls of `pipe` and `dup` fail. -/
theorem descriptors_owned_once (k : FdState) {ls : List Label} {w : Pool}
    (h : system.Run (.start k) ls w) : OwnedOnce k.table w := by
  have hok : w.Ok k.table :=
    h.invariant (P := Pool.Ok k.table) (fun _ _ _ hstep hw => Step.account hstep hw)
      (Pool.ok_start k)
  have haccounts : k.table.Accounts w.k.table w.live fun _ _ => True := hok.accounted
  refine ⟨fun c side n hc hn => ?_, fun c side c' side' n hc hc' hn hn' => ?_,
    fun c side rest n htask hn => ?_, fun hidle hgone => ?_⟩
  · obtain ⟨d, hd, -⟩ := haccounts.isOpen (c, side) n ((hc.live side).trans hn)
    rw [hd]
    exact Option.some_ne_none d
  · exact Prod.mk.inj
      (haccounts.single _ _ n ((hc.live side).trans hn) ((hc'.live side').trans hn'))
  · have hlive : w.live (c, side) = some n := (Pool.live_of_close htask).trans hn
    obtain ⟨d, hd, -⟩ := haccounts.isOpen (c, side) n hlive
    refine ⟨?_, haccounts.free _ n hlive, fun c' side' hne hn' => ?_⟩
    · rw [hd]
      exact Option.some_ne_none d
    · have hc' : w.Settled c' := .inr (by rw [htask]; exact hne)
      exact hne (Prod.mk.inj
        (haccounts.single _ _ n ((hc'.live side').trans hn') hlive)).1
  · refine haccounts.eq_base fun s => ?_
    rw [Pool.live_idle hidle]
    cases hc : s.1 with
    | object n =>
      rw [Pool.fd, hgone n]
      rfl
    | static =>
      -- the static gave up its descriptors when it was set up
      cases hfd : w.fd .static s.2 with
      | none => rfl
      | some n =>
        have hmem := (hok.static.resets s.2 n hfd).2
        rw [hidle] at hmem
        exact absurd hmem List.not_mem_nil

/-- A call of a member that runs to its end. -/
def wholeCall (op : Op) (task : ObjectId × List Stmt) : List Label :=
  .call op :: task.2.map (.exec task.1)

/-- Two objects are made, one is copied and the copy assigned to the other; then all three are
destroyed. -/
def madeAndGone : List Label :=
  wholeCall (.construct 0 .sync) (.object 0, ctorCode .sync) ++
  wholeCall (.construct 1 .sync) (.object 1, ctorCode .sync) ++
  wholeCall (.copy 2 0) (.object 2, copyCode .sync (.object 0)) ++
  wholeCall (.assign 1 2) (.object 1, assignCode .sync (.object 2)) ++
  wholeCall (.destroy 0) (.object 0, dtorCode) ++
  wholeCall (.destroy 1) (.object 1, dtorCode) ++
  wholeCall (.destroy 2) (.object 2, dtorCode)

/-- The first `dup` fails, which is the one for the read end of the copy. -/
def dupFails : Pool := .start ⟨FdTable.empty, false, 0, [none, none, some .emfile]⟩

def Pool.made (w : Pool) (n : Nat) : Pool :=
  (w.exec (.object n) [.pipe] (.create .sync)).exec (.object n) [] .pipe

def twoMade : Pool := (dupFails.made 0).made 1

theorem madeAndGone_run :
    ∃ w, system.Run dupFails madeAndGone w ∧ w.task.2 = [] ∧
      ∀ n, w.objects (.object n) = none := by
  -- the copy has the write end only, and so has what it is assigned to
  obtain ⟨v, k₁, hcopied⟩ := FdClass.sync.dup_ok (twoMade.fd (.object 0) .write) twoMade.k.called
  obtain ⟨v', k₂, hassigned⟩ := FdClass.sync.dup_ok v
    (closeFd (twoMade.fd (.object 1) .write) (closeFd (twoMade.fd (.object 1) .read) k₁).2).2.called
  refine ⟨_, .cons (.call rfl (.construct .sync rfl)) <| .cons (.exec rfl) <| .cons (.exec rfl) <|
    .cons (.call rfl (.construct .sync rfl)) <| .cons (.exec rfl) <| .cons (.exec rfl) <|
    .cons (.call rfl (.copy rfl rfl)) <| .cons (.exec rfl) <|
    .cons (.dup rfl rfl) <| .cons (.dup rfl hcopied) <|
    .cons (.call rfl (.assign rfl rfl rfl)) <| .cons (.exec rfl) <| .cons (.exec rfl) <|
    .cons (.dup rfl rfl) <| .cons (.dup rfl hassigned) <|
    .cons (.call rfl (.destroy rfl)) <| .cons (.exec rfl) <| .cons (.exec rfl) <|
    .cons (.exec rfl) <|
    .cons (.call rfl (.destroy rfl)) <| .cons (.exec rfl) <| .cons (.exec rfl) <|
    .cons (.exec rfl) <|
    .cons (.call rfl (.destroy rfl)) <| .cons (.exec rfl) <| .cons (.exec rfl) <|
    .cons (.exec rfl) (.nil _), rfl, ?_⟩
  intro n
  rcases n with _ | _ | _ | n <;> rfl

theorem descriptors_owned_once_madeAndGone :
    ∃ w, system.Run dupFails madeAndGone w ∧ OwnedOnce FdTable.empty w ∧
      w.k.table = FdTable.empty := by
  obtain ⟨w, hrun, hidle, hgone⟩ := madeAndGone_run
  have howned := descriptors_owned_once _ hrun
  exact ⟨w, hrun, howned, howned.noLeak hidle hgone⟩

/-! ## The statements and the members -/

section Members

open FdM

/-- The descriptors of an object. -/
def Obj.pipe (o : Obj) : Pipe := ⟨o.fds .read, o.fds .write⟩

/-- The member that is left to run ends as the computation `x` does: in its state, and with the
descriptors `fds` finds in its result; without the object if there are none, or if `x`
throws. -/
def Pool.Performs {α : Type} (w : Pool) (x : FdM α) (fds : α → Option Pipe) : Prop :=
  ∃ ls w', system.Run w ls w' ∧ w'.task = (w.task.1, []) ∧ w'.k = (x w.k).2 ∧
    (w'.objects w.task.1).map Obj.pipe = (x w.k).1.toOption.bind fds

variable {w : Pool} {c rhs : ObjectId} {o o' : Obj}

/-- The part that copying and assigning have in common. -/
def FdClass.dups (cls : FdClass) (p : Pipe) : FdM Pipe := do
  let r ← cls.dup p.readFd
  let w ← cls.dup p.writeFd
  return ⟨r, w⟩

theorem Pool.setFd_self (hc : w.objects c = some o) (side : PipeEnd) (v : Option Nat) :
    w.setFd c side v c = some { o with fds := Function.update o.fds side v } := by
  rw [setFd, Function.update_self, hc]
  rfl

/-- The right-hand side may be the object itself: what is read of it has not been written
yet. -/
theorem dups_run (cls : FdClass) (hc : w.objects c = some o) (hrhs : w.objects rhs = some o')
    (htask : w.task = (c, [.dup cls .read rhs, .dup cls .write rhs])) :
    ∃ p k', cls.dups o'.pipe w.k = (.ok p, k') ∧
      ∃ ls w', system.Run w ls w' ∧ w'.task = (c, []) ∧ w'.k = k' ∧
        (w'.objects c).map Obj.pipe = some p := by
  obtain ⟨r, k₁, hread⟩ := cls.dup_ok o'.pipe.readFd w.k
  obtain ⟨n, k₂, hwrite⟩ := cls.dup_ok o'.pipe.writeFd k₁
  have hfd : ∀ side, w.fd rhs side = o'.fds side := by
    intro side
    rw [Pool.fd, hrhs]
    rfl
  let w₁ : Pool := ⟨k₁, w.setFd c .read r, (c, [.dup cls .write rhs])⟩
  have hfd₁ : w₁.fd rhs .write = o'.fds .write := by
    have hne : (rhs, PipeEnd.write) ≠ (c, .read) := by simp
    rw [Pool.fd_setFd hc, if_neg hne, hfd]
  have hstep₁ : Step w (.exec c (.dup cls .read rhs)) w₁ := .dup htask (by rw [hfd]; exact hread)
  have hstep₂ : Step w₁ (.exec c (.dup cls .write rhs)) ⟨k₂, w₁.setFd c .write n, (c, [])⟩ :=
    .dup rfl (by rw [hfd₁]; exact hwrite)
  refine ⟨⟨r, n⟩, k₂, ?_, _, _, .cons hstep₁ (.cons hstep₂ (.nil _)), rfl, rfl, ?_⟩
  · rw [FdClass.dups, bind_eq hread, bind_eq hwrite]
    rfl
  · show (w₁.setFd c .write n c).map Obj.pipe = _
    rw [Pool.setFd_self (Pool.setFd_self hc .read r)]
    simp [Obj.pipe]

/-- A run of the first statements of a member, before what `Performs` says of the rest. -/
theorem Pool.Performs.after {α β : Type} {x : FdM α} {y : FdM β} {fds : α → Option Pipe}
    {fds' : β → Option Pipe} {ls : List Label} {w₁ : Pool} (hrun : system.Run w ls w₁)
    (htask : w₁.task.1 = w.task.1) (h : w₁.Performs x fds)
    (hstate : (x w₁.k).2 = (y w.k).2)
    (hresult : (x w₁.k).1.toOption.bind fds = (y w.k).1.toOption.bind fds') :
    w.Performs y fds' := by
  obtain ⟨ls', w', hrun', hend, hk, hobject⟩ := h
  rw [htask] at hend hobject
  exact ⟨ls ++ ls', w', hrun.append hrun', hend, hk.trans hstate, hobject.trans hresult⟩

theorem dups_performs (cls : FdClass) (hc : w.objects c = some o) (hrhs : w.objects rhs = some o')
    (htask : w.task = (c, [.dup cls .read rhs, .dup cls .write rhs])) :
    w.Performs (cls.dups o'.pipe) some := by
  obtain ⟨p, k', hdups, ls, w', hrun, hend, hk, hobject⟩ := dups_run cls hc hrhs htask
  unfold Pool.Performs
  rw [hdups, htask]
  exact ⟨ls, w', hrun, hend, hk, hobject⟩

theorem copy_performs (cls : FdClass) (hc : w.objects c = none) (hrhs : w.objects rhs = some o')
    (htask : w.task = (c, copyCode cls rhs)) : w.Performs (cls.dups o'.pipe) some := by
  have hne : rhs ≠ c := by
    rintro rfl
    rw [hc] at hrhs
    cases hrhs
  have hcreate : system.Run w [.exec c (.create cls)] (w.exec c _ (.create cls)) :=
    .cons (.exec htask) (.nil _)
  refine Pool.Performs.after hcreate (by rw [htask]; rfl)
    (dups_performs cls (o := ⟨cls, fun _ => none⟩) ?_ ?_ rfl) rfl rfl
  · exact Function.update_self ..
  · exact (Function.update_of_ne hne ..).trans hrhs

theorem ctor_performs (cls : FdClass) (htask : w.task = (c, ctorCode cls)) :
    w.Performs Pipe.ctor some := by
  let w₁ : Pool := w.exec c [.pipe] (.create cls)
  have hc₁ : w₁.objects c = some ⟨cls, fun _ => none⟩ := Function.update_self ..
  have hcreate : system.Run w [.exec c (.create cls)] w₁ := .cons (.exec htask) (.nil _)
  refine Pool.Performs.after hcreate (by rw [htask]; rfl) ?_ rfl rfl
  refine ⟨[.exec c .pipe], w₁.exec c [] .pipe, .cons (.exec rfl) (.nil _), ?_⟩
  -- both look at the same call of `pipe`
  cases hpipe : sysPipe w₁.k with
  | mk r k' =>
    cases r with
    | error e =>
      have hexec : w₁.exec c [] .pipe = ⟨k', Function.update w₁.objects c none, (c, [])⟩ := by
        simp only [Pool.exec, hpipe]
      rw [Pipe.ctor, bind_error hpipe, hexec]
      refine ⟨rfl, rfl, ?_⟩
      show (Function.update w₁.objects c none c).map _ = none
      rw [Function.update_self]
      rfl
    | ok fds =>
      let w₂ : Pool := { w₁ with objects := w₁.setFd c .read (some fds.1) }
      have hexec : w₁.exec c [] .pipe = ⟨k', w₂.setFd c .write (some fds.2), (c, [])⟩ := by
        simp only [Pool.exec, hpipe]
        rfl
      rw [Pipe.ctor, bind_eq hpipe, hexec]
      refine ⟨rfl, rfl, ?_⟩
      show (w₂.setFd c .write _ c).map _ = some _
      rw [Pool.setFd_self (Pool.setFd_self hc₁ .read (some fds.1))]
      simp [Obj.pipe]

theorem closes_run (hc : w.objects c = some o) {rest : List Stmt}
    (htask : w.task = (c, .close .read :: .close .write :: rest)) :
    ∃ ls, system.Run w ls ⟨(o.pipe.dtor w.k).2, w.objects, (c, rest)⟩ := by
  have hfd : ∀ side, w.fd c side = o.fds side := by
    intro side
    rw [Pool.fd, hc]
    rfl
  let w₁ : Pool := ⟨(closeFd (o.fds .read) w.k).2, w.objects, (c, .close .write :: rest)⟩
  have hstep₁ : Step w (.exec c (.close .read)) w₁ := by
    have hexec := Step.exec htask
    rw [Pool.exec, hfd] at hexec
    exact hexec
  have hstep₂ : Step w₁ (.exec c (.close .write))
      ⟨(closeFd (o.fds .write) w₁.k).2, w.objects, (c, rest)⟩ := by
    have hexec : Step w₁ (.exec c (.close .write)) (w₁.exec c rest (.close .write)) := .exec rfl
    rw [Pool.exec, show w₁.fd c .write = _ from hfd .write] at hexec
    exact hexec
  exact ⟨_, .cons hstep₁ (.cons hstep₂ (.nil _))⟩

theorem dtor_performs (hc : w.objects c = some o) (htask : w.task = (c, dtorCode)) :
    w.Performs o.pipe.dtor fun _ => none := by
  obtain ⟨ls, hrun⟩ := closes_run hc htask
  refine ⟨_, _, hrun.append (.cons (.exec rfl) (.nil _)), ?_, rfl, ?_⟩
  · rw [htask]
    rfl
  · rw [htask]
    show (Function.update w.objects c none c).map _ = none
    rw [Function.update_self]
    rfl

theorem assign_performs (cls : FdClass) (hc : w.objects c = some o)
    (hrhs : w.objects rhs = some o') (htask : w.task = (c, assignCode cls rhs)) :
    w.Performs (o.pipe.dtor >>= fun _ => cls.dups o'.pipe) some := by
  obtain ⟨ls, hrun⟩ := closes_run hc htask
  exact Pool.Performs.after hrun (by rw [htask]) (dups_performs cls hc hrhs rfl) rfl rfl

/-- `Pipe::close_read_fd` and `Pipe::close_write_fd`. -/
def closeEnd (p : Pipe) : PipeEnd → FdM Pipe
  | .read => p.closeReadFd
  | .write => p.closeWriteFd

theorem close_performs (hc : w.objects c = some o) (side : PipeEnd)
    (htask : w.task = (c, closeCode side)) : w.Performs (closeEnd o.pipe side) some := by
  have hfd : w.fd c side = o.fds side := by
    rw [Pool.fd, hc]
    rfl
  refine ⟨_, _, .cons (.exec htask) (.cons (.exec rfl) (.nil _)), ?_, ?_, ?_⟩
  · rw [htask]
    rfl
  · show (closeFd (w.fd c side) w.k).2 = _
    rw [hfd]
    cases side <;> rfl
  · rw [htask]
    show (Function.update w.objects c ((w.objects c).map _) c).map _ = _
    rw [Function.update_self, hc]
    cases side <;> simp [Obj.pipe, closeEnd] <;> rfl

theorem pipe_members (p q : Pipe) :
    p.copy = FdClass.pipe.dups p ∧ p.assign q = p.dtor >>= fun _ => FdClass.pipe.dups q :=
  ⟨rfl, rfl⟩

/-- `fds` of a `CrossProcessSync`. -/
def syncFds (s : CrossProcessSync) : Pipe := ⟨s.readFd, s.writeFd⟩

theorem sync_members (s t : CrossProcessSync) :
    CrossProcessSync.ctor = Pipe.ctor >>= (fun p => pure ⟨p.readFd, p.writeFd, 0⟩) ∧
      s.copy =
        FdClass.sync.dups (syncFds s) >>= (fun p => pure ⟨p.readFd, p.writeFd, s.counter⟩) ∧
      s.dtor = (syncFds s).dtor ∧ s.assign t = (syncFds s).dtor >>= fun _ => t.copy := by
  refine ⟨?_, ?_, rfl, rfl⟩
  · funext k
    cases hpipe : sysPipe k with
    | mk r k' =>
      cases r with
      | error e =>
        have hctor : Pipe.ctor k = (.error e, k') := bind_error hpipe
        rw [CrossProcessSync.ctor, bind_error hpipe, bind_error hctor]
      | ok fds =>
        have hctor : Pipe.ctor k = (.ok ⟨some fds.1, some fds.2⟩, k') := bind_eq hpipe
        rw [CrossProcessSync.ctor, bind_eq hpipe, bind_eq hctor]
  · funext k
    obtain ⟨r, k₁, hread⟩ := FdClass.sync.dup_ok (syncFds s).readFd k
    obtain ⟨n, k₂, hwrite⟩ := FdClass.sync.dup_ok (syncFds s).writeFd k₁
    have hdups : FdClass.sync.dups (syncFds s) k = (.ok ⟨r, n⟩, k₂) := by
      rw [FdClass.dups, bind_eq hread, bind_eq hwrite]
      rfl
    have hread' : sysDupAny s.readFd k = (.ok r, k₁) := hread
    have hwrite' : sysDupAny s.writeFd k₁ = (.ok n, k₂) := hwrite
    rw [CrossProcessSync.copy, bind_eq hread', bind_eq hwrite', bind_eq hdups]

end Members

end Ownership

end ProcessCpp.Core
