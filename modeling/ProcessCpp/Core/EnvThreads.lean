import ProcessCpp.Base.Monitor
import ProcessCpp.Core.ForEach

/-!
# `this_process::env` from many threads, and across forks (this_process.cpp:46–147)

Every function of `env` begins with

    std::lock_guard<std::mutex> lg(env_guard());

and does the rest under the mutex: `getenv` hands out a pointer into the environment and the
text behind it is copied later, `for_each` walks the array entry by entry and runs the
functor it was given in between. `Core/Env.lean` treats each call as one action; here the
calls of all threads interleave action by action, and the process may fork meanwhile.

- `EnvOp`, `EnvOp.run`: a call, and what it does as one action;
- `EnvPc`, `EnvStep`, `envMonitor`: the same call in steps;
- `env_calls_serial`: the calls take effect one after the other. In particular a functor
  sees one state of the environment, whatever other threads set and unset meanwhile;
- `env_calls_complete_iff`: what can go wrong is that a call never returns. The mutex is
  copied by a fork in the state it is in, and its holder is not; and it is not recursive, so
  a functor must not call `env`. Nothing else blocks a call for good.
-/

namespace ProcessCpp.Core.Env

open ProcessCpp.Base ProcessCpp.Posix

/-! ## The calls -/

/-- A call of one of the functions of `env`. `nomem` tells whether its `setenv` runs out of
memory. -/
inductive EnvOp where
  | forEach
  | getOrThrow (key : List Char)
  | get (key defaultValue : List Char)
  | unsetOrThrow (key : List Char)
  | unset (key : List Char) (se : ErrorCode)
  | setOrThrow (key value : List Char) (nomem : Bool)
  | set (key value : List Char) (se : ErrorCode) (nomem : Bool)
deriving DecidableEq

/-- How a call ends: with the calls of the functor it has made, a text, an exception,
nothing, or a success flag and the caller's `error_code`. -/
inductive EnvResult where
  | visited (calls : List (List Char × List Char))
  | text (value : List Char)
  | threw (e : Exception)
  | returned
  | reported (success : Bool) (se : ErrorCode)
deriving DecidableEq

/-- A function that changes the environment or throws, and leaves it alone then. -/
def ofExcept (env : Environ) : Except Exception Environ → EnvResult × Environ
  | .error e => (.threw e, env)
  | .ok env' => (.returned, env')

/-- The call as one action. -/
def EnvOp.run (env : Environ) : EnvOp → EnvResult × Environ
  | .forEach => (.visited (Env.forEach env), env)
  | .getOrThrow key =>
    match Env.getOrThrow env key with
    | .error e => (.threw e, env)
    | .ok value => (.text value, env)
  | .get key defaultValue => (.text (Env.get env key defaultValue), env)
  | .unsetOrThrow key => ofExcept env (Env.unsetOrThrow env key)
  | .unset key se =>
    let r := Env.unset env key se
    (.reported r.1 r.2.1, r.2.2)
  | .setOrThrow key value nomem => ofExcept env (Env.setOrThrow env key value nomem)
  | .set key value se nomem =>
    let r := Env.set env key value se nomem
    (.reported r.1 r.2.1, r.2.2)

/-! ## The calls in steps -/

/-- Where a call stands, once it has the mutex. -/
inductive EnvPc where
  /-- before its first look at the environment -/
  | body (op : EnvOp)
  /-- `result` points into entry `i`, behind the name -/
  | copy (i : Nat) (name : List Char)
  /-- at the head of the loop of `for_each`, with `it` at entry `i` -/
  | loop (i : Nat) (calls : List (List Char × List Char))
  /-- inside the functor, called for entry `i` -/
  | functor (i : Nat) (calls : List (List Char × List Char))
  | done (r : EnvResult)

/-- `getenv(3)`: the entry that the returned pointer points into. -/
def getenvPtr (env : Environ) (name : List Char) : Option Nat :=
  if name = [] then none else env.findIdx? (matchesName name)

/-- The calls that are over with their one call of the C library. -/
def EnvOp.Mutates : EnvOp → Prop
  | .unsetOrThrow _ | .unset _ _ | .setOrThrow _ _ _ | .set _ _ _ _ => True
  | .forEach | .getOrThrow _ | .get _ _ => False

/-- One step of a call. -/
inductive EnvStep (env : Environ) : EnvPc → Environ → EnvPc → Prop where
  | mutate {op} (hop : op.Mutates) :
      EnvStep env (.body op) (op.run env).2 (.done (op.run env).1)
  | notDefined {key} (hptr : getenvPtr env (cStr key) = none) :
      EnvStep env (.body (.getOrThrow key)) env (.done (.threw (Env.notDefined key)))
  | found {key i} (hptr : getenvPtr env (cStr key) = some i) :
      EnvStep env (.body (.getOrThrow key)) env (.copy i (cStr key))
  | defaults {key defaultValue} (hptr : getenvPtr env (cStr key) = none) :
      EnvStep env (.body (.get key defaultValue)) env (.done (.text defaultValue))
  | foundOr {key defaultValue i} (hptr : getenvPtr env (cStr key) = some i) :
      EnvStep env (.body (.get key defaultValue)) env (.copy i (cStr key))
  | copy {i name entry} (hentry : env[i]? = some entry) :
      EnvStep env (.copy i name) env (.done (.text (entry.drop (name.length + 1))))
  | begin : EnvStep env (.body .forEach) env (.loop 0 [])
  | entry {i calls line} (hline : env[i]? = some line) :
      EnvStep env (.loop i calls) env (.functor i (calls ++ [keyValue line]))
  | next {i calls} : EnvStep env (.functor i calls) env (.loop (i + 1) calls)
  | finish {i calls} (hend : env[i]? = none) :
      EnvStep env (.loop i calls) env (.done (.visited calls))

/-- The environment behind `env_guard`. -/
def envMonitor : Monitor Environ EnvOp EnvResult EnvPc where
  start := .body
  step env pc env' pc' := EnvStep env pc env' pc'
  result
    | .done r => some r
    | _ => none
  callback
    | .functor _ _ => True
    | _ => False

/-! ## A call alone does what it does as one action -/

/-- Where a call that began in `env` can be. -/
def Reached (env : Environ) (op : EnvOp) (env' : Environ) : EnvPc → Prop
  | .body op' => op' = op ∧ env' = env
  | .copy i name => env' = env ∧ ∃ entry, env[i]? = some entry ∧
      op.run env = (.text (entry.drop (name.length + 1)), env)
  | .loop i calls => env' = env ∧ op = .forEach ∧ i ≤ env.length ∧ calls = forEach (env.take i)
  | .functor i calls =>
      env' = env ∧ op = .forEach ∧ i < env.length ∧ calls = forEach (env.take (i + 1))
  | .done r => op.run env = (r, env')

theorem getenv_of_getenvPtr (env : Environ) (name : List Char) :
    getenv env name =
      (getenvPtr env name).bind fun i => env[i]?.map fun entry => entry.drop (name.length + 1) := by
  unfold getenv getenvPtr
  split
  · rfl
  · rw [List.find?_eq_bind_findIdx?_getElem?]
    cases env.findIdx? (matchesName name) <;> rfl

/-- A pointer points into an entry. -/
theorem getenvPtr_entry {env : Environ} {name : List Char} {i : Nat}
    (h : getenvPtr env name = some i) :
    ∃ entry, env[i]? = some entry ∧ getenv env name = some (entry.drop (name.length + 1)) := by
  have hfound := h
  unfold getenvPtr at hfound
  split at hfound
  · cases hfound
  · obtain ⟨hi, -⟩ := List.findIdx?_eq_some_iff_getElem.mp hfound
    refine ⟨env[i], List.getElem?_eq_getElem hi, ?_⟩
    rw [getenv_of_getenvPtr, h, Option.bind_some, List.getElem?_eq_getElem hi, Option.map_some]

theorem getenv_of_null {env : Environ} {name : List Char} (h : getenvPtr env name = none) :
    getenv env name = none := by
  rw [getenv_of_getenvPtr, h, Option.bind_none]

theorem Reached.step {env env' env'' : Environ} {op : EnvOp} {pc pc' : EnvPc}
    (h : Reached env op env' pc) (hstep : EnvStep env' pc env'' pc') :
    Reached env op env'' pc' := by
  cases hstep with
  | mutate hop =>
    obtain ⟨rfl, rfl⟩ := h
    rfl
  | notDefined hptr =>
    obtain ⟨rfl, rfl⟩ := h
    show EnvOp.run _ _ = _
    rw [EnvOp.run, getOrThrow, getenv_of_null hptr]
  | found hptr =>
    obtain ⟨rfl, rfl⟩ := h
    obtain ⟨entry, hentry, hget⟩ := getenvPtr_entry hptr
    refine ⟨rfl, entry, hentry, ?_⟩
    rw [EnvOp.run, getOrThrow, hget]
  | defaults hptr =>
    obtain ⟨rfl, rfl⟩ := h
    show EnvOp.run _ _ = _
    rw [EnvOp.run, get, getenv_of_null hptr]
  | foundOr hptr =>
    obtain ⟨rfl, rfl⟩ := h
    obtain ⟨entry, hentry, hget⟩ := getenvPtr_entry hptr
    refine ⟨rfl, entry, hentry, ?_⟩
    rw [EnvOp.run, get, hget]
  | copy hentry =>
    obtain ⟨rfl, entry, hentry', hrun⟩ := h
    cases hentry.symm.trans hentry'
    exact hrun
  | begin =>
    obtain ⟨rfl, rfl⟩ := h
    exact ⟨rfl, rfl, Nat.zero_le _, rfl⟩
  | @entry i calls line hline =>
    -- the lines visited so far are the first `i` of the environment
    obtain ⟨rfl, rfl, -, rfl⟩ := h
    obtain ⟨hi, -⟩ := List.getElem?_eq_some_iff.mp hline
    refine ⟨rfl, rfl, hi, ?_⟩
    rw [forEach, forEach, List.take_add_one, hline, List.map_append]
    rfl
  | next =>
    obtain ⟨rfl, rfl, hi, rfl⟩ := h
    exact ⟨rfl, rfl, hi, rfl⟩
  | @finish i calls hend =>
    obtain ⟨rfl, rfl, -, rfl⟩ := h
    show (EnvResult.visited (forEach _), _) = (EnvResult.visited (forEach (List.take _ _)), _)
    rw [List.take_of_length_le (List.getElem?_eq_none_iff.mp hend)]

theorem reached_of_steps {env env' : Environ} {op : EnvOp} {pc : EnvPc}
    (h : envMonitor.Steps env (.body op) env' pc) : Reached env op env' pc := by
  induction h with
  | refl => exact ⟨rfl, rfl⟩
  | tail _ hstep ih => exact ih.step hstep

/-- A call from its beginning to its end is the one action. -/
theorem run_of_exec {env env' : Environ} {op : EnvOp} {r : EnvResult}
    (h : envMonitor.Exec env op r env') : op.run env = (r, env') := by
  obtain ⟨pc, hsteps, hr⟩ := h
  have hreached := reached_of_steps hsteps
  cases pc with
  | done r' =>
    cases hr
    exact hreached
  | _ => cases hr

/-! ## Calls that have begun can come to their end -/

/-- The rest of the loop of `for_each`. -/
theorem forEach_finishes (env : Environ) (left i : Nat) (calls : List (List Char × List Char))
    (h : env.length - i = left) : envMonitor.CanFinish env (.loop i calls) := by
  induction left generalizing i calls with
  | zero =>
    have hend : env[i]? = none := List.getElem?_eq_none_iff.mpr (by omega)
    exact .of_step (EnvStep.finish hend) (.of_result rfl)
  | succ left ih =>
    have hi : i < env.length := by omega
    have hline : env[i]? = some env[i] := List.getElem?_eq_getElem hi
    exact .of_step (EnvStep.entry hline) (.of_step EnvStep.next (ih (i + 1) _ (by omega)))

theorem copy_finishes {env : Environ} {i : Nat} {name entry : List Char}
    (h : env[i]? = some entry) : envMonitor.CanFinish env (.copy i name) :=
  .of_step (EnvStep.copy h) (.of_result rfl)

theorem body_finishes (env : Environ) (op : EnvOp) : envMonitor.CanFinish env (.body op) := by
  cases op with
  | forEach => exact .of_step EnvStep.begin (forEach_finishes env _ 0 [] rfl)
  | getOrThrow key =>
    cases hptr : getenvPtr env (cStr key) with
    | none => exact .of_step (EnvStep.notDefined hptr) (.of_result rfl)
    | some i =>
      obtain ⟨entry, hentry, -⟩ := getenvPtr_entry hptr
      exact .of_step (EnvStep.found hptr) (copy_finishes hentry)
  | get key defaultValue =>
    cases hptr : getenvPtr env (cStr key) with
    | none => exact .of_step (EnvStep.defaults hptr) (.of_result rfl)
    | some i =>
      obtain ⟨entry, hentry, -⟩ := getenvPtr_entry hptr
      exact .of_step (EnvStep.foundOr hptr) (copy_finishes hentry)
  | unsetOrThrow | unset | setOrThrow | set =>
    exact .of_step (EnvStep.mutate trivial) (.of_result rfl)

theorem envMonitor_finishes : envMonitor.Finishes := by
  intro env op env' pc hsteps
  have hreached := reached_of_steps hsteps
  cases pc with
  | body op' => exact body_finishes env' op'
  | copy i name =>
    obtain ⟨rfl, entry, hentry, -⟩ := hreached
    exact copy_finishes hentry
  | loop i calls => exact forEach_finishes env' _ i calls rfl
  | functor i calls => exact .of_step EnvStep.next (forEach_finishes env' _ (i + 1) calls rfl)
  | done r => exact .of_result rfl

/-! ## The calls of all threads -/

/-- The calls one after the other: their results, and the environment they leave. -/
def replay (env : Environ) : List EnvOp → List EnvResult × Environ
  | [] => ([], env)
  | op :: ops =>
    let rest := replay (op.run env).2 ops
    ((op.run env).1 :: rest.1, rest.2)

theorem replay_append (env : Environ) (ops ops' : List EnvOp) :
    replay env (ops ++ ops') =
      ((replay env ops).1 ++ (replay (replay env ops).2 ops').1,
        (replay (replay env ops).2 ops').2) := by
  induction ops generalizing env with
  | nil => rfl
  | cons op ops ih =>
    simp only [List.cons_append, replay, ih]

theorem replay_of_serial {env env' : Environ} {done : List (EnvOp × EnvResult)}
    (h : envMonitor.Serial env done env') :
    replay env (done.map Prod.fst) = (done.map Prod.snd, env') := by
  induction h with
  | nil => rfl
  | snoc _ hexec ih =>
    rw [List.map_append, List.map_append, replay_append, ih]
    show (_ ++ [(EnvOp.run _ _).1], (EnvOp.run _ _).2) = _
    rw [run_of_exec hexec]
    rfl

/-- The processes of the environment, and what they do. -/
abbrev EnvFamily : Type := ProcessKind.Family Unit (Monitor.Proc Environ EnvOp EnvResult EnvPc)

abbrev EnvLabel : Type := ProcessKind.Label (Monitor.Label EnvOp) Nat

/-- **The calls of all threads take effect one after the other**: in every tree of processes
with any number of threads, the calls completed on the line of descent of a process, in the
order in which they released the mutex, have the results they have one after the other, and
between calls the environment of the process is the one they leave. -/
theorem env_calls_serial (root : Nat) (env : Environ) (ls : List EnvLabel) (F : EnvFamily)
    (h : envMonitor.kind.system.Run (Monitor.family root env) ls F) (p : Nat)
    (s : Monitor.Proc Environ EnvOp EnvResult EnvPc) (hp : F.procs p = some s) :
    s.done.map Prod.snd = (replay env (s.done.map Prod.fst)).1 ∧
      (s.guard = none → s.value = (replay env (s.done.map Prod.fst)).2) := by
  obtain ⟨env', hserial, hfree⟩ := Monitor.serial_of_run h hp
  rw [replay_of_serial hserial]
  exact ⟨rfl, hfree⟩

/-- Process 1 sets a variable in one thread while another waits to read it, and a third forks
in between. -/
def setAndGet : List EnvLabel :=
  [.proc 1 (.call 0 (.set ['A'] ['x'] none false)), .proc 1 (.call 1 (.get ['A'] [])),
    .proc 1 (.lock 0), .fork 1 9 2, .proc 1 (.step 0), .proc 1 (.unlock 0), .proc 1 (.lock 1),
    .proc 1 (.step 1), .proc 1 (.step 1), .proc 1 (.unlock 1), .proc 9 (.call 2 (.get ['A'] []))]

theorem setAndGet_run :
    ∃ F, envMonitor.kind.system.Run (Monitor.family 1 []) setAndGet F ∧
      (∃ s, F.procs 1 = some s ∧ s.guard = none ∧ s.value = [['A', '=', 'x']] ∧
        s.done = [(.set ['A'] ['x'] none false, .reported true none),
          (.get ['A'] [], .text ['x'])]) ∧
      ∃ s, F.procs 9 = some s ∧ s.ended = false ∧ s.threads 2 = some (.waiting (.get ['A'] [])) ∧
        s.guard = some 0 ∧ s.threads 0 = none := by
  open ProcessKind in
  refine ⟨_, .cons (Step.alone rfl ⟨.call rfl, rfl⟩) <|
    .cons (Step.alone rfl ⟨.call rfl, rfl⟩) <|
    .cons (Step.alone rfl ⟨.lock rfl rfl, rfl⟩) <|
    .cons (.fork rfl rfl ⟨rfl, .inl rfl, rfl⟩) <|
    .cons (Step.alone rfl
      ⟨.step rfl (@EnvStep.mutate _ (.set ['A'] ['x'] none false) trivial), rfl⟩) <|
    .cons (Step.alone rfl ⟨.unlock rfl rfl, rfl⟩) <|
    .cons (Step.alone rfl ⟨.lock rfl rfl, rfl⟩) <|
    .cons (Step.alone rfl ⟨.step rfl (@EnvStep.foundOr _ _ _ 0 (by decide)), rfl⟩) <|
    .cons (Step.alone rfl
      ⟨.step rfl (@EnvStep.copy _ _ _ ['A', '=', 'x'] (by decide)), rfl⟩) <|
    .cons (Step.alone rfl ⟨.unlock rfl rfl, rfl⟩) <|
    .cons (Step.alone rfl ⟨.call rfl, rfl⟩) (.nil _),
    ⟨_, rfl, rfl, rfl, rfl⟩, _, rfl, rfl, rfl, rfl, rfl⟩

theorem env_calls_serial_setAndGet :
    ∃ F s, envMonitor.kind.system.Run (Monitor.family 1 []) setAndGet F ∧ F.procs 1 = some s ∧
      s.done.map Prod.snd = [.reported true none, .text ['x']] ∧
      s.done.map Prod.snd = (replay [] (s.done.map Prod.fst)).1 ∧
      s.value = (replay [] (s.done.map Prod.fst)).2 := by
  obtain ⟨F, hrun, ⟨s, hp, hfree, -, hdone⟩, -⟩ := setAndGet_run
  obtain ⟨hresults, hvalue⟩ := env_calls_serial 1 [] setAndGet F hrun 1 s hp
  refine ⟨F, s, hrun, hp, ?_, hresults, hvalue hfree⟩
  rw [hdone]
  rfl

/-- **A call blocks for good only behind a lost mutex**: in every tree of processes, a call
that waits can be completed if and only if the mutex of its process is free or held by a
thread that is inside a function of `env`; and this is so in all processes if and only if
each fork was made while no thread of its process was inside a function of `env`, and no
functor of `for_each` called one. -/
theorem env_calls_complete_iff (root : Nat) (env : Environ) (ls : List EnvLabel) (F : EnvFamily)
    (h : envMonitor.kind.system.Run (Monitor.family root env) ls F) :
    (∀ p s t op, F.procs p = some s → s.ended = false → s.threads t = some (.waiting op) →
        (envMonitor.Completes s t ↔ Monitor.Releasable s)) ∧
      (F.Forall Monitor.Releasable ↔
        (envMonitor.kind.system.restrict Monitor.Careful).Run (Monitor.family root env) ls F) := by
  refine ⟨fun p s t op hp hlive hpc => ?_, Monitor.allReleasable_iff h⟩
  exact Monitor.completes_iff envMonitor_finishes (Monitor.ok_of_run h hp) hlive hpc

/-- The child of a fork that was made while another thread was inside `set` can complete no
call. -/
theorem env_calls_complete_iff_setAndGet :
    ∃ F s, envMonitor.kind.system.Run (Monitor.family 1 []) setAndGet F ∧ F.procs 9 = some s ∧
      ¬ envMonitor.Completes s 2 ∧ ¬ (envMonitor.kind.system.restrict Monitor.Careful).Run
        (Monitor.family 1 []) setAndGet F := by
  obtain ⟨F, hrun, -, s, hp, hlive, hpc, hguard, hgone⟩ := setAndGet_run
  obtain ⟨hcompletes, hall⟩ := env_calls_complete_iff 1 [] setAndGet F hrun
  have hlost : ¬ Monitor.Releasable s := by
    rintro (hfree | ⟨t, op, pc, hheld, ht⟩)
    · cases hfree.symm.trans hguard
    · cases hheld.symm.trans hguard
      cases hgone.symm.trans ht
  exact ⟨F, s, hrun, hp, fun h => hlost ((hcompletes 9 s 2 _ hp hlive hpc).mp h),
    fun h => hlost (hall.mpr h 9 s hp)⟩

end ProcessCpp.Core.Env
