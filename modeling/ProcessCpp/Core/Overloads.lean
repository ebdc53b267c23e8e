import ProcessCpp.Core.Env
import ProcessCpp.Core.Signalable

/-!
# Throwing and non-throwing overloads

Four members come twice: one overload throws `std::system_error`, the other is `noexcept`
and takes an `error_code` that is "set to contain an error if an issue arises"
(signalable.h:48). The second kind writes the `error_code` when the system call fails and
nowhere else; none of the four clears it.

- `System`: everything the calls read or change;
- `Call.orThrow`, `Call.withCode`: the two overloads of a call;
- `overloads_correspond`: they change the system in the same way, and the `error_code` is
  what the other one throws, or what it was before;
- `stale_error_remains`: so a call that succeeds can leave an error behind.
-/

namespace ProcessCpp.Core

open ProcessCpp.Posix

namespace Overloads

/-- What the calls read and change. -/
structure System where
  table : ProcTable
  /-- why the kernel would refuse a `kill` or a `getpgid` -/
  refusal : Option Errno
  env : Environ
  /-- whether `setenv` runs out of memory -/
  nomem : Bool
  /-- the signals that have been delivered, and to whom -/
  delivered : List (Signal × Proc)

def System.deliver (s : System) (signal : Signal) (reached : List Proc) : System :=
  { s with delivered := s.delivered ++ reached.map (signal, ·) }

/-- A call that comes in two overloads. -/
inductive Call where
  | sendSignal (x : Signalable) (signal : Signal)
  | processGroup (p : Process)
  | set (key value : List Char)
  | unset (key : List Char)

/-- What a `noexcept` overload hands back: the caller's `error_code`, and the results of
`set` and `unset` and of `process_group`. -/
structure Reply where
  code : ErrorCode
  ok : Option Bool
  group : Option ProcessGroup

namespace Call

/-- The overload that throws. -/
def orThrow (s : System) : Call → Except Exception (Option ProcessGroup) × System
  | .sendSignal x signal =>
    let (result, reached) := x.sendSignalOrThrow s.table signal s.refusal
    (result.map fun _ => none, s.deliver signal reached)
  | .processGroup p => ((p.processGroupOrThrow s.table s.refusal).map some, s)
  | .set key value =>
    match Env.setOrThrow s.env key value s.nomem with
    | .error ex => (.error ex, s)
    | .ok env' => (.ok none, { s with env := env' })
  | .unset key =>
    match Env.unsetOrThrow s.env key with
    | .error ex => (.error ex, s)
    | .ok env' => (.ok none, { s with env := env' })

/-- The overload that takes an `error_code`, which holds `e` when it is called. -/
def withCode (s : System) (e : ErrorCode) : Call → Reply × System
  | .sendSignal x signal =>
    let (code, reached) := x.sendSignal s.table signal s.refusal e
    (⟨code, none, none⟩, s.deliver signal reached)
  | .processGroup p =>
    let (code, group) := p.processGroup s.table s.refusal e
    (⟨code, none, some group⟩, s)
  | .set key value =>
    let (ok, code, env') := Env.set s.env key value e s.nomem
    (⟨code, some ok, none⟩, { s with env := env' })
  | .unset key =>
    let (ok, code, env') := Env.unset s.env key e
    (⟨code, some ok, none⟩, { s with env := env' })

/-- The code of the `system_error` the call throws, if it throws one. -/
def thrown (s : System) (c : Call) : Option Errno :=
  match (c.orThrow s).1 with
  | .error (.systemError code) => some code
  | .error _ => none
  | .ok _ => none

/-- The two overloads of a call: both fail with the same code and leave the system alone,
or both succeed, change it alike, and the `error_code` stays. -/
theorem cases (s : System) (c : Call) (e : ErrorCode) :
    (∃ code, c.orThrow s = (.error (.systemError code), s) ∧ (c.withCode s e).1.code = some code ∧
        (c.withCode s e).2 = s) ∨
      (∃ r s', c.orThrow s = (.ok r, s') ∧ (c.withCode s e).1.code = e ∧
        (c.withCode s e).2 = s') := by
  -- each pair of overloads makes the same one system call
  cases c with
  | sendSignal x signal =>
    cases hkill : s.table.kill x.target signal.toInt s.refusal with
    | error errno =>
      refine .inl ⟨errno, ?_⟩
      simp [orThrow, withCode, Signalable.sendSignalOrThrow, Signalable.sendSignal, hkill,
        System.deliver, Except.map]
    | ok reached =>
      refine .inr ⟨none, s.deliver signal reached, ?_⟩
      simp [orThrow, withCode, Signalable.sendSignalOrThrow, Signalable.sendSignal, hkill,
        Except.map]
  | processGroup p =>
    cases hpgid : s.table.getpgid p.pid s.refusal with
    | error errno =>
      refine .inl ⟨errno, ?_⟩
      simp [orThrow, withCode, Process.processGroupOrThrow, Process.processGroup, hpgid,
        Except.map]
    | ok pgid =>
      refine .inr ⟨some (ProcessGroup.ctor pgid), s, ?_⟩
      simp [orThrow, withCode, Process.processGroupOrThrow, Process.processGroup, hpgid,
        Except.map]
  | set key value =>
    cases hset : setenv s.env (Env.cStr key) (Env.cStr value) Env.overwrite s.nomem with
    | error errno =>
      refine .inl ⟨errno, ?_⟩
      simp [orThrow, withCode, Env.setOrThrow, Env.set, hset]
    | ok env' =>
      refine .inr ⟨none, { s with env := env' }, ?_⟩
      simp [orThrow, withCode, Env.setOrThrow, Env.set, hset]
  | unset key =>
    cases hunset : unsetenv s.env (Env.cStr key) with
    | error errno =>
      refine .inl ⟨errno, ?_⟩
      simp [orThrow, withCode, Env.unsetOrThrow, Env.unset, hunset]
    | ok env' =>
      refine .inr ⟨none, { s with env := env' }, ?_⟩
      simp [orThrow, withCode, Env.unsetOrThrow, Env.unset, hunset]

end Call

/-! ## One call, and many on one `error_code` -/

/-- The overloads agree about one call: same effect, the `error_code` is an error exactly if
the other one throws it, and no error at all if the other one returns. -/
def Agree (s : System) (c : Call) (e : ErrorCode) : Prop :=
  (c.withCode s e).2 = (c.orThrow s).2 ∧
    (∀ code, (c.orThrow s).1 = .error (.systemError code) ↔
      (c.withCode s e).1.code = some code) ∧
    ((∃ r, (c.orThrow s).1 = .ok r) → (c.withCode s e).1.code = none)

/-- The content of one `error_code` after calls that share it, each in the state the system
then is in. -/
def codeAfter (cs : List (System × Call)) (e : ErrorCode) : ErrorCode :=
  cs.foldl (fun e x => (x.2.withCode x.1 e).1.code) e

/-- What a sequence of calls would throw, one after the other. -/
def thrownBy (cs : List (System × Call)) : List Errno :=
  cs.filterMap fun x => x.2.thrown x.1

theorem code_withCode (s : System) (c : Call) (e : ErrorCode) :
    (c.withCode s e).1.code = (c.thrown s).or e := by
  unfold Call.thrown
  rcases c.cases s e with ⟨code, hthrow, hcode, -⟩ | ⟨r, s', hreturn, hcode, -⟩
  · rw [hthrow, hcode]
    rfl
  · rw [hreturn, hcode]
    rfl

theorem codeAfter_eq (cs : List (System × Call)) (e : ErrorCode) :
    codeAfter cs e = (thrownBy cs).getLast?.or e := by
  induction cs generalizing e with
  | nil => rfl
  | cons x cs ih =>
    have hstep : codeAfter (x :: cs) e = codeAfter cs (x.2.withCode x.1 e).1.code := rfl
    rw [hstep, ih, code_withCode]
    unfold thrownBy
    rw [List.filterMap_cons]
    cases x.2.thrown x.1 with
    | none => rfl
    | some code =>
      -- a later failure hides this one; without one, this is the last
      show _ = (code :: _).getLast?.or e
      rw [List.getLast?_cons]
      cases (cs.filterMap fun x => x.2.thrown x.1).getLast? <;> rfl

theorem agree_iff (s : System) (c : Call) (e : ErrorCode) :
    Agree s c e ↔ e = none ∨ ∃ ex, (c.orThrow s).1 = .error ex := by
  unfold Agree
  rcases c.cases s e with ⟨code, hthrow, hcode, hsys⟩ | ⟨r, s', hreturn, hcode, hsys⟩
  · rw [hthrow, hcode, hsys]
    simp
  · rw [hreturn, hcode, hsys]
    -- a call that succeeds agrees exactly when there was no error to be left behind
    constructor
    · rintro ⟨-, -, hclear⟩
      exact .inl (hclear ⟨r, rfl⟩)
    · rintro (rfl | ⟨ex, hex⟩)
      · simp
      · cases hex

/-- Whatever the `error_code` held, both overloads have the same effect; if one throws, it is
a `system_error` whose code the other one sets, and if it returns, the other one leaves the
`error_code` as it was. So they agree unless a call that succeeds finds an error there, and
over a sequence of calls the `error_code` holds the last failure, or what it held before if
there was none. -/
theorem overloads_correspond :
    (∀ (s : System) (c : Call) (e : ErrorCode),
      (c.withCode s e).2 = (c.orThrow s).2 ∧
      (∀ ex, (c.orThrow s).1 = .error ex →
        ∃ code, ex = .systemError code ∧ (c.withCode s e).1.code = some code) ∧
      (∀ r, (c.orThrow s).1 = .ok r → (c.withCode s e).1.code = e) ∧
      (Agree s c e ↔ e = none ∨ ∃ ex, (c.orThrow s).1 = .error ex)) ∧
    ∀ cs e, codeAfter cs e = (thrownBy cs).getLast?.or e := by
  refine ⟨?_, codeAfter_eq⟩
  intro s c e
  refine ⟨?_, ?_, ?_, agree_iff s c e⟩ <;>
    rcases c.cases s e with ⟨code, hthrow, hcode, hsys⟩ | ⟨r, s', hreturn, hcode, hsys⟩
  · rw [hthrow, hsys]
  · rw [hreturn, hsys]
  · intro ex hex
    rw [hthrow] at hex
    cases hex
    exact ⟨code, rfl, hcode⟩
  · intro ex hex
    rw [hreturn] at hex
    cases hex
  · intro r hr
    rw [hthrow] at hr
    cases hr
  · intro r' hr
    exact hcode

/-- One process, and the variable `A`. -/
def loneSystem : System := ⟨loneTable, none, ["A=1".toList], false, []⟩

/-- `unset("A", se)` succeeds and leaves the error of an earlier call in `se`. -/
theorem stale_error_remains :
    (∃ r, (Call.unset ['A']).orThrow loneSystem =
        (.ok r, { loneSystem with env := [] })) ∧
      ((Call.unset ['A']).withCode loneSystem (some .einval)).1.code = some .einval ∧
      ¬ Agree loneSystem (.unset ['A']) (some .einval) := by
  have hcode : ((Call.unset ['A']).withCode loneSystem (some .einval)).1.code =
      some .einval := rfl
  refine ⟨⟨none, rfl⟩, hcode, ?_⟩
  rintro ⟨-, -, hclear⟩
  have hnone := hclear ⟨none, rfl⟩
  rw [hcode] at hnone
  cases hnone

end Overloads

end ProcessCpp.Core
