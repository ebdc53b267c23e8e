import Mathlib.Data.List.TakeWhile
import ProcessCpp.Posix.Environ

/-!
# `this_process::env`: the environment as a map

The environment functions of this_process.cpp (lines 68–147) over the environment
array of `Posix/Environ.lean`. Every one of them takes `env_guard`, so the calls
of all threads form one sequence.

- `getOrThrow`, `get`, `unsetOrThrow`, `unset`, `setOrThrow`, `set`: the functions
  themselves, on any strings (C sees a string up to its first NUL, `cStr`);
- `EnvCall`: one mutating call with a well-formed key and value;
- `History`: the environment next to the map it stands for, which follows the calls
  that *reported success*.

A set with `overwrite = 0` reports success on a key that is already there and
changes nothing. `behavesAsMap_iff` says this is the only way the environment and
the map can part.
-/

namespace ProcessCpp.Core.Env

open ProcessCpp.Posix

/-! ## The functions -/

def nul : Char := Char.ofNat 0

/-- What a C function reads through `c_str()`. -/
def cStr (s : List Char) : List Char := s.takeWhile (· ≠ nul)

def notDefined (key : List Char) : Exception :=
  .runtimeError ("Variable with name ".toList ++ key ++
    " is not defined in the environment".toList)

/-- `env::get_or_throw`. -/
def getOrThrow (env : Environ) (key : List Char) : Except Exception (List Char) :=
  match getenv env (cStr key) with
  | none => .error (notDefined key)
  | some result => .ok result

/-- `env::get`. -/
def get (env : Environ) (key defaultValue : List Char) : List Char :=
  match getenv env (cStr key) with
  | none => defaultValue
  | some result => result

/-- `env::unset_or_throw`. -/
def unsetOrThrow (env : Environ) (key : List Char) : Except Exception Environ :=
  match unsetenv env (cStr key) with
  | .error errno => .error (.systemError errno)
  | .ok env' => .ok env'

/-- `env::unset`: the result, the caller's `error_code`, the environment. -/
def unset (env : Environ) (key : List Char) (se : ErrorCode) : Bool × ErrorCode × Environ :=
  match unsetenv env (cStr key) with
  | .error errno => (false, some errno, env)
  | .ok env' => (true, se, env')

/-- The `static const int` of both set functions. -/
def overwrite : Int := 0

/-- `env::set_or_throw`. -/
def setOrThrow (env : Environ) (key value : List Char) (nomem : Bool) :
    Except Exception Environ :=
  match setenv env (cStr key) (cStr value) overwrite nomem with
  | .error errno => .error (.systemError errno)
  | .ok env' => .ok env'

/-- `env::set`. -/
def set (env : Environ) (key value : List Char) (se : ErrorCode) (nomem : Bool) :
    Bool × ErrorCode × Environ :=
  match setenv env (cStr key) (cStr value) overwrite nomem with
  | .error errno => (false, some errno, env)
  | .ok env' => (true, se, env')

/-! ## Calls with well-formed keys and values -/

/-- A key: non-empty, without `=` and NUL. -/
structure Key where
  chars : List Char
  nonempty : chars ≠ []
  no_eq : '=' ∉ chars
  no_nul : nul ∉ chars
deriving DecidableEq

/-- A value: without NUL. -/
structure Value where
  chars : List Char
  no_nul : nul ∉ chars
deriving DecidableEq

/-- A call of one of the four mutating functions. `nomem` tells whether its
`setenv` runs out of memory. -/
inductive EnvCall where
  | set (key : Key) (value : Value) (se : ErrorCode) (nomem : Bool)
  | setOrThrow (key : Key) (value : Value) (nomem : Bool)
  | unset (key : Key) (se : ErrorCode)
  | unsetOrThrow (key : Key)

namespace EnvCall

/-- The key the call names. -/
def key : EnvCall → Key
  | .set k _ _ _ => k
  | .setOrThrow k _ _ => k
  | .unset k _ => k
  | .unsetOrThrow k => k

/-- Whether the call reports success, and the environment it leaves. A call that
throws leaves the environment it found. -/
def run (env : Environ) : EnvCall → Bool × Environ
  | .set k v se nomem =>
    let r := Env.set env k.chars v.chars se nomem
    (r.1, r.2.2)
  | .setOrThrow k v nomem =>
    match Env.setOrThrow env k.chars v.chars nomem with
    | .error _ => (false, env)
    | .ok env' => (true, env')
  | .unset k se =>
    let r := Env.unset env k.chars se
    (r.1, r.2.2)
  | .unsetOrThrow k =>
    match Env.unsetOrThrow env k.chars with
    | .error _ => (false, env)
    | .ok env' => (true, env')

/-- What a successful call means for its key: a value, or no value. -/
def meaning : EnvCall → Option (List Char)
  | .set _ v _ _ => some v.chars
  | .setOrThrow _ v _ => some v.chars
  | .unset _ _ => none
  | .unsetOrThrow _ => none

/-- The call sets a key to a value and does not run out of memory. -/
def Sets : EnvCall → Key → Value → Prop
  | .set k v _ nomem, k', v' => k = k' ∧ v = v' ∧ nomem = false
  | .setOrThrow k v nomem, k', v' => k = k' ∧ v = v' ∧ nomem = false
  | .unset _ _, _, _ => False
  | .unsetOrThrow _, _, _ => False

end EnvCall

/-- The map an environment stands for. -/
abbrev EnvMap : Type := Key → Option (List Char)

/-- The environment, and the map the successful calls so far amount to. -/
structure History where
  env : Environ
  map : EnvMap

namespace History

/-- Before the first call the map is what the environment holds. -/
def start (env : Environ) : History := ⟨env, fun k => getenv env k.chars⟩

/-- One more call: the map changes at the call's key, if the call reports
success. -/
def call (h : History) (c : EnvCall) : History where
  env := (c.run h.env).2
  map := fun k => if (c.run h.env).1 = true ∧ k = c.key then c.meaning else h.map k

def calls (h : History) (cs : List EnvCall) : History := cs.foldl call h

end History

/-- The environment reads as the map: `get` and `get_or_throw` give its value, or
the default and an exception where it has none. -/
def ReadsMap (h : History) : Prop :=
  ∀ k d, get h.env k.chars d = (h.map k).getD d ∧
    getOrThrow h.env k.chars =
      match h.map k with
      | none => .error (notDefined k.chars)
      | some v => .ok v

/-- Keys that no call names read as they did at the start. -/
def KeepsOthers (env : Environ) (cs : List EnvCall) : Prop :=
  ∀ k, (∀ c ∈ cs, c.key ≠ k) → ∀ d,
    get ((History.start env).calls cs).env k.chars d = get env k.chars d ∧
    getOrThrow ((History.start env).calls cs).env k.chars = getOrThrow env k.chars

/-- After every call of the sequence the environment reads as the map, and has
kept every key that was not named. -/
def BehavesAsMap (env : Environ) (cs : List EnvCall) : Prop :=
  ∀ pre post, cs = pre ++ post →
    ReadsMap ((History.start env).calls pre) ∧ KeepsOthers env pre

/-- Every set of the sequence finds its key absent, or holding the new value. -/
def SetsNothingPresent (env : Environ) (cs : List EnvCall) : Prop :=
  ∀ pre c post, cs = pre ++ c :: post → ∀ k v, c.Sets k v →
    getenv ((History.start env).calls pre).env k.chars = none ∨
    getenv ((History.start env).calls pre).env k.chars = some v.chars

/-! ## What one call does -/

theorem cStr_eq_self {s : List Char} (h : nul ∉ s) : cStr s = s := by
  refine List.takeWhile_eq_self_iff.mpr fun c hc => ?_
  have hne : c ≠ nul := fun he => h (he ▸ hc)
  simpa using hne

theorem Key.not_badName (k : Key) : ¬ BadName k.chars := by
  rw [BadName, not_or]
  exact ⟨k.nonempty, k.no_eq⟩

theorem Key.chars_inj {k k' : Key} : k.chars = k'.chars ↔ k = k' := by
  constructor
  · intro h
    cases k
    cases k'
    cases h
    rfl
  · rintro rfl
    rfl

theorem setenv_key (env : Environ) (k : Key) (v : Value) (nomem : Bool) :
    setenv env (cStr k.chars) (cStr v.chars) overwrite nomem =
      setenv env k.chars v.chars 0 nomem := by
  rw [cStr_eq_self k.no_nul, cStr_eq_self v.no_nul, overwrite]

theorem setenv_nomem (env : Environ) (k : Key) (v : Value) :
    setenv env k.chars v.chars 0 true = .error .enomem := by
  rw [setenv, if_neg k.not_badName, if_pos rfl]

theorem setenv_mem (env : Environ) (k : Key) (v : Value) :
    ∃ env', setenv env k.chars v.chars 0 false = .ok env' := by
  rw [setenv, if_neg k.not_badName, if_neg (by decide)]
  split
  · rw [if_pos rfl]
    exact ⟨_, rfl⟩
  · exact ⟨_, rfl⟩

theorem unsetenv_key (env : Environ) (k : Key) :
    ∃ env', unsetenv env (cStr k.chars) = .ok env' ∧ unsetenv env k.chars = .ok env' := by
  rw [cStr_eq_self k.no_nul, unsetenv, if_neg k.not_badName]
  exact ⟨_, rfl, rfl⟩

/-- The three things a call can do: fail and change nothing, be a successful
`setenv` of its key, or be a successful `unsetenv` of its key. -/
theorem EnvCall.run_cases (env : Environ) (c : EnvCall) :
    (c.run env = (false, env) ∧ ∀ k v, ¬ c.Sets k v) ∨
    (∃ v env', c.run env = (true, env') ∧ setenv env c.key.chars v.chars 0 false = .ok env' ∧
      c.meaning = some v.chars ∧ ∀ k v', c.Sets k v' ↔ k = c.key ∧ v' = v) ∨
    (∃ env', c.run env = (true, env') ∧ unsetenv env c.key.chars = .ok env' ∧
      c.meaning = none ∧ ∀ k v, ¬ c.Sets k v) := by
  cases c with
  | set k v se nomem =>
    cases nomem with
    | true =>
      left
      simp [EnvCall.run, Env.set, setenv_key, setenv_nomem, EnvCall.Sets]
    | false =>
      obtain ⟨env', henv'⟩ := setenv_mem env k v
      refine .inr (.inl ⟨v, env', ?_, henv', rfl, fun k' v' => ?_⟩)
      · simp [EnvCall.run, Env.set, setenv_key, henv']
      · simp [EnvCall.Sets, EnvCall.key, eq_comm]
  | setOrThrow k v nomem =>
    cases nomem with
    | true =>
      left
      simp [EnvCall.run, Env.setOrThrow, setenv_key, setenv_nomem, EnvCall.Sets]
    | false =>
      obtain ⟨env', henv'⟩ := setenv_mem env k v
      refine .inr (.inl ⟨v, env', ?_, henv', rfl, fun k' v' => ?_⟩)
      · simp [EnvCall.run, Env.setOrThrow, setenv_key, henv']
      · simp [EnvCall.Sets, EnvCall.key, eq_comm]
  | unset k se =>
    obtain ⟨env', hc, henv'⟩ := unsetenv_key env k
    refine .inr (.inr ⟨env', ?_, henv', rfl, fun _ _ => id⟩)
    simp [EnvCall.run, Env.unset, hc]
  | unsetOrThrow k =>
    obtain ⟨env', hc, henv'⟩ := unsetenv_key env k
    refine .inr (.inr ⟨env', ?_, henv', rfl, fun _ _ => id⟩)
    simp [EnvCall.run, Env.unsetOrThrow, hc]

/-- A call leaves every key alone that it does not name. -/
theorem EnvCall.getenv_run_of_ne (env : Environ) {c : EnvCall} {k : Key} (hk : k ≠ c.key) :
    getenv (c.run env).2 k.chars = getenv env k.chars := by
  have hne : k.chars ≠ c.key.chars := fun h => hk (Key.chars_inj.mp h)
  rcases c.run_cases env with ⟨hrun, -⟩ | ⟨v, env', hrun, henv', -, -⟩ | ⟨env', hrun, henv', -, -⟩
  · rw [hrun]
  · rw [hrun, getenv_setenv henv' k.not_badName, if_neg fun h => hne h.1]
  · rw [hrun, getenv_unsetenv henv' k.not_badName, if_neg hne]

theorem readsMap_iff {h : History} : ReadsMap h ↔ ∀ k : Key, getenv h.env k.chars = h.map k := by
  constructor
  · intro hread k
    have hk := (hread k []).2
    rw [getOrThrow, cStr_eq_self k.no_nul] at hk
    cases henv : getenv h.env k.chars with
    | none =>
      cases hmap : h.map k with
      | none => rfl
      | some v =>
        rw [henv, hmap] at hk
        cases hk
    | some w =>
      cases hmap : h.map k with
      | none =>
        rw [henv, hmap] at hk
        cases hk
      | some v =>
        rw [henv, hmap] at hk
        cases hk
        rfl
  · intro hall k d
    rw [get, getOrThrow, cStr_eq_self k.no_nul, hall k]
    cases h.map k <;> exact ⟨rfl, rfl⟩

/-- The step of the simulation: a call keeps the environment and the map together
exactly when, if it sets a key, that key was absent or had the value already. -/
theorem readsMap_call_iff {h : History} (hread : ReadsMap h) (c : EnvCall) :
    ReadsMap (h.call c) ↔
      ∀ k v, c.Sets k v → getenv h.env k.chars = none ∨ getenv h.env k.chars = some v.chars := by
  rw [readsMap_iff] at hread ⊢
  have hother : ∀ k, k ≠ c.key → getenv (h.call c).env k.chars = (h.call c).map k := by
    intro k hk
    show getenv (c.run h.env).2 k.chars = if _ then _ else _
    rw [if_neg fun hc => hk hc.2, EnvCall.getenv_run_of_ne h.env hk, hread k]
  -- what is left to compare is the key the call names
  have hown : (∀ k, getenv (h.call c).env k.chars = (h.call c).map k) ↔
      getenv (c.run h.env).2 c.key.chars =
        if (c.run h.env).1 = true then c.meaning else h.map c.key := by
    constructor
    · intro hall
      have hkey := hall c.key
      simpa [History.call] using hkey
    · intro hkey k
      by_cases hk : k = c.key
      · subst hk
        simpa [History.call] using hkey
      · exact hother k hk
  rw [hown]
  rcases c.run_cases h.env with ⟨hrun, hsets⟩ | ⟨v, env', hrun, henv', hmean, hsets⟩ |
    ⟨env', hrun, henv', hmean, hsets⟩
  · -- the call failed
    rw [hrun, if_neg Bool.false_ne_true, hread c.key]
    exact ⟨fun _ k v hs => absurd hs (hsets k v), fun _ => rfl⟩
  · -- `setenv` reported success, whether or not it took the value
    rw [hrun, if_pos rfl, hmean, getenv_setenv henv' c.key.not_badName]
    constructor
    · intro heq k v' hs
      obtain ⟨rfl, rfl⟩ := (hsets k v').mp hs
      split at heq
      · rename_i hnone
        exact .inl hnone.2
      · exact .inr heq
    · intro hpresent
      rcases hpresent c.key v ((hsets _ _).mpr ⟨rfl, rfl⟩) with hnone | hsame
      · rw [if_pos ⟨rfl, hnone⟩]
      · rw [hsame, if_neg fun hc => by cases hc.2]
  · -- `unsetenv` does what it says
    rw [hrun, if_pos rfl, hmean, getenv_unsetenv henv' c.key.not_badName, if_pos rfl]
    exact ⟨fun _ k v hs => absurd hs (hsets k v), fun _ => rfl⟩

/-! ## Sequences of calls -/

theorem History.calls_cons (h : History) (c : EnvCall) (cs : List EnvCall) :
    h.calls (c :: cs) = (h.call c).calls cs := rfl

theorem getenv_calls_of_notNamed {h : History} {k : Key} {cs : List EnvCall}
    (hk : ∀ c ∈ cs, c.key ≠ k) : getenv (h.calls cs).env k.chars = getenv h.env k.chars := by
  induction cs generalizing h with
  | nil => rfl
  | cons c cs ih =>
    rw [History.calls_cons, ih fun c' hc' => hk c' (List.mem_cons_of_mem _ hc')]
    exact EnvCall.getenv_run_of_ne h.env (hk c List.mem_cons_self).symm

theorem keepsOthers (env : Environ) (cs : List EnvCall) : KeepsOthers env cs := by
  intro k hk d
  have hsame : getenv ((History.start env).calls cs).env k.chars = getenv env k.chars :=
    getenv_calls_of_notNamed hk
  rw [get, get, getOrThrow, getOrThrow, cStr_eq_self k.no_nul, hsame]
  exact ⟨rfl, rfl⟩

/-- The simulation over a whole sequence, from any history that reads as its
map. -/
theorem readsMap_calls_iff {h : History} (hread : ReadsMap h) (cs : List EnvCall) :
    (∀ pre post, cs = pre ++ post → ReadsMap (h.calls pre)) ↔
      ∀ pre c post, cs = pre ++ c :: post → ∀ k v, c.Sets k v →
        getenv (h.calls pre).env k.chars = none ∨
        getenv (h.calls pre).env k.chars = some v.chars := by
  constructor
  · intro hall pre c post hcs
    have hnext : ReadsMap ((h.calls pre).call c) := by
      have hsnoc := hall (pre ++ [c]) post (by rw [hcs, List.append_assoc]; rfl)
      rwa [History.calls, List.foldl_append] at hsnoc
    exact (readsMap_call_iff (hall pre (c :: post) hcs) c).mp hnext
  · intro hsets
    -- from the front: the history after the first call reads as its map again
    induction cs generalizing h with
    | nil =>
      intro pre post hcs
      obtain ⟨rfl, -⟩ := List.append_eq_nil_iff.mp hcs.symm
      exact hread
    | cons c cs ih =>
      have hnext : ReadsMap (h.call c) :=
        (readsMap_call_iff hread c).mpr (hsets [] c cs rfl)
      intro pre post hcs
      cases pre with
      | nil => exact hread
      | cons c' pre =>
        obtain ⟨rfl, rfl⟩ := List.cons_eq_cons.mp hcs
        refine ih hnext (fun pre' c' post' hcs' => ?_) pre post rfl
        exact hsets (c :: pre') c' post' (by rw [hcs']; rfl)

/-- The environment behaves as a map along a sequence of calls, after each of them and
not only after the last, exactly when every set in it that does not run out of memory
finds its key absent or already holding the value it sets. -/
theorem behavesAsMap_iff (env : Environ) (cs : List EnvCall) :
    BehavesAsMap env cs ↔ SetsNothingPresent env cs := by
  have hstart : ReadsMap (History.start env) := readsMap_iff.mpr fun _ => rfl
  rw [SetsNothingPresent, ← readsMap_calls_iff hstart cs]
  constructor
  · intro hmap pre post hcs
    exact (hmap pre post hcs).1
  · intro hread pre post hcs
    exact ⟨hread pre post hcs, keepsOthers env pre⟩

def keyA : Key := ⟨['A'], by decide, by decide, by decide⟩

/-- With `A=1` in the environment, setting `A` to `2` reports success and `get`
still gives `1`. -/
theorem set_present_key_ignored :
    ¬ BehavesAsMap ["A=1".toList] [.set keyA ⟨['2'], by decide⟩ none false] := by
  intro hmap
  have hread := (hmap _ [] (List.append_nil _).symm).1 keyA []
  exact absurd hread.1 (by decide)

end ProcessCpp.Core.Env
