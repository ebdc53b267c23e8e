import ProcessCpp.Base.CxxString
import ProcessCpp.Core.Env

/-!
# `env::for_each` (this_process.cpp:55–66)

    functor(line.substr(0, line.find_first_of('=')),
            line.substr(line.find_first_of('=') + 1));

For a line without `=` the search gives `npos`: the first `substr` then takes the whole
line, and `npos + 1` wraps to `0`, so the second one does too. The functor is called with
the line as the key *and* as the value, for a variable that `getenv` does not know.

- `forEach`: the calls of the functor, in order;
- `forEach_entry`, `forEach_bare`: what an entry with and one without `=` becomes;
- `forEach_agrees_iff`: `for_each` and `get_or_throw` agree about a key unless an entry
  without `=` comes first, or the key is cut short by a NUL on the way to `getenv`.
-/

namespace ProcessCpp.Core.Env

open ProcessCpp.Base ProcessCpp.Posix

/-! ## The function -/

/-- `std::string::find_first_of`; `none` is `npos`. -/
def findFirstOf (s : List Char) (c : Char) : Option Nat := s.findIdx? (· = c)

/-- `std::string::substr`; the count `none` is `npos`. -/
def substr (s : List Char) (pos : Nat) (count : Option Nat) : List Char :=
  match count with
  | some n => (s.drop pos).take n
  | none => s.drop pos

/-- `+ 1` on a position: `npos` is the largest `size_t`, so it wraps to `0`. -/
def succPos : Option Nat → Nat
  | some n => n + 1
  | none => 0

/-- The arguments of the functor for one entry. -/
def keyValue (line : List Char) : List Char × List Char :=
  (substr line 0 (findFirstOf line '='), substr line (succPos (findFirstOf line '=')) none)

/-- `env::for_each`: the pairs the functor is called with. -/
def forEach (env : Environ) : List (List Char × List Char) := env.map keyValue

theorem findFirstOf_entry {key : List Char} (h : '=' ∉ key) (value : List Char) :
    findFirstOf (key ++ '=' :: value) '=' = some key.length :=
  findIdx?_split h

theorem findFirstOf_bare {line : List Char} (h : '=' ∉ line) : findFirstOf line '=' = none :=
  findIdx?_of_notMem h

/-- An entry is split at its first `=`. -/
theorem keyValue_entry {key : List Char} (h : '=' ∉ key) (value : List Char) :
    keyValue (key ++ '=' :: value) = (key, value) := by
  simp [keyValue, findFirstOf_entry h, substr, succPos, List.drop_append]

/-- An entry without `=` is key and value at once. -/
theorem keyValue_bare {line : List Char} (h : '=' ∉ line) : keyValue line = (line, line) := by
  simp [keyValue, findFirstOf_bare h, substr, succPos]

/-- An entry is one or the other. -/
theorem entry_cases (line : List Char) :
    (∃ key value, '=' ∉ key ∧ line = key ++ '=' :: value) ∨ '=' ∉ line := by
  by_cases h : '=' ∈ line
  · obtain ⟨key, value, rfl, hkey⟩ := List.eq_append_cons_of_mem h
    exact .inl ⟨key, value, hkey, rfl⟩
  · exact .inr h

/-- The functor is called with a key for the entries of that name, and for an entry that is
nothing but the name. -/
theorem keyValue_fst_eq_iff {line key : List Char} (hkey : '=' ∉ key) :
    (keyValue line).1 = key ↔ line = key ∨ matchesName key line = true := by
  rcases entry_cases line with ⟨name, value, hname, rfl⟩ | hbare
  · rw [keyValue_entry hname]
    constructor
    · rintro rfl
      exact .inr (matchesName_entry name value)
    · rintro (rfl | hm)
      · simp at hkey
      · exact name_unique hname hkey (matchesName_entry name value) hm
  · rw [keyValue_bare hbare]
    constructor
    · exact .inl
    · rintro (rfl | hm)
      · rfl
      · obtain ⟨value, rfl⟩ := matchesName_iff.mp hm
        simp at hbare

theorem eq_notMem_keyValue_fst (line : List Char) : '=' ∉ (keyValue line).1 := by
  rcases entry_cases line with ⟨name, value, hname, rfl⟩ | hbare
  · rwa [keyValue_entry hname]
  · rwa [keyValue_bare hbare]

/-! ## `for_each` and `get_or_throw` -/

/-- The value the functor gets with the first call for a key. -/
def firstValue (calls : List (List Char × List Char)) (key : List Char) : Option (List Char) :=
  (calls.find? (·.1 = key)).map (·.2)

/-- `for_each` and `get_or_throw` see the same under a key. -/
def Agrees (env : Environ) (key : List Char) : Prop :=
  (∀ v, firstValue (forEach env) key = some v → getOrThrow env key = .ok v) ∧
    ('=' ∉ key → ∀ v, getOrThrow env key = .ok v → firstValue (forEach env) key = some v)

/-- The first entry that is the key alone or has it as its name. -/
def firstEntry (env : Environ) (key : List Char) : Option (List Char) :=
  env.find? fun entry => entry = key || matchesName key entry

/-- Nothing under the key is read differently: it contains `=`; or it contains a NUL, and
nothing has the part before it as its name; or it contains neither, and the first entry for it
is not the key alone (or the first with an `=` repeats the key as its value). -/
def ReadAlike (env : Environ) (key : List Char) : Prop :=
  '=' ∈ key ∨
    (nul ∈ key ∧ (cStr key = [] ∨ ∀ entry ∈ env, matchesName (cStr key) entry = false)) ∨
    (nul ∉ key ∧ (firstEntry env key = some key →
      env.find? (matchesName key) = some (key ++ '=' :: key)))

theorem getOrThrow_eq_ok_iff {env : Environ} {key v : List Char} :
    getOrThrow env key = .ok v ↔ getenv env (cStr key) = some v := by
  unfold getOrThrow
  cases getenv env (cStr key) <;> simp

theorem getOrThrow_ne_ok_iff (env : Environ) (key : List Char) :
    (∀ v, getOrThrow env key ≠ .ok v) ↔
      cStr key = [] ∨ ∀ entry ∈ env, matchesName (cStr key) entry = false := by
  simp only [ne_eq, getOrThrow_eq_ok_iff]
  rw [← Option.eq_none_iff_forall_ne_some, getenv]
  by_cases hnil : cStr key = []
  · simp [hnil]
  · simp [hnil]

theorem firstValue_forEach (env : Environ) {key : List Char} (hkey : '=' ∉ key) :
    firstValue (forEach env) key = (firstEntry env key).map fun line => (keyValue line).2 := by
  have hsame : (fun line => decide ((keyValue line).1 = key)) =
      fun line => decide (line = key) || matchesName key line := by
    funext line
    rw [decide_eq_decide.mpr (keyValue_fst_eq_iff hkey), Bool.decide_or, Bool.decide_eq_true]
  rw [firstValue, forEach, List.find?_map, Option.map_map, firstEntry, ← hsame]
  rfl

/-- No call has a key that contains `=`. -/
theorem firstValue_eq_none (env : Environ) {key : List Char} (hkey : '=' ∈ key) :
    firstValue (forEach env) key = none := by
  rw [firstValue, Option.map_eq_none_iff, List.find?_eq_none]
  intro pair hpair hfst
  obtain ⟨line, -, rfl⟩ := List.mem_map.mp hpair
  have hno := eq_notMem_keyValue_fst line
  rw [of_decide_eq_true hfst] at hno
  exact hno hkey

/-- Entries are C strings, so no call has a key that contains a NUL. -/
theorem firstEntry_eq_none {env : Environ} (henv : ∀ entry ∈ env, nul ∉ entry)
    {key : List Char} (hnul : nul ∈ key) : firstEntry env key = none := by
  refine List.find?_eq_none.mpr fun entry hentry hfor => ?_
  rw [Bool.or_eq_true, decide_eq_true_eq] at hfor
  refine henv entry hentry ?_
  rcases hfor with rfl | hm
  · exact hnul
  · obtain ⟨value, rfl⟩ := matchesName_iff.mp hm
    exact List.mem_append_left _ hnul

/-- The first entry for a key is the one `getenv` finds, or the key alone. -/
theorem firstEntry_cases (env : Environ) (key : List Char) :
    (firstEntry env key = none ∧ env.find? (matchesName key) = none) ∨
      firstEntry env key = some key ∨
      ∃ value, firstEntry env key = some (key ++ '=' :: value) ∧
        env.find? (matchesName key) = some (key ++ '=' :: value) := by
  induction env with
  | nil => exact .inl ⟨rfl, rfl⟩
  | cons entry env ih =>
    unfold firstEntry at ih ⊢
    by_cases heq : entry = key
    · simp [heq]
    · by_cases hm : matchesName key entry = true
      · obtain ⟨value, rfl⟩ := matchesName_iff.mp hm
        exact .inr (.inr ⟨value, by simp [hm], by simp [hm]⟩)
      · simpa [List.find?_cons, heq, hm] using ih

/-- A key without `=` and NUL. -/
theorem agrees_plain_iff (env : Environ) {key : List Char} (hkey : key ≠ []) (heq : '=' ∉ key)
    (hnul : nul ∉ key) :
    Agrees env key ↔ (firstEntry env key = some key →
      env.find? (matchesName key) = some (key ++ '=' :: key)) := by
  unfold Agrees
  simp only [getOrThrow_eq_ok_iff, cStr_eq_self hnul, firstValue_forEach env heq, getenv,
    if_neg hkey]
  rcases firstEntry_cases env key with ⟨hfirst, hfind⟩ | hfirst | ⟨value, hfirst, hfind⟩
  · simp [hfirst, hfind]
  · -- the bare entry comes first: its "value" is the key
    rw [hfirst, Option.map_some, keyValue_bare heq]
    cases hfind : env.find? (matchesName key) with
    | none => simp
    | some entry =>
      obtain ⟨value, rfl⟩ := matchesName_iff.mp (List.find?_some hfind)
      simp [heq, eq_comm]
  · have hne : key ++ '=' :: value ≠ key := by simp
    rw [hfirst, hfind, Option.map_some, Option.map_some, keyValue_entry heq]
    simp [heq]

/-- `for_each` and `get_or_throw` agree about a key if and only if nothing under it is read
differently. -/
theorem forEach_agrees_iff (env : Environ) (henv : ∀ entry ∈ env, nul ∉ entry) (key : List Char)
    (hkey : key ≠ []) : Agrees env key ↔ ReadAlike env key := by
  unfold ReadAlike
  by_cases heq : '=' ∈ key
  · have hnone := firstValue_eq_none env heq
    simp [Agrees, heq, hnone]
  · by_cases hnul : nul ∈ key
    · -- the functor never gets such a key, and `getenv` gets the part before the NUL
      have hnone : firstValue (forEach env) key = none := by
        rw [firstValue_forEach env heq, firstEntry_eq_none henv hnul]
        rfl
      have hget := getOrThrow_ne_ok_iff env key
      unfold Agrees
      rw [hnone]
      simpa [heq, hnul] using hget
    · rw [agrees_plain_iff env hkey heq hnul]
      simp [heq, hnul]

theorem forEach_agrees_iff_path :
    Agrees ["PATH=/bin".toList] "PATH".toList ↔ ReadAlike ["PATH=/bin".toList] "PATH".toList :=
  forEach_agrees_iff ["PATH=/bin".toList] (by decide) "PATH".toList (by decide)

/-- The entry `A` makes `for_each` report a variable `A` with the value `A`, which
`get_or_throw` says is not defined. -/
theorem bare_entry_is_invented :
    forEach [['A']] = [(['A'], ['A'])] ∧ getOrThrow [['A']] ['A'] = .error (notDefined ['A']) ∧
      ¬ Agrees [['A']] ['A'] := by
  have hthrows : getOrThrow [['A']] ['A'] = .error (notDefined ['A']) := by rfl
  refine ⟨rfl, hthrows, ?_⟩
  rintro ⟨hreads, -⟩
  have hok := hreads ['A'] rfl
  rw [hthrows] at hok
  cases hok

end ProcessCpp.Core.Env
