import ProcessCpp.Posix.Basic

/-!
# The environment array: `getenv`, `setenv`, `unsetenv`

`environ` is a list of texts. Nothing forces an entry to contain an `=` or a name
to occur once: a parent can install any list through `execve(2)`, so the functions
are defined on every list. Characters stand for bytes.

`getenv` finds the first entry that starts with the name followed by `=`;
`setenv` appends an entry, or keeps or replaces the first one, depending on its
overwrite argument; `unsetenv` removes every entry of the name. Names that are
empty or contain `=` are refused with `EINVAL`, and `setenv` may run out of memory.

The lemmas at the end say what each call does to what `getenv` sees, for names
without `=`.
-/

namespace ProcessCpp.Posix

/-- `environ`. -/
abbrev Environ : Type := List (List Char)

/-- The entry starts with the name followed by `=`. -/
def matchesName (name entry : List Char) : Bool := (name ++ ['=']).isPrefixOf entry

/-- `getenv(3)`. -/
def getenv (env : Environ) (name : List Char) : Option (List Char) :=
  if name = [] then none
  else (env.find? (matchesName name)).map fun entry => entry.drop (name.length + 1)

/-- Names that `setenv` and `unsetenv` refuse. -/
def BadName (name : List Char) : Prop := name = [] ∨ '=' ∈ name

instance (name : List Char) : Decidable (BadName name) := inferInstanceAs (Decidable (_ ∨ _))

/-- `setenv(3)`; `nomem` tells whether the call runs out of memory. -/
def setenv (env : Environ) (name value : List Char) (overwrite : Int) (nomem : Bool) :
    Except Errno Environ :=
  if BadName name then .error .einval
  else if nomem then .error .enomem
  else if env.any (matchesName name) then
    if overwrite = 0 then .ok env
    else .ok (env.set (env.findIdx (matchesName name)) (name ++ '=' :: value))
  else .ok (env ++ [name ++ '=' :: value])

/-- `unsetenv(3)`. -/
def unsetenv (env : Environ) (name : List Char) : Except Errno Environ :=
  if BadName name then .error .einval
  else .ok (env.filter fun entry => !matchesName name entry)

/-! ## Entries and their names -/

theorem matchesName_iff {name entry : List Char} :
    matchesName name entry = true ↔ ∃ value, entry = name ++ '=' :: value := by
  rw [matchesName, List.isPrefixOf_iff_prefix]
  constructor
  · rintro ⟨value, rfl⟩
    exact ⟨value, by simp⟩
  · rintro ⟨value, rfl⟩
    exact ⟨value, by simp⟩

theorem takeWhile_ne_eq {name : List Char} (h : '=' ∉ name) (value : List Char) :
    (name ++ '=' :: value).takeWhile (· ≠ '=') = name := by
  induction name with
  | nil => simp
  | cons c name ih =>
    rw [List.mem_cons, not_or] at h
    rw [List.cons_append, List.takeWhile_cons, if_pos (by simpa using Ne.symm h.1), ih h.2]

/-- An entry has at most one name without `=`. -/
theorem name_unique {name name' entry : List Char} (h : '=' ∉ name) (h' : '=' ∉ name')
    (hm : matchesName name entry = true) (hm' : matchesName name' entry = true) :
    name = name' := by
  obtain ⟨value, rfl⟩ := matchesName_iff.mp hm
  obtain ⟨value', he⟩ := matchesName_iff.mp hm'
  rw [← takeWhile_ne_eq h value, he, takeWhile_ne_eq h' value']

theorem matchesName_entry (name value : List Char) :
    matchesName name (name ++ '=' :: value) = true :=
  matchesName_iff.mpr ⟨value, rfl⟩

theorem matchesName_entry_of_ne {name name' : List Char} (h : '=' ∉ name) (h' : '=' ∉ name')
    (hne : name' ≠ name) (value : List Char) :
    matchesName name' (name ++ '=' :: value) = false := by
  refine Bool.eq_false_iff.mpr fun hm => ?_
  exact hne (name_unique h' h hm (matchesName_entry name value))

/-! ## What each call does to `getenv` -/

theorem getenv_eq_none_iff {env : Environ} {name : List Char} (hname : name ≠ []) :
    getenv env name = none ↔ env.any (matchesName name) = false := by
  rw [getenv, if_neg hname, Option.map_eq_none_iff, List.find?_eq_none, List.any_eq_false]

/-- `setenv` without overwriting, when it succeeds: a name that is there keeps
its value, a name that is not gets the new one, every other name is left alone. -/
theorem getenv_setenv {env env' : Environ} {name value : List Char} {nomem : Bool}
    (h : setenv env name value 0 nomem = .ok env') {name' : List Char} (hname' : ¬ BadName name') :
    getenv env' name' =
      if name' = name ∧ getenv env name = none then some value else getenv env name' := by
  rw [setenv] at h
  split at h
  · cases h
  · rename_i hname
    rw [BadName, not_or] at hname hname'
    split at h
    · cases h
    split at h
    · rename_i hany
      rw [if_pos rfl] at h
      cases h
      rw [if_neg]
      rintro ⟨-, hnone⟩
      rw [getenv_eq_none_iff hname.1] at hnone
      rw [hnone] at hany
      cases hany
    · rename_i hany
      rw [Bool.not_eq_true] at hany
      cases h
      by_cases hsame : name' = name
      · subst hsame
        rw [if_pos ⟨rfl, (getenv_eq_none_iff hname.1).mpr hany⟩]
        have hfind : env.find? (matchesName name') = none :=
          List.find?_eq_none.mpr (List.any_eq_false.mp hany)
        rw [getenv, if_neg hname'.1, List.find?_append, hfind, Option.none_or,
          List.find?_singleton, matchesName_entry, if_pos rfl, Option.map_some]
        simp
      · rw [if_neg fun hc => hsame hc.1, getenv, getenv, if_neg hname'.1, if_neg hname'.1,
          List.find?_append, List.find?_singleton,
          matchesName_entry_of_ne hname.2 hname'.2 hsame value]
        simp

/-- `unsetenv`, when it succeeds: the name is gone, every other name is left
alone. -/
theorem getenv_unsetenv {env env' : Environ} {name : List Char}
    (h : unsetenv env name = .ok env') {name' : List Char} (hname' : ¬ BadName name') :
    getenv env' name' = if name' = name then none else getenv env name' := by
  rw [unsetenv] at h
  split at h
  · cases h
  · rename_i hname
    rw [BadName, not_or] at hname hname'
    cases h
    by_cases hsame : name' = name
    · subst hsame
      rw [if_pos rfl, getenv_eq_none_iff hname.1, List.any_eq_false]
      intro entry hentry
      have hkeep := (List.mem_filter.mp hentry).2
      simpa using hkeep
    · have hfind : (env.filter fun entry => !matchesName name entry).find? (matchesName name') =
          env.find? (matchesName name') := by
        rw [List.find?_filter]
        congr 1
        funext entry
        by_cases hm : matchesName name' entry = true
        · have hother : matchesName name entry = false :=
            Bool.eq_false_iff.mpr fun hm' =>
              hsame (name_unique hname'.2 hname.2 hm hm')
          rw [hm, hother]
          rfl
        · rw [Bool.not_eq_true] at hm
          rw [hm]
          simp
      rw [if_neg hsame, getenv, getenv, if_neg hname'.1, if_neg hname'.1, hfind]

end ProcessCpp.Posix
