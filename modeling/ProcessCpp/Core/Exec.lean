import Mathlib.Data.Char
import Mathlib.Data.List.Lex
import ProcessCpp.Base.OrderedMap
import ProcessCpp.Core.ForEach

/-!
# What `exec` hands over (exec.cpp:42–72)

The lambda that `exec` passes to `fork` builds the two vectors of `execve(2)` by hand: an
array of pointers, a cursor `it`, a store and an increment for each string, and a last store
of `nullptr`. The environment goes over as texts `key=value` and comes back through
`env::for_each` in the new program.

- `Cursor`: an array with a write position; a store past the end is no store at all
  (`none`);
- `buildArgv`, `buildEnv`: the two halves of the lambda;
- `exec_hands_over`: every slot is written once, only the last one is null, and the new
  program reads back the arguments and the map; and an environment that was collected with
  `for_each` arrives with the same entries.
-/

namespace ProcessCpp.Core.Exec

open ProcessCpp.Base ProcessCpp.Posix ProcessCpp.Core.Env

/-! ## The arrays -/

/-- A `char*` of one of the arrays. -/
inductive Pointer where
  | uninitialised
  | str (s : List Char)
  | null
deriving DecidableEq, Repr

/-- An array, the cursor `it` into it, and the positions stored to so far. -/
structure Cursor where
  array : List Pointer
  it : Nat
  written : List Nat

/-- `it = new char*[n]`. -/
def Cursor.new (n : Nat) : Cursor := ⟨List.replicate n .uninitialised, 0, []⟩

/-- `*it = x`, which is undefined past the end of the array. -/
def Cursor.store (c : Cursor) (x : Pointer) : Option Cursor :=
  if c.it < c.array.length then
    some { c with array := c.array.set c.it x, written := c.written ++ [c.it] }
  else
    none

/-- `it++`. -/
def Cursor.next (c : Cursor) : Cursor := { c with it := c.it + 1 }

/-- `*it = ::strdup(s.c_str()); it++;` -/
def Cursor.put (c : Cursor) (s : List Char) : Option Cursor :=
  (c.store (.str (cStr s))).map Cursor.next

/-- The first half of the lambda: `pargv`. -/
def buildArgv (fn : List Char) (argv : List (List Char)) : Option Cursor := do
  let c ← (Cursor.new (argv.length + 2)).put fn
  let c ← argv.foldlM Cursor.put c
  c.store .null

/-- `std::map<std::string, std::string>`. -/
abbrev EnvMap : Type := OrderedMap (List Char) (List Char)

/-- The second half: `penv`. -/
def buildEnv (env : EnvMap) : Option Cursor := do
  let c ← env.entries.foldlM (fun c pair => Cursor.put c (pair.1 ++ "=".toList ++ pair.2))
    (Cursor.new (env.size + 1))
  c.store .null

/-- What `execve(2)` reads: the strings up to the first null pointer. -/
def readVector : List Pointer → Option (List (List Char))
  | [] => none
  | .uninitialised :: _ => none
  | .null :: _ => some []
  | .str s :: rest => (readVector rest).map (s :: ·)

/-! ## Filling an array -/

/-- `n` slots of which the strings `done` have been stored to the front. -/
def filling (n : Nat) (done : List (List Char)) : Cursor where
  array := done.map .str ++ List.replicate (n - done.length) .uninitialised
  it := done.length
  written := List.range done.length

theorem new_eq_filling (n : Nat) : Cursor.new n = filling n [] := by
  simp [Cursor.new, filling]

theorem store_filling {n : Nat} {done : List (List Char)} (h : done.length < n) (x : Pointer) :
    (filling n done).store x = some {
      array := done.map .str ++ x :: List.replicate (n - done.length - 1) .uninitialised
      it := done.length
      written := List.range (done.length + 1) } := by
  obtain ⟨k, hk⟩ : ∃ k, n - done.length = k + 1 := ⟨n - done.length - 1, by omega⟩
  simp [Cursor.store, filling, hk, List.replicate_succ, List.range_succ]

theorem put_filling {n : Nat} {done : List (List Char)} (h : done.length < n) {s : List Char}
    (hs : nul ∉ s) : (filling n done).put s = some (filling n (done ++ [s])) := by
  rw [Cursor.put, store_filling h]
  simp [Cursor.next, filling, cStr_eq_self hs]
  omega

/-- The loops of the lambda: each string goes into the next slot. -/
theorem foldlM_put_filling {n : Nat} (todo : List (List Char)) (done : List (List Char))
    (h : done.length + todo.length ≤ n) (hs : ∀ s ∈ todo, nul ∉ s) :
    todo.foldlM Cursor.put (filling n done) = some (filling n (done ++ todo)) := by
  induction todo generalizing done with
  | nil => simp
  | cons s todo ih =>
    obtain ⟨hhead, htail⟩ := List.forall_mem_cons.mp hs
    rw [List.length_cons] at h
    rw [List.foldlM_cons, put_filling (by omega) hhead]
    show todo.foldlM Cursor.put (filling n (done ++ [s])) = _
    rw [ih (done ++ [s]) (by rw [List.length_append, List.length_singleton]; omega) htail]
    simp

/-- An array that was filled to its end: every slot was stored to once, in order, the strings
are in front and the null pointer is the last slot. -/
def Cursor.Complete (c : Cursor) (strings : List (List Char)) : Prop :=
  c.array = strings.map .str ++ [.null] ∧ c.written = List.range (strings.length + 1)

/-- The last store. -/
theorem store_null_filling (strings : List (List Char)) :
    ∃ c, (filling (strings.length + 1) strings).store .null = some c ∧ c.Complete strings := by
  refine ⟨_, store_filling (Nat.lt_succ_self _) .null, ?_, rfl⟩
  have hlast : strings.length + 1 - strings.length - 1 = 0 := by omega
  show _ ++ _ :: List.replicate (strings.length + 1 - strings.length - 1) _ = _
  rw [hlast, List.replicate_zero]

theorem Cursor.Complete.length {c : Cursor} {strings : List (List Char)} (h : c.Complete strings) :
    c.array.length = strings.length + 1 := by
  simp [h.1]

/-- No slot but the last is null. -/
theorem Cursor.Complete.null_iff {c : Cursor} {strings : List (List Char)}
    (h : c.Complete strings) (i : Nat) : c.array[i]? = some .null ↔ i = strings.length := by
  rw [h.1]
  rcases Nat.lt_trichotomy i strings.length with hlt | rfl | hgt
  · simp [List.getElem?_append_left, hlt, Nat.ne_of_lt hlt]
  · simp
  · rw [List.getElem?_append_right (by simpa using Nat.le_of_lt hgt)]
    have hpos : i - strings.length ≠ 0 := by omega
    simp [hpos, Nat.ne_of_gt hgt]

theorem readVector_complete {c : Cursor} {strings : List (List Char)} (h : c.Complete strings) :
    readVector c.array = some strings := by
  rw [h.1]
  clear h
  induction strings with
  | nil => rfl
  | cons s strings ih =>
    rw [List.map_cons, List.cons_append, readVector, ih]
    rfl

/-! ## The two vectors -/

theorem buildArgv_complete (fn : List Char) (argv : List (List Char)) (hfn : nul ∉ fn)
    (hargv : ∀ s ∈ argv, nul ∉ s) :
    ∃ c, buildArgv fn argv = some c ∧ c.Complete (fn :: argv) := by
  obtain ⟨c, hstore, hc⟩ := store_null_filling (fn :: argv)
  refine ⟨c, ?_, hc⟩
  have hfirst : (Cursor.new (argv.length + 2)).put fn = some (filling (argv.length + 2) [fn]) := by
    rw [new_eq_filling]
    exact put_filling (Nat.succ_pos _) hfn
  have hloop : argv.foldlM Cursor.put (filling (argv.length + 2) [fn]) =
      some (filling (argv.length + 2) (fn :: argv)) :=
    foldlM_put_filling argv [fn] (by rw [List.length_singleton]; omega) hargv
  unfold buildArgv
  rw [hfirst, Option.bind_eq_bind, Option.bind_some, hloop, Option.bind_some]
  exact hstore

/-- The text of an entry. -/
def entryText (pair : List Char × List Char) : List Char := pair.1 ++ '=' :: pair.2

theorem buildEnv_complete (env : EnvMap) (henv : ∀ pair ∈ env.entries, nul ∉ entryText pair) :
    ∃ c, buildEnv env = some c ∧ c.Complete (env.entries.map entryText) := by
  obtain ⟨c, hstore, hc⟩ := store_null_filling (env.entries.map entryText)
  refine ⟨c, ?_, hc⟩
  rw [List.length_map] at hstore
  have hloop : env.entries.foldlM (fun c pair => Cursor.put c (pair.1 ++ "=".toList ++ pair.2))
      (Cursor.new (env.size + 1)) = some (filling (env.size + 1) (env.entries.map entryText)) := by
    have htexts : (fun c pair => Cursor.put c (pair.1 ++ "=".toList ++ pair.2)) =
        fun c pair => Cursor.put c (entryText pair) := by
      funext c pair
      simp [entryText]
    rw [htexts, ← List.foldlM_map, new_eq_filling]
    refine foldlM_put_filling _ [] ?_ ?_
    · simp [OrderedMap.size]
    · intro s hs
      obtain ⟨pair, hpair, rfl⟩ := List.mem_map.mp hs
      exact henv pair hpair
  unfold buildEnv
  rw [hloop, Option.bind_eq_bind, Option.bind_some]
  exact hstore

/-- `for_each` undoes the encoding. -/
theorem forEach_entryText (pairs : List (List Char × List Char)) (h : ∀ p ∈ pairs, '=' ∉ p.1) :
    forEach (pairs.map entryText) = pairs := by
  induction pairs with
  | nil => rfl
  | cons p pairs ih =>
    obtain ⟨hp, hrest⟩ := List.forall_mem_cons.mp h
    show keyValue (entryText p) :: forEach (pairs.map entryText) = p :: pairs
    rw [ih hrest, entryText, keyValue_entry hp]

/-- And the encoding undoes `for_each`, on entries with a `=`. -/
theorem entryText_forEach (env : Environ) (h : ∀ entry ∈ env, '=' ∈ entry) :
    (forEach env).map entryText = env := by
  induction env with
  | nil => rfl
  | cons entry env ih =>
    obtain ⟨hentry, hrest⟩ := List.forall_mem_cons.mp h
    show entryText (keyValue entry) :: (forEach env).map entryText = entry :: env
    rw [ih hrest]
    rcases entry_cases entry with ⟨key, value, hkey, rfl⟩ | hbare
    · rw [keyValue_entry hkey]
      rfl
    · exact absurd hentry hbare

/-! ## From one program to the next -/

/-- The lambda stores to every slot of its arrays once and to nothing else, leaves the null
pointer in the last slots only, and the new program finds `fn` and `argv` as its arguments and
the pairs of the map, in key order, in its environment. -/
def HandsOver (fn : List Char) (argv : List (List Char)) (env : EnvMap) : Prop :=
  ∃ pargv penv, buildArgv fn argv = some pargv ∧ buildEnv env = some penv ∧
    (pargv.array.length = argv.length + 2 ∧ pargv.written = List.range (argv.length + 2) ∧
      ∀ i, pargv.array[i]? = some .null ↔ i = argv.length + 1) ∧
    (penv.array.length = env.size + 1 ∧ penv.written = List.range (env.size + 1) ∧
      ∀ i, penv.array[i]? = some .null ↔ i = env.size) ∧
    readVector pargv.array = some (fn :: argv) ∧
    ∃ environ, readVector penv.array = some environ ∧ forEach environ = env.entries

/-- Collected with `for_each` and handed over, the environment arrives with the entries it
has. -/
def CopiesEnvironment (env : Environ) : Prop :=
  ∃ penv environ, buildEnv (OrderedMap.collect (forEach env)) = some penv ∧
    readVector penv.array = some environ ∧ environ.Perm env

/-- The name of an entry. -/
def nameOf (entry : List Char) : List Char := entry.takeWhile (· ≠ '=')

theorem handsOver (fn : List Char) (argv : List (List Char)) (env : EnvMap) (hfn : nul ∉ fn)
    (hargv : ∀ s ∈ argv, nul ∉ s)
    (henv : ∀ pair ∈ env.entries, nul ∉ pair.1 ∧ nul ∉ pair.2 ∧ '=' ∉ pair.1) :
    HandsOver fn argv env := by
  have htext : ∀ pair ∈ env.entries, nul ∉ entryText pair := by
    intro pair hpair
    obtain ⟨hkey, hvalue, -⟩ := henv pair hpair
    have hne : nul ≠ '=' := by decide
    simp [entryText, hkey, hvalue, hne]
  obtain ⟨pargv, hpargv, ha⟩ := buildArgv_complete fn argv hfn hargv
  obtain ⟨penv, hpenv, he⟩ := buildEnv_complete env htext
  refine ⟨pargv, penv, hpargv, hpenv, ⟨ha.length, ha.2, ha.null_iff⟩, ⟨?_, ?_, ?_⟩,
    readVector_complete ha, _, readVector_complete he, ?_⟩
  · simpa [OrderedMap.size] using he.length
  · simpa [OrderedMap.size] using he.2
  · simpa [OrderedMap.size] using he.null_iff
  · exact forEach_entryText env.entries fun pair hpair => (henv pair hpair).2.2

theorem copiesEnvironment (env : Environ) (henv : ∀ entry ∈ env, nul ∉ entry)
    (heq : ∀ entry ∈ env, '=' ∈ entry) (hnames : (env.map nameOf).Nodup) :
    CopiesEnvironment env := by
  have hkeys : (forEach env).map Prod.fst = env.map nameOf := by
    rw [forEach, List.map_map]
    refine List.map_congr_left fun entry hentry => ?_
    rcases entry_cases entry with ⟨key, value, hkey, rfl⟩ | hbare
    · rw [Function.comp_apply, keyValue_entry hkey, nameOf, takeWhile_ne_eq hkey]
    · exact absurd (heq entry hentry) hbare
  -- the map has the pairs of `for_each` in another order, so its texts are the entries
  have hperm : (OrderedMap.collect (forEach env)).entries.Perm (forEach env) := by
    refine OrderedMap.perm_collect ?_
    rwa [hkeys]
  have htexts : ((OrderedMap.collect (forEach env)).entries.map entryText).Perm env := by
    have hmap := hperm.map entryText
    rwa [entryText_forEach env heq] at hmap
  obtain ⟨penv, hpenv, he⟩ := buildEnv_complete (OrderedMap.collect (forEach env))
    fun pair hpair => henv _ (htexts.subset (List.mem_map_of_mem hpair))
  exact ⟨penv, _, hpenv, readVector_complete he, htexts⟩

/-- `exec` hands over arguments and environment unchanged, and `for_each` reads them back. -/
theorem exec_hands_over :
    (∀ (fn : List Char) (argv : List (List Char)) (env : EnvMap), nul ∉ fn →
      (∀ s ∈ argv, nul ∉ s) →
      (∀ pair ∈ env.entries, nul ∉ pair.1 ∧ nul ∉ pair.2 ∧ '=' ∉ pair.1) →
      HandsOver fn argv env) ∧
    ∀ env : Environ, (∀ entry ∈ env, nul ∉ entry) → (∀ entry ∈ env, '=' ∈ entry) →
      (env.map nameOf).Nodup → CopiesEnvironment env :=
  ⟨handsOver, copiesEnvironment⟩

/-- A value with `=` and an empty one. -/
def someEnv : EnvMap :=
  (OrderedMap.empty.insert ['B'] "x=y".toList).insert ['A'] []

theorem exec_hands_over_someEnv :
    HandsOver "/bin/ls".toList ["-l".toList] someEnv ∧
      CopiesEnvironment ["B=x=y".toList, "A=".toList] :=
  ⟨exec_hands_over.1 _ _ _ (by decide) (by decide) (by decide),
    exec_hands_over.2 _ (by decide) (by decide) (by decide)⟩

end ProcessCpp.Core.Exec
