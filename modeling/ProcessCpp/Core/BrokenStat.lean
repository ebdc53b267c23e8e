import ProcessCpp.Base.Extraction
import ProcessCpp.Core.Stat
import ProcessCpp.Posix.ProcFs

/-!
# `/proc/[pid]/stat`: broken records (stat.cpp:37–101)

What `operator>>(std::istream&, Stat&)` leaves in a `Stat` when the record is missing,
truncated or malformed. The operator reports nothing, so a caller relies on the members
themselves: those before the first one that could not be extracted should have been read,
those after it should be as they were.

The standard extractors see to that. The one for the state does not:

    char c; in >> c; state = static_cast<State>(c);

Where the stream refuses, `c` was never written.

- `operands`: the 44 members as a chain of extractions (`extractStat_eq`), which do not
  overlap (`members_operands`);
- `InventsNothing`: what a caller relies on;
- `Opening`: the texts from which a state letter can be read;
- `inventsNothing_iff`: these are the texts for which nothing is invented, whatever the
  uninitialised variable holds.
-/

namespace ProcessCpp.Core

open ProcessCpp.Base ProcessCpp.Posix

/-! ## The chain -/

def NumField.operand (f : NumField) : Operand Stat where
  Val := CInt f.kind
  get := f.get
  set := f.set
  extract s v := s.extractInt f.kind v
  sticky s v h := by rwa [IStream.extractInt_of_fail h]

def pidOperand : Operand Stat :=
  NumField.operand ⟨.int, (·.pid), fun s v => { s with pid := v }⟩

def executableOperand : Operand Stat where
  Val := List Char
  get := (·.executable)
  set s v := { s with executable := v }
  extract s v := s.extractString v
  sticky s v h := by rwa [IStream.extractString_of_fail h]

/-- The state is assigned whether a character was extracted or not. -/
def stateOperand (uninitialised : Char) : Operand Stat where
  Val := State
  get := (·.state)
  set s v := { s with state := v }
  extract s _ := extractState s uninitialised
  sticky s v h := by rwa [extractState, IStream.extractChar_of_fail h]

/-- The operands of `in >> stat.pid >> stat.executable >> …`. -/
def operands (uninitialised : Char) : List (Operand Stat) :=
  pidOperand :: executableOperand :: stateOperand uninitialised ::
    numericFields.map NumField.operand

/-- The place of `stat.state` among them. -/
def statePlace : Nat := 2

theorem extractStat_eq (s : IStream) (stat : Stat) (uninitialised : Char) :
    extractStat s stat uninitialised = extractAll (operands uninitialised) s stat := by
  unfold extractAll operands extractStat
  simp only [List.foldl_cons, List.foldl_map]
  rfl

theorem members_operands (uninitialised : Char) : Members (operands uninitialised) where
  get_set := by
    unfold operands numericFields
    repeat refine List.forall_mem_cons.mpr ⟨fun _ _ => rfl, ?_⟩
    exact fun _ hf => absurd hf List.not_mem_nil
  apart := by
    unfold operands numericFields
    -- one row for each member, and in it one entry for each member behind it
    repeat
      refine List.pairwise_cons.mpr ⟨?_, ?_⟩
      · repeat refine List.forall_mem_cons.mpr ⟨⟨fun _ _ => rfl, fun _ _ => rfl⟩, ?_⟩
        exact fun _ hf => absurd hf List.not_mem_nil
    exact List.Pairwise.nil

theorem NumField.keeps (f : NumField) : f.operand.Keeps := by
  intro s v h
  exact congrArg Prod.snd (IStream.extractInt_of_fail h v)

theorem executable_keeps : executableOperand.Keeps := by
  intro s v h
  exact congrArg Prod.snd (IStream.extractString_of_fail h v)

/-- Every operand but the state is kept where it is refused. -/
theorem operands_cases {uninitialised : Char} {i : Nat} {f : Operand Stat}
    (hf : (operands uninitialised)[i]? = some f) :
    f.Keeps ∨ (i = statePlace ∧ f = stateOperand uninitialised) := by
  match i with
  | 0 =>
    cases hf
    exact .inl (NumField.keeps _)
  | 1 =>
    cases hf
    exact .inl executable_keeps
  | 2 =>
    cases hf
    exact .inr ⟨rfl, rfl⟩
  | i + 3 =>
    have hmem : f ∈ numericFields.map NumField.operand := List.mem_of_getElem? (i := i) hf
    obtain ⟨g, -, rfl⟩ := List.mem_map.mp hmem
    exact .inl g.keeps

/-! ## What a caller relies on -/

/-- Reading invents nothing: a member before the first one that could not be extracted has
the extracted value, one after it the value it had, and the state changes only if a
character was extracted for it. -/
structure InventsNothing (s : IStream) (previous : Stat) (uninitialised : Char) : Prop where
  before : ∀ i f, (operands uninitialised)[i]? = some f →
    (∀ j ≤ i, Extracted (operands uninitialised) s previous j) →
    f.get (extractStat s previous uninitialised).2 =
      (f.extract (streamAt (operands uninitialised) s previous i) (f.get previous)).2
  after : ∀ i j f, i < j → (operands uninitialised)[j]? = some f →
    ¬ Extracted (operands uninitialised) s previous i →
    f.get (extractStat s previous uninitialised).2 = f.get previous
  state : (extractStat s previous uninitialised).2.state ≠ previous.state →
    Extracted (operands uninitialised) s previous statePlace

variable {s : IStream} {previous : Stat} {uninitialised : Char}

/-- The state at the end is the one made from the local variable. -/
theorem extractStat_state (s : IStream) (previous : Stat) (uninitialised : Char) :
    (extractStat s previous uninitialised).2.state =
      (extractState (streamAt (operands uninitialised) s previous statePlace) uninitialised).2 := by
  rw [extractStat_eq]
  exact get_extractAll (members_operands uninitialised) (i := statePlace)
    (f := stateOperand uninitialised) rfl s previous

/-- All is well once a character could be extracted for the state. -/
theorem inventsNothing_of_extracted
    (h : Extracted (operands uninitialised) s previous statePlace) :
    InventsNothing s previous uninitialised where
  before i f hf _ := by
    rw [extractStat_eq]
    exact get_extractAll (members_operands uninitialised) hf s previous
  after i j f hij hf hfailed := by
    rw [extractStat_eq]
    rcases operands_cases hf with hkeeps | ⟨rfl, -⟩
    · exact get_extractAll_of_failed (members_operands uninitialised) hf hkeeps hij hfailed
    · exact absurd (h.of_le (Nat.le_of_lt hij)) hfailed
  state _ := h

/-! ## The texts a state can be read from -/

/-- The beginning of a record: a pid that fits, a word, and the first character of a second
word, which is taken for the state. -/
structure Opening where
  pid : IStream.Numeral
  blanks : List Char
  name : List Char
  gap : List Char
  letter : Char
  rest : List Char
  pid_fits : IntKind.int.lo ≤ pid.value ∧ pid.value ≤ IntKind.int.hi
  blanks_ok : ∀ c ∈ blanks, isSpace c = true
  name_ne : name ≠ []
  name_ok : ∀ c ∈ name, isSpace c = false
  /-- nothing need stand between the pid and a word that does not start with a digit -/
  name_apart : blanks = [] → IStream.DigitsEnd name
  gap_ne : gap ≠ []
  gap_ok : ∀ c ∈ gap, isSpace c = true
  letter_ok : isSpace letter = false

namespace Opening

def afterPid (o : Opening) : List Char :=
  o.blanks ++ (o.name ++ (o.gap ++ o.letter :: o.rest))

def text (o : Opening) : List Char := o.pid.text ++ o.afterPid

theorem digitsEnd_afterPid (o : Opening) : IStream.DigitsEnd o.afterPid := by
  intro c hc
  unfold afterPid at hc
  cases hblanks : o.blanks with
  | nil =>
    obtain ⟨d, name, hname⟩ := List.exists_cons_of_ne_nil o.name_ne
    rw [hblanks, hname] at hc
    have hdigits := o.name_apart hblanks
    rw [hname] at hdigits
    exact hdigits c hc
  | cons d blanks =>
    rw [hblanks] at hc
    cases hc
    exact IStream.isDigit_of_isSpace (o.blanks_ok c (by rw [hblanks]; exact List.mem_cons_self))

theorem wordEnd_gap (o : Opening) : IStream.WordEnd (o.gap ++ o.letter :: o.rest) := by
  intro c hc
  obtain ⟨d, gap, hgap⟩ := List.exists_cons_of_ne_nil o.gap_ne
  rw [hgap] at hc
  cases hc
  exact o.gap_ok c (by rw [hgap]; exact List.mem_cons_self)

end Opening

/-- The stream after the state, extraction by extraction. -/
theorem streamAt_statePlace_succ (s : IStream) (previous : Stat) (uninitialised : Char) :
    streamAt (operands uninitialised) s previous (statePlace + 1) =
      (((s.extractInt .int previous.pid).1.extractString previous.executable).1.extractChar
        uninitialised).1 := rfl

/-- From an opening, the state is extracted. -/
theorem Opening.extracted (o : Opening) (previous : Stat) (uninitialised : Char) :
    Extracted (operands uninitialised) ⟨o.text, false, false⟩ previous statePlace := by
  unfold Extracted
  have hclamp : CInt.clamp .int o.pid.value = (⟨o.pid.value, o.pid_fits⟩, false) :=
    CInt.clamp_val ⟨o.pid.value, o.pid_fits⟩
  have hpid : IStream.extractInt .int ⟨o.text, false, false⟩ previous.pid =
      (⟨o.afterPid, false, false⟩, ⟨o.pid.value, o.pid_fits⟩) := by
    have hne : o.afterPid.isEmpty = false :=
      List.isEmpty_eq_false_iff.mpr (by simp [Opening.afterPid])
    rw [Opening.text, IStream.extractInt_numeral rfl o.pid o.digitsEnd_afterPid, hclamp, hne]
  have hname : IStream.extractString ⟨o.afterPid, false, false⟩ previous.executable =
      (IStream.before (o.gap ++ o.letter :: o.rest), o.name) :=
    IStream.extractString_word o.blanks_ok o.name_ne o.name_ok o.wordEnd_gap _
  have hbefore : IStream.before (o.gap ++ o.letter :: o.rest) =
      ⟨o.gap ++ o.letter :: o.rest, false, false⟩ := by
    rw [IStream.before, List.isEmpty_eq_false_iff.mpr (by simp)]
  rw [streamAt_statePlace_succ, hpid, hname, hbefore,
    IStream.extractChar_skip o.gap_ok o.letter_ok]

/-- A state that was extracted was extracted from an opening. -/
theorem exists_opening (h : Extracted (operands uninitialised) s previous statePlace) :
    ∃ o : Opening, s = ⟨o.text, false, false⟩ := by
  have hpidOk : (s.extractInt .int previous.pid).1.fail = false := h.of_le (i := 0) (by decide)
  have hnameOk : ((s.extractInt .int previous.pid).1.extractString previous.executable).1.fail =
    false := h.of_le (i := 1) (by decide)
  have hstateOk : (((s.extractInt .int previous.pid).1.extractString
    previous.executable).1.extractChar uninitialised).1.fail = false := h
  -- the pid
  rcases IStream.extractInt_cases s previous.pid with hfail | ⟨pid, afterPid, hdigits, rfl⟩
  · rw [hfail] at hpidOk
    cases hpidOk
  rw [IStream.extractInt_numeral rfl pid hdigits] at hpidOk hnameOk hstateOk
  have hfits := IStream.clamp_fits_iff.mp hpidOk
  simp only [IStream.clamp_fits_iff.mpr hfits] at hnameOk hstateOk
  -- the executable
  rcases IStream.extractString_cases ⟨afterPid, afterPid.isEmpty, false⟩ previous.executable with
    hfail | ⟨blanks, name, afterName, hblanks, hne, hname, hend, hafterPid⟩
  · rw [hfail] at hnameOk
    cases hnameOk
  rw [hafterPid, IStream.extractString_word hblanks hne hname hend] at hstateOk
  obtain rfl : afterPid = blanks ++ (name ++ afterName) := congrArg IStream.rest hafterPid
  -- the state
  rcases IStream.extractChar_cases (IStream.before afterName) uninitialised with
    ⟨hfail, -⟩ | ⟨gap, letter, rest, hgap, hletter, hafterName⟩
  · rw [hfail] at hstateOk
    cases hstateOk
  obtain rfl : afterName = gap ++ letter :: rest := congrArg IStream.rest hafterName
  refine ⟨⟨pid, blanks, name, gap, letter, rest, hfits, hblanks, hne, hname, ?_, ?_, hgap,
    hletter⟩, rfl⟩
  · rintro rfl c hc
    obtain ⟨d, name, rfl⟩ := List.exists_cons_of_ne_nil hne
    exact hdigits c hc
  · rintro rfl
    have hspace := hend letter rfl
    rw [hletter] at hspace
    cases hspace

/-! ## Where nothing is invented -/

/-- A state that was not extracted is made from whatever the variable holds. -/
theorem state_of_not_extracted
    (h : ¬ Extracted (operands uninitialised) s previous statePlace) :
    (extractStat s previous uninitialised).2.state = State.ofChar uninitialised := by
  rw [extractStat_state]
  rcases IStream.extractChar_cases (streamAt (operands uninitialised) s previous statePlace)
    uninitialised with ⟨-, hold⟩ | ⟨gap, letter, rest, hgap, hletter, hstream⟩
  · exact congrArg State.ofChar hold
  · refine absurd ?_ h
    show ((streamAt (operands uninitialised) s previous statePlace).extractChar
      uninitialised).1.fail = false
    rw [hstream, IStream.extractChar_skip hgap hletter]

/-- Some value of the variable makes another state of it. -/
theorem exists_other_state (state : State) : ∃ c, State.ofChar c ≠ state := by
  by_cases h : State.ofChar 'R' = state
  · refine ⟨'S', ?_⟩
    rw [← h]
    decide
  · exact ⟨'R', h⟩

/-- Whatever the uninitialised variable holds, reading a record invents nothing if and only
if the text starts with a pid, a word and the first character of another one. -/
theorem inventsNothing_iff (s : IStream) (previous : Stat) :
    (∀ uninitialised, InventsNothing s previous uninitialised) ↔
      ∃ o : Opening, s = ⟨o.text, false, false⟩ := by
  constructor
  · intro h
    obtain ⟨c, hc⟩ := exists_other_state previous.state
    by_cases hext : Extracted (operands c) s previous statePlace
    · exact exists_opening hext
    · refine absurd ((h c).state ?_) hext
      rwa [state_of_not_extracted hext]
  · rintro ⟨o, rfl⟩ uninitialised
    exact inventsNothing_of_extracted (o.extracted previous uninitialised)

/-! ## Reading the record of a process -/

/-- `operator>>(const Process&, Stat&)`. -/
def readStat (fs : ProcFs) (pid : CInt .int) (stat : Stat) (uninitialised : Char) : Stat :=
  (extractStat (fs.ifstream (procPath pid "stat".toList)) stat uninitialised).2

theorem set_get : ∀ f ∈ numericFields, ∀ s, f.set s (f.get s) = s := by
  unfold numericFields
  repeat refine List.forall_mem_cons.mpr ⟨fun _ => rfl, ?_⟩
  exact fun _ hf => absurd hf List.not_mem_nil

theorem foldl_extractField_of_fail {fs : List NumField} (hfs : ∀ f ∈ fs, f ∈ numericFields)
    (hs : s.fail = true) (stat : Stat) : fs.foldl extractField (s, stat) = (s, stat) := by
  induction fs with
  | nil => rfl
  | cons f fs ih =>
    obtain ⟨hf, hfs⟩ := List.forall_mem_cons.mp hfs
    have hstep : extractField (s, stat) f = (s, stat) := by
      simp only [extractField, IStream.extractInt_of_fail hs, set_get f hf]
    rw [List.foldl_cons, hstep, ih hfs]

/-- From a stream that has failed only the state is assigned. -/
theorem extractStat_of_fail (hs : s.fail = true) (stat : Stat) (uninitialised : Char) :
    extractStat s stat uninitialised = (s, { stat with state := State.ofChar uninitialised }) := by
  simp only [extractStat, IStream.extractInt_of_fail hs, IStream.extractString_of_fail hs,
    extractState, IStream.extractChar_of_fail hs]
  rw [foldl_extractField_of_fail (fun _ hf => hf) hs]

/-- For a process without a readable entry, the record is the one the caller had but for the
state, which is made from the uninitialised variable. -/
theorem readStat_of_unreadable (fs : ProcFs) (pid : CInt .int)
    (h : fs.contents (procPath pid "stat".toList) = none) (stat : Stat) (uninitialised : Char) :
    readStat fs pid stat uninitialised = { stat with state := State.ofChar uninitialised } := by
  have hfail : (fs.ifstream (procPath pid "stat".toList)).fail = true := by
    rw [ProcFs.ifstream, h]
  rw [readStat, extractStat_of_fail hfail]

/-- The state of a process that does not exist: the caller's `undefined` becomes `running`. -/
theorem missing_entry_invents_state :
    (readStat .empty ⟨7, by decide⟩ {} 'R').state = State.ofChar 'R' ∧
      State.ofChar 'R' ≠ State.undefined ∧
      ¬ InventsNothing (ProcFs.ifstream .empty (procPath ⟨7, by decide⟩ "stat".toList)) {} 'R' := by
  have hread := readStat_of_unreadable .empty ⟨7, by decide⟩ rfl {} 'R'
  refine ⟨congrArg Stat.state hread, by decide, fun h => ?_⟩
  have hchanged : (readStat .empty ⟨7, by decide⟩ {} 'R').state ≠ State.undefined := by
    rw [hread]
    decide
  have hextracted : (streamAt (operands 'R') _ {} (statePlace + 1)).fail = false :=
    h.state hchanged
  rw [streamAt, fail_extractAll _ rfl] at hextracted
  cases hextracted

end ProcessCpp.Core
