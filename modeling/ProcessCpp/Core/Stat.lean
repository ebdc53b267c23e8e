import ProcessCpp.Base.IStream

/-!
# `/proc/[pid]/stat`: reading a record

`operator>>(std::istream&, Stat&)` of stat.cpp (lines 37–91), over the formatted
extraction of `Base/IStream.lean`.

- `Stat`: the record (stat.h:41–112), with the defaults of its members;
- `numericFields`: the members the operator reads after the state, in the order in
  which it reads them; `extractStat` is the chain of extractions;
- `Record.line`: the line the kernel prints, in the order of proc(5).

The command name is the one free text of the line. The operator reads it as a
word, so it stops at the first white space inside the name; `readsBack_iff` says that
this is all that can go wrong.
-/

namespace ProcessCpp.Core

open ProcessCpp.Base

/-- `linux::proc::process::State`, an enumeration over `int`. -/
structure State where
  toInt : Int
deriving DecidableEq

def State.undefined : State := ⟨-1⟩

/-- `static_cast<State>(c)`; a `char` is signed. -/
def State.ofChar (c : Char) : State := ⟨if c.toNat < 128 then c.toNat else c.toNat - 256⟩

namespace Stat

structure Time where
  user : CInt .ulong := CInt.zero
  system : CInt .ulong := CInt.zero
  userForChildren : CInt .ulong := CInt.zero
  systemForChildren : CInt .ulong := CInt.zero
deriving DecidableEq

structure Size where
  virt : CInt .ulong := CInt.zero
  residentSet : CInt .ulong := CInt.zero
  residentSetLimit : CInt .ulong := CInt.zero
deriving DecidableEq

structure Addresses where
  startCode : CInt .ulong := CInt.zero
  endCode : CInt .ulong := CInt.zero
  startStack : CInt .ulong := CInt.zero
  stackPointer : CInt .ulong := CInt.zero
  instructionPointer : CInt .ulong := CInt.zero
deriving DecidableEq

structure Signals where
  pending : CInt .ulong := CInt.zero
  blocked : CInt .ulong := CInt.zero
  ignored : CInt .ulong := CInt.zero
  caught : CInt .ulong := CInt.zero
deriving DecidableEq

end Stat

/-- `linux::proc::process::Stat`. -/
structure Stat where
  pid : CInt .int := ⟨1, by decide⟩
  executable : List Char := []
  state : State := State.undefined
  parent : CInt .int := ⟨-1, by decide⟩
  processGroup : CInt .int := ⟨-1, by decide⟩
  sessionId : CInt .int := ⟨-1, by decide⟩
  ttyNr : CInt .int := ⟨-1, by decide⟩
  controllingProcessGroup : CInt .int := ⟨-1, by decide⟩
  kernelFlags : CInt .uint := CInt.zero
  minorFaultsCount : CInt .ulong := CInt.zero
  minorFaultsCountByChildren : CInt .ulong := CInt.zero
  majorFaultsCount : CInt .ulong := CInt.zero
  majorFaultsCountByChildren : CInt .ulong := CInt.zero
  time : Stat.Time := {}
  priority : CInt .long := CInt.zero
  nice : CInt .long := CInt.zero
  threadCount : CInt .long := CInt.zero
  timeBeforeNextSigAlarm : CInt .long := CInt.zero
  startTime : CInt .long := CInt.zero
  size : Stat.Size := {}
  addresses : Stat.Addresses := {}
  signals : Stat.Signals := {}
  channel : CInt .ulong := CInt.zero
  swapCount : CInt .ulong := CInt.zero
  swapCountChildren : CInt .ulong := CInt.zero
  exitSignal : CInt .int := ⟨-1, by decide⟩
  cpuCount : CInt .int := ⟨-1, by decide⟩
  realtimePriority : CInt .uint := CInt.zero
  schedulingPolicy : CInt .uint := CInt.zero
  aggregatedBlockIoDelays : CInt .ulong := CInt.zero
  guestTime : CInt .ulong := CInt.zero
  guestTimeChildren : CInt .ulong := CInt.zero
deriving DecidableEq

/-- A member of `Stat` that is read as an integer. -/
structure NumField where
  kind : IntKind
  get : Stat → CInt kind
  set : Stat → CInt kind → Stat

/-- The members after the state, in the order in which the operator reads them. -/
def numericFields : List NumField :=
  [⟨.int, (·.parent), fun s v => { s with parent := v }⟩,
   ⟨.int, (·.processGroup), fun s v => { s with processGroup := v }⟩,
   ⟨.int, (·.sessionId), fun s v => { s with sessionId := v }⟩,
   ⟨.int, (·.ttyNr), fun s v => { s with ttyNr := v }⟩,
   ⟨.int, (·.controllingProcessGroup), fun s v => { s with controllingProcessGroup := v }⟩,
   ⟨.uint, (·.kernelFlags), fun s v => { s with kernelFlags := v }⟩,
   ⟨.ulong, (·.minorFaultsCount), fun s v => { s with minorFaultsCount := v }⟩,
   ⟨.ulong, (·.minorFaultsCountByChildren),
     fun s v => { s with minorFaultsCountByChildren := v }⟩,
   ⟨.ulong, (·.majorFaultsCount), fun s v => { s with majorFaultsCount := v }⟩,
   ⟨.ulong, (·.majorFaultsCountByChildren),
     fun s v => { s with majorFaultsCountByChildren := v }⟩,
   ⟨.ulong, (·.time.user), fun s v => { s with time.user := v }⟩,
   ⟨.ulong, (·.time.system), fun s v => { s with time.system := v }⟩,
   ⟨.ulong, (·.time.userForChildren), fun s v => { s with time.userForChildren := v }⟩,
   ⟨.ulong, (·.time.systemForChildren), fun s v => { s with time.systemForChildren := v }⟩,
   ⟨.long, (·.priority), fun s v => { s with priority := v }⟩,
   ⟨.long, (·.nice), fun s v => { s with nice := v }⟩,
   ⟨.long, (·.threadCount), fun s v => { s with threadCount := v }⟩,
   ⟨.long, (·.timeBeforeNextSigAlarm), fun s v => { s with timeBeforeNextSigAlarm := v }⟩,
   ⟨.long, (·.startTime), fun s v => { s with startTime := v }⟩,
   ⟨.ulong, (·.size.virt), fun s v => { s with size.virt := v }⟩,
   ⟨.ulong, (·.size.residentSet), fun s v => { s with size.residentSet := v }⟩,
   ⟨.ulong, (·.size.residentSetLimit), fun s v => { s with size.residentSetLimit := v }⟩,
   ⟨.ulong, (·.addresses.startCode), fun s v => { s with addresses.startCode := v }⟩,
   ⟨.ulong, (·.addresses.endCode), fun s v => { s with addresses.endCode := v }⟩,
   ⟨.ulong, (·.addresses.startStack), fun s v => { s with addresses.startStack := v }⟩,
   ⟨.ulong, (·.addresses.stackPointer), fun s v => { s with addresses.stackPointer := v }⟩,
   ⟨.ulong, (·.addresses.instructionPointer),
     fun s v => { s with addresses.instructionPointer := v }⟩,
   ⟨.ulong, (·.signals.pending), fun s v => { s with signals.pending := v }⟩,
   ⟨.ulong, (·.signals.blocked), fun s v => { s with signals.blocked := v }⟩,
   ⟨.ulong, (·.signals.ignored), fun s v => { s with signals.ignored := v }⟩,
   ⟨.ulong, (·.signals.caught), fun s v => { s with signals.caught := v }⟩,
   ⟨.ulong, (·.channel), fun s v => { s with channel := v }⟩,
   ⟨.ulong, (·.swapCount), fun s v => { s with swapCount := v }⟩,
   ⟨.ulong, (·.swapCountChildren), fun s v => { s with swapCountChildren := v }⟩,
   ⟨.int, (·.exitSignal), fun s v => { s with exitSignal := v }⟩,
   ⟨.int, (·.cpuCount), fun s v => { s with cpuCount := v }⟩,
   ⟨.uint, (·.realtimePriority), fun s v => { s with realtimePriority := v }⟩,
   ⟨.uint, (·.schedulingPolicy), fun s v => { s with schedulingPolicy := v }⟩,
   ⟨.ulong, (·.aggregatedBlockIoDelays), fun s v => { s with aggregatedBlockIoDelays := v }⟩,
   ⟨.ulong, (·.guestTime), fun s v => { s with guestTime := v }⟩,
   ⟨.ulong, (·.guestTimeChildren), fun s v => { s with guestTimeChildren := v }⟩]

/-! ## The operators -/

/-- `operator>>(std::istream&, State&)`. Where the extraction is refused, the state is
made from whatever the uninitialised `char` holds. -/
def extractState (s : IStream) (uninitialised : Char) : IStream × State :=
  let r := s.extractChar uninitialised
  (r.1, State.ofChar r.2)

def extractField (r : IStream × Stat) (f : NumField) : IStream × Stat :=
  let e := r.1.extractInt f.kind (f.get r.2)
  (e.1, f.set r.2 e.2)

/-- `operator>>(std::istream&, Stat&)`. -/
def extractStat (s : IStream) (stat : Stat) (uninitialised : Char) : IStream × Stat :=
  let pid := s.extractInt .int stat.pid
  let executable := pid.1.extractString stat.executable
  let state := extractState executable.1 uninitialised
  numericFields.foldl extractField
    (state.1, { stat with pid := pid.2, executable := executable.2, state := state.2 })

/-! ## The line -/

/-- The fields 4 to 44 of proc(5), printed. -/
def procFields (s : Stat) : List (List Char) :=
  [printInt s.parent, -- ppid
   printInt s.processGroup, -- pgrp
   printInt s.sessionId, -- session
   printInt s.ttyNr, -- tty_nr
   printInt s.controllingProcessGroup, -- tpgid
   printInt s.kernelFlags, -- flags
   printInt s.minorFaultsCount, -- minflt
   printInt s.minorFaultsCountByChildren, -- cminflt
   printInt s.majorFaultsCount, -- majflt
   printInt s.majorFaultsCountByChildren, -- cmajflt
   printInt s.time.user, -- utime
   printInt s.time.system, -- stime
   printInt s.time.userForChildren, -- cutime
   printInt s.time.systemForChildren, -- cstime
   printInt s.priority, -- priority
   printInt s.nice, -- nice
   printInt s.threadCount, -- num_threads
   printInt s.timeBeforeNextSigAlarm, -- itrealvalue
   printInt s.startTime, -- starttime
   printInt s.size.virt, -- vsize
   printInt s.size.residentSet, -- rss
   printInt s.size.residentSetLimit, -- rsslim
   printInt s.addresses.startCode, -- startcode
   printInt s.addresses.endCode, -- endcode
   printInt s.addresses.startStack, -- startstack
   printInt s.addresses.stackPointer, -- kstkesp
   printInt s.addresses.instructionPointer, -- kstkeip
   printInt s.signals.pending, -- signal
   printInt s.signals.blocked, -- blocked
   printInt s.signals.ignored, -- sigignore
   printInt s.signals.caught, -- sigcatch
   printInt s.channel, -- wchan
   printInt s.swapCount, -- nswap
   printInt s.swapCountChildren, -- cnswap
   printInt s.exitSignal, -- exit_signal
   printInt s.cpuCount, -- processor
   printInt s.realtimePriority, -- rt_priority
   printInt s.schedulingPolicy, -- policy
   printInt s.aggregatedBlockIoDelays, -- delayacct_blkio_ticks
   printInt s.guestTime, -- guest_time
   printInt s.guestTimeChildren] -- cguest_time

/-- What the kernel prints a line from: the numbers of a `Stat`, the command name,
and the state letter. -/
structure Record where
  numbers : Stat
  name : List Char
  letter : Char
  letter_alpha : letter.isAlpha = true

/-- What may follow the 44 fields: nothing, or a blank or newline and anything. -/
def LineEnd : Type := { text : List Char // IStream.WordEnd text }

namespace Record

/-- The line of proc(5). -/
def line (r : Record) (more : LineEnd) : List Char :=
  printInt r.numbers.pid ++ ' ' :: '(' :: r.name ++ ')' :: ' ' :: r.letter ::
    (procFields r.numbers).flatMap (' ' :: ·) ++ more.val

/-- The record the line stands for. -/
def stat (r : Record) : Stat :=
  { r.numbers with
    executable := '(' :: r.name ++ [')']
    state := State.ofChar r.letter }

/-- Extracting from the line succeeds and gives every member its printed value. -/
def ReadsBack (r : Record) (more : LineEnd) (previous : Stat) (uninitialised : Char) : Prop :=
  (extractStat (IStream.before (r.line more)) previous uninitialised).1.fail = false ∧
  (extractStat (IStream.before (r.line more)) previous uninitialised).2 = r.stat

end Record

/-! ## The numbers -/

/-- The operator reads the members in the order of proc(5). -/
theorem procFields_eq (s : Stat) :
    procFields s = numericFields.map fun f => printInt (f.get s) := rfl

theorem wordEnd_flatMap (words : List (List Char)) (more : LineEnd) :
    IStream.WordEnd (words.flatMap (' ' :: ·) ++ more.val) := by
  cases words with
  | nil => exact more.property
  | cons word words =>
    intro c hc
    cases hc
    decide

/-- Printed members are read back one after the other, into whatever record. -/
theorem foldl_extractField (t : Stat) (more : LineEnd) (fs : List NumField) (stat : Stat) :
    fs.foldl extractField
        (IStream.before ((fs.map fun f => printInt (f.get t)).flatMap (' ' :: ·) ++ more.val),
          stat) =
      (IStream.before more.val, fs.foldl (fun s f => f.set s (f.get t)) stat) := by
  induction fs generalizing stat with
  | nil => rfl
  | cons f fs ih =>
    have hstep : extractField (IStream.before
          (((f :: fs).map fun f => printInt (f.get t)).flatMap (' ' :: ·) ++ more.val), stat) f =
        (IStream.before ((fs.map fun f => printInt (f.get t)).flatMap (' ' :: ·) ++ more.val),
          f.set stat (f.get t)) := by
      simp only [extractField, List.map_cons, List.flatMap_cons, List.cons_append,
        List.append_assoc]
      rw [IStream.extractInt_blank_print (f.get t) (wordEnd_flatMap _ more)]
    rw [List.foldl_cons, hstep, ih, List.foldl_cons]

/-- Taking every number over from another record leaves nothing of the old one but
the three members that are not among them. -/
theorem foldl_set (s t : Stat) :
    numericFields.foldl (fun s f => f.set s (f.get t)) s =
      { t with pid := s.pid, executable := s.executable, state := s.state } := rfl

theorem set_executable : ∀ f ∈ numericFields, ∀ s v, (f.set s v).executable = s.executable := by
  unfold numericFields
  repeat refine List.forall_mem_cons.mpr ⟨fun _ _ => rfl, ?_⟩
  exact fun _ hf => absurd hf List.not_mem_nil

/-- No number is stored in the executable, whatever the stream holds. -/
theorem foldl_extractField_executable {fs : List NumField} (hfs : ∀ f ∈ fs, f ∈ numericFields)
    (s : IStream) (stat : Stat) :
    (fs.foldl extractField (s, stat)).2.executable = stat.executable := by
  induction fs generalizing s stat with
  | nil => rfl
  | cons f fs ih =>
    rw [List.foldl_cons]
    refine (ih (fun g hg => hfs g (List.mem_cons_of_mem f hg)) _ _).trans ?_
    exact set_executable f (hfs f List.mem_cons_self) stat _

/-! ## The whole line -/

namespace Record

/-- The line after the command name. -/
def afterName (r : Record) (more : LineEnd) : List Char :=
  ' ' :: r.letter :: ((procFields r.numbers).flatMap (' ' :: ·) ++ more.val)

theorem line_eq (r : Record) (more : LineEnd) :
    r.line more =
      printInt r.numbers.pid ++ (' ' :: '(' :: (r.name ++ ')' :: r.afterName more)) := by
  simp [line, afterName]

/-- The executable the operator stores: the line from the opening parenthesis up to
the first white space. -/
theorem extractStat_executable (r : Record) (more : LineEnd) (previous : Stat) (c : Char) :
    (extractStat (IStream.before (r.line more)) previous c).2.executable =
      ('(' :: (r.name ++ ')' :: r.afterName more)).takeWhile (!isSpace ·) := by
  have hend : IStream.WordEnd (' ' :: '(' :: (r.name ++ ')' :: r.afterName more)) := by
    intro c hc
    cases hc
    decide
  have hpid := IStream.extractInt_print r.numbers.pid hend previous.pid
  simp only [extractStat, foldl_extractField_executable fun _ hf => hf, line_eq, hpid]
  rw [IStream.extractString_blank (by decide)]

theorem isSpace_letter (r : Record) : isSpace r.letter = false := by
  refine Bool.eq_false_iff.mpr fun hspace => ?_
  have hc : r.letter.toNat = 32 ∨ 9 ≤ r.letter.toNat ∧ r.letter.toNat ≤ 13 := by
    simpa [isSpace] using hspace
  have halpha : (decide ('A'.val ≤ r.letter.val ∧ r.letter.val ≤ 'Z'.val) ||
      (decide ('a'.val ≤ r.letter.val) && decide (r.letter.val ≤ 'z'.val))) = true :=
    r.letter_alpha
  simp only [Bool.or_eq_true, Bool.and_eq_true, decide_eq_true_eq,
    UInt32.le_iff_toNat_le] at halpha
  have hval : r.letter.val.toNat = r.letter.toNat := rfl
  rw [hval] at halpha
  simp at halpha
  omega

/-- A name without white space: the line is read back as a whole. -/
theorem extractStat_line {r : Record} (hname : ∀ c ∈ r.name, isSpace c = false) (more : LineEnd)
    (previous : Stat) (c : Char) :
    extractStat (IStream.before (r.line more)) previous c = (IStream.before more.val, r.stat) := by
  have hend : IStream.WordEnd (' ' :: '(' :: (r.name ++ ')' :: r.afterName more)) := by
    intro c hc
    cases hc
    decide
  have hword : ∀ c ∈ '(' :: (r.name ++ [')']), (!isSpace c) = true := by
    intro c hc
    rw [List.mem_cons, List.mem_append, List.mem_singleton] at hc
    rcases hc with rfl | hc | rfl
    · decide
    · rw [hname c hc]
      rfl
    · decide
  have hblank : ∀ c ∈ (r.afterName more).head?, (!isSpace c) = false := by
    intro c hc
    cases hc
    decide
  -- the name in parentheses is one word, and a blank follows it
  have hspan := IStream.span_append hword hblank
  have hparts : '(' :: (r.name ++ ')' :: r.afterName more) =
      '(' :: (r.name ++ [')']) ++ r.afterName more := by simp
  have hpid := IStream.extractInt_print r.numbers.pid hend previous.pid
  have hexec : (IStream.before (' ' :: '(' :: (r.name ++ ')' :: r.afterName more))).extractString
      previous.executable = (IStream.before (r.afterName more), '(' :: (r.name ++ [')'])) := by
    rw [IStream.extractString_blank (by decide), hparts, hspan.1, hspan.2]
  have hletter : (IStream.before (r.afterName more)).extractChar c =
      (IStream.before ((procFields r.numbers).flatMap (' ' :: ·) ++ more.val), r.letter) :=
    IStream.extractChar_blank r.isSpace_letter (by simp [procFields]) c
  simp only [extractStat, extractState, line_eq, hpid, hexec, hletter]
  rw [procFields_eq, foldl_extractField, foldl_set]
  rfl

end Record

/-- A record is read back from its line exactly when the command name has no white
space in it. -/
theorem readsBack_iff (r : Record) (more : LineEnd) (previous : Stat) (uninitialised : Char) :
    r.ReadsBack more previous uninitialised ↔ ∀ c ∈ r.name, isSpace c = false := by
  constructor
  · rintro ⟨-, hstat⟩
    have hexec := r.extractStat_executable more previous uninitialised
    rw [hstat] at hexec
    -- the stored word is the whole name in parentheses, and a word has no white space
    intro c hc
    have hmem : c ∈ r.stat.executable := by
      show c ∈ '(' :: r.name ++ [')']
      simp [hc]
    rw [hexec] at hmem
    have hnot := List.all_eq_true.mp List.all_takeWhile c hmem
    simpa using hnot
  · intro hname
    rw [Record.ReadsBack, Record.extractStat_line hname]
    exact ⟨rfl, rfl⟩

/-- A process named `a b`. -/
def spacedName : Record := ⟨{}, ['a', ' ', 'b'], 'S', by decide⟩

/-- The line of a process whose name has a blank is not read back. -/
theorem spaced_name_not_readBack :
    ¬ spacedName.ReadsBack ⟨[], by intro c hc; cases hc⟩ {} 'x' := by
  rintro ⟨-, hstat⟩
  have hexec := spacedName.extractStat_executable ⟨[], by intro c hc; cases hc⟩ {} 'x'
  rw [hstat] at hexec
  exact absurd hexec (by decide)

end ProcessCpp.Core
