import ProcessCpp.Base.Prelude
import ProcessCpp.Posix.Basic
import ProcessCpp.Posix.ProcFs

/-!
# `oom_score`, `oom_adj` and `oom_score_adj` of a process

The five operators of oom_score.cpp, oom_adj.cpp and oom_score_adj.cpp. Their headers say
"@throw std::runtime_error in case of errors"; the code opens a stream, extracts or inserts,
and returns. It looks at the stream neither after opening it nor after the extraction, and
what an `ofstream` holds is only written by its destructor. The one exception that is ever
thrown is the `logic_error` for a value that is not valid.

- `readOomScore`, `readOomAdj`, `readOomScoreAdj`, `writeOomAdj`, `writeOomScoreAdj`: the
  operators, the readers as `readValue` and the writers as `writeValue` of a file;
- `OomCall.Reports`: a call that returned normally did what it says, and one that threw
  changed nothing;
- `oom_reports_iff`: an operator reports every error exactly when there is none to report, or
  the value is not valid.
-/

namespace ProcessCpp.Core

open ProcessCpp.Base ProcessCpp.Posix

/-! ## The values -/

/-- `OomScore`. -/
structure OomScore where
  value : CInt .int := CInt.zero

/-- `OomAdj`. -/
structure OomAdj where
  value : CInt .int

/-- `OomScoreAdj`. -/
structure OomScoreAdj where
  value : CInt .int

/-- `OOM_DISABLE`. -/
def OomAdj.disableValue : Int := -17

/-- `OOM_ADJUST_MAX`. -/
def OomAdj.maxValue : Int := 15

/-- The lower bound is `disable_value()`, which is below `min_value()`. -/
def OomAdj.isValid (x : OomAdj) : Bool :=
  OomAdj.disableValue ≤ x.value.val && x.value.val ≤ OomAdj.maxValue

/-- `OOM_SCORE_ADJ_MIN`. -/
def OomScoreAdj.minValue : Int := -1000

/-- `OOM_SCORE_ADJ_MAX`. -/
def OomScoreAdj.maxValue : Int := 1000

def OomScoreAdj.isValid (x : OomScoreAdj) : Bool :=
  OomScoreAdj.minValue ≤ x.value.val && x.value.val ≤ OomScoreAdj.maxValue

/-! ## The operators -/

/-- `std::ifstream in(path); in >> value;` -/
def readValue (fs : ProcFs) (path : List Char) (value : CInt .int) :
    Except Exception (CInt .int) :=
  .ok ((fs.ifstream path).extractInt .int value).2

def invalidValue : Exception :=
  .logicError "Value for adjusting the oom score is invalid.".toList

/-- `if (!is_valid()) throw …; std::ofstream out(path); out << value;` with the files
afterwards. -/
def writeValue (k : ProcKernel) (fs : ProcFs) (path : List Char) (valid : Bool)
    (value : CInt .int) : ProcFs × Except Exception Unit :=
  if !valid then (fs, .error invalidValue)
  else (fs.ofstream k path (printInt value), .ok ())

def oomScorePath (pid : CInt .int) : List Char := procPath pid "oom_score".toList

def oomAdjPath (pid : CInt .int) : List Char := procPath pid "oom_adj".toList

def oomScoreAdjPath (pid : CInt .int) : List Char := procPath pid "oom_score_adj".toList

/-- `operator>>(const Process&, OomScore&)`. -/
def readOomScore (fs : ProcFs) (pid : CInt .int) (score : OomScore) : Except Exception OomScore :=
  (readValue fs (oomScorePath pid) score.value).map OomScore.mk

/-- `operator>>(const Process&, OomAdj&)`. -/
def readOomAdj (fs : ProcFs) (pid : CInt .int) (adj : OomAdj) : Except Exception OomAdj :=
  (readValue fs (oomAdjPath pid) adj.value).map OomAdj.mk

/-- `operator>>(const Process&, OomScoreAdj&)`. -/
def readOomScoreAdj (fs : ProcFs) (pid : CInt .int) (scoreAdj : OomScoreAdj) :
    Except Exception OomScoreAdj :=
  (readValue fs (oomScoreAdjPath pid) scoreAdj.value).map OomScoreAdj.mk

/-- `operator<<(const Process&, const OomAdj&)`. -/
def writeOomAdj (k : ProcKernel) (fs : ProcFs) (pid : CInt .int) (adj : OomAdj) :
    ProcFs × Except Exception Unit :=
  writeValue k fs (oomAdjPath pid) adj.isValid adj.value

/-- `operator<<(const Process&, const OomScoreAdj&)`. -/
def writeOomScoreAdj (k : ProcKernel) (fs : ProcFs) (pid : CInt .int) (scoreAdj : OomScoreAdj) :
    ProcFs × Except Exception Unit :=
  writeValue k fs (oomScoreAdjPath pid) scoreAdj.isValid scoreAdj.value

/-! ## What the headers promise -/

/-- The file can be read, and is one integer between white space. -/
def Contains (fs : ProcFs) (path : List Char) (v : Int) : Prop :=
  ∃ (n : IStream.Numeral) (blanks : List Char), (∀ c ∈ blanks, isSpace c = true) ∧
    fs.contents path = some (n.text ++ blanks) ∧ n.value = v

/-- The file has taken the text. -/
def Taken (k : ProcKernel) (fs : ProcFs) (path text : List Char) (fs' : ProcFs) : Prop :=
  fs.opensForWriting path = true ∧ k.write fs path text = some fs'

/-- A call of one of the operators, with its operand. -/
inductive OomCall where
  | readScore (x : OomScore)
  | readAdj (x : OomAdj)
  | readScoreAdj (x : OomScoreAdj)
  | writeAdj (x : OomAdj)
  | writeScoreAdj (x : OomScoreAdj)

/-- A write that returned was of a valid value, which the file has taken; one that threw
changed nothing. -/
def WriteReports (k : ProcKernel) (fs : ProcFs) (path : List Char) (valid : Bool)
    (value : CInt .int) (r : ProcFs × Except Exception Unit) : Prop :=
  (r.2 = .ok () → valid = true ∧ Taken k fs path (printInt value) r.1) ∧
    ∀ e, r.2 = .error e → r.1 = fs

/-- Every error is reported: a read that returned stored the integer in the file, and a write
that returned put it there. -/
def OomCall.Reports (k : ProcKernel) (fs : ProcFs) (pid : CInt .int) : OomCall → Prop
  | .readScore x => ∀ y, readOomScore fs pid x = .ok y →
      Contains fs (oomScorePath pid) y.value.val
  | .readAdj x => ∀ y, readOomAdj fs pid x = .ok y → Contains fs (oomAdjPath pid) y.value.val
  | .readScoreAdj x => ∀ y, readOomScoreAdj fs pid x = .ok y →
      Contains fs (oomScoreAdjPath pid) y.value.val
  | .writeAdj x => WriteReports k fs (oomAdjPath pid) x.isValid x.value (writeOomAdj k fs pid x)
  | .writeScoreAdj x =>
      WriteReports k fs (oomScoreAdjPath pid) x.isValid x.value (writeOomScoreAdj k fs pid x)

/-- The file can be read, and is one integer that fits an `int`. -/
def HoldsInt (fs : ProcFs) (path : List Char) : Prop := ∃ v : CInt .int, Contains fs path v.val

/-- The file can be opened for writing, and the kernel accepts the text. -/
def Accepts (k : ProcKernel) (fs : ProcFs) (path text : List Char) : Prop :=
  fs.opensForWriting path = true ∧ (k.write fs path text).isSome = true

/-- There is nothing to report, or the value is not valid. -/
def OomCall.Smooth (k : ProcKernel) (fs : ProcFs) (pid : CInt .int) : OomCall → Prop
  | .readScore _ => HoldsInt fs (oomScorePath pid)
  | .readAdj _ => HoldsInt fs (oomAdjPath pid)
  | .readScoreAdj _ => HoldsInt fs (oomScoreAdjPath pid)
  | .writeAdj x => x.isValid = false ∨ Accepts k fs (oomAdjPath pid) (printInt x.value)
  | .writeScoreAdj x => x.isValid = false ∨ Accepts k fs (oomScoreAdjPath pid) (printInt x.value)

/-! ## Reading -/

variable {k : ProcKernel} {fs fs' : ProcFs} {path : List Char} {pid : CInt .int}

theorem digitsEnd_of_blanks {blanks : List Char} (h : ∀ c ∈ blanks, isSpace c = true) :
    IStream.DigitsEnd blanks := by
  intro c hc
  exact IStream.isDigit_of_isSpace (h c (List.mem_of_mem_head? hc))

/-- An integer that fits is read as it is. -/
theorem readValue_of_contains {v : CInt .int} (h : Contains fs path v.val) (old : CInt .int) :
    readValue fs path old = .ok v := by
  obtain ⟨n, blanks, hblanks, htext, hvalue⟩ := h
  have hstream : fs.ifstream path = ⟨n.text ++ blanks, false, false⟩ := by
    rw [ProcFs.ifstream, htext]
  rw [readValue, hstream, IStream.extractInt_numeral rfl n (digitsEnd_of_blanks hblanks), hvalue,
    CInt.clamp_val]

/-- A read always returns, so it reports every error where there is none. -/
theorem readValue_reports_iff {X : Type} (make : CInt .int → X) (value : X → CInt .int)
    (hmake : ∀ v, value (make v) = v) (fs : ProcFs) (path : List Char) (old : CInt .int) :
    (∀ x, (readValue fs path old).map make = .ok x → Contains fs path (value x).val) ↔
      HoldsInt fs path := by
  constructor
  · intro h
    exact ⟨_, h _ rfl⟩
  · rintro ⟨v, hv⟩ x hx
    rw [readValue_of_contains hv] at hx
    cases hx
    rwa [hmake]

/-! ## Writing -/

theorem writeValue_of_accepts {value : CInt .int} (h : Accepts k fs path (printInt value)) :
    ∃ fs', Taken k fs path (printInt value) fs' ∧
      writeValue k fs path true value = (fs', .ok ()) := by
  obtain ⟨hopen, haccepted⟩ := h
  obtain ⟨fs', hfs'⟩ := Option.isSome_iff_exists.mp haccepted
  refine ⟨fs', ⟨hopen, hfs'⟩, ?_⟩
  show (fs.ofstream k path (printInt value), Except.ok ()) = (fs', Except.ok ())
  rw [ProcFs.ofstream, if_pos hopen, hfs']
  rfl

theorem writeValue_reports_iff (k : ProcKernel) (fs : ProcFs) (path : List Char) (valid : Bool)
    (value : CInt .int) :
    WriteReports k fs path valid value (writeValue k fs path valid value) ↔
      valid = false ∨ Accepts k fs path (printInt value) := by
  cases valid with
  | false =>
    refine ⟨fun _ => .inl rfl, fun _ => ⟨?_, fun _ _ => rfl⟩⟩
    intro hok
    cases hok
  | true =>
    constructor
    · intro h
      obtain ⟨-, hopen, hwrite⟩ := h.1 rfl
      exact .inr ⟨hopen, by rw [hwrite]; rfl⟩
    · intro h
      have haccepts := h.resolve_left (by decide)
      obtain ⟨fs', htaken, heq⟩ := writeValue_of_accepts haccepts
      rw [heq]
      refine ⟨fun _ => ⟨rfl, htaken⟩, fun e he => ?_⟩
      cases he

/-! ## The operators report every error -/

/-- The kernel stores an accepted `oom_score_adj` as it was written. -/
def ProcKernel.StoresScoreAdj (k : ProcKernel) : Prop :=
  ∀ fs pid (x : OomScoreAdj) fs', x.isValid = true →
    k.write fs (oomScoreAdjPath pid) (printInt x.value) = some fs' →
    ∀ v, Contains fs' (oomScoreAdjPath pid) v → v = x.value.val

/-- A valid value that was accepted is what is read back. -/
theorem readBack_of_smooth (hstores : ProcKernel.StoresScoreAdj k) {x y : OomScoreAdj}
    (hvalid : x.isValid = true) (hwrite : OomCall.Smooth k fs pid (.writeScoreAdj x))
    (hread : OomCall.Smooth k (writeOomScoreAdj k fs pid x).1 pid (.readScoreAdj y)) :
    (writeOomScoreAdj k fs pid x).2 = .ok () ∧
      readOomScoreAdj (writeOomScoreAdj k fs pid x).1 pid y = .ok x := by
  have haccepts : Accepts k fs (oomScoreAdjPath pid) (printInt x.value) :=
    hwrite.resolve_left (by rw [hvalid]; decide)
  obtain ⟨fs', htaken, heq⟩ := writeValue_of_accepts haccepts
  rw [← hvalid] at heq
  have hfs' : writeOomScoreAdj k fs pid x = (fs', .ok ()) := heq
  rw [hfs'] at hread ⊢
  obtain ⟨v, hv⟩ := hread
  have hvx : v = x.value := Subtype.ext (hstores fs pid x fs' hvalid htaken.2 v.val hv)
  refine ⟨rfl, ?_⟩
  rw [readOomScoreAdj, readValue_of_contains hv, hvx]
  rfl

/-- An operator reports every error if and only if the file holds an integer that can be read,
or takes the text that is written, or the value is not valid. Between calls for which this
is so, a valid `oom_score_adj` is read back as it was written. -/
theorem oom_reports_iff (k : ProcKernel) (fs : ProcFs) (pid : CInt .int) :
    (∀ call : OomCall, call.Reports k fs pid ↔ call.Smooth k fs pid) ∧
      (ProcKernel.StoresScoreAdj k → ∀ x y : OomScoreAdj, x.isValid = true →
        OomCall.Smooth k fs pid (.writeScoreAdj x) →
        OomCall.Smooth k (writeOomScoreAdj k fs pid x).1 pid (.readScoreAdj y) →
        (writeOomScoreAdj k fs pid x).2 = .ok () ∧
          readOomScoreAdj (writeOomScoreAdj k fs pid x).1 pid y = .ok x) := by
  constructor
  · intro call
    cases call with
    | readScore x =>
      exact readValue_reports_iff OomScore.mk OomScore.value (fun _ => rfl) fs _ x.value
    | readAdj x => exact readValue_reports_iff OomAdj.mk OomAdj.value (fun _ => rfl) fs _ x.value
    | readScoreAdj x =>
      exact readValue_reports_iff OomScoreAdj.mk OomScoreAdj.value (fun _ => rfl) fs _ x.value
    | writeAdj x => exact writeValue_reports_iff ..
    | writeScoreAdj x => exact writeValue_reports_iff ..
  · intro hstores x y hvalid hwrite hread
    exact readBack_of_smooth hstores hvalid hwrite hread

/-- A kernel that takes every text and shows it with a newline. -/
def plainKernel : ProcKernel where
  write fs path text := some
    ⟨fun p => if p = path then some ⟨true, true, some (text ++ ['\n'])⟩ else fs.file p⟩

/-- What the plain kernel shows is what was written. -/
theorem plainKernel_stores : ProcKernel.StoresScoreAdj plainKernel := by
  rintro fs pid x fs' - hwrite v ⟨n, blanks, hblanks, htext, rfl⟩
  cases hwrite
  have hfile : some (printInt x.value ++ ['\n']) = some (n.text ++ blanks) := by
    rw [← htext]
    simp [ProcFs.contents]
  have hend : IStream.WordEnd ['\n'] := by
    intro c hc
    cases hc
    decide
  -- the extraction finds the value that was printed, and the integer in the file
  have hprinted := IStream.extractInt_print x.value hend x.value
  rw [Option.some.inj hfile, IStream.before] at hprinted
  have hnumeral := IStream.extractInt_numeral rfl n (digitsEnd_of_blanks hblanks) x.value
  have hne : (n.text ++ blanks).isEmpty = false := by
    rw [← Option.some.inj hfile]
    simp
  rw [hne, hnumeral] at hprinted
  have hclamp : CInt.clamp .int n.value = (x.value, false) :=
    Prod.ext (congrArg Prod.snd hprinted) (congrArg (·.1.fail) hprinted)
  have hfits := IStream.clamp_fits_iff.mp (congrArg Prod.snd hclamp)
  have hvalue := CInt.clamp_val (k := .int) ⟨n.value, hfits⟩
  rw [hclamp] at hvalue
  exact congrArg (·.1.val) hvalue.symm

/-- Process 7 with its `oom_score_adj`. -/
def oneFile : ProcFs where
  file path := if path = oomScoreAdjPath ⟨7, by decide⟩ then some ⟨true, true, some ['0', '\n']⟩
    else none

theorem oom_reports_iff_oneFile :
    (writeOomScoreAdj plainKernel oneFile ⟨7, by decide⟩ ⟨⟨500, by decide⟩⟩).2 = .ok () ∧
      readOomScoreAdj (writeOomScoreAdj plainKernel oneFile ⟨7, by decide⟩ ⟨⟨500, by decide⟩⟩).1
        ⟨7, by decide⟩ ⟨CInt.zero⟩ = .ok ⟨⟨500, by decide⟩⟩ := by
  have hopen : oneFile.opensForWriting (oomScoreAdjPath ⟨7, by decide⟩) = true := by
    simp [ProcFs.opensForWriting, oneFile]
  refine (oom_reports_iff plainKernel oneFile ⟨7, by decide⟩).2 plainKernel_stores _ _ (by decide)
    (.inr ⟨hopen, rfl⟩) ⟨⟨500, by decide⟩, ?_⟩
  have hdigits : ['5', '0', '0'].all Char.isDigit = true := by decide
  have hblanks : ['\n'].all isSpace = true := by decide
  refine ⟨⟨[], [], ['5', '0', '0'], by simp, .inl rfl, List.all_eq_true.mp hdigits, by decide⟩,
    ['\n'], List.all_eq_true.mp hblanks, ?_, rfl⟩
  have htext : printInt (⟨500, by decide⟩ : CInt .int) = ['5', '0', '0'] := by decide
  simp [writeOomScoreAdj, writeValue, OomScoreAdj.isValid, OomScoreAdj.minValue,
    OomScoreAdj.maxValue, ProcFs.ofstream, hopen, plainKernel, ProcFs.contents,
    IStream.Numeral.text, htext]

/-- A process that does not exist: reading its `oom_score_adj` returns, and so does writing a
valid one. -/
theorem missing_process_unreported :
    ¬ OomCall.Reports plainKernel .empty ⟨7, by decide⟩ (.readScoreAdj ⟨CInt.zero⟩) ∧
      ¬ OomCall.Reports plainKernel .empty ⟨7, by decide⟩ (.writeScoreAdj ⟨⟨500, by decide⟩⟩) := by
  constructor
  · intro h
    obtain ⟨n, blanks, -, htext, -⟩ := h ⟨CInt.zero⟩ rfl
    cases htext
  · intro h
    obtain ⟨-, hopen, -⟩ := h.1 rfl
    cases hopen

end ProcessCpp.Core
