import ProcessCpp.Base.IStream

/-!
# Files under `/proc`, through `std::ifstream` and `std::ofstream`

A file under `/proc` can be missing, refuse to be opened for reading or for writing, fail
when it is read, and refuse a text when the buffer of an `ofstream` is flushed, which
happens in its destructor. None of this throws: the streams only set their error bits.

- `ProcFs`: the files, by path;
- `ProcKernel.write`: what the kernel makes of a text written to a file: it refuses it, or
  the files change. A parameter, as the files belong to the kernel (a write to `oom_adj`
  changes what `oom_score_adj` shows);
- `ifstream`, `ofstream`: the streams on a path. A file that is opened for writing with
  `O_TRUNC` shows what it showed before, and opening a path that is missing does not
  create it.
-/

namespace ProcessCpp.Posix

open ProcessCpp.Base

/-- A file under `/proc`, as the caller sees it. -/
structure ProcFile where
  readable : Bool
  writable : Bool
  /-- what it contains; `none` if `read(2)` fails -/
  text : Option (List Char)
deriving DecidableEq

/-- The files, by path. -/
structure ProcFs where
  file : List Char → Option ProcFile

/-- What the kernel makes of a text written to a file that was opened. -/
structure ProcKernel where
  write : ProcFs → List Char → List Char → Option ProcFs

/-- `"/proc/" << pid << "/…"`. -/
def procPath (pid : CInt .int) (name : List Char) : List Char :=
  "/proc/".toList ++ printInt pid ++ '/' :: name

namespace ProcFs

/-- No file at all. -/
def empty : ProcFs := ⟨fun _ => none⟩

/-- What can be read from a path. -/
def contents (fs : ProcFs) (path : List Char) : Option (List Char) :=
  (fs.file path).bind fun f => if f.readable then f.text else none

/-- The path can be opened for writing. -/
def opensForWriting (fs : ProcFs) (path : List Char) : Bool := (fs.file path).any (·.writable)

/-- `std::ifstream in(path)`. A stream that could not be opened has failed, and so has one
whose first `read(2)` fails as soon as it is used. -/
def ifstream (fs : ProcFs) (path : List Char) : IStream :=
  match fs.contents path with
  | some text => ⟨text, false, false⟩
  | none => ⟨[], false, true⟩

/-- `std::ofstream out(path); out << text;` up to the end of the scope. A text the kernel
refuses is dropped, and so is one for a stream that could not be opened. -/
def ofstream (k : ProcKernel) (fs : ProcFs) (path text : List Char) : ProcFs :=
  if fs.opensForWriting path then (k.write fs path text).getD fs else fs

end ProcFs

end ProcessCpp.Posix
