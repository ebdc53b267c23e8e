import ProcessCpp.Base.CxxString
import ProcessCpp.Base.Prelude
import ProcessCpp.Core.Env

/-!
# Backtraces: cutting out and demangling symbols (backtrace.cpp)

`impl::Frame::Symbol` cuts the mangled name out of a line of `backtrace_symbols(3)`:

    auto mangled_symbol = raw_.substr(first+1, (last-1) - (first+1));

Between the parentheses stand `last - first - 1` characters, one more than that. The cut at
`+` that follows hides the missing one whenever there is an offset; without one the last
character of the name is lost, and for empty parentheses the length wraps around, so that
everything up to the end of the line is taken.

- `Symbol.mangledSymbol`, `demangle`, `Symbol.ctor`: the constructor. What
  `abi::__cxa_demangle` answers is a parameter;
- `mangledSymbol_spec`: the constructor never throws, and what it passes to `demangle`;
- `passes_name_iff`: it passes the name exactly when the line has an offset;
- `symbol_falls_back_iff`: a line without both parentheses is where `demangled()` is not the
  raw text, but empty;
- `printBacktrace_prints`: what `print_backtrace` of fork.cpp prints. It asks `is_cxx()`
  first, so it prints the raw text all the same.
-/

namespace ProcessCpp.Core.Backtrace

open ProcessCpp.Base
open CxxString (npos)

/-! ## The constructor -/

/-- What `abi::__cxa_demangle` gives: a buffer, or null, and a status. -/
structure Demangled where
  result : Option CxxString
  status : Int

/-- `abi::__cxa_demangle`, which reads a C string. -/
abbrev CxaDemangle : Type := List Char → Demangled

/-- `impl::demangle`. -/
def demangle (cxa : CxaDemangle) (symbol : CxxString) : CxxString × Bool :=
  match cxa (Env.cStr symbol.chars) with
  | ⟨none, _⟩ => (.empty, false)
  | ⟨some s, status⟩ => if status ≠ 0 then (.empty, false) else (s, true)

/-- `impl::Frame::Symbol`. -/
structure Symbol where
  raw : CxxString
  demangled : CxxString := .empty
  isCxx : Bool := false

namespace Symbol

/-- `mangled_symbol` without its offset. -/
def cutOffset (mangled : CxxString) : Except OutOfRange CxxString :=
  if mangled.findFirstOf '+' ≠ npos then mangled.erase (mangled.findFirstOf '+') else .ok mangled

/-- What the constructor passes to `demangle`, if it calls it at all. -/
def mangledSymbol (raw : CxxString) : Except OutOfRange (Option CxxString) :=
  let first := raw.findFirstOf '('
  let last := raw.findLastOf ')'
  if first ≠ npos ∧ last ≠ npos then do
    let mangled ← raw.substr (first + 1) ((last - 1) - (first + 1))
    let mangled ← cutOffset mangled
    pure (some mangled)
  else .ok none

/-- `Symbol::Symbol`. -/
def ctor (cxa : CxaDemangle) (symbol : CxxString) : Except OutOfRange Symbol := do
  match ← mangledSymbol symbol with
  | none => pure { raw := symbol }
  | some mangled =>
    let (demangled, isCxx) := demangle cxa mangled
    pure { raw := symbol, demangled := if isCxx then demangled else symbol, isCxx }

end Symbol

/-! ## What is cut out -/

theorem ne_plus_of_notMem {name : List Char} (h : '+' ∉ name) :
    ∀ c ∈ name, decide (c ≠ '+') = true := by
  intro c hc
  have hne : c ≠ '+' := fun he => h (he ▸ hc)
  simpa using hne

namespace Symbol

/-- The name ends at the first `+`. -/
theorem cutOffset_spec (mangled : CxxString) :
    ∃ name, cutOffset mangled = .ok name ∧ name.chars = mangled.chars.takeWhile (· ≠ '+') := by
  unfold cutOffset
  by_cases hplus : '+' ∈ mangled.chars
  · obtain ⟨before, after, hsplit, hbefore⟩ := List.eq_append_cons_of_mem hplus
    obtain ⟨name, herase, hname⟩ := CxxString.erase_place hsplit
    refine ⟨name, ?_, ?_⟩
    · rw [if_pos (mt CxxString.findFirstOf_eq_npos_iff.mp (not_not.mpr hplus)),
        CxxString.findFirstOf_split hsplit hbefore, herase]
    · rw [hname, hsplit, List.takeWhile_append_of_pos (ne_plus_of_notMem hbefore)]
      simp
  · refine ⟨mangled, if_neg (not_not.mpr (CxxString.findFirstOf_eq_npos hplus)), ?_⟩
    exact (List.takeWhile_eq_self_iff.mpr (ne_plus_of_notMem hplus)).symm

/-- How many characters `substr` is asked for. -/
def count (first last : Nat) : Nat :=
  ((BitVec.ofNat 64 last - 1) - (BitVec.ofNat 64 first + 1)).toNat

theorem mangledSymbol_none {raw : CxxString} (h : '(' ∉ raw.chars ∨ ')' ∉ raw.chars) :
    mangledSymbol raw = .ok none := by
  refine if_neg ?_
  rintro ⟨hfirst, hlast⟩
  rcases h with h | h
  · exact hfirst (CxxString.findFirstOf_eq_npos h)
  · exact hlast (CxxString.findLastOf_eq_npos h)

/-- Neither `substr` nor `erase` throws, wherever the parentheses stand: the first one is in
the string, so the place after it is not beyond its end. -/
theorem mangledSymbol_spec {raw : CxxString} {path inside front rest : List Char}
    (hfirst : raw.chars = path ++ '(' :: inside) (hpath : '(' ∉ path)
    (hlast : raw.chars = front ++ ')' :: rest) (hrest : ')' ∉ rest) :
    ∃ name, mangledSymbol raw = .ok (some name) ∧
      name.chars = (inside.take (count path.length front.length)).takeWhile (· ≠ '+') := by
  have hnext : raw.chars = (path ++ ['(']) ++ inside := by simp [hfirst]
  have hplace : BitVec.ofNat 64 path.length + 1 = BitVec.ofNat 64 (path ++ ['(']).length := by
    rw [List.length_append]
    exact (BitVec.ofNat_add ..).symm
  obtain ⟨mangled, hsub, hmangled⟩ := CxxString.substr_place hnext
    (n := (BitVec.ofNat 64 front.length - 1) - (BitVec.ofNat 64 path.length + 1))
  obtain ⟨name, hcut, hname⟩ := cutOffset_spec mangled
  refine ⟨name, ?_, ?_⟩
  · unfold mangledSymbol
    rw [CxxString.findFirstOf_split hfirst hpath, CxxString.findLastOf_split hlast hrest]
    have hboth : BitVec.ofNat 64 path.length ≠ npos ∧ BitVec.ofNat 64 front.length ≠ npos :=
      ⟨CxxString.place_ne_npos (s := raw) (by simp [hfirst]),
        CxxString.place_ne_npos (s := raw) (by simp [hlast])⟩
    refine (if_pos hboth).trans ?_
    refine bind_eq_ok.mpr ⟨mangled, ?_, bind_eq_ok.mpr ⟨name, hcut, rfl⟩⟩
    rw [← hsub, hplace]
  · rw [hname, hmangled]
    rfl

end Symbol

/-! ## The lines of `backtrace_symbols` -/

/-- A line for a frame in a known module: its path and, in parentheses, the symbol, the
offset, both, or nothing. -/
structure Line where
  path : List Char
  name : List Char
  offset : List Char
  rest : List Char
  path_ok : '(' ∉ path
  name_ok : '+' ∉ name ∧ '(' ∉ name ∧ ')' ∉ name
  offset_ok : offset = [] ∨ ∃ digits, offset = '+' :: digits ∧ ')' ∉ digits
  rest_ok : ')' ∉ rest

def Line.text (l : Line) : List Char :=
  l.path ++ '(' :: (l.name ++ l.offset ++ ')' :: l.rest)

/-- The constructor passes exactly this name to `demangle`. -/
def Passes (raw : CxxString) (name : List Char) : Prop :=
  ∃ mangled, Symbol.mangledSymbol raw = .ok (some mangled) ∧ mangled.chars = name

variable {raw : CxxString} {l : Line}

/-- What is passed, in terms of the parts of the line. -/
theorem passed_of_line (h : raw.chars = l.text) :
    Passes raw (((l.name ++ l.offset ++ ')' :: l.rest).take
      (Symbol.count l.path.length (l.path.length + 1 + l.name.length + l.offset.length))).takeWhile
        (· ≠ '+')) := by
  have hlast : raw.chars = (l.path ++ '(' :: (l.name ++ l.offset)) ++ ')' :: l.rest := by
    simp [h, Line.text]
  have hfront : (l.path ++ '(' :: (l.name ++ l.offset)).length =
      l.path.length + 1 + l.name.length + l.offset.length := by
    simp only [List.length_append, List.length_cons]
    omega
  have hspec := Symbol.mangledSymbol_spec h l.path_ok hlast l.rest_ok
  rwa [hfront] at hspec

theorem Passes.unique {name name' : List Char} (h : Passes raw name) (h' : Passes raw name') :
    name = name' := by
  obtain ⟨mangled, hmangled, rfl⟩ := h
  obtain ⟨mangled', hmangled', rfl⟩ := h'
  rw [hmangled] at hmangled'
  cases hmangled'
  rfl

/-- The length asked for is one less than what stands between the parentheses, or wraps. -/
theorem count_eq {path inside : Nat} (h : path + 1 + inside < 2 ^ 64) :
    Symbol.count path (path + 1 + inside) = if inside = 0 then 2 ^ 64 - 1 else inside - 1 := by
  have hone : (1 : BitVec 64).toNat = 1 := rfl
  unfold Symbol.count
  simp only [BitVec.toNat_sub, BitVec.toNat_add, BitVec.toNat_ofNat, hone]
  split
  · omega
  · omega

/-- With an offset, what is cut off too early is not part of the name. -/
theorem take_offset {name digits rest : List Char} (hname : '+' ∉ name) :
    ((name ++ '+' :: digits ++ rest).take (name.length + digits.length)).takeWhile (· ≠ '+') =
      name := by
  rw [List.append_assoc, List.take_length_add_append,
    List.takeWhile_append_of_pos (ne_plus_of_notMem hname)]
  cases digits with
  | nil => simp
  | cons d digits => simp

/-- Without an offset the name is cut short, or, if it is empty, the closing parenthesis is
taken for it. -/
theorem take_short (name rest : List Char) :
    ((name ++ ')' :: rest).take (if name.length = 0 then 2 ^ 64 - 1 else name.length - 1)).takeWhile
      (· ≠ '+') ≠ name := by
  cases name with
  | nil => simp
  | cons c name =>
    intro heq
    rw [if_neg (by simp)] at heq
    have hle : ((c :: name).length : Nat) ≤ (c :: name).length - 1 := by
      calc (c :: name).length
          = (((c :: name ++ ')' :: rest).take ((c :: name).length - 1)).takeWhile
              (· ≠ '+')).length := by rw [heq]
        _ ≤ ((c :: name ++ ')' :: rest).take ((c :: name).length - 1)).length :=
            (List.takeWhile_sublist _).length_le
        _ ≤ (c :: name).length - 1 := List.length_take_le ..
    rw [List.length_cons] at hle
    omega

/-- The name is cut out exactly if and only if an offset follows it. -/
theorem passes_name_iff (l : Line) (raw : CxxString) (h : raw.chars = l.text) :
    Passes raw l.name ↔ l.offset ≠ [] := by
  have hpassed := passed_of_line h
  have hfits : l.path.length + 1 + (l.name.length + l.offset.length) < 2 ^ 64 := by
    have hraw := raw.fits
    rw [h, Line.text] at hraw
    simp only [List.length_append, List.length_cons] at hraw
    omega
  have hcount := count_eq hfits
  rw [← Nat.add_assoc] at hcount
  rw [hcount] at hpassed
  constructor
  · rintro hname hoffset
    rw [hoffset, List.append_nil, List.length_nil, Nat.add_zero] at hpassed
    exact take_short l.name l.rest (hpassed.unique hname)
  · intro hoffset
    obtain ⟨digits, hdigits, -⟩ := l.offset_ok.resolve_left hoffset
    have hne : l.name.length + l.offset.length ≠ 0 := by
      rw [hdigits]
      simp
    have hless : l.name.length + l.offset.length - 1 = l.name.length + digits.length := by
      rw [hdigits, List.length_cons]
      omega
    rwa [if_neg hne, hless, hdigits, take_offset l.name_ok.1] at hpassed

/-- The line of a C++ symbol with its offset. -/
def offsetLine : Line where
  path := "tests/fork_and_run_test".toList
  name := "_Z1fv".toList
  offset := "+0x4b".toList
  rest := " [0x4591f8]".toList
  path_ok := by decide
  name_ok := by decide
  offset_ok := .inr ⟨"0x4b".toList, rfl, by decide⟩
  rest_ok := by decide

theorem passes_name_iff_offsetLine :
    Passes ⟨offsetLine.text, by decide⟩ offsetLine.name :=
  (passes_name_iff offsetLine ⟨offsetLine.text, by decide⟩ rfl).mpr (by decide)

/-- `a(main) [0x1]` and `a() [0x1]`: the constructor passes `mai`, and `) [0x1]`. -/
theorem name_without_offset_is_cut :
    Passes ⟨"a(main) [0x1]".toList, by decide⟩ "mai".toList ∧
      ¬ Passes ⟨"a(main) [0x1]".toList, by decide⟩ "main".toList ∧
      Passes ⟨"a() [0x1]".toList, by decide⟩ ") [0x1]".toList ∧
      ¬ Passes ⟨"a() [0x1]".toList, by decide⟩ [] := by
  have hcut : Passes ⟨"a(main) [0x1]".toList, by decide⟩ "mai".toList := ⟨⟨_, by decide⟩, rfl, rfl⟩
  have hwrap : Passes ⟨"a() [0x1]".toList, by decide⟩ ") [0x1]".toList := ⟨⟨_, by decide⟩, rfl, rfl⟩
  refine ⟨hcut, fun h => ?_, hwrap, fun h => ?_⟩
  · exact absurd (hcut.unique h) (by decide)
  · exact absurd (hwrap.unique h) (by decide)

/-! ## Safety, and the raw text as the last resort -/

/-- What the header says of a symbol: the raw text is the input, and the demangled one is
what the demangler gave for a C++ symbol, else the raw text. -/
structure FallsBack (cxa : CxaDemangle) (raw : CxxString) (s : Symbol) : Prop where
  raw_eq : s.raw = raw
  cxx : s.isCxx = true → ∃ mangled, Symbol.mangledSymbol raw = .ok (some mangled) ∧
    cxa (Env.cStr mangled.chars) = ⟨some s.demangled, 0⟩
  other : s.isCxx = false → s.demangled = raw

/-- `demangle` succeeds with what the demangler gave, or says that it failed. -/
theorem demangle_cases (cxa : CxaDemangle) (symbol : CxxString) :
    (∃ s, cxa (Env.cStr symbol.chars) = ⟨some s, 0⟩ ∧ demangle cxa symbol = (s, true)) ∨
      demangle cxa symbol = (.empty, false) := by
  unfold demangle
  split
  · exact .inr rfl
  · rename_i s status hcxa
    by_cases hstatus : status = 0
    · subst hstatus
      exact .inl ⟨s, hcxa, by simp⟩
    · exact .inr (if_pos hstatus)

/-- With both parentheses there is something to demangle. -/
theorem ctor_of_parens (cxa : CxaDemangle) {raw : CxxString} (hopen : '(' ∈ raw.chars)
    (hclose : ')' ∈ raw.chars) : ∃ s, Symbol.ctor cxa raw = .ok s ∧ FallsBack cxa raw s := by
  obtain ⟨path, inside, hfirst, hpath⟩ := List.eq_append_cons_of_mem hopen
  obtain ⟨front, rest, hlast, hrest⟩ := CxxString.split_last hclose
  obtain ⟨mangled, hmangled, -⟩ := Symbol.mangledSymbol_spec hfirst hpath hlast hrest
  rcases demangle_cases cxa mangled with ⟨s, hcxa, hdemangle⟩ | hdemangle
  · refine ⟨⟨raw, s, true⟩, ?_, rfl, fun _ => ⟨mangled, hmangled, hcxa⟩, nofun⟩
    simp only [Symbol.ctor, hmangled]
    exact bind_eq_ok.mpr ⟨_, rfl, by simp [hdemangle]; rfl⟩
  · refine ⟨⟨raw, raw, false⟩, ?_, rfl, nofun, fun _ => rfl⟩
    simp only [Symbol.ctor, hmangled]
    exact bind_eq_ok.mpr ⟨_, rfl, by simp [hdemangle]; rfl⟩

/-- Without them `demangled_` is never assigned. -/
theorem ctor_of_no_parens (cxa : CxaDemangle) {raw : CxxString}
    (h : '(' ∉ raw.chars ∨ ')' ∉ raw.chars) : Symbol.ctor cxa raw = .ok { raw } := by
  simp only [Symbol.ctor, Symbol.mangledSymbol_none h]
  rfl

/-- The constructor throws for no string and no demangler, and it falls back to the raw text
if and only if the string has both parentheses, or is empty. -/
theorem symbol_falls_back_iff (cxa : CxaDemangle) (raw : CxxString) :
    ∃ s, Symbol.ctor cxa raw = .ok s ∧
      (FallsBack cxa raw s ↔ ('(' ∈ raw.chars ∧ ')' ∈ raw.chars) ∨ raw.chars = []) := by
  by_cases hparens : '(' ∈ raw.chars ∧ ')' ∈ raw.chars
  · obtain ⟨s, hctor, hs⟩ := ctor_of_parens cxa hparens.1 hparens.2
    exact ⟨s, hctor, fun _ => .inl hparens, fun _ => hs⟩
  · refine ⟨{ raw }, ctor_of_no_parens cxa (not_and_or.mp hparens), ?_⟩
    constructor
    · intro h
      have hraw : CxxString.empty = raw := h.other rfl
      exact .inr (congrArg CxxString.chars hraw.symm)
    · intro h
      have hnil := h.resolve_left hparens
      refine ⟨rfl, nofun, fun _ => ?_⟩
      show CxxString.empty = raw
      cases raw
      cases hnil
      rfl

/-- A demangler that knows nothing. -/
def knowsNothing : CxaDemangle := fun _ => ⟨none, -2⟩

/-- A frame of which only the address is known: the demangled text is empty. -/
theorem address_only_is_lost :
    ∃ s, Symbol.ctor knowsNothing ⟨"[0x4591f8]".toList, by decide⟩ = .ok s ∧
      s.isCxx = false ∧ s.demangled.chars = [] ∧
      ¬ FallsBack knowsNothing ⟨"[0x4591f8]".toList, by decide⟩ s := by
  refine ⟨_, ctor_of_no_parens knowsNothing (.inl (by decide)), rfl, rfl, fun h => ?_⟩
  have hraw := congrArg CxxString.chars (h.other rfl)
  exact absurd hraw (by decide)

/-! ## Walking the stack -/

/-- `impl::Frame`. -/
structure Frame where
  depth : Nat
  framePointer : SizeT
  symbol : Symbol

/-- The loop of `visit_with_handler` from the given depth on. The handler says whether to go
on, and works on a state of its own. -/
def visitFrom {σ : Type} (cxa : CxaDemangle) (handler : Frame → σ → σ × Bool) :
    Nat → List (SizeT × CxxString) → σ → Except OutOfRange σ
  | _, [], s => .ok s
  | depth, (framePointer, raw) :: frames, s => do
    let symbol ← Symbol.ctor cxa raw
    let (s, more) := handler { depth, framePointer, symbol } s
    if more then visitFrom cxa handler (depth + 1) frames s else pure s

/-- `max_frames`. -/
def maxFrames : Nat := 64

/-- `visit_with_handler`: `backtrace(3)` stores at most `max_frames` frames of the stack. -/
def visitWithHandler {σ : Type} (cxa : CxaDemangle) (stack : List (SizeT × CxxString))
    (handler : Frame → σ → σ × Bool) (s : σ) : Except OutOfRange σ :=
  visitFrom cxa handler 0 (stack.take maxFrames) s

/-- A pointer as a stream prints it: hexadecimal with its base, which a zero goes without. -/
def printPointer (p : SizeT) : List Char :=
  if p.toNat = 0 then ['0'] else '0' :: 'x' :: Nat.toDigits 16 p.toNat

/-- One line of `print_backtrace`. -/
def printedLine (linePrefix : List Char) (depth : Nat) (framePointer : SizeT)
    (text : List Char) : List Char :=
  linePrefix ++ (Nat.toDigits 10 depth).leftpad 2 ' ' ++ ['@'] ++
    (printPointer framePointer).leftpad 14 ' ' ++ [':', ' '] ++ text ++ ['\n']

/-- `print_backtrace` (fork.cpp:39–47). -/
def printBacktrace (cxa : CxaDemangle) (stack : List (SizeT × CxxString))
    (linePrefix out : List Char) : Except OutOfRange (List Char) :=
  visitWithHandler cxa stack
    (fun frame out => (out ++ printedLine linePrefix frame.depth frame.framePointer
      (if frame.symbol.isCxx then frame.symbol.demangled.chars else frame.symbol.raw.chars), true))
    out

/-- The text shown for a line: what the demangler gave for the name in it, or the line. -/
def Shown (cxa : CxaDemangle) (raw : CxxString) (text : List Char) : Prop :=
  text = raw.chars ∨ ∃ mangled s, Symbol.mangledSymbol raw = .ok (some mangled) ∧
    cxa (Env.cStr mangled.chars) = ⟨some s, 0⟩ ∧ text = s.chars

/-- The lines for some frames and the texts shown for them. -/
def printedLines (linePrefix : List Char) :
    Nat → List (SizeT × CxxString) → List (List Char) → List Char
  | depth, (framePointer, _) :: frames, text :: texts =>
    printedLine linePrefix depth framePointer text ++
      printedLines linePrefix (depth + 1) frames texts
  | _, _, _ => []

/-- Asking `is_cxx()` first makes up for a demangled text that was never assigned. -/
theorem ctor_shown (cxa : CxaDemangle) (raw : CxxString) :
    ∃ s, Symbol.ctor cxa raw = .ok s ∧
      Shown cxa raw (if s.isCxx then s.demangled.chars else s.raw.chars) := by
  by_cases hparens : '(' ∈ raw.chars ∧ ')' ∈ raw.chars
  · obtain ⟨s, hctor, hs⟩ := ctor_of_parens cxa hparens.1 hparens.2
    refine ⟨s, hctor, ?_⟩
    cases hcxx : s.isCxx with
    | true =>
      obtain ⟨mangled, hmangled, hcxa⟩ := hs.cxx hcxx
      exact .inr ⟨mangled, s.demangled, hmangled, hcxa, rfl⟩
    | false => exact .inl (congrArg CxxString.chars hs.raw_eq)
  · exact ⟨{ raw }, ctor_of_no_parens cxa (not_and_or.mp hparens), .inl rfl⟩

/-- `print_backtrace`, which runs in the child's `catch` block, throws nothing, and prints one
line for each of the frames with the demangled name or the raw text. -/
theorem printBacktrace_prints (cxa : CxaDemangle) (stack : List (SizeT × CxxString))
    (linePrefix out : List Char) :
    ∃ texts, List.Forall₂ (fun frame text => Shown cxa frame.2 text) (stack.take maxFrames) texts ∧
      printBacktrace cxa stack linePrefix out =
        .ok (out ++ printedLines linePrefix 0 (stack.take maxFrames) texts) := by
  unfold printBacktrace visitWithHandler
  generalize stack.take maxFrames = frames
  generalize 0 = depth
  induction frames generalizing depth out with
  | nil => exact ⟨[], .nil, by simp [visitFrom, printedLines]⟩
  | cons frame frames ih =>
    obtain ⟨framePointer, raw⟩ := frame
    obtain ⟨symbol, hctor, hshown⟩ := ctor_shown cxa raw
    obtain ⟨texts, htexts, hrest⟩ := ih (out ++ printedLine linePrefix depth framePointer
      (if symbol.isCxx then symbol.demangled.chars else symbol.raw.chars)) (depth + 1)
    refine ⟨_ :: texts, .cons hshown htexts, ?_⟩
    rw [visitFrom, hctor]
    refine hrest.trans ?_
    rw [printedLines, List.append_assoc]

end ProcessCpp.Core.Backtrace
