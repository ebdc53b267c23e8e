import Mathlib.Algebra.Group.Int.Defs

/-!
# Formatted extraction from a character stream

The part of `std::istream` that `operator>>` of integers, strings and characters
goes through, in the classic locale with the default flags (decimal, skipping
white space).

- `IntKind` / `CInt k`: the integer types of C++ and their values;
- `IStream`: the characters not yet read, `eofbit` and `failbit`;
- `IStream.sentry`: the preamble of every extraction; where it refuses, the
  operand keeps its value;
- `extractInt`, `extractString`, `extractChar`.

`extractInt` accumulates a sign and digits, so `printInt` followed by anything that
does not start with a digit is read back exactly (`extractInt_print`). A stream that
stands before a text, with `eofbit` set if the text is empty, is `IStream.before`:
every successful extraction in the middle of a line leads from one such stream to
another.
-/

namespace ProcessCpp.Base

/-! ## Integers -/

/-- The integer types: `int`, `unsigned int`, `long`, `unsigned long`. -/
inductive IntKind where
  | int
  | uint
  | long
  | ulong
deriving DecidableEq

namespace IntKind

def signed : IntKind → Bool
  | .int => true
  | .uint => false
  | .long => true
  | .ulong => false

def lo : IntKind → Int
  | .int => -2 ^ 31
  | .uint => 0
  | .long => -2 ^ 63
  | .ulong => 0

def hi : IntKind → Int
  | .int => 2 ^ 31 - 1
  | .uint => 2 ^ 32 - 1
  | .long => 2 ^ 63 - 1
  | .ulong => 2 ^ 64 - 1

theorem lo_le_zero (k : IntKind) : k.lo ≤ 0 := by
  cases k <;> decide

theorem zero_lt_hi (k : IntKind) : 0 < k.hi := by
  cases k <;> decide

theorem lo_eq_zero {k : IntKind} (h : k.signed = false) : k.lo = 0 := by
  cases k with
  | int => cases h
  | uint => rfl
  | long => cases h
  | ulong => rfl

end IntKind

/-- The values of an integer type. -/
def CInt (k : IntKind) : Type := { v : Int // k.lo ≤ v ∧ v ≤ k.hi }

namespace CInt

variable {k : IntKind}

instance : DecidableEq (CInt k) := inferInstanceAs (DecidableEq { v : Int // k.lo ≤ v ∧ v ≤ k.hi })

def zero : CInt k :=
  ⟨0, k.lo_le_zero, Int.le_of_lt k.zero_lt_hi⟩

def min : CInt k :=
  ⟨k.lo, Int.le_refl _, Int.le_trans k.lo_le_zero (Int.le_of_lt k.zero_lt_hi)⟩

def max : CInt k :=
  ⟨k.hi, Int.le_trans k.lo_le_zero (Int.le_of_lt k.zero_lt_hi), Int.le_refl _⟩

/-- A value that fits, or the end of the range it lies beyond and `failbit`. -/
def clamp (k : IntKind) (v : Int) : CInt k × Bool :=
  if h : v < k.lo then (min, true)
  else if h' : k.hi < v then (max, true)
  else (⟨v, Int.not_lt.mp h, Int.not_lt.mp h'⟩, false)

theorem clamp_val (v : CInt k) : clamp k v.val = (v, false) := by
  have hlo : ¬ v.val < k.lo := Int.not_lt.mpr v.property.1
  have hhi : ¬ k.hi < v.val := Int.not_lt.mpr v.property.2
  rw [clamp, dif_neg hlo, dif_neg hhi]
  rfl

end CInt

/-- The value of the digits `num_get` accumulated, and whether it sets `failbit`: no
digits give `0`, a value out of range the nearest end of it. For an unsigned type a
minus sign negates modulo the type's size. -/
def convert (k : IntKind) (neg : Bool) (digits : List Char) : CInt k × Bool :=
  if digits = [] then (CInt.zero, true)
  else if k.signed then
    CInt.clamp k (if neg then -(Nat.ofDigitChars 10 digits 0 : Int)
      else (Nat.ofDigitChars 10 digits 0 : Int))
  else if k.hi < Nat.ofDigitChars 10 digits 0 then (CInt.max, true)
  else
    CInt.clamp k (if neg then (-(Nat.ofDigitChars 10 digits 0 : Int)) % (k.hi + 1)
      else (Nat.ofDigitChars 10 digits 0 : Int))

/-- The decimal form of a value. -/
def printInt {k : IntKind} (v : CInt k) : List Char :=
  if v.val < 0 then '-' :: Nat.toDigits 10 v.val.natAbs else Nat.toDigits 10 v.val.natAbs

/-! ## Streams -/

/-- `isspace` of the classic locale. -/
def isSpace (c : Char) : Bool := c.toNat == 32 || (9 ≤ c.toNat && c.toNat ≤ 13)

structure IStream where
  /-- the characters not yet read -/
  rest : List Char
  eof : Bool
  fail : Bool
deriving DecidableEq

namespace IStream

/-- A stream without error before the given text. -/
def before (text : List Char) : IStream := ⟨text, text.isEmpty, false⟩

/-- `std::istream::sentry`: the stream afterwards, and whether to go on. -/
def sentry (s : IStream) : IStream × Bool :=
  if s.eof || s.fail then ({ s with fail := true }, false)
  else if s.rest.dropWhile isSpace = [] then (⟨[], true, true⟩, false)
  else (⟨s.rest.dropWhile isSpace, false, false⟩, true)

/-- A sign, if there is one, and what follows. -/
def takeSign : List Char → Bool × List Char
  | '-' :: rest => (true, rest)
  | '+' :: rest => (false, rest)
  | rest => (false, rest)

/-- `in >> n` for an integer `n` with the given value. -/
def extractInt (k : IntKind) (s : IStream) (old : CInt k) : IStream × CInt k :=
  if s.sentry.2 then
    let signed := takeSign s.sentry.1.rest
    let value := convert k signed.1 (signed.2.takeWhile Char.isDigit)
    let rest := signed.2.dropWhile Char.isDigit
    (⟨rest, rest.isEmpty, value.2⟩, value.1)
  else (s.sentry.1, old)

/-- `in >> str` for a string. -/
def extractString (s : IStream) (old : List Char) : IStream × List Char :=
  if s.sentry.2 then
    let word := s.sentry.1.rest.takeWhile (!isSpace ·)
    let rest := s.sentry.1.rest.dropWhile (!isSpace ·)
    (⟨rest, rest.isEmpty, word.isEmpty⟩, word)
  else (s.sentry.1, old)

/-- `in >> c` for a character. -/
def extractChar (s : IStream) (old : Char) : IStream × Char :=
  if s.sentry.2 then
    match s.sentry.1.rest with
    | [] => (⟨[], true, true⟩, old)
    | c :: rest => (⟨rest, false, false⟩, c)
  else (s.sentry.1, old)

/-! ## Reading back what was printed -/

/-- A word ends before this text: it is empty or starts with white space. -/
def WordEnd (text : List Char) : Prop := ∀ c ∈ text.head?, isSpace c = true

theorem isDigit_of_isSpace {c : Char} (h : isSpace c = true) : c.isDigit = false := by
  have hc : c.toNat = 32 ∨ 9 ≤ c.toNat ∧ c.toNat ≤ 13 := by simpa [isSpace] using h
  refine Bool.eq_false_iff.mpr fun hdigit => ?_
  have hrange : 48 ≤ c.toNat ∧ c.toNat ≤ 57 := by
    simpa [Char.isDigit, UInt32.le_iff_toNat_le] using hdigit
  omega

theorem span_append {p : Char → Bool} {word text : List Char} (hword : ∀ c ∈ word, p c = true)
    (htext : ∀ c ∈ text.head?, p c = false) :
    (word ++ text).takeWhile p = word ∧ (word ++ text).dropWhile p = text := by
  rw [List.takeWhile_append_of_pos hword, List.dropWhile_append_of_pos hword]
  cases text with
  | nil => exact ⟨List.append_nil word, rfl⟩
  | cons c text =>
    have hc := htext c rfl
    rw [List.takeWhile_cons_of_neg (by simp [hc]), List.dropWhile_cons_of_neg (by simp [hc])]
    exact ⟨List.append_nil word, rfl⟩

/-- Before a blank and a word, the sentry goes on with the word. -/
theorem sentry_blank {c : Char} (hc : isSpace c = false) (text : List Char) :
    (before (' ' :: c :: text)).sentry = (⟨c :: text, false, false⟩, true) := by
  have hdrop : (' ' :: c :: text).dropWhile isSpace = c :: text := by
    rw [List.dropWhile_cons_of_pos (by decide), List.dropWhile_cons_of_neg (by simp [hc])]
  simp [sentry, before, hdrop]

theorem sentry_word {c : Char} (hc : isSpace c = false) (text : List Char) :
    (before (c :: text)).sentry = (⟨c :: text, false, false⟩, true) := by
  have hdrop : (c :: text).dropWhile isSpace = c :: text := by
    rw [List.dropWhile_cons_of_neg (by simp [hc])]
  simp [sentry, before, hdrop]

theorem isSpace_of_isDigit {c : Char} (h : c.isDigit = true) : isSpace c = false := by
  refine Bool.eq_false_iff.mpr fun hspace => ?_
  rw [isDigit_of_isSpace hspace] at h
  cases h

theorem takeSign_digit {c : Char} (h : c.isDigit = true) (rest : List Char) :
    takeSign (c :: rest) = (false, c :: rest) := by
  unfold takeSign
  split
  · rename_i heq
    cases heq
    cases h
  · rename_i heq
    cases heq
    cases h
  · rfl

/-- The number a sign and the digits of a value stand for is that value. -/
theorem convert_digits {k : IntKind} (v : CInt k) :
    convert k (decide (v.val < 0)) (Nat.toDigits 10 v.val.natAbs) = (v, false) := by
  have hval : (if decide (v.val < 0) = true then -(v.val.natAbs : Int) else (v.val.natAbs : Int)) =
      v.val := by
    by_cases hneg : v.val < 0
    · rw [if_pos (by simpa using hneg)]
      omega
    · rw [if_neg (by simpa using hneg)]
      omega
  rw [convert, if_neg Nat.toDigits_ne_nil, Nat.ofDigitChars_ten_toDigits]
  cases hsigned : k.signed with
  | true => rw [if_pos rfl, hval, CInt.clamp_val]
  | false =>
    have hnonneg : 0 ≤ v.val := IntKind.lo_eq_zero hsigned ▸ v.property.1
    have hhi := v.property.2
    rw [if_neg Bool.false_ne_true, if_neg (by omega), if_neg (by simpa using hnonneg)]
    have habs : (v.val.natAbs : Int) = v.val := by omega
    rw [habs, CInt.clamp_val]

/-- After a sentry that went on, a printed value in front of the end of a word is
read back. -/
theorem extractInt_of_sentry {k : IntKind} {s : IStream} {v : CInt k} {text : List Char}
    (hs : s.sentry = (⟨printInt v ++ text, false, false⟩, true)) (htext : WordEnd text)
    (old : CInt k) : s.extractInt k old = (before text, v) := by
  have hdigits : ∀ c ∈ Nat.toDigits 10 v.val.natAbs, c.isDigit = true := fun c hc =>
    Nat.isDigit_of_mem_toDigits (by decide) (by decide) hc
  have hspan := span_append hdigits fun c hc => isDigit_of_isSpace (htext c hc)
  have hsign : takeSign (printInt v ++ text) =
      (decide (v.val < 0), Nat.toDigits 10 v.val.natAbs ++ text) := by
    unfold printInt
    split
    · rename_i hneg
      simp [takeSign, hneg]
    · rename_i hneg
      cases hds : Nat.toDigits 10 v.val.natAbs with
      | nil => exact absurd hds Nat.toDigits_ne_nil
      | cons c ds =>
        have hc : c.isDigit = true := hdigits c (by rw [hds]; exact List.mem_cons_self)
        rw [List.cons_append, takeSign_digit hc]
        simp [hneg]
  simp only [extractInt, hs, if_true, hsign, hspan.1, hspan.2, convert_digits]
  rfl

theorem printInt_head {k : IntKind} (v : CInt k) :
    ∃ c rest, printInt v = c :: rest ∧ isSpace c = false := by
  unfold printInt
  split
  · exact ⟨'-', _, rfl, by decide⟩
  · cases hds : Nat.toDigits 10 v.val.natAbs with
    | nil => exact absurd hds Nat.toDigits_ne_nil
    | cons c ds =>
      have hc : c.isDigit = true :=
        Nat.isDigit_of_mem_toDigits (b := 10) (n := v.val.natAbs) (by decide) (by decide)
          (by rw [hds]; exact List.mem_cons_self)
      exact ⟨c, ds, rfl, isSpace_of_isDigit hc⟩

/-- A value printed at the start of a line is read back. -/
theorem extractInt_print {k : IntKind} (v : CInt k) {text : List Char} (htext : WordEnd text)
    (old : CInt k) : (before (printInt v ++ text)).extractInt k old = (before text, v) := by
  obtain ⟨c, rest, hprint, hc⟩ := printInt_head v
  refine extractInt_of_sentry ?_ htext old
  rw [hprint, List.cons_append, sentry_word hc]

/-- A value printed after a blank is read back. -/
theorem extractInt_blank_print {k : IntKind} (v : CInt k) {text : List Char}
    (htext : WordEnd text) (old : CInt k) :
    (before (' ' :: (printInt v ++ text))).extractInt k old = (before text, v) := by
  obtain ⟨c, rest, hprint, hc⟩ := printInt_head v
  refine extractInt_of_sentry ?_ htext old
  rw [hprint, List.cons_append, sentry_blank hc]

/-- A string after a blank is read up to the next white space, wherever it was meant
to end. -/
theorem extractString_blank {c : Char} (hc : isSpace c = false) (text old : List Char) :
    (before (' ' :: c :: text)).extractString old =
      (before ((c :: text).dropWhile (!isSpace ·)), (c :: text).takeWhile (!isSpace ·)) := by
  have hword : ((c :: text).takeWhile (!isSpace ·)).isEmpty = false := by
    rw [List.takeWhile_cons_of_pos (by simp [hc])]
    rfl
  simp only [extractString, sentry_blank hc, if_true, hword]
  rfl

theorem extractChar_blank {c : Char} (hc : isSpace c = false) {text : List Char}
    (htext : text ≠ []) (old : Char) :
    (before (' ' :: c :: text)).extractChar old = (before text, c) := by
  have hne : text.isEmpty = false := by simpa using htext
  simp only [extractChar, sentry_blank hc, if_true]
  rw [before, hne]

/-! ## A stream that has failed -/

theorem sentry_of_fail {s : IStream} (h : s.fail = true) : s.sentry = (s, false) := by
  obtain ⟨rest, eof, fail⟩ := s
  cases h
  simp [sentry]

theorem extractInt_of_fail {k : IntKind} {s : IStream} (h : s.fail = true) (old : CInt k) :
    s.extractInt k old = (s, old) := by
  simp [extractInt, sentry_of_fail h]

theorem extractString_of_fail {s : IStream} (h : s.fail = true) (old : List Char) :
    s.extractString old = (s, old) := by
  simp [extractString, sentry_of_fail h]

theorem extractChar_of_fail {s : IStream} (h : s.fail = true) (old : Char) :
    s.extractChar old = (s, old) := by
  simp [extractChar, sentry_of_fail h]

/-! ## The texts that are accepted -/

/-- Where a text is split: what is taken passes the test, and what is left starts with a
character that does not. -/
theorem span_spec (p : Char → Bool) (text : List Char) :
    (∀ c ∈ text.takeWhile p, p c = true) ∧ ∀ c ∈ (text.dropWhile p).head?, p c = false := by
  refine ⟨fun c hc => List.all_eq_true.mp List.all_takeWhile c hc, fun c hc => ?_⟩
  have hnot := List.head?_dropWhile_not p text
  rw [Option.mem_def.mp hc] at hnot
  simpa using hnot

/-- White space and what follows it. -/
theorem sentry_skip {blanks : List Char} (hblanks : ∀ c ∈ blanks, isSpace c = true) {c : Char}
    (hc : isSpace c = false) (text : List Char) :
    (⟨blanks ++ c :: text, false, false⟩ : IStream).sentry = (⟨c :: text, false, false⟩, true) := by
  have hdrop : (blanks ++ c :: text).dropWhile isSpace = c :: text := by
    rw [List.dropWhile_append_of_pos hblanks, List.dropWhile_cons_of_neg (by simp [hc])]
  simp [sentry, hdrop]

/-- The sentry refuses, and the stream has failed, or there is something besides white
space. -/
theorem sentry_cases (s : IStream) :
    (s.sentry.2 = false ∧ s.sentry.1.fail = true) ∨
      ∃ blanks c text, (∀ c ∈ blanks, isSpace c = true) ∧ isSpace c = false ∧
        s = ⟨blanks ++ c :: text, false, false⟩ := by
  obtain ⟨rest, eof, fail⟩ := s
  unfold sentry
  by_cases hbits : (eof || fail) = true
  · rw [if_pos hbits]
    exact .inl ⟨rfl, rfl⟩
  · rw [if_neg hbits]
    obtain ⟨rfl, rfl⟩ : eof = false ∧ fail = false := by simpa using hbits
    cases hdrop : rest.dropWhile isSpace with
    | nil => exact .inl ⟨rfl, rfl⟩
    | cons c text =>
      obtain ⟨hblanks, hc⟩ := span_spec isSpace rest
      rw [hdrop] at hc
      refine .inr ⟨rest.takeWhile isSpace, c, text, hblanks, hc c rfl, ?_⟩
      rw [← hdrop, List.takeWhile_append_dropWhile]

/-- A number as an extraction accepts it: white space, perhaps a sign, and digits. -/
structure Numeral where
  blanks : List Char
  sign : List Char
  digits : List Char
  blanks_ok : ∀ c ∈ blanks, isSpace c = true
  sign_ok : sign = [] ∨ sign = ['+'] ∨ sign = ['-']
  digits_ok : ∀ c ∈ digits, c.isDigit = true
  digits_ne : digits ≠ []

namespace Numeral

def text (n : Numeral) : List Char := n.blanks ++ (n.sign ++ n.digits)

def value (n : Numeral) : Int :=
  if n.sign = ['-'] then -(Nat.ofDigitChars 10 n.digits 0 : Int)
  else (Nat.ofDigitChars 10 n.digits 0 : Int)

end Numeral

/-- No digit follows. -/
def DigitsEnd (text : List Char) : Prop := ∀ c ∈ text.head?, c.isDigit = false

theorem takeSign_append {sign rest : List Char} (hsign : sign = [] ∨ sign = ['+'] ∨ sign = ['-'])
    (hrest : sign = [] → ∃ c text, rest = c :: text ∧ c.isDigit = true) :
    takeSign (sign ++ rest) = (decide (sign = ['-']), rest) := by
  rcases hsign with rfl | rfl | rfl
  · obtain ⟨c, text, rfl, hc⟩ := hrest rfl
    rw [List.nil_append, takeSign_digit hc]
    rfl
  · rfl
  · rfl

/-- Whatever the text, a sign is split off. -/
theorem takeSign_cases (text : List Char) :
    ∃ sign rest, (sign = [] ∨ sign = ['+'] ∨ sign = ['-']) ∧ text = sign ++ rest ∧
      takeSign text = (decide (sign = ['-']), rest) := by
  unfold takeSign
  split
  · exact ⟨['-'], _, .inr (.inr rfl), rfl, rfl⟩
  · exact ⟨['+'], _, .inr (.inl rfl), rfl, rfl⟩
  · exact ⟨[], _, .inl rfl, rfl, rfl⟩

theorem clamp_fits_iff {k : IntKind} {v : Int} :
    (CInt.clamp k v).2 = false ↔ k.lo ≤ v ∧ v ≤ k.hi := by
  unfold CInt.clamp
  split
  · rename_i hlo
    simp only [Bool.true_eq_false, false_iff]
    omega
  · split
    · rename_i hhi
      simp only [Bool.true_eq_false, false_iff]
      omega
    · simp only [true_iff]
      omega

/-- A signed number at the front of a stream is extracted, and clamped to its type. -/
theorem extractInt_numeral {k : IntKind} (hk : k.signed = true) (n : Numeral) {rest : List Char}
    (hrest : DigitsEnd rest) (old : CInt k) :
    extractInt k ⟨n.text ++ rest, false, false⟩ old =
      (⟨rest, rest.isEmpty, (CInt.clamp k n.value).2⟩, (CInt.clamp k n.value).1) := by
  obtain ⟨d, ds, hdigits⟩ := List.exists_cons_of_ne_nil n.digits_ne
  have hd : d.isDigit = true := n.digits_ok d (by rw [hdigits]; exact List.mem_cons_self)
  have hhead : ∃ c text, n.sign ++ (n.digits ++ rest) = c :: text ∧ isSpace c = false := by
    rcases n.sign_ok with hsign | hsign | hsign
    · exact ⟨d, ds ++ rest, by rw [hsign, hdigits]; rfl, isSpace_of_isDigit hd⟩
    · exact ⟨'+', n.digits ++ rest, by rw [hsign]; rfl, by decide⟩
    · exact ⟨'-', n.digits ++ rest, by rw [hsign]; rfl, by decide⟩
  obtain ⟨c, text, htext, hc⟩ := hhead
  have hsentry : (⟨n.text ++ rest, false, false⟩ : IStream).sentry =
      (⟨n.sign ++ (n.digits ++ rest), false, false⟩, true) := by
    rw [Numeral.text, List.append_assoc, List.append_assoc, htext]
    exact sentry_skip n.blanks_ok hc text
  have hsign : takeSign (n.sign ++ (n.digits ++ rest)) =
      (decide (n.sign = ['-']), n.digits ++ rest) :=
    takeSign_append n.sign_ok fun _ => ⟨d, ds ++ rest, by rw [hdigits]; rfl, hd⟩
  obtain ⟨htake, hdrop⟩ := span_append n.digits_ok hrest
  have hconvert : convert k (decide (n.sign = ['-'])) n.digits = CInt.clamp k n.value := by
    rw [convert, if_neg n.digits_ne, if_pos hk, Numeral.value]
    simp only [decide_eq_true_eq]
  simp only [extractInt, hsentry, if_true, hsign, htake, hdrop, hconvert]

/-- An extraction that found a number at all found it at the front of the stream. -/
theorem extractInt_cases {k : IntKind} (s : IStream) (old : CInt k) :
    (s.extractInt k old).1.fail = true ∨
      ∃ (n : Numeral) (rest : List Char), DigitsEnd rest ∧ s = ⟨n.text ++ rest, false, false⟩ := by
  rcases sentry_cases s with ⟨hstop, hfail⟩ | ⟨blanks, c, text, hblanks, hc, rfl⟩
  · refine .inl ?_
    rw [extractInt, hstop]
    exact hfail
  · obtain ⟨sign, tail, hsign, htext, htake⟩ := takeSign_cases (c :: text)
    by_cases hdigits : tail.takeWhile Char.isDigit = []
    · -- no digits: the conversion says so
      refine .inl ?_
      simp only [extractInt, sentry_skip hblanks hc, if_true, htake, hdigits]
      rfl
    · obtain ⟨htaken, hleft⟩ := span_spec Char.isDigit tail
      refine .inr ⟨⟨blanks, sign, _, hblanks, hsign, htaken, hdigits⟩, _, hleft, ?_⟩
      rw [htext, Numeral.text, List.append_assoc, List.append_assoc,
        List.takeWhile_append_dropWhile]

/-- A word at the front of a stream. -/
theorem extractString_word {blanks word rest : List Char}
    (hblanks : ∀ c ∈ blanks, isSpace c = true) (hne : word ≠ [])
    (hword : ∀ c ∈ word, isSpace c = false) (hrest : WordEnd rest) (old : List Char) :
    extractString ⟨blanks ++ (word ++ rest), false, false⟩ old = (before rest, word) := by
  obtain ⟨c, text, rfl⟩ := List.exists_cons_of_ne_nil hne
  have hall : ∀ d ∈ c :: text, (!isSpace d) = true := fun d hd => by rw [hword d hd]; rfl
  have hstop : ∀ d ∈ rest.head?, (!isSpace d) = false := fun d hd => by rw [hrest d hd]; rfl
  obtain ⟨htake, hdrop⟩ := span_append hall hstop
  have hc := hword c List.mem_cons_self
  simp only [List.cons_append] at htake hdrop ⊢
  simp only [extractString, sentry_skip hblanks hc, if_true, htake, hdrop]
  rfl

theorem extractString_cases (s : IStream) (old : List Char) :
    (s.extractString old).1.fail = true ∨
      ∃ blanks word rest, (∀ c ∈ blanks, isSpace c = true) ∧ word ≠ [] ∧
        (∀ c ∈ word, isSpace c = false) ∧ WordEnd rest ∧
        s = ⟨blanks ++ (word ++ rest), false, false⟩ := by
  rcases sentry_cases s with ⟨hstop, hfail⟩ | ⟨blanks, c, text, hblanks, hc, rfl⟩
  · refine .inl ?_
    rw [extractString, hstop]
    exact hfail
  · obtain ⟨htaken, hleft⟩ := span_spec (!isSpace ·) (c :: text)
    refine .inr ⟨blanks, (c :: text).takeWhile (!isSpace ·), (c :: text).dropWhile (!isSpace ·),
      hblanks, ?_, fun d hd => by simpa using htaken d hd,
      fun d hd => by simpa using hleft d hd, ?_⟩
    · rw [List.takeWhile_cons_of_pos (by simp [hc])]
      exact List.cons_ne_nil _ _
    · rw [List.takeWhile_append_dropWhile]

theorem extractChar_skip {blanks : List Char} (hblanks : ∀ c ∈ blanks, isSpace c = true) {c : Char}
    (hc : isSpace c = false) (rest : List Char) (old : Char) :
    extractChar ⟨blanks ++ c :: rest, false, false⟩ old = (⟨rest, false, false⟩, c) := by
  simp only [extractChar, sentry_skip hblanks hc, if_true]

/-- A character that could not be extracted is left alone. -/
theorem extractChar_cases (s : IStream) (old : Char) :
    ((s.extractChar old).1.fail = true ∧ (s.extractChar old).2 = old) ∨
      ∃ blanks c rest, (∀ c ∈ blanks, isSpace c = true) ∧ isSpace c = false ∧
        s = ⟨blanks ++ c :: rest, false, false⟩ := by
  rcases sentry_cases s with ⟨hstop, hfail⟩ | hchar
  · refine .inl ?_
    rw [extractChar, hstop]
    exact ⟨hfail, rfl⟩
  · exact .inr hchar

end IStream

end ProcessCpp.Base
