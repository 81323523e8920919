/-
**Text in C and C++: strings that end at a NUL, streams of lines, numbers.**

* `cString` — what a C function sees of a string.
* `strrchr_append_cons` — the last one of a char is behind any other one of it.
* `getline_line`, `getline_last` — `std::getline` reads one line, and knows the end of the file only
  if there is no newline in front of it.
* `scanInt_text` — `%d` reads an integer as far as its digits go.
-/

import Mathlib.Data.List.TakeWhile
import Mathlib.Algebra.Order.Ring.Int

namespace Wookie.Library

/-! ### Numbers -/

/-- The digit a char stands for. -/
def digitOf (c : Char) : ℕ := c.toNat - '0'.toNat

/-- The number a text stands for. -/
def decimalValue (text : List Char) : ℕ := text.foldl (fun number c => 10 * number + digitOf c) 0

/-- The sign in front of a number. -/
inductive Sign
  | none
  | plus
  | minus

def Sign.text : Sign → List Char
  | .none => []
  | .plus => ['+']
  | .minus => ['-']

def Sign.apply (sign : Sign) (number : ℕ) : ℤ :=
  match sign with
  | .minus => -number
  | _ => number

/-- The number fits an `int`. -/
def FitsInt (number : ℤ) : Prop := -2 ^ 31 ≤ number ∧ number < 2 ^ 31

instance (number : ℤ) : Decidable (FitsInt number) := inferInstanceAs (Decidable (_ ∧ _))

/-- **The text of an `int`**, with or without a sign, and any number of leading zeros. -/
structure IntText where
  sign : Sign
  digits : List Char
  some : digits ≠ []
  isDigits : ∀ c ∈ digits, c.isDigit = true
  fits : FitsInt (sign.apply (decimalValue digits))

def IntText.text (int : IntText) : List Char := int.sign.text ++ int.digits

def IntText.value (int : IntText) : ℤ := int.sign.apply (decimalValue int.digits)

/-! ### C strings -/

section CString

variable {c : Char} {front rest s suffix : List Char}

/-- What a C function sees of a string: the chars in front of the first NUL. -/
def cString (s : List Char) : List Char := s.takeWhile (· ≠ '\x00')

theorem cString_append (front rest : List Char) (whole : '\x00' ∉ front) :
    cString (front ++ rest) = front ++ cString rest :=
  List.takeWhile_append_of_pos fun _ listed =>
    decide_eq_true fun zero => whole (zero ▸ listed)

theorem cString_eq_self_iff : cString s = s ↔ '\x00' ∉ s := by
  rw [cString, List.takeWhile_eq_self_iff]
  constructor
  · exact fun each listed => of_decide_eq_true (each _ listed) rfl
  · exact fun whole c listed => decide_eq_true fun zero => whole (zero ▸ listed)

/-- `strrchr`: the rest of the string from the last one of the char. -/
def strrchr (c : Char) : List Char → Option (List Char)
  | [] => none
  | first :: rest => (strrchr c rest).or (if first = c then some (first :: rest) else none)

theorem strrchr_eq_none_iff : strrchr c s = none ↔ c ∉ s := by
  induction s with
  | nil => exact ⟨fun _ => List.not_mem_nil, fun _ => rfl⟩
  | cons first rest ih =>
    rw [strrchr, Option.or_eq_none_iff, ih, List.mem_cons, not_or, and_comm]
    refine and_congr_left fun _ => ?_
    constructor
    · intro differs same
      rw [if_pos same.symm] at differs
      cases differs
    · exact fun differs => if_neg (Ne.symm differs)

theorem strrchr_suffix (found : strrchr c s = some suffix) : suffix <:+ s := by
  induction s with
  | nil => cases found
  | cons first rest ih =>
    rw [strrchr, Option.or_eq_some_iff] at found
    rcases found with later | ⟨-, here⟩
    · exact (ih later).trans (List.suffix_cons first rest)
    · split at here
      · cases here
        exact List.suffix_rfl
      · cases here

/-- What it finds begins with the char. -/
theorem strrchr_head (found : strrchr c s = some suffix) : ∃ after, suffix = c :: after := by
  induction s with
  | nil => cases found
  | cons first rest ih =>
    rw [strrchr, Option.or_eq_some_iff] at found
    rcases found with later | ⟨-, here⟩
    · exact ih later
    · split at here
      next same =>
        cases here
        exact ⟨rest, by rw [same]⟩
      · cases here

/-- **The last one of a char** is behind any other one of it. -/
theorem strrchr_append_cons (front rest : List Char) :
    strrchr c (front ++ c :: rest) = some ((strrchr c rest).getD (c :: rest)) := by
  induction front with
  | nil =>
    rw [List.nil_append, strrchr, if_pos rfl]
    cases strrchr c rest <;> rfl
  | cons first front ih =>
    rw [List.cons_append, strrchr, ih]
    rfl

/-- There is nothing behind it if the string ends with it. -/
theorem strrchr_eq_singleton_iff : strrchr c s = some [c] ↔ s.getLast? = some c := by
  constructor
  · intro found
    obtain ⟨front, rfl⟩ := strrchr_suffix found
    exact List.getLast?_concat
  · intro last
    obtain ⟨front, rfl⟩ := List.getLast?_eq_some_iff.mp last
    exact strrchr_append_cons front []

end CString

/-! ### Streams -/

section Streams

variable {line rest : List Char}

/-- An input stream: what is left of the file, and `eofbit`. -/
structure InStream where
  rest : List Char
  eof : Bool

/-- `std::getline(in, line)`: the line and the stream, or `none` if the stream fails. -/
def InStream.getline (stream : InStream) : Option (List Char × InStream) :=
  if stream.eof ∨ stream.rest = [] then none
  else
    match stream.rest.dropWhile (· ≠ '\n') with
    | [] => some (stream.rest, ⟨[], true⟩)
    | _ :: after => some (stream.rest.takeWhile (· ≠ '\n'), ⟨after, false⟩)

/-- It takes something off the stream. -/
theorem InStream.getline_shorter {stream after : InStream}
    (read : stream.getline = some (line, after)) : after.rest.length < stream.rest.length := by
  rw [getline] at read
  split at read
  · cases read
  next open_ =>
    have some : stream.rest ≠ [] := fun empty => open_ (.inr empty)
    split at read
    · cases read
      exact List.length_pos_iff.mpr some
    next left behind =>
      cases read
      have shorter := (List.dropWhile_suffix (· ≠ '\n') (l := stream.rest)).length_le
      rw [behind, List.length_cons] at shorter
      exact shorter

theorem InStream.getline_nil : InStream.getline ⟨[], false⟩ = none := by
  rw [getline, if_pos (.inr rfl)]

/-- **A line, and its newline.** -/
theorem InStream.getline_line (one : '\n' ∉ line) (rest : List Char) :
    InStream.getline ⟨line ++ '\n' :: rest, false⟩ = some (line, ⟨rest, false⟩) := by
  have within : ∀ c ∈ line, decide (c ≠ '\n') = true := fun c listed =>
    decide_eq_true fun newline => one (newline ▸ listed)
  have several : ¬ ((false : Bool) = true ∨ line ++ '\n' :: rest = []) := by simp
  rw [getline]
  dsimp only
  rw [if_neg several, List.takeWhile_append_of_pos within, List.dropWhile_append_of_pos within]
  simp

/-- **A last line without a newline** sets `eofbit`. -/
theorem InStream.getline_last (one : '\n' ∉ line) (some : line ≠ []) :
    InStream.getline ⟨line, false⟩ = Option.some (line, ⟨[], true⟩) := by
  have within : line.dropWhile (· ≠ '\n') = [] := List.dropWhile_eq_nil_iff.mpr fun c listed =>
    decide_eq_true fun newline => one (newline ▸ listed)
  rw [getline]
  dsimp only
  rw [if_neg (by simpa using some), within]

end Streams

/-! ### `sscanf` -/

section Scan

/-- `isspace` -/
def isSpace (c : Char) : Bool :=
  c == ' ' || c == '\t' || c == '\n' || c == '\x0b' || c == '\x0c' || c == '\r'

/-- The sign, if there is one. -/
def scanSign : List Char → Sign × List Char
  | '-' :: rest => (.minus, rest)
  | '+' :: rest => (.plus, rest)
  | s => (.none, s)

/-- A number that is stored in an `int`. C does not say which one it is if it does not fit. -/
def storeInt (undefined : ℤ → ℤ) (number : ℤ) : ℤ :=
  if FitsInt number then number else undefined number

/-- `%d`: blanks, a sign, and as many digits as there are. The number, and what is left. -/
def scanInt (undefined : ℤ → ℤ) (s : List Char) : Option (ℤ × List Char) :=
  let (sign, s) := scanSign (s.dropWhile isSpace)
  let digits := s.takeWhile Char.isDigit
  if digits = [] then none
  else some (storeInt undefined (sign.apply (decimalValue digits)), s.dropWhile Char.isDigit)

/-- `%d\t`, so many times: the numbers that were stored before anything failed to match. A blank in
the format matches any number of blanks. -/
def scanInts (undefined : ℤ → ℤ) : ℕ → List Char → List ℤ
  | 0, _ => []
  | count + 1, s =>
    match scanInt undefined s with
    | none => []
    | some (number, s) => number :: scanInts undefined count (s.dropWhile isSpace)

/-- A digit is no blank and no sign. -/
theorem not_isSpace_of_isDigit {c : Char} (digit : c.isDigit = true) :
    isSpace c = false ∧ c ≠ '-' ∧ c ≠ '+' := by
  refine ⟨?_, ?_, ?_⟩
  · simp only [isSpace, Bool.or_eq_false_iff, beq_eq_false_iff_ne]
    refine ⟨⟨⟨⟨⟨?_, ?_⟩, ?_⟩, ?_⟩, ?_⟩, ?_⟩ <;> (rintro rfl; revert digit; decide)
  all_goals (rintro rfl; revert digit; decide)

/-- The first digit. -/
theorem IntText.digits_eq (int : IntText) :
    ∃ first later, int.digits = first :: later ∧ first.isDigit = true := by
  obtain ⟨first, later, digits⟩ := List.exists_cons_of_ne_nil int.some
  exact ⟨first, later, digits, int.isDigits first (digits ▸ List.mem_cons_self)⟩

/-- An integer is made of digits and a sign. -/
theorem IntText.not_mem_text (int : IntText) {c : Char}
    (other : c.isDigit = false ∧ c ≠ '-' ∧ c ≠ '+') : c ∉ int.text := by
  intro listed
  rcases List.mem_append.mp listed with signed | digit
  · cases sign : int.sign with
    | none =>
      rw [sign] at signed
      cases signed
    | plus =>
      rw [sign] at signed
      exact other.2.2 (List.mem_singleton.mp signed)
    | minus =>
      rw [sign] at signed
      exact other.2.1 (List.mem_singleton.mp signed)
  · rw [int.isDigits c digit] at other
    cases other.1

/-- There is no blank in front of an integer. -/
theorem dropWhile_isSpace_text (int : IntText) (rest : List Char) :
    (int.text ++ rest).dropWhile isSpace = int.text ++ rest := by
  obtain ⟨first, later, digits, digit⟩ := int.digits_eq
  have noBlank := (not_isSpace_of_isDigit digit).1
  rw [IntText.text, digits]
  cases int.sign <;> simp [Sign.text, noBlank] <;> decide

theorem scanSign_text (int : IntText) (rest : List Char) :
    scanSign (int.text ++ rest) = (int.sign, int.digits ++ rest) := by
  obtain ⟨first, later, digits, digit⟩ := int.digits_eq
  obtain ⟨-, minus, plus⟩ := not_isSpace_of_isDigit digit
  rw [IntText.text, digits]
  cases int.sign with
  | none =>
    show scanSign (first :: (later ++ rest)) = _
    unfold scanSign
    split
    next same => exact absurd (List.cons.inj same).1 minus
    next same => exact absurd (List.cons.inj same).1 plus
    next => rfl
  | plus => rfl
  | minus => rfl

/-- **`%d` reads an integer** as far as its digits go. -/
theorem scanInt_text (undefined : ℤ → ℤ) (int : IntText) {rest : List Char}
    (ends : ∀ c ∈ rest.head?, c.isDigit = false) :
    scanInt undefined (int.text ++ rest) = some (int.value, rest) := by
  have read : (int.digits ++ rest).takeWhile Char.isDigit = int.digits := by
    rw [List.takeWhile_append_of_pos int.isDigits]
    cases rest with
    | nil => simp
    | cons c after => simp [ends c rfl]
  have left : (int.digits ++ rest).dropWhile Char.isDigit = rest := by
    rw [List.dropWhile_append_of_pos int.isDigits]
    cases rest with
    | nil => rfl
    | cons c after => simp [ends c rfl]
  rw [scanInt, dropWhile_isSpace_text, scanSign_text]
  dsimp only
  rw [read, left, if_neg int.some, storeInt, if_pos int.fits]
  rfl

/-- **A line that begins with integers**, each with a blank behind it. -/
theorem scanInts_succ (undefined : ℤ → ℤ) (int : IntText) (count : ℕ) (rest : List Char) :
    scanInts undefined (count + 1) (int.text ++ '\t' :: rest) =
      int.value :: scanInts undefined count (rest.dropWhile isSpace) := by
  rw [scanInts, scanInt_text undefined int (by rintro c ⟨⟩; rfl)]
  rfl

end Scan

end Wookie.Library
