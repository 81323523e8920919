/-
**Converting between charsets: `charset_convert`.**

`convert` hands its input to `iconv` with a buffer of 4096 bytes, again and again: where the buffer
is full it goes on, where a sequence is invalid it skips a byte, where the input ends within a
character it stops. `iconv` is the system's; `Charset.Obeys` is its contract.

* `Charset.convertAll` — what the input stands for: the conversions of its valid characters.
* `obeys_iconv` — the contract can be met, for every pair of charsets.
* `pass_convertLoop` — one pass: `inleft` is what is left, and nothing is lost or made up.
* `convert_eq` — **`convert` ends, never reads on, and gives the same whatever the size of the
  buffer.**
-/

import Wookie.Library.Loop
import Wookie.Record

namespace Wookie

open Library

/-! ### `iconv` -/

/-- What a text starts with. -/
inductive Head
  /-- A valid character of `n` bytes, and what it is converted to. -/
  | char (n : ℕ) (conversion : Bytes)
  /-- An invalid sequence. -/
  | invalid
  /-- The text ends within a character. -/
  | incomplete

/-- A pair of charsets. -/
structure Charset where
  head : Bytes → Head
  /-- A character has a byte, and no more than there are. -/
  char_fits : ∀ {text n conversion}, head text = .char n conversion → 0 < n ∧ n ≤ text.length

/-- The values of `errno`. -/
inductive Errno
  | e2big
  | eilseq
  | einval
  deriving DecidableEq, Repr

/-- What a call of `iconv` does: how many bytes it consumes, what it writes, and where it returns -1
the reason. -/
structure IconvResult where
  consumed : ℕ
  written : Bytes
  errno : Option Errno
  deriving DecidableEq, Repr

namespace Charset

variable (charset : Charset)

/-- So many bytes are complete valid characters, with these conversions. -/
inductive Reads : Bytes → ℕ → Bytes → Prop
  | nil {text : Bytes} : Reads text 0 []
  | char {text conversion written : Bytes} {n consumed : ℕ} : text ≠ [] →
      charset.head text = .char n conversion → Reads (text.drop n) consumed written →
      Reads text (n + consumed) (conversion ++ written)

/-- Why a call stops where this is left of the text, and so much room of the buffer. -/
def StopsAt (text : Bytes) (outleft : ℕ) : Option Errno → Prop
  | none => text = []
  | some .e2big => text ≠ [] ∧
      ∃ n conversion, charset.head text = .char n conversion ∧ outleft < conversion.length
  | some .eilseq => text ≠ [] ∧ charset.head text = .invalid
  | some .einval => text ≠ [] ∧ charset.head text = .incomplete

/-- What a call may do: it reads valid characters, writes exactly their conversions, as far as there
is room, and stops for the reason it gives. -/
structure Allows (src : Bytes) (outleft : ℕ) (call : IconvResult) : Prop where
  reads : charset.Reads src call.consumed call.written
  fits : call.written.length ≤ outleft
  stops : charset.StopsAt (src.drop call.consumed) (outleft - call.written.length) call.errno

/-- **The contract of `iconv`.** -/
def Obeys (iconv : Bytes → ℕ → IconvResult) : Prop :=
  ∀ src outleft, charset.Allows src outleft (iconv src outleft)

/-- No conversion exceeds the size. -/
def Fits (size : ℕ) : Prop :=
  ∀ text n conversion, charset.head text = .char n conversion → conversion.length ≤ size

/-- **The conversion of a text**: that of its valid characters. An invalid sequence loses its first
byte, and an incomplete character at the end is dropped. -/
def convertAll (text : Bytes) : Bytes :=
  if _some : text = [] then []
  else
    match _read : charset.head text with
    | .char n conversion => conversion ++ convertAll (text.drop n)
    | .invalid => convertAll (text.drop 1)
    | .incomplete => []
  termination_by text.length
  decreasing_by
    · have bytes := charset.char_fits _read
      rw [List.length_drop]
      omega
    · have bytes := List.length_pos_iff.mpr _some
      rw [List.length_drop]
      omega

/-- An `iconv`, character by character. -/
def iconv (text : Bytes) (outleft : ℕ) : IconvResult :=
  if text = [] then ⟨0, [], none⟩
  else
    match _read : charset.head text with
    | .char n conversion =>
      if outleft < conversion.length then ⟨0, [], some .e2big⟩
      else
        let rest := iconv (text.drop n) (outleft - conversion.length)
        ⟨n + rest.consumed, conversion ++ rest.written, rest.errno⟩
    | .invalid => ⟨0, [], some .eilseq⟩
    | .incomplete => ⟨0, [], some .einval⟩
  termination_by text.length
  decreasing_by
    have bytes := charset.char_fits _read
    rw [List.length_drop]
    omega

end Charset

/-! ### `charset_convert` -/

/-- The variables of the loop: `src` as what it points to, `inleft` as a number that may be
negative. -/
structure ConvertState where
  src : Bytes
  inleft : ℤ
  out : Bytes

/-- The loop of `charset_convert::convert`, where `m_tmp` has so many bytes. -/
def convertLoop (iconv : Bytes → ℕ → IconvResult) (tmpSize : ℕ) : Loop ConvertState where
  cond s := 0 < s.inleft
  body s :=
    let call := iconv (s.src.take s.inleft.toNat) tmpSize
    let outleft := tmpSize - call.written.length
    let s : ConvertState :=
      { src := s.src.drop call.consumed
        inleft := s.inleft - call.consumed
        out := if outleft < tmpSize then s.out ++ call.written else s.out }
    match call.errno with
    | some .einval => .stop s
    | some .e2big => .next s
    | some .eilseq => .next { s with src := s.src.drop 1, inleft := s.inleft - 1 }
    | none => .next s

/-- The state before the loop. -/
def ConvertState.start (input : Bytes) : ConvertState := ⟨input, input.length, []⟩

/-- `charset_convert::convert`, as long as the fuel lasts. -/
def convert (iconv : Bytes → ℕ → IconvResult) (tmpSize fuel : ℕ) (input : Bytes) : Option Bytes :=
  ((convertLoop iconv tmpSize).run fuel (.start input)).map ConvertState.out

/-- `m_tmp.resize(4096)` -/
def tmpSize : ℕ := 4096

/-! ### What a text stands for -/

section Meaning

variable {charset : Charset}

theorem convertAll_nil : charset.convertAll [] = [] := by
  rw [Charset.convertAll, dif_pos rfl]

theorem convertAll_eq {text : Bytes} (some : text ≠ []) :
    charset.convertAll text =
      match charset.head text with
      | .char n conversion => conversion ++ charset.convertAll (text.drop n)
      | .invalid => charset.convertAll (text.drop 1)
      | .incomplete => [] := by
  rw [Charset.convertAll, dif_neg some]
  split
  all_goals
    rename_i read
    rw [read]

theorem convertAll_char {text conversion : Bytes} {n : ℕ} (some : text ≠ [])
    (read : charset.head text = .char n conversion) :
    charset.convertAll text = conversion ++ charset.convertAll (text.drop n) := by
  rw [convertAll_eq some, read]

theorem convertAll_invalid {text : Bytes} (some : text ≠ [])
    (read : charset.head text = .invalid) :
    charset.convertAll text = charset.convertAll (text.drop 1) := by
  rw [convertAll_eq some, read]

theorem convertAll_incomplete {text : Bytes} (some : text ≠ [])
    (read : charset.head text = .incomplete) : charset.convertAll text = [] := by
  rw [convertAll_eq some, read]

/-- **Characters that are read** are the first part of the conversion. -/
theorem Charset.Reads.convertAll_eq {text written : Bytes} {consumed : ℕ}
    (reads : charset.Reads text consumed written) :
    charset.convertAll text = written ++ charset.convertAll (text.drop consumed) ∧
      consumed ≤ text.length ∧ (consumed = 0 → written = []) := by
  induction reads with
  | nil => exact ⟨rfl, Nat.zero_le _, fun _ => rfl⟩
  | @char text conversion written n consumed some read rest ih =>
    obtain ⟨same, within, -⟩ := ih
    obtain ⟨positive, fits⟩ := charset.char_fits read
    rw [List.length_drop] at within
    refine ⟨?_, by omega, fun zero => by omega⟩
    rw [convertAll_char some read, same, List.append_assoc, List.drop_drop]

end Meaning

/-! ### The loop -/

section Convert

variable {charset : Charset} {iconv : Bytes → ℕ → IconvResult} {size : ℕ}

/-- `inleft` is what is left of the input, and what is written and what is left make up its
conversion. -/
structure Converted (charset : Charset) (input : Bytes) (s : ConvertState) : Prop where
  inleft : s.inleft = s.src.length
  out : s.out ++ charset.convertAll s.src = charset.convertAll input

/-- What the loop ends with. -/
structure ConvertedAll (charset : Charset) (input : Bytes) (s : ConvertState) : Prop where
  inleft : 0 ≤ s.inleft
  out : s.out = charset.convertAll input

/-- What is written is appended; a buffer that is as empty as before has nothing written to it. -/
theorem append_written {out written : Bytes} (room : written.length ≤ size) :
    (if size - written.length < size then out ++ written else out) = out ++ written := by
  split
  · rfl
  · have nothing : written = [] := List.length_eq_zero_iff.mp (by omega)
    rw [nothing, List.append_nil]

/-- **A call of `iconv`**, whatever its error: the conversion is kept. -/
theorem Converted.call {input src out written : Bytes} {inleft : ℤ} {consumed : ℕ}
    (converted : Converted charset input ⟨src, inleft, out⟩)
    (reads : charset.Reads src consumed written) :
    Converted charset input ⟨src.drop consumed, src.length - consumed, out ++ written⟩ := by
  obtain ⟨same, within, -⟩ := reads.convertAll_eq
  refine ⟨?_, ?_⟩
  · show (src.length - consumed : ℤ) = (src.drop consumed).length
    rw [List.length_drop]
    omega
  · have made : out ++ charset.convertAll src = charset.convertAll input := converted.out
    show out ++ written ++ charset.convertAll (src.drop consumed) = charset.convertAll input
    rw [List.append_assoc, ← same, made]

/-- **One pass through the loop** keeps `inleft` and the conversion, and gets on with the input. -/
theorem pass_convertLoop (obeys : charset.Obeys iconv) (fits : charset.Fits size) {input : Bytes}
    {s : ConvertState} (converted : Converted charset input s)
    (enters : (convertLoop iconv size).cond s = true) :
    (convertLoop iconv size).Pass (Converted charset input) (fun s => s.src.length)
      (ConvertedAll charset input) s := by
  obtain ⟨src, inleft, out⟩ := s
  have all : inleft = src.length := converted.inleft
  have some : 0 < src.length := by
    have positive : 0 < inleft := of_decide_eq_true enters
    omega
  have whole : src.take inleft.toNat = src := by
    rw [all, Int.toNat_natCast, List.take_length]
  have allowed := obeys src size
  dsimp only [Loop.Pass, convertLoop]
  rw [whole, all]
  generalize iconv src size = call at allowed ⊢
  obtain ⟨consumed, written, errno⟩ := call
  obtain ⟨reads, room, stops⟩ := allowed
  dsimp only at reads room stops ⊢
  have after := converted.call reads
  rw [append_written room]
  cases errno with
  | none =>
    -- all is consumed
    have empty : src.drop consumed = [] := stops
    refine ⟨after, ?_⟩
    dsimp only
    rw [empty]
    exact some
  | some errno =>
    cases errno with
    | e2big =>
      -- the whole buffer had room for one character
      obtain ⟨-, n, conversion, read, full⟩ := stops
      have conversionFits := fits _ _ _ read
      have consumes : consumed ≠ 0 := by
        intro zero
        rw [reads.convertAll_eq.2.2 zero, List.length_nil] at full
        omega
      refine ⟨after, ?_⟩
      dsimp only
      rw [List.length_drop]
      omega
    | eilseq =>
      obtain ⟨bytes, read⟩ := stops
      have left : (src.length - consumed : ℤ) = (src.drop consumed).length := after.inleft
      have more := List.length_pos_iff.mpr bytes
      refine ⟨⟨?_, ?_⟩, ?_⟩
      · dsimp only
        rw [left, List.length_drop (i := 1)]
        omega
      · rw [← convertAll_invalid bytes read]
        exact after.out
      · dsimp only
        rw [List.length_drop, List.length_drop]
        omega
    | einval =>
      obtain ⟨bytes, read⟩ := stops
      have made : out ++ written ++ charset.convertAll (src.drop consumed) =
        charset.convertAll input := after.out
      rw [convertAll_incomplete bytes read, List.append_nil] at made
      refine ⟨?_, made⟩
      rw [after.inleft]
      exact Int.natCast_nonneg _

/-- Where the loop comes by, `inleft` is what is left. -/
theorem converted_of_reaches (obeys : charset.Obeys iconv) (fits : charset.Fits size)
    {input : Bytes} {s : ConvertState}
    (reached : (convertLoop iconv size).Reaches (.start input) s) :
    Converted charset input s := by
  refine reached.invariant (Converted charset input) ⟨rfl, rfl⟩ fun s after held enters next => ?_
  have passed := pass_convertLoop obeys fits held enters
  rw [Loop.Pass, next] at passed
  exact passed.1

/-- The loop ends with the conversion. -/
theorem convert_eq_convertAll (obeys : charset.Obeys iconv) (fits : charset.Fits size)
    (input : Bytes) {fuel : ℕ} (enough : input.length < fuel) :
    convert iconv size fuel input = some (charset.convertAll input) := by
  have ends : ∀ s, Converted charset input s → (convertLoop iconv size).cond s = false →
      ConvertedAll charset input s := by
    intro s held left
    have none : s.src = [] := by
      have ended := of_decide_eq_false left
      rw [held.inleft] at ended
      exact List.length_eq_zero_iff.mp (by omega)
    have made := held.out
    rw [none, convertAll_nil, List.append_nil] at made
    exact ⟨held.inleft ▸ Int.natCast_nonneg _, made⟩
  have start : Converted charset input (.start input) := ⟨rfl, rfl⟩
  obtain ⟨after, ended, result⟩ := Loop.run_eq (Converted charset input) (fun s => s.src.length)
    (fun s held enters => pass_convertLoop obeys fits held enters) ends start enough
  rw [convert, ended, Option.map_some, result.out]

/-- **`convert` is independent of buffering**: with a buffer of 4096 bytes, or of any other size
that holds every single conversion, it ends with the conversion of its input, and `inleft` never
goes below zero, at the head of the loop or after a pass. -/
theorem convert_eq (obeys : charset.Obeys iconv) (fits : charset.Fits tmpSize) (input : Bytes) :
    (∀ fuel, input.length < fuel →
      convert iconv tmpSize fuel input = some (charset.convertAll input)) ∧
    (∀ size, charset.Fits size → ∀ fuel, input.length < fuel →
      convert iconv size fuel input = convert iconv tmpSize fuel input) ∧
    (∀ s, (convertLoop iconv tmpSize).Reaches (.start input) s →
      0 ≤ s.inleft ∧ ((convertLoop iconv tmpSize).cond s = true →
        0 ≤ ((convertLoop iconv tmpSize).body s).state.inleft)) := by
  refine ⟨fun fuel enough => convert_eq_convertAll obeys fits input enough,
    fun size fits' fuel enough => ?_, fun s reached => ?_⟩
  · rw [convert_eq_convertAll obeys fits' input enough,
      convert_eq_convertAll obeys fits input enough]
  · have held := converted_of_reaches obeys fits reached
    refine ⟨held.inleft ▸ Int.natCast_nonneg _, fun enters => ?_⟩
    have passed := pass_convertLoop obeys fits held enters
    unfold Loop.Pass at passed
    cases flow : (convertLoop iconv tmpSize).body s with
    | next after =>
      rw [flow] at passed
      rw [Flow.state, passed.1.inleft]
      exact Int.natCast_nonneg _
    | stop after =>
      rw [flow] at passed
      exact passed.inleft

end Convert

/-! ### An `iconv` that keeps the contract -/

/-- **Every pair of charsets has an `iconv`.** -/
theorem obeys_iconv (charset : Charset) : charset.Obeys charset.iconv := by
  intro text outleft
  induction text, outleft using Charset.iconv.induct charset with
  | case1 outleft =>
    rw [Charset.iconv, if_pos rfl]
    exact ⟨.nil, Nat.zero_le _, rfl⟩
  | case2 text outleft bytes n conversion read full =>
    have result : charset.iconv text outleft = ⟨0, [], some .e2big⟩ := by
      rw [Charset.iconv, if_neg bytes]
      split <;> simp_all
    rw [result]
    exact ⟨.nil, Nat.zero_le _, bytes, n, conversion, read, full⟩
  | case3 text outleft bytes n conversion read room ih =>
    generalize rest : charset.iconv (text.drop n) (outleft - conversion.length) = call at ih
    have result : charset.iconv text outleft =
        ⟨n + call.consumed, conversion ++ call.written, call.errno⟩ := by
      rw [Charset.iconv, if_neg bytes]
      split
      · rename_i read'
        cases read.symm.trans read'
        rw [if_neg room, rest]
      · rename_i read'
        cases read.symm.trans read'
      · rename_i read'
        cases read.symm.trans read'
    have written := ih.fits
    rw [result]
    refine ⟨.char bytes read ih.reads, ?_, ?_⟩
    · rw [List.length_append]
      omega
    · have stops := ih.stops
      rw [List.drop_drop, Nat.sub_sub, ← List.length_append] at stops
      exact stops
  | case4 text outleft bytes read =>
    have result : charset.iconv text outleft = ⟨0, [], some .eilseq⟩ := by
      rw [Charset.iconv, if_neg bytes]
      split <;> simp_all
    rw [result]
    exact ⟨.nil, Nat.zero_le _, bytes, read⟩
  | case5 text outleft bytes read =>
    have result : charset.iconv text outleft = ⟨0, [], some .einval⟩ := by
      rw [Charset.iconv, if_neg bytes]
      split <;> simp_all
    rw [result]
    exact ⟨.nil, Nat.zero_le _, bytes, read⟩

/-- utf8 to Latin-1. -/
def Charset.latin1 : Charset where
  head text :=
    match text with
    | [] => .incomplete
    | first :: rest =>
      if first < 0x80 then .char 1 [first]
      else if first = 0xc2 ∨ first = 0xc3 then
        match rest with
        | [] => .incomplete
        | second :: _ =>
          if 0x80 ≤ second ∧ second < 0xc0 then .char 2 [(first - 0xc2) * 0x40 + second]
          else .invalid
      else .invalid
  char_fits {text n conversion} read := by
    split at read
    · cases read
    · split at read
      · cases read
        simp
      · split at read
        · split at read
          · cases read
          · split at read
            · cases read
              simp
            · cases read
        · cases read

/-- Its conversions are short. -/
theorem latin1_fits : Charset.latin1.Fits tmpSize := by
  intro text n conversion read
  dsimp only [Charset.latin1] at read
  split at read
  · cases read
  · split at read
    · cases read
      exact Nat.le_of_ble_eq_true rfl
    · split at read
      · split at read
        · cases read
        · split at read
          · cases read
            exact Nat.le_of_ble_eq_true rfl
          · cases read
      · cases read

/-- A letter, a byte that starts no character, an accented letter, and the first byte of another. -/
theorem convert_eq_latin1 : convert Charset.latin1.iconv tmpSize 6 [0x61, 0xff, 0xc3, 0xa9, 0xc3] =
    some (Charset.latin1.convertAll [0x61, 0xff, 0xc3, 0xa9, 0xc3]) :=
  (convert_eq (obeys_iconv _) latin1_fits [0x61, 0xff, 0xc3, 0xa9, 0xc3]).1 6 (by decide)

end Wookie
