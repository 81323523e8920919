/-
**The pairs file: the line loop of `loader::load`.**

Each line holds two document ids, a label and a request. The numbers are read by `sscanf`, the
request is what is behind the last tab of the line; the loop ends at the first line that does not
begin with three numbers, and when the stream is at its end.

* `made_pair_iff` — what is made of a line of the grammar.
* `docIds_loadPairs` — the documents to be loaded are those of the elements.
* `loadLines_eq` — the elements of a file, line by line.
* `pairs_right_iff` — **the elements are those of the grammar** if and only if every line is reached
  that has a request, requests hold no tabs and no NULs, and nothing is made of other lines.
* `pairs_wrong` — a last line without a newline, a request with a tab, a line of three fields.
-/

import Mathlib.Data.Finset.Sort
import Wookie.Library.Text
import Wookie.Similarity.LearnElement

namespace Wookie

open Library

/-! ### The loop -/

/-- What the loop fills: `m_elements`, and the set `ids`. -/
structure Pairs where
  elements : List LearnElement
  ids : Finset ℤ

/-- `m_doc_ids.assign(ids.begin(), ids.end())` -/
def Pairs.docIds (pairs : Pairs) : List ℤ := pairs.ids.sort (· ≤ ·)

/-- The line's `m_elements.emplace_back(le)`, if it has got that far. -/
def Pairs.add (pairs : Pairs) : Option LearnElement → Pairs
  | none => pairs
  | some le => ⟨pairs.elements ++ [le], pairs.ids ∪ le.docIds.toFinset⟩

/-- The element of a request. -/
def requestElement (doc0 doc1 label : ℤ) (request : Str) : LearnElement :=
  { LearnElement.new with
    docIds := [doc0, doc1], request, label := if label ≠ 0 then 1 else -1 }

/-- The body of the loop, from `sscanf` on. `none` is `break`. -/
def parseLine (undefined : ℤ → ℤ) (line : Str) : Option (Option LearnElement) :=
  match scanInts undefined 3 (cString line) with
  | [doc0, doc1, label] =>
    match strrchr '\t' (cString line) with
    | some (_ :: request) =>
      if request ≠ [] then some (some (requestElement doc0 doc1 label request)) else some none
    | _ => none
  | _ => none

/-- `while ((line_num < max_line_num) && std::getline(in, line))` -/
def loadLines (undefined : ℤ → ℤ) (maxLineNum : ℤ) (stream : InStream) (lineNum : ℤ)
    (pairs : Pairs) : Pairs :=
  if lineNum < maxLineNum then
    match _read : stream.getline with
    | none => pairs
    | some (line, after) =>
      if after.eof then pairs
      else
        match parseLine undefined line with
        | none => pairs
        | some le => loadLines undefined maxLineNum after (lineNum + 1) (pairs.add le)
  else pairs
termination_by stream.rest.length
decreasing_by exact InStream.getline_shorter _read

/-- The line loop of `loader::load`, on a file. -/
def loadPairs (undefined : ℤ → ℤ) (file : Str) (maxLineNum : ℤ) : Pairs :=
  loadLines undefined maxLineNum ⟨file, false⟩ 0 ⟨[], ∅⟩

/-- The set holds the documents of the elements, at every line. -/
theorem mem_ids_loadLines (undefined : ℤ → ℤ) (maxLineNum : ℤ) (stream : InStream) (lineNum : ℤ)
    {pairs : Pairs} (agree : ∀ id, id ∈ pairs.ids ↔ ∃ le ∈ pairs.elements, id ∈ le.docIds)
    (id : ℤ) :
    id ∈ (loadLines undefined maxLineNum stream lineNum pairs).ids ↔
      ∃ le ∈ (loadLines undefined maxLineNum stream lineNum pairs).elements, id ∈ le.docIds := by
  fun_induction loadLines undefined maxLineNum stream lineNum pairs with
  | case4 stream lineNum pairs more line after read good le made ih =>
    refine ih fun id => ?_
    cases le with
    | none => exact agree id
    | some le => simp [Pairs.add, agree, or_and_right, exists_or]
  | _ => exact agree id

/-- **The documents to be loaded are those of the elements**, each once. -/
theorem docIds_loadPairs (undefined : ℤ → ℤ) (file : Str) (maxLineNum : ℤ) :
    (loadPairs undefined file maxLineNum).docIds.Pairwise (· < ·) ∧
      ∀ id, id ∈ (loadPairs undefined file maxLineNum).docIds ↔
        ∃ le ∈ (loadPairs undefined file maxLineNum).elements, id ∈ le.docIds := by
  refine ⟨(Finset.sortedLT_sort _).pairwise, fun id => ?_⟩
  rw [Pairs.docIds, Finset.mem_sort]
  exact mem_ids_loadLines undefined maxLineNum _ 0 (fun _ => by simp) id

/-! ### The grammar -/

/-- A request: not empty, and on one line. -/
structure RequestField where
  text : Str
  some : text ≠ []
  oneLine : '\n' ∉ text

/-- **A line without a fourth field**: less than three tabs, or nothing behind the third one. -/
structure ShortLine where
  text : Str
  oneLine : '\n' ∉ text
  short : text.count '\t' < 3 ∨ text.count '\t' = 3 ∧ text.getLast? = some '\t'

/-- A line of the file. -/
inductive Line
  /-- `int TAB int TAB int TAB request` -/
  | pair (doc0 doc1 label : IntText) (request : RequestField)
  | short (line : ShortLine)

def Line.text : Line → Str
  | .pair doc0 doc1 label request =>
    doc0.text ++ '\t' :: (doc1.text ++ '\t' :: (label.text ++ '\t' :: request.text))
  | .short line => line.text

/-- **The element of a line**, if it has a fourth field. -/
def Line.element : Line → List LearnElement
  | .pair doc0 doc1 label request =>
    [requestElement doc0.value doc1.value label.value request.text]
  | .short _ => []

/-- A file of lines, with or without a newline after the last one. -/
def fileOf (terminated : Bool) : List Line → Str
  | [] => []
  | [line] => line.text ++ if terminated then ['\n'] else []
  | line :: rest => line.text ++ '\n' :: fileOf terminated rest

/-- The loop ends at the line: `sscanf` does not find three numbers, or there is no tab. -/
def Stops (undefined : ℤ → ℤ) (line : Str) : Prop :=
  (scanInts undefined 3 (cString line)).length ≠ 3 ∨ '\t' ∉ cString line

/-- There is nothing behind the last tab of a line. -/
def EndsWithTab (line : Str) : Prop := (cString line).getLast? = some '\t'

/-- **The loop gets to the line**: it has a newline behind it, and no line in front of it ends the
loop. -/
def Reached (undefined : ℤ → ℤ) (terminated : Bool) (lines : List Line) (i : ℕ) : Prop :=
  (terminated = true ∨ i + 1 < lines.length) ∧
    ∀ line ∈ lines.take i, ¬ Stops undefined line.text

/-- **The line is kept as it is**: where it has a request, the loop gets there, and the request
holds no tab and no NUL; where it has none and the loop gets there, nothing is made of it. -/
def Kept (undefined : ℤ → ℤ) (terminated : Bool) (lines : List Line) (i : ℕ) : Line → Prop
  | .pair _ _ _ request =>
    Reached undefined terminated lines i ∧ '\t' ∉ request.text ∧ '\x00' ∉ request.text
  | .short line =>
    Reached undefined terminated lines i → Stops undefined line.text ∨ EndsWithTab line.text

instance (undefined : ℤ → ℤ) (line : Str) : Decidable (Stops undefined line) :=
  inferInstanceAs (Decidable (_ ∨ _))

instance (undefined : ℤ → ℤ) (terminated : Bool) (lines : List Line) (i : ℕ) :
    Decidable (Reached undefined terminated lines i) := inferInstanceAs (Decidable (_ ∧ _))

/-! ### One line -/

section OneLine

variable {undefined : ℤ → ℤ} {line : Str}

/-- The elements that are made of a line. -/
def made (undefined : ℤ → ℤ) (line : Str) : List LearnElement :=
  (parseLine undefined line).join.toList

theorem parseLine_eq_none_iff : parseLine undefined line = none ↔ Stops undefined line := by
  rw [parseLine, Stops]
  split
  next numbers =>
    rw [numbers, ← strrchr_eq_none_iff]
    split
    next found =>
      rw [found]
      split <;> simp
    next nothing =>
      cases found : strrchr '\t' (cString line) with
      | none => simp
      | some suffix =>
        obtain ⟨after, rfl⟩ := strrchr_head found
        exact absurd found (nothing _ _)
  next other =>
    have count : (scanInts undefined 3 (cString line)).length ≠ 3 := fun three => by
      obtain ⟨doc0, doc1, label, numbers⟩ := List.length_eq_three.mp three
      exact other doc0 doc1 label numbers
    exact ⟨fun _ => .inl count, fun _ => rfl⟩

/-- Three numbers, and a tab. -/
theorem parseLine_eq {doc0 doc1 label : ℤ} {tail : Str}
    (numbers : scanInts undefined 3 (cString line) = [doc0, doc1, label])
    (found : strrchr '\t' (cString line) = some ('\t' :: tail)) :
    parseLine undefined line =
      if tail ≠ [] then some (some (requestElement doc0 doc1 label tail)) else some none := by
  rw [parseLine, numbers, found]

/-- **Nothing is made of a line** that ends the loop, or ends with a tab. -/
theorem made_eq_nil_iff : made undefined line = [] ↔ Stops undefined line ∨ EndsWithTab line := by
  by_cases stops : Stops undefined line
  · rw [made, parseLine_eq_none_iff.mpr stops]
    exact ⟨fun _ => .inl stops, fun _ => rfl⟩
  · obtain ⟨count, tab⟩ := not_or.mp stops
    obtain ⟨doc0, doc1, label, numbers⟩ := List.length_eq_three.mp (not_not.mp count)
    obtain ⟨suffix, found⟩ := Option.ne_none_iff_exists'.mp (mt strrchr_eq_none_iff.mp tab)
    obtain ⟨tail, rfl⟩ := strrchr_head found
    have ends : EndsWithTab line ↔ tail = [] := by
      rw [EndsWithTab, ← strrchr_eq_singleton_iff, found]
      simp
    rw [or_iff_right stops, ends, made, parseLine_eq numbers found]
    by_cases empty : tail = [] <;> simp [empty]

/-- The request that is read where one was written. -/
theorem strrchr_request (front request : Str) :
    ∃ tail, strrchr '\t' (front ++ '\t' :: cString request) = some ('\t' :: tail) ∧
      (tail = request ↔ '\t' ∉ request ∧ '\x00' ∉ request) := by
  rw [strrchr_append_cons]
  cases found : strrchr '\t' (cString request) with
  | none =>
    refine ⟨cString request, rfl, ?_⟩
    rw [cString_eq_self_iff]
    refine ⟨fun whole => ⟨?_, whole⟩, And.right⟩
    have noTab := strrchr_eq_none_iff.mp found
    rwa [cString_eq_self_iff.mpr whole] at noTab
  | some suffix =>
    obtain ⟨tail, rfl⟩ := strrchr_head found
    have cut : (cString request).Sublist request := List.takeWhile_sublist _
    have behind := strrchr_suffix found
    refine ⟨tail, rfl, fun same => ?_, fun none => ?_⟩
    · have shorter := behind.length_le.trans cut.length_le
      rw [same, List.length_cons] at shorter
      exact absurd shorter (Nat.not_succ_le_self _)
    · exact absurd (cut.subset (behind.subset List.mem_cons_self)) none.1

/-- A C function sees the three fields in front of the request as they are. -/
theorem cString_pair (doc0 doc1 label : IntText) (request : RequestField) :
    cString (Line.pair doc0 doc1 label request).text =
      doc0.text ++ '\t' :: (doc1.text ++ '\t' :: (label.text ++ '\t' :: cString request.text)) := by
  have whole (int : IntText) (rest : Str) :
      cString (int.text ++ '\t' :: rest) = int.text ++ '\t' :: cString rest := by
    rw [cString_append _ _ (int.not_mem_text (by decide))]
    rfl
  rw [Line.text, whole, whole, whole]

theorem scanInts_pair (undefined : ℤ → ℤ) (doc0 doc1 label : IntText) (request : RequestField) :
    scanInts undefined 3 (cString (Line.pair doc0 doc1 label request).text) =
      [doc0.value, doc1.value, label.value] := by
  rw [cString_pair, scanInts_succ, dropWhile_isSpace_text, scanInts_succ, dropWhile_isSpace_text,
    scanInts_succ]
  rfl

/-- **What is made of a line of the grammar**: the numbers are right, and the request is if it holds
no tab and no NUL. -/
theorem made_pair_iff (undefined : ℤ → ℤ) (doc0 doc1 label : IntText) (request : RequestField) :
    made undefined (Line.pair doc0 doc1 label request).text =
        (Line.pair doc0 doc1 label request).element ↔
      '\t' ∉ request.text ∧ '\x00' ∉ request.text := by
  obtain ⟨tail, found, right⟩ := strrchr_request
    (doc0.text ++ '\t' :: (doc1.text ++ '\t' :: label.text)) request.text
  have behind : strrchr '\t' (cString (Line.pair doc0 doc1 label request).text) =
      some ('\t' :: tail) := by
    rw [← found, cString_pair]
    simp only [List.append_assoc, List.cons_append]
  rw [made, parseLine_eq (scanInts_pair undefined doc0 doc1 label request) behind, ← right]
  by_cases empty : tail = []
  · simp [empty, Line.element, request.some.symm]
  · simp [empty, Line.element, requestElement]

end OneLine

/-! ### Line by line -/

section Lines

variable {undefined : ℤ → ℤ} {terminated : Bool} {lines rest : List Line} {line : Line}

/-- What the loop makes of the line at an index. -/
def contribution (undefined : ℤ → ℤ) (terminated : Bool) (lines : List Line) (i : ℕ) :
    List LearnElement :=
  match lines[i]? with
  | some line => if Reached undefined terminated lines i then made undefined line.text else []
  | none => []

/-- What the grammar makes of it. -/
def elementsAt (lines : List Line) (i : ℕ) : List LearnElement :=
  (lines[i]?.map Line.element).getD []

theorem Line.oneLine (line : Line) : '\n' ∉ line.text := by
  cases line with
  | short line => exact line.oneLine
  | pair doc0 doc1 label request =>
    have one (int : IntText) : '\n' ∉ int.text := int.not_mem_text (by decide)
    simp [Line.text, one, request.oneLine]

theorem fileOf_cons (terminated : Bool) (line : Line) (rest : List Line) :
    fileOf terminated (line :: rest) =
      line.text ++
        if terminated = true ∨ rest ≠ [] then '\n' :: fileOf terminated rest else [] := by
  cases rest with
  | nil => cases terminated <;> rfl
  | cons next later => simp [fileOf]

theorem reached_zero_iff :
    Reached undefined terminated (line :: rest) 0 ↔ terminated = true ∨ rest ≠ [] := by
  rw [Reached, List.take_zero, List.length_cons, Nat.add_lt_add_iff_right, List.length_pos_iff]
  exact and_iff_left fun _ listed => absurd listed List.not_mem_nil

theorem reached_succ_iff (i : ℕ) :
    Reached undefined terminated (line :: rest) (i + 1) ↔
      ¬ Stops undefined line.text ∧ Reached undefined terminated rest i := by
  rw [Reached, Reached, List.take_succ_cons, List.forall_mem_cons, List.length_cons,
    Nat.add_lt_add_iff_right]
  tauto

theorem contribution_zero :
    contribution undefined terminated (line :: rest) 0 =
      if terminated = true ∨ rest ≠ [] then made undefined line.text else [] := by
  simp only [contribution, List.getElem?_cons_zero, reached_zero_iff]

theorem contribution_succ (i : ℕ) :
    contribution undefined terminated (line :: rest) (i + 1) =
      if Stops undefined line.text then [] else contribution undefined terminated rest i := by
  simp only [contribution, List.getElem?_cons_succ, reached_succ_iff]
  by_cases stops : Stops undefined line.text
  · simp only [stops, not_true_eq_false, false_and, if_false, if_true]
    split <;> rfl
  · simp only [stops, not_false_eq_true, true_and, if_false]

/-- **The elements of a file, line by line.** -/
theorem loadLines_eq (undefined : ℤ → ℤ) (terminated : Bool) (lines : List Line)
    (maxLineNum lineNum : ℤ) (pairs : Pairs) :
    (loadLines undefined maxLineNum ⟨fileOf terminated lines, false⟩ lineNum pairs).elements =
      pairs.elements ++ (List.range (maxLineNum - lineNum).toNat).flatMap
        (contribution undefined terminated lines) := by
  induction lines generalizing lineNum pairs with
  | nil =>
    have nothing : (List.range (maxLineNum - lineNum).toNat).flatMap
        (contribution undefined terminated []) = [] :=
      List.flatMap_eq_nil_iff.mpr fun _ _ => rfl
    rw [nothing, List.append_nil, loadLines, fileOf, InStream.getline_nil]
    split <;> rfl
  | cons line rest ih =>
    rw [loadLines, fileOf_cons]
    split
    next more =>
      obtain ⟨count, all, others⟩ : ∃ count, (maxLineNum - lineNum).toNat = count + 1 ∧
          (maxLineNum - (lineNum + 1)).toNat = count := ⟨_, by omega, rfl⟩
      rw [all, List.range_succ_eq_map, List.flatMap_cons, List.flatMap_map, contribution_zero]
      by_cases newline : terminated = true ∨ rest ≠ []
      · rw [if_pos newline, if_pos newline, InStream.getline_line line.oneLine]
        dsimp only
        rw [if_neg Bool.false_ne_true]
        cases parsed : parseLine undefined line.text with
        | none =>
          have stops := parseLine_eq_none_iff.mp parsed
          simp [made, parsed, contribution_succ, stops]
        | some le =>
          have goesOn : ¬ Stops undefined line.text := fun stops => by
            rw [parseLine_eq_none_iff.mpr stops] at parsed
            cases parsed
          dsimp only
          rw [ih, others]
          cases le <;> simp [made, parsed, contribution_succ, goesOn, Pairs.add]
      · obtain ⟨open_, rfl⟩ : ¬ terminated = true ∧ rest = [] := by simpa using newline
        have nothing : (List.range count).flatMap
            (fun i => contribution undefined terminated [line] i.succ) = [] :=
          List.flatMap_eq_nil_iff.mpr fun _ _ => rfl
        rw [if_neg newline, if_neg newline, List.append_nil, nothing, List.append_nil,
          List.append_nil]
        by_cases empty : line.text = []
        · rw [empty, InStream.getline_nil]
        · rw [InStream.getline_last line.oneLine empty]
          rfl
    next enough =>
      rw [show (maxLineNum - lineNum).toNat = 0 by omega]
      simp

/-- Lists that are built alike have the same parts. -/
theorem flatMap_range_eq_iff {α : Type} {f g : ℕ → List α} {m : ℤ} :
    (∀ k ≤ m, (List.range k.toNat).flatMap f = (List.range k.toNat).flatMap g) ↔
      ∀ i : ℕ, (i : ℤ) < m → f i = g i := by
  constructor
  · intro same i below
    have before := same i (by omega)
    have upTo := same (i + 1) (by omega)
    rw [Int.toNat_natCast] at before
    rw [Int.toNat_natCast_add_one, List.range_succ, List.flatMap_append, List.flatMap_append,
      before] at upTo
    simpa using List.append_cancel_left upTo
  · intro same k most
    refine List.flatMap_congr fun i listed => same i ?_
    have within := List.mem_range.mp listed
    omega

/-- The elements of the grammar, line by line. -/
theorem flatMap_element (lines : List Line) (k : ℕ) :
    (lines.take k).flatMap Line.element = (List.range k).flatMap (elementsAt lines) := by
  induction k with
  | zero => rfl
  | succ k ih =>
    rw [List.range_succ, List.flatMap_append, ← ih, List.take_add_one, List.flatMap_append]
    congr 1
    cases held : lines[k]? <;> simp [elementsAt, held]

/-- **A line is kept** if and only if the loop makes of it what the grammar does. -/
theorem contribution_eq_iff {i : ℕ} (held : lines[i]? = some line) :
    contribution undefined terminated lines i = elementsAt lines i ↔
      Kept undefined terminated lines i line := by
  simp only [contribution, elementsAt, held, Option.map_some, Option.getD_some]
  cases line with
  | pair doc0 doc1 label request =>
    rw [Kept, ← made_pair_iff undefined doc0 doc1 label request]
    by_cases reached : Reached undefined terminated lines i
    · simp [reached]
    · simp [reached, Line.element]
  | short short =>
    rw [Kept, ← made_eq_nil_iff]
    by_cases reached : Reached undefined terminated lines i
    · simp [reached, Line.element, Line.text]
    · simp [reached, Line.element]

theorem elements_loadPairs (undefined : ℤ → ℤ) (terminated : Bool) (lines : List Line) (num : ℤ) :
    (loadPairs undefined (fileOf terminated lines) num).elements =
      (List.range num.toNat).flatMap (contribution undefined terminated lines) := by
  rw [loadPairs, loadLines_eq, List.nil_append, Int.sub_zero]

end Lines

/-- **The elements are those of the grammar**, for every file of lines with and without a fourth
field, and every number of lines that are read, if and only if every line among them is kept. -/
theorem pairs_right_iff (undefined : ℤ → ℤ) (terminated : Bool) (lines : List Line)
    (maxLineNum : ℤ) :
    (∀ num ≤ maxLineNum, (loadPairs undefined (fileOf terminated lines) num).elements =
        (lines.take num.toNat).flatMap Line.element) ↔
      ∀ (i : ℕ) (line : Line), i < maxLineNum → lines[i]? = some line →
        Kept undefined terminated lines i line := by
  simp only [elements_loadPairs, flatMap_element]
  rw [flatMap_range_eq_iff]
  constructor
  · exact fun same i line below held => (contribution_eq_iff held).mp (same i below)
  · intro kept i below
    cases held : lines[i]? with
    | none => simp [contribution, elementsAt, held]
    | some line => exact (contribution_eq_iff held).mpr (kept i line below held)

/-- Documents 1 and 2, labelled 1, with a request. -/
def pairOf (request : RequestField) : Line :=
  .pair ⟨.none, ['1'], by decide, by simp, by decide⟩
    ⟨.none, ['2'], by decide, by simp, by decide⟩
    ⟨.none, ['1'], by decide, by simp, by decide⟩ request

/-- **A last line without a newline** is dropped, **a tab** cuts a request off, and a request is
made of **a third field**. -/
theorem pairs_wrong :
    (loadPairs id (fileOf false [pairOf ⟨['a'], by decide, by decide⟩]) 1).elements ≠
      [requestElement 1 2 1 ['a']] ∧
    (loadPairs id (fileOf true [pairOf ⟨['a', '\t', 'b'], by decide, by decide⟩]) 1).elements ≠
      [requestElement 1 2 1 ['a', '\t', 'b']] ∧
    (loadPairs id
      (fileOf true [.short ⟨['1', '\t', '2', '\t', '3'], by decide, by decide⟩]) 1).elements ≠
      [] := by
  simp only [elements_loadPairs]
  refine ⟨fun same => ?_, fun same => ?_, fun same => ?_⟩
  · exact absurd (congrArg List.length same) (by decide)
  · exact absurd (congrArg (List.map fun le => le.request.length) same) (by decide)
  · exact absurd (congrArg List.length same) (by decide)

end Wookie
