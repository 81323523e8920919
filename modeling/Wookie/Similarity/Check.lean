/-
**Checking what was learned: `loader::check` and `class score`.**

`check` picks elements at random, makes each of them, asks the learned function about its features,
and counts how often the answer agrees with the label. An element that is picked again has its
numbers appended again, so the function is asked about a longer sample.

* `Answer` — the double that the function gives, as far as `check` looks at it: a NaN is neither at
  least `0.5` nor below.
* `numbers` — the five numbers of an element, from the documents that its look-ups lead to.
* `verdicts` — **what `check` does with a row of picks**: the labels of the elements that could be
  made, each with what the function says of as many copies of the numbers as it was picked times.
* `Reported` — the counters of `check` and of `score` count these verdicts.
* `check_report` — **from a pairs file to the report**: the counters agree with each other, and only
  a check without a verdict fails, dividing by zero.
-/

import Wookie.Similarity.Pairs
import Wookie.Similarity.Train

namespace Wookie

open Library

/-! ### `class score` -/

/-- `class score`. -/
structure Score where
  truePositive : ℕ
  falsePositive : ℕ
  trueNegative : ℕ
  falseNegative : ℕ
  deriving DecidableEq

/-- `score::score()`. -/
def Score.new : Score := ⟨0, 0, 0, 0⟩

/-- `score::add`. -/
def Score.add (score : Score) (valuePositive measuredPositive : Bool) : Score :=
  if measuredPositive then
    if valuePositive then { score with truePositive := score.truePositive + 1 }
    else { score with falsePositive := score.falsePositive + 1 }
  else
    if !valuePositive then { score with trueNegative := score.trueNegative + 1 }
    else { score with falseNegative := score.falseNegative + 1 }

/-- One more observation, counter by counter. -/
theorem Score.add_eq (score : Score) (value measured : Bool) :
    score.add value measured = {
      truePositive := if value && measured then score.truePositive + 1 else score.truePositive
      falsePositive := if !value && measured then score.falsePositive + 1 else score.falsePositive
      trueNegative := if !value && !measured then score.trueNegative + 1 else score.trueNegative
      falseNegative :=
        if value && !measured then score.falseNegative + 1 else score.falseNegative } := by
  cases value with
  | true => cases measured with
    | true => rfl
    | false => rfl
  | false => cases measured with
    | true => rfl
    | false => rfl

/-! ### `check` -/

/-- What `m_learned_pfunc` gives, by how it compares with `0.5`. -/
inductive Answer
  | atLeast
  | below
  | nan
  deriving DecidableEq

/-- `l >= 0.5`. -/
def Answer.geHalf : Answer → Bool
  | .atLeast => true
  | _ => false

/-- `l < 0.5`. -/
def Answer.ltHalf : Answer → Bool
  | .below => true
  | _ => false

/-- The variables of `check`. -/
structure Checking where
  loader : Loader
  total : ℕ
  success : ℕ
  positive : ℕ
  score : Score

/-- The counters after the function was asked about an element with this label. -/
def Checking.count (checking : Checking) (loader : Loader) (label : ℤ) (l : Answer) :
    Checking where
  loader := loader
  total := checking.total + 1
  positive := if label = 1 then checking.positive + 1 else checking.positive
  score := checking.score.add (label > 0) l.geHalf
  success := if label = 1 ∧ l.geHalf = true ∨ label = -1 ∧ l.ltHalf = true then
    checking.success + 1 else checking.success

/-- A round of the loop, for the element at `lepos`. `learned` is `m_learned_pfunc`. `none` if
`make_element` accesses what is not there. -/
def Checking.round (learned : List ℤ → Answer) (checking : Checking) (lepos : ℕ) :
    Option Checking := do
  let (made, loader) ← checking.loader.call (.makeElement lepos)
  if !made then return { checking with loader }
  let le ← loader.elements[lepos]?
  return checking.count loader le.label (learned le.features)

/-- The elements that are picked: `rand() % m_elements.size()`, `num` times. -/
def Loader.picks (loader : Loader) (rand : ℕ → ℕ) (num : ℤ) : List ℕ :=
  (List.range (min num (sizeToInt loader.elements.length)).toNat).map fun i =>
    rand i % loader.elements.length

/-- `loader::check`, up to its last line. No round changes how many elements there are. -/
def Loader.check (loader : Loader) (learned : List ℤ → Answer) (rand : ℕ → ℕ) (num : ℤ) :
    Option Checking :=
  (loader.picks rand num).foldlM (Checking.round learned) ⟨loader, 0, 0, 0, .new⟩

/-- The last line of `check`: elements, positives, negatives, and the success rate. Dividing by zero
is `none`. -/
def Checking.report (checking : Checking) : Option (ℕ × ℕ × ℕ × ℕ) :=
  if checking.total = 0 then none
  else some (checking.total, checking.positive, checking.total - checking.positive,
    checking.success * 100 / checking.total)

/-! ### What the counters count -/

/-- **The numbers of an element**, from the documents that its look-ups lead to. -/
def numbers (documents : List SimDoc) (le : LearnElement) : Option (List ℤ) := do
  let ((d1, d2), _) ← (Loader.load documents []).lookUp le
  if d1.ngrams = [] ∨ d2.ngrams = [] then none
  else return (sizes d1 d2 le.reqNgrams).map sizeToInt

/-- What is said of the element at `lepos`, when it is picked for the `n`-th time: its label, and
what the function says of `n` copies of its numbers. -/
def verdict (learned : List ℤ → Answer) (documents : List SimDoc) (elements : List LearnElement)
    (n lepos : ℕ) : Option (ℤ × Answer) := do
  let le ← elements[lepos]?
  let sample ← numbers documents le
  return (le.label, learned (List.replicate n sample).flatten)

/-- **The verdicts on a row of picks**, after those `before` it. -/
def verdicts (learned : List ℤ → Answer) (documents : List SimDoc) (elements : List LearnElement)
    (before : List ℕ) : List ℕ → List (ℤ × Answer)
  | [] => []
  | lepos :: rest =>
    (verdict learned documents elements (before.count lepos + 1) lepos).toList ++
      verdicts learned documents elements (before ++ [lepos]) rest

/-- **What the counters count.** -/
structure Reported (rows : List (ℤ × Answer)) (checking : Checking) : Prop where
  total : checking.total = rows.length
  positive : checking.positive = rows.countP (·.1 = 1)
  success : checking.success = rows.countP fun row =>
    row.1 = 1 ∧ row.2.geHalf = true ∨ row.1 = -1 ∧ row.2.ltHalf = true
  truePositive : checking.score.truePositive = rows.countP fun row => row.1 > 0 && row.2.geHalf
  falsePositive : checking.score.falsePositive =
    rows.countP fun row => !(row.1 > 0) && row.2.geHalf
  trueNegative : checking.score.trueNegative = rows.countP fun row => !(row.1 > 0) && !row.2.geHalf
  falseNegative : checking.score.falseNegative = rows.countP fun row => row.1 > 0 && !row.2.geHalf

/-- **The counters agree with each other**: a NaN for the label `-1` is a true negative, and no
success. -/
structure Consistent (rows : List (ℤ × Answer)) (checking : Checking) : Prop where
  total : checking.total = checking.score.truePositive + checking.score.falsePositive +
    checking.score.trueNegative + checking.score.falseNegative
  positive : checking.positive = checking.score.truePositive + checking.score.falseNegative
  success : checking.success + rows.countP (fun row => row.1 = -1 ∧ row.2 = .nan) =
    checking.score.truePositive + checking.score.trueNegative

section Check

variable {learned : List ℤ → Answer} {documents : List SimDoc} {elements : List LearnElement}
  {picks : List ℕ} {lepos : ℕ} {le le' : LearnElement} {checking : Checking}

theorem verdicts_append (before picks : List ℕ) (lepos : ℕ) :
    verdicts learned documents elements before (picks ++ [lepos]) =
      verdicts learned documents elements before picks ++
        (verdict learned documents elements ((before ++ picks).count lepos + 1) lepos).toList := by
  induction picks generalizing before with
  | nil => simp [verdicts]
  | cons first rest ih =>
    rw [List.cons_append, verdicts, verdicts, ih, List.append_assoc, List.append_assoc]
    rfl

theorem countP_concat {α : Type} (p : α → Bool) (rows : List α) (row : α) :
    (rows ++ [row]).countP p = if p row then rows.countP p + 1 else rows.countP p := by
  rw [List.countP_append, List.countP_singleton]
  split
  · rfl
  · rfl

theorem verdict_eq (held : elements[lepos]? = some le) (n : ℕ) :
    verdict learned documents elements n lepos = (numbers documents le).map fun sample =>
      (le.label, learned (List.replicate n sample).flatten) := by
  rw [verdict, held, Option.map_eq_bind]
  rfl

/-- One more verdict. -/
theorem Reported.add {rows : List (ℤ × Answer)} (reported : Reported rows checking)
    (loader : Loader) (label : ℤ) (l : Answer) :
    Reported (rows ++ [(label, l)]) (checking.count loader label l) := by
  obtain ⟨total, positive, success, tp, fp, tn, fn⟩ := reported
  refine ⟨?_, ?_, ?_, ?_, ?_, ?_, ?_⟩
  · rw [List.length_append, ← total]
    rfl
  · simp only [countP_concat, ← positive, decide_eq_true_eq, Checking.count]
  · simp only [countP_concat, ← success, decide_eq_true_eq, Checking.count]
  all_goals
    simp only [countP_concat, ← tp, ← fp, ← tn, ← fn, Checking.count, Score.add_eq]

/-- **Counters that agree go on to**, where the labels are `1` and `-1`. -/
theorem Consistent.count {rows : List (ℤ × Answer)} (consistent : Consistent rows checking)
    (loader : Loader) {label : ℤ} (known : label = 1 ∨ label = -1) (l : Answer) :
    Consistent (rows ++ [(label, l)]) (checking.count loader label l) := by
  obtain ⟨total, positive, success⟩ := consistent
  simp only [Bool.decide_and] at success
  rcases known with rfl | rfl
  -- only an answer of at least `0.5` is a success
  · cases l <;> constructor <;>
      simp [Checking.count, Score.add, Answer.geHalf, Answer.ltHalf, total, positive] <;> omega
  -- an answer below is one, and a NaN counts for the true negatives alone
  · cases l <;> constructor <;>
      simp [Checking.count, Score.add, Answer.geHalf, Answer.ltHalf, total, positive] <;> omega

/-! ### A round -/

/-- **An element that was picked so many times**: only its features and its validity have changed.
-/
structure Grown (documents : List SimDoc) (n : ℕ) (le le' : LearnElement) : Prop where
  docIds : le'.docIds = le.docIds
  label : le'.label = le.label
  reqNgrams : le'.reqNgrams = le.reqNgrams
  features : le'.features = (List.replicate n ((numbers documents le).getD [])).flatten

/-- **The loop between two rounds.** -/
structure Checked (learned : List ℤ → Answer) (documents : List SimDoc)
    (elements : List LearnElement) (picks : List ℕ) (checking : Checking) : Prop where
  keeps : Keeps documents elements checking.loader
  grown : ∀ lepos le, elements[lepos]? = some le → ∃ le',
    checking.loader.elements[lepos]? = some le' ∧ Grown documents (picks.count lepos) le le'
  reported : Reported (verdicts learned documents elements [] picks) checking
  consistent : Consistent (verdicts learned documents elements [] picks) checking

/-- An element of a pairs file. -/
structure IsPair (le : LearnElement) : Prop where
  docIds : ∃ id1 id2, le.docIds = [id1, id2]
  label : le.label = 1 ∨ le.label = -1
  invalid : le.valid = false
  fresh : le.features = []

/-- The documents can be looked up. -/
structure Loadable (documents : List SimDoc) : Prop where
  nonempty : documents ≠ []
  few : documents.length < 2 ^ 31
  sorted : ∀ doc ∈ documents, SortedNgrams doc.ngrams

/-- Every look-up leads to a document. -/
theorem Loadable.lookedUp (loadable : Loadable documents) (id : ℤ) :
    ∃ doc ∈ documents, documents[(idPositions documents)[id]?.getD 0]? = some doc := by
  have small : ∀ i < 2 ^ 31, indexOf i = i := by
    intro i small
    have positive : (BitVec.ofNat 32 i).msb = false := by
      rw [BitVec.msb_eq_decide, BitVec.toNat_ofNat]
      simp
      omega
    rw [indexOf, BitVec.signExtend_eq_setWidth_of_msb_false positive]
    simp
    omega
  rcases idPositions_spec documents id with ⟨i, last, found⟩ | ⟨-, nothing⟩
  · obtain ⟨doc, held, -⟩ := last.held
    have bound := (List.getElem?_eq_some_iff.mp held).1
    refine ⟨doc, List.mem_of_getElem? held, ?_⟩
    rw [found, Option.getD_some, small i (bound.trans loadable.few)]
    exact held
  · obtain ⟨first, rest, rfl⟩ := List.exists_cons_of_ne_nil loadable.nonempty
    refine ⟨first, List.mem_cons_self, ?_⟩
    rw [nothing]
    rfl

/-- What the numbers are. -/
theorem numbers_eq {id1 id2 : ℤ} {d1 d2 : SimDoc} (ids : le.docIds = [id1, id2])
    (first : documents[(idPositions documents)[id1]?.getD 0]? = some d1)
    (second : documents[(idPositions documents)[id2]?.getD 0]? = some d2) :
    numbers documents le = if d1.ngrams = [] ∨ d2.ngrams = [] then none
      else some ((sizes d1 d2 le.reqNgrams).map sizeToInt) := by
  have found : (Loader.load documents []).lookUp le = _ := lookUp_eq ids first second
  rw [numbers, found]
  rfl

/-- **`make_element`, on an element that was picked before**: its numbers are appended once more. -/
theorem call_grown {loader : Loader} {n : ℕ} (loadable : Loadable documents)
    (keeps : Keeps documents elements loader) (held : loader.elements[lepos]? = some le')
    (grown : Grown documents n le le') (pair : IsPair le) (sortedReq : SortedNgrams le.reqNgrams) :
    ∃ after idPosition, loader.call (.makeElement lepos) =
        some ((numbers documents le).isSome,
          { loader with elements := loader.elements.set lepos after, idPosition }) ∧
      Grown documents (n + 1) le after := by
  obtain ⟨id1, id2, ids⟩ := pair.docIds
  obtain ⟨d1, listed, first⟩ := loadable.lookedUp id1
  obtain ⟨d2, listed', second⟩ := loadable.lookedUp id2
  have numbers := numbers_eq ids first second
  have read (id : ℤ) (doc : SimDoc)
      (lookedUp : documents[(idPositions documents)[id]?.getD 0]? = some doc) :
      loader.documents[loader.idPosition[id]?.getD 0]? = some doc := by
    rw [keeps.vector, keeps.positions]
    exact lookedUp
  have found := lookUp_eq (grown.docIds.trans ids) (read id1 d1 first) (read id2 d2 second)
  have sortedReq : SortedNgrams le'.reqNgrams := grown.reqNgrams ▸ sortedReq
  have generated := generateFeatures_eq (loadable.sorted d1 listed) (loadable.sorted d2 listed')
    sortedReq
  rw [grown.reqNgrams] at generated
  by_cases empty : d1.ngrams = [] ∨ d2.ngrams = []
  · rw [if_pos empty] at numbers generated
    have features : Grown documents (n + 1) le le' := by
      refine ⟨grown.docIds, grown.label, grown.reqNgrams, ?_⟩
      rw [grown.features, numbers]
      simp
    rw [numbers]
    exact ⟨_, _, call_eq held found generated, features⟩
  · rw [if_neg empty] at numbers generated
    have features : le'.features ++ (sizes d1 d2 le.reqNgrams).map sizeToInt =
        (List.replicate (n + 1) ((Wookie.numbers documents le).getD [])).flatten := by
      rw [grown.features, numbers, List.replicate_succ', List.flatten_append]
      simp
    rw [numbers]
    exact ⟨_, _, call_eq held found generated, grown.docIds, grown.label, rfl, features⟩

/-- **A round of the loop** on an element that is there. -/
theorem Checked.round (checked : Checked learned documents elements picks checking)
    (loadable : Loadable documents) (held : elements[lepos]? = some le) (pair : IsPair le)
    (sortedReq : SortedNgrams le.reqNgrams) :
    ∃ checking', checking.round learned lepos = some checking' ∧
      Checked learned documents elements (picks ++ [lepos]) checking' := by
  obtain ⟨now, current, grown⟩ := checked.grown lepos le held
  obtain ⟨after, idPosition, called, grown⟩ :=
    call_grown loadable checked.keeps current grown pair sortedReq
  have count : (picks ++ [lepos]).count lepos = picks.count lepos + 1 := by simp
  have inside := (List.getElem?_eq_some_iff.mp current).1
  -- the other elements are as they were
  have others : ∀ other known, elements[other]? = some known → ∃ le',
      (checking.loader.elements.set lepos after)[other]? = some le' ∧
        Grown documents ((picks ++ [lepos]).count other) known le' := by
    intro other known listed
    by_cases same : lepos = other
    · subst same
      rw [held] at listed
      cases listed
      exact ⟨after, List.getElem?_set_self inside, count ▸ grown⟩
    · obtain ⟨before, listed, grown⟩ := checked.grown other known listed
      refine ⟨before, by rw [List.getElem?_set_ne same, listed], ?_⟩
      rwa [List.count_append, List.count_singleton, if_neg (by simpa using same), Nat.add_zero]
  have verdict : verdict learned documents elements (picks.count lepos + 1) lepos = _ :=
    verdict_eq held _
  cases made : numbers documents le with
  | none =>
    rw [made] at called verdict
    have same : verdicts learned documents elements [] (picks ++ [lepos]) =
        verdicts learned documents elements [] picks := by
      rw [verdicts_append, List.nil_append, verdict]
      exact List.append_nil _
    refine ⟨{ checking with loader := _ }, ?_, checked.keeps.call called, others, ?_, ?_⟩
    · rw [Checking.round, called]
      rfl
    · rw [same]
      exact ⟨checked.reported.total, checked.reported.positive, checked.reported.success,
        checked.reported.truePositive, checked.reported.falsePositive,
        checked.reported.trueNegative, checked.reported.falseNegative⟩
    · rw [same]
      exact ⟨checked.consistent.total, checked.consistent.positive, checked.consistent.success⟩
  | some sample =>
    rw [made] at called verdict
    have features := grown.features
    rw [made] at features
    have more : verdicts learned documents elements [] (picks ++ [lepos]) =
        verdicts learned documents elements [] picks ++
          [(after.label, learned after.features)] := by
      rw [verdicts_append, List.nil_append, verdict, features, grown.label]
      rfl
    refine ⟨checking.count { checking.loader with
        elements := checking.loader.elements.set lepos after, idPosition } after.label
        (learned after.features), ?_, checked.keeps.call called, others, ?_, ?_⟩
    · rw [Checking.round, called]
      simp only [Option.bind_eq_bind, Option.bind_some, List.getElem?_set_self inside]
      rfl
    · rw [more]
      exact checked.reported.add _ _ _
    · rw [more]
      exact checked.consistent.count _ (grown.label ▸ pair.label) _

/-- **The whole loop.** -/
theorem check_checked (loadable : Loadable documents) (pairs : ∀ le ∈ elements, IsPair le)
    (sortedReq : ∀ le ∈ elements, SortedNgrams le.reqNgrams) (learned : List ℤ → Answer)
    (rand : ℕ → ℕ) (num : ℤ) :
    ∃ checking, (Loader.load documents elements).check learned rand num = some checking ∧
      Checked learned documents elements ((Loader.load documents elements).picks rand num)
        checking := by
  refine foldlM_history (Checked learned documents elements)
    (fun before checking lepos listed checked => ?_)
    ⟨keeps_load documents elements, ?_, ⟨rfl, rfl, rfl, rfl, rfl, rfl, rfl⟩, ⟨rfl, rfl, rfl⟩⟩
  · obtain ⟨i, inside, rfl⟩ := List.mem_map.mp listed
    have some : 0 < elements.length := by
      rcases Nat.eq_zero_or_pos elements.length with none | some
      · have bound := List.mem_range.mp inside
        have zero : sizeToInt (Loader.load documents elements).elements.length = 0 := by
          rw [show (Loader.load documents elements).elements.length = 0 from none]
          rfl
        omega
      · exact some
    have held := List.getElem?_eq_getElem (Nat.mod_lt (rand i) some)
    have member := List.mem_of_getElem? held
    exact checked.round loadable held (pairs _ member) (sortedReq _ member)
  · intro lepos le held
    refine ⟨le, held, rfl, rfl, rfl, ?_⟩
    rw [(pairs le (List.mem_of_getElem? held)).fresh]
    rfl

end Check

/-! ### From a pairs file -/

/-- The elements of a pairs file, with the n-grams of their requests. -/
def preparedElements (undefined : ℤ → ℤ) (file : Str) (maxLineNum : ℤ)
    (ngramsOf : Str → List ℤ) : List LearnElement :=
  (loadPairs undefined file maxLineNum).elements.map fun le =>
    { le with reqNgrams := ngramsOf le.request }

theorem isPair_requestElement (doc0 doc1 label : ℤ) (request : Str) :
    IsPair (requestElement doc0 doc1 label request) where
  docIds := ⟨doc0, doc1, rfl⟩
  label := by
    by_cases zero : label ≠ 0
    · exact .inl (if_pos zero)
    · exact .inr (if_neg zero)
  invalid := rfl
  fresh := rfl

/-- What is made of a line is a pair. -/
theorem isPair_parseLine {undefined : ℤ → ℤ} {line : Str} {le : LearnElement}
    (made : parseLine undefined line = some (some le)) : IsPair le := by
  unfold parseLine at made
  split at made
  · split at made
    · split at made
      · cases made
        exact isPair_requestElement _ _ _ _
      · cases made
    · cases made
  · cases made

/-- So is every element of the file. -/
theorem isPair_loadLines (undefined : ℤ → ℤ) (maxLineNum : ℤ) (stream : InStream) (lineNum : ℤ)
    {pairs : Pairs} (all : ∀ le ∈ pairs.elements, IsPair le) :
    ∀ le ∈ (loadLines undefined maxLineNum stream lineNum pairs).elements, IsPair le := by
  fun_induction loadLines undefined maxLineNum stream lineNum pairs with
  | case4 stream lineNum pairs more line after read good le made ih =>
    refine ih fun other listed => ?_
    cases le with
    | none => exact all other listed
    | some le =>
      rcases List.mem_append.mp listed with old | new
      · exact all other old
      · rw [List.mem_singleton.mp new]
        exact isPair_parseLine made
  | _ => exact all

theorem isPair_preparedElements (undefined : ℤ → ℤ) (file : Str) (maxLineNum : ℤ)
    (ngramsOf : Str → List ℤ) :
    ∀ le ∈ preparedElements undefined file maxLineNum ngramsOf, IsPair le := by
  intro le listed
  obtain ⟨read, member, rfl⟩ := List.mem_map.mp listed
  have pair : IsPair read :=
    isPair_loadLines undefined maxLineNum _ 0 (fun _ none => absurd none List.not_mem_nil) read
      member
  exact ⟨pair.docIds, pair.label, pair.invalid, pair.fresh⟩

/-- Nothing of a pair is lost when it is packed. -/
theorem unpacked_of_isPair {elements : List LearnElement} (pairs : ∀ le ∈ elements, IsPair le) :
    elements.map LearnElement.unpacked = elements := by
  refine (List.map_congr_left fun le listed => ?_).trans (List.map_id elements)
  obtain ⟨-, -, invalid, fresh⟩ := pairs le listed
  rw [LearnElement.unpacked, ← invalid, ← fresh]
  rfl

/-- **From a pairs file to the report of `check`.** Whatever the file, the documents that were
loaded, the function that was learned and the random numbers are: the loop returns; its counters
count the verdicts on the elements that were picked, and agree with each other; and the report is a
division by zero exactly if there was no verdict. -/
theorem check_report (undefined : ℤ → ℤ) (file : Str) (maxLineNum : ℤ) (ngramsOf : Str → List ℤ)
    (sorted : ∀ request, SortedNgrams (ngramsOf request)) (documents : List SimDoc)
    (loadable : Loadable documents) (learned : List ℤ → Answer) (rand : ℕ → ℕ) (num : ℤ) :
    ∃ loader checking,
      Loader.loadPacked documents
        (packElements (preparedElements undefined file maxLineNum ngramsOf)) = .ok loader ∧
      loader.check learned rand num = some checking ∧
      Reported (verdicts learned documents
        (preparedElements undefined file maxLineNum ngramsOf) [] (loader.picks rand num)) checking ∧
      Consistent (verdicts learned documents
        (preparedElements undefined file maxLineNum ngramsOf) [] (loader.picks rand num)) checking ∧
      (checking.report = none ↔ verdicts learned documents
        (preparedElements undefined file maxLineNum ngramsOf) [] (loader.picks rand num) = []) := by
  have pairs := isPair_preparedElements undefined file maxLineNum ngramsOf
  obtain ⟨checking, ran, checked⟩ := check_checked loadable pairs (fun le listed => by
    obtain ⟨read, -, rfl⟩ := List.mem_map.mp listed
    exact sorted read.request) learned rand num
  refine ⟨_, checking, ?_, ran, checked.reported, checked.consistent, ?_⟩
  · rw [loadPacked_packElements, unpacked_of_isPair pairs]
  · rw [← List.length_eq_zero_iff, Checking.report, ← checked.reported.total]
    split
    · exact iff_of_true rfl ‹_›
    · exact iff_of_false nofun ‹_›

/-- A file of one line, and its documents. -/
def onePair : Str := ['1', '\t', '2', '\t', '1', '\t', 'a', '\n']

def onePairDocuments : List SimDoc := [⟨1, [5, 7]⟩, ⟨2, [7]⟩]

/-- A function that knows samples of five numbers only. -/
def onePairLearned (sample : List ℤ) : Answer := if sample.length = 5 then .atLeast else .nan

theorem loadable_onePair : Loadable onePairDocuments where
  nonempty := List.cons_ne_nil _ _
  few := by decide
  sorted doc listed := by
    simp only [onePairDocuments, List.mem_cons, List.not_mem_nil, or_false] at listed
    rcases listed with rfl | rfl <;> simp [SortedNgrams]

/-- Its only element is picked. -/
theorem check_report_onePair :
    ∃ loader checking, Loader.loadPacked onePairDocuments
        (packElements (preparedElements id onePair 1 fun _ => [7])) = .ok loader ∧
      loader.check onePairLearned (fun _ => 0) 2 = some checking ∧
      Reported (verdicts onePairLearned onePairDocuments
        (preparedElements id onePair 1 fun _ => [7]) [] (loader.picks (fun _ => 0) 2))
        checking := by
  obtain ⟨loader, checking, loaded, ran, reported, -⟩ := check_report id onePair 1 (fun _ => [7])
    (fun _ => List.pairwise_singleton _ _) onePairDocuments loadable_onePair onePairLearned
    (fun _ => 0) 2
  exact ⟨loader, checking, loaded, ran, reported⟩

end Wookie
