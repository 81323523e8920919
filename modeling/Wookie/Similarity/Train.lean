/-
**From the packed elements to the learner: `loader::load` and `loader::train`.**

One program packs four fields of every learn element, another one reads them back and trains a
learner with the elements that are valid. Only `generate_features` makes an element valid.

* `unpackElements_packElements` — what is left of an element that was packed.
* `foldl_step_dl` — the balancing loop adds what `balance` selects from the valid elements.
* `train_balanced` — at no point more than twice as many negatives as positives.
* `trains_right_iff` — **training uses the data that was prepared** if and only if there is no
  positive element to be used.
* `trains_nothing` — one positive element and its two documents.
-/

import Wookie.Similarity.MakeElement

namespace Wookie

/-! ### `MSGPACK_DEFINE` -/

/-- `MSGPACK_DEFINE(doc_ids, label, request, req_ngrams)`: `msgpack_pack`. -/
def packElement (le : LearnElement) : Object :=
  .array [.array (le.docIds.map .integer), .integer le.label, .raw le.request,
    .array (le.reqNgrams.map .integer)]

/-- A field of an array. One that is missing keeps its default. -/
def convertField {α : Type} (convert : Object → Except ConvertError α) (default : α) :
    Option Object → Except ConvertError α
  | some object => convert object
  | none => .ok default

/-- `MSGPACK_DEFINE(doc_ids, label, request, req_ngrams)`: `msgpack_unpack`, into an element as its
constructor leaves it. -/
def convertElement : Object → Except ConvertError LearnElement
  | .array fields => do
    let docIds ← convertField convertInts LearnElement.new.docIds fields[0]?
    let label ← convertField convertInt LearnElement.new.label fields[1]?
    let request ← convertField convertString LearnElement.new.request fields[2]?
    let reqNgrams ← convertField convertInts LearnElement.new.reqNgrams fields[3]?
    return { LearnElement.new with docIds, label, request, reqNgrams }
  | _ => .error .type

/-- `msgpack::pack(&buffer, m_elements)` -/
def packElements (elements : List LearnElement) : DataPointer :=
  .packed (.array (elements.map packElement))

/-- `msg.get().convert(&m_elements)` -/
def unpackElements (data : DataPointer) : Except ConvertError (List LearnElement) :=
  (unpack data).bind fun
    | .array objects => objects.mapM convertElement
    | _ => .error .type

/-- What is left of an element: its validity and its features are not packed. -/
def LearnElement.unpacked (le : LearnElement) : LearnElement :=
  { le with valid := false, features := [] }

theorem convertElement_packElement (le : LearnElement) :
    convertElement (packElement le) = .ok le.unpacked := by
  have docIds := convertInts_map le.docIds
  have reqNgrams := convertInts_map le.reqNgrams
  simp only [packElement, convertElement, convertField, List.getElem?_cons_zero,
    List.getElem?_cons_succ, docIds, reqNgrams]
  rfl

/-- **What is left of elements that were packed.** -/
theorem unpackElements_packElements (elements : List LearnElement) :
    unpackElements (packElements elements) = .ok (elements.map LearnElement.unpacked) := by
  show (elements.map packElement).mapM convertElement = _
  induction elements with
  | nil => rfl
  | cons le rest ih =>
    rw [List.map_cons, List.mapM_cons, convertElement_packElement, ih]
    rfl

/-- `loader::load`, from the packed elements and the documents that were read. -/
def Loader.loadPacked (documents : List SimDoc) (data : DataPointer) :
    Except ConvertError Loader :=
  (unpackElements data).map (Loader.load documents)

/-! ### `train` -/

/-- `class dlib_learner`: `m_samples` and `m_labels`. -/
structure DlibLearner where
  samples : List (List ℤ)
  labels : List ℤ

/-- `dlib_learner::add_sample`. -/
def DlibLearner.addSample (dl : DlibLearner) (le : LearnElement) : DlibLearner :=
  if !le.valid then dl else ⟨dl.samples ++ [le.features], dl.labels ++ [le.label]⟩

/-- The variables of `train`. -/
structure Training where
  dl : DlibLearner
  positive : ℕ
  negative : ℕ
  invalid : ℕ

/-- One element. -/
def Training.step (training : Training) (le : LearnElement) : Training :=
  if !le.valid then { training with invalid := training.invalid + 1 }
  else if le.label > 0 then
    { training with positive := training.positive + 1, dl := training.dl.addSample le }
  else if training.negative < training.positive * 2 then
    { training with negative := training.negative + 1, dl := training.dl.addSample le }
  else training

/-- `loader::train`, up to `train_and_test`. -/
def Loader.train (loader : Loader) : Training :=
  loader.elements.foldl Training.step ⟨⟨[], []⟩, 0, 0, 0⟩

/-! ### What training is for -/

/-- A document with the id was loaded, and has n-grams. -/
def usable (documents : List SimDoc) (id : ℤ) : Bool :=
  documents.any fun doc => doc.id == id && !doc.ngrams.isEmpty

/-- Both documents of the element are usable. -/
def eligible (documents : List SimDoc) (le : LearnElement) : Bool :=
  match le.docIds with
  | id1 :: id2 :: _ => usable documents id1 && usable documents id2
  | _ => false

/-- **The elements to be added**: every positive one, and a negative one if there are fewer than
twice as many negatives as positives so far. -/
def balance (positive negative : ℕ) : List LearnElement → List LearnElement
  | [] => []
  | le :: rest =>
    if le.label > 0 then le :: balance (positive + 1) negative rest
    else if negative < 2 * positive then le :: balance positive (negative + 1) rest
    else balance positive negative rest

/-- The features of an element, from its two documents. -/
def IsSample (documents : List SimDoc) (le : LearnElement) (sample : List ℤ) : Prop :=
  ∃ d1 ∈ documents, ∃ d2 ∈ documents, le.docIds[0]? = some d1.id ∧ le.docIds[1]? = some d2.id ∧
    le.unpacked.generateFeatures d1 d2 =
      some (true, { le with features := sample, valid := true })

/-- No more than two negatives for each positive. -/
def Balanced (labels : List ℤ) : Prop :=
  labels.countP (· ≤ 0) ≤ 2 * labels.countP (0 < ·)

/-- **A learner that got the data that was prepared.** -/
structure TrainsRight (documents : List SimDoc) (elements : List LearnElement)
    (dl : DlibLearner) : Prop where
  labels : dl.labels = (balance 0 0 (elements.filter (eligible documents))).map (·.label)
  samples : List.Forall₂ (IsSample documents) (balance 0 0 (elements.filter (eligible documents)))
    dl.samples
  balanced : ∀ k, Balanced (dl.labels.take k)

/-! ### The loop -/

section Train

variable {documents : List SimDoc} {elements : List LearnElement}

/-- **The loop adds what `balance` selects** from the valid elements. -/
theorem foldl_step_dl (training : Training) (elements : List LearnElement) :
    (elements.foldl Training.step training).dl =
      let added := balance training.positive training.negative (elements.filter (·.valid))
      ⟨training.dl.samples ++ added.map (·.features),
        training.dl.labels ++ added.map (·.label)⟩ := by
  induction elements generalizing training with
  | nil => simp [balance]
  | cons le rest ih =>
    rw [List.foldl_cons, ih, Training.step]
    by_cases valid : le.valid
    · rw [List.filter_cons_of_pos valid]
      simp only [valid, Bool.not_true, Bool.false_eq_true, if_false, DlibLearner.addSample, balance,
        Nat.mul_comm training.positive]
      split
      · simp
      · split <;> simp
    · simp [valid]

theorem train_dl (loader : Loader) :
    loader.train.dl =
      let added := balance 0 0 (loader.elements.filter (·.valid))
      ⟨added.map (·.features), added.map (·.label)⟩ := foldl_step_dl _ _

/-- **At every point**, with a start that counts. -/
theorem balance_balanced {positive negative : ℕ} (start : negative ≤ 2 * positive)
    (elements : List LearnElement) (k : ℕ) :
    negative + (((balance positive negative elements).map (·.label)).take k).countP (· ≤ 0) ≤
      2 * (positive +
        (((balance positive negative elements).map (·.label)).take k).countP (0 < ·)) := by
  induction elements generalizing positive negative k with
  | nil => simpa [balance] using start
  | cons le rest ih =>
    cases k with
    | zero => simpa using start
    | succ k =>
      rw [balance]
      split
      next positive_ =>
        have after := ih (show negative ≤ 2 * (positive + 1) by omega) k
        have counts : 0 < le.label ∧ ¬ le.label ≤ 0 := ⟨positive_, not_le.mpr positive_⟩
        simp only [List.map_cons, List.take_succ_cons, List.countP_cons, counts, decide_true,
          decide_false, if_true, Bool.false_eq_true, if_false]
        omega
      next negative_ =>
        split
        · have after := ih (show negative + 1 ≤ 2 * positive by omega) k
          have counts : ¬ 0 < le.label ∧ le.label ≤ 0 := ⟨negative_, not_lt.mp negative_⟩
          simp only [List.map_cons, List.take_succ_cons, List.countP_cons, counts, decide_true,
            decide_false, if_true, Bool.false_eq_true, if_false]
          omega
        · exact ih start (k + 1)

/-- Every positive element is selected. -/
theorem mem_balance {le : LearnElement} (listed : le ∈ elements) (positive_ : le.label > 0)
    (positive negative : ℕ) : le ∈ balance positive negative elements := by
  induction elements generalizing positive negative with
  | nil => cases listed
  | cons first rest ih =>
    rw [balance]
    rcases List.mem_cons.mp listed with rfl | later
    · rw [if_pos positive_]
      exact List.mem_cons_self
    · split
      · exact List.mem_cons_of_mem _ (ih later _ _)
      · split
        · exact List.mem_cons_of_mem _ (ih later _ _)
        · exact ih later _ _

/-- No negative one is, before the first positive one. -/
theorem balance_eq_nil_iff :
    balance 0 0 elements = [] ↔ ∀ le ∈ elements, ¬ le.label > 0 := by
  constructor
  · intro nothing le listed positive
    have selected := mem_balance listed positive 0 0
    rw [nothing] at selected
    cases selected
  · intro none
    induction elements with
    | nil => rfl
    | cons le rest ih =>
      rw [balance, if_neg (none le List.mem_cons_self), if_neg (by decide)]
      exact ih fun other listed => none other (List.mem_cons_of_mem _ listed)

/-- **`train` never adds more than two negatives for a positive**, at any point. -/
theorem train_balanced (loader : Loader) (k : ℕ) : Balanced (loader.train.dl.labels.take k) := by
  have counted := balance_balanced (Nat.zero_le (2 * 0)) (loader.elements.filter (·.valid)) k
  rw [Nat.zero_add, Nat.zero_add] at counted
  rw [train_dl]
  exact counted

/-- **Elements that were packed train nothing.** -/
theorem train_unpacked (documents : List SimDoc) (elements : List LearnElement) :
    (Loader.load documents (elements.map LearnElement.unpacked)).train.dl = ⟨[], []⟩ := by
  have invalid : (elements.map LearnElement.unpacked).filter (·.valid) = [] := by
    rw [List.filter_map, List.map_eq_nil_iff, List.filter_eq_nil_iff]
    exact fun _ _ valid => (nomatch valid)
  simp only [train_dl, Loader.load, invalid]
  rfl

/-- What was packed can be loaded. -/
theorem loadPacked_packElements (documents : List SimDoc) (elements : List LearnElement) :
    Loader.loadPacked documents (packElements elements) =
      .ok (Loader.load documents (elements.map LearnElement.unpacked)) := by
  rw [Loader.loadPacked, unpackElements_packElements]
  rfl

/-- A learner without samples got what was prepared, if nothing was. -/
theorem trainsRight_unpacked_iff :
    TrainsRight documents elements
      (Loader.load documents (elements.map LearnElement.unpacked)).train.dl ↔
      ∀ le ∈ elements, le.label > 0 → eligible documents le = false := by
  have nothing : balance 0 0 (elements.filter (eligible documents)) = [] ↔
      ∀ le ∈ elements, le.label > 0 → eligible documents le = false := by
    rw [balance_eq_nil_iff]
    constructor
    · intro none le listed positive
      by_contra used
      exact none le (List.mem_filter.mpr ⟨listed, Bool.eq_true_of_not_eq_false used⟩) positive
    · intro unused le listed positive
      obtain ⟨member, used⟩ := List.mem_filter.mp listed
      rw [unused le member positive] at used
      cases used
  rw [← nothing]
  constructor
  · intro right
    have labels := right.labels
    rw [train_unpacked] at labels
    exact List.map_eq_nil_iff.mp labels.symm
  · intro empty
    refine ⟨?_, ?_, train_balanced _⟩
    · rw [train_unpacked, empty]
      rfl
    · rw [train_unpacked, empty]
      exact .nil

end Train

/-- **Training uses the data that was prepared**, for every list of elements that was packed and
every list of documents that was loaded, if and only if no positive element has two documents with
n-grams. Without one, there is nothing to add. -/
theorem trains_right_iff (documents : List SimDoc) (elements : List LearnElement) :
    (∃ loader, Loader.loadPacked documents (packElements elements) = .ok loader ∧
      TrainsRight documents elements loader.train.dl) ↔
      ∀ le ∈ elements, le.label > 0 → eligible documents le = false := by
  rw [← trainsRight_unpacked_iff, loadPacked_packElements]
  constructor
  · rintro ⟨_, ⟨⟩, right⟩
    exact right
  · exact fun right => ⟨_, rfl, right⟩

/-- **One positive element and its two documents**: the learner gets nothing. -/
theorem trains_nothing :
    ¬ ∃ loader, Loader.loadPacked [⟨1, [5]⟩, ⟨2, [5]⟩]
        (packElements [{ LearnElement.new with docIds := [1, 2], label := 1 }]) = .ok loader ∧
      TrainsRight [⟨1, [5]⟩, ⟨2, [5]⟩] [{ LearnElement.new with docIds := [1, 2], label := 1 }]
        loader.train.dl := by
  rintro ⟨loader, loaded, right⟩
  rw [loadPacked_packElements] at loaded
  cases loaded
  exact absurd (trainsRight_unpacked_iff.mp right _ List.mem_cons_self (by decide)) (by decide)

end Wookie
