/-
**Learn elements and their features: `learn_element` and `loader::make_element`.**

`generate_features` appends five sizes to the element's `features`; `make_element` looks up the two
documents that the element names and generates its features. The loader keeps its elements, and
`check` picks the same one again and again.

* `generateFeatures_eq` — what one call does, where the n-gram vectors are sorted.
* `features_right_iff` — five sizes are appended to nothing, and fit an `int`, or the features are
  wrong.
* `features_repeatable_iff` — **in a run of calls every successful one leaves the element with its
  five numbers, and every failed one leaves it alone, if and only if each time the features are
  empty and the n-gram vectors shorter than `2 ^ 31`.**
* `features_repeated` — the same element, twice.
-/

import Std.Data.TreeMap.Lemmas
import Wookie.Library.Calls
import Wookie.Search.Split
import Wookie.Similarity.Ngrams

namespace Wookie

open Library

/-! ### `learn_element` -/

/-- `struct simdoc`, as far as features go. -/
structure SimDoc where
  id : ℤ
  ngrams : List ℤ

/-- `struct learn_element`. -/
structure LearnElement where
  docIds : List ℤ
  request : Str
  reqNgrams : List ℤ
  label : ℤ
  valid : Bool
  features : List ℤ

/-- `learn_element::learn_element()`. -/
def LearnElement.new : LearnElement := ⟨[], [], [], -1, false, []⟩

/-- A `size_t` that is pushed into a vector of `int`. -/
def sizeToInt (size : ℕ) : ℤ := (BitVec.ofNat 32 size).toInt

/-- `learn_element::generate_features`: what it returns, and the element. `none` if `intersect`
writes behind the end of its buffer. -/
def LearnElement.generateFeatures (le : LearnElement) (d1 d2 : SimDoc) :
    Option (Bool × LearnElement) :=
  let f := d1.ngrams
  let s := d2.ngrams
  if f.length = 0 ∨ s.length = 0 then some (false, le)
  else do
    let features := le.features ++ [sizeToInt f.length] ++ [sizeToInt s.length]
    let inter ← intersect f s
    let features := features ++ [sizeToInt inter.length] ++ [sizeToInt le.reqNgrams.length]
    let both ← intersect inter le.reqNgrams
    return (true, { le with features := features ++ [sizeToInt both.length], valid := true })

/-! ### `loader` -/

/-- `class loader`, as far as `make_element` goes. A position in `m_id_position` is the `int` of the
source as it is used for an index. -/
structure Loader where
  documents : List SimDoc
  elements : List LearnElement
  idPosition : Std.TreeMap ℤ ℕ

/-- `m_id_position[id]`: an id that is not there is inserted with position zero. -/
def subscript (idPosition : Std.TreeMap ℤ ℕ) (id : ℤ) : ℕ × Std.TreeMap ℤ ℕ :=
  match idPosition[id]? with
  | some pos => (pos, idPosition)
  | none => (0, idPosition.insert id 0)

/-- The first lines of `make_element`: the two documents, and `m_id_position` after the look-ups.
`none` if it reads behind the end of `doc_ids` or `m_documents`. -/
def Loader.lookUp (loader : Loader) (le : LearnElement) :
    Option ((SimDoc × SimDoc) × Std.TreeMap ℤ ℕ) := do
  let (pos1, idPosition) := subscript loader.idPosition (← le.docIds[0]?)
  let (pos2, idPosition) := subscript idPosition (← le.docIds[1]?)
  return ((← loader.documents[pos1]?, ← loader.documents[pos2]?), idPosition)

/-- The calls on an element of the loader. -/
inductive ElementCall
  /-- `m_elements[lepos].generate_features(d1, d2)` -/
  | generateFeatures (lepos : ℕ) (d1 d2 : SimDoc)
  /-- `make_element(m_elements[lepos])` -/
  | makeElement (lepos : ℕ)

/-- The place of the element. -/
def ElementCall.lepos : ElementCall → ℕ
  | .generateFeatures lepos _ _ => lepos
  | .makeElement lepos => lepos

/-- The documents of the call, and `m_id_position` after it. -/
def Loader.documentsOf (loader : Loader) (le : LearnElement) :
    ElementCall → Option ((SimDoc × SimDoc) × Std.TreeMap ℤ ℕ)
  | .generateFeatures _ d1 d2 => some ((d1, d2), loader.idPosition)
  | .makeElement _ => loader.lookUp le

/-- A call: what it returns, and the loader. `none` if it reads or writes outside of a vector. -/
def Loader.call (loader : Loader) (call : ElementCall) : Option (Bool × Loader) := do
  let le ← loader.elements[call.lepos]?
  let ((d1, d2), idPosition) ← loader.documentsOf le call
  let (success, le) ← le.generateFeatures d1 d2
  return (success, { loader with elements := loader.elements.set call.lepos le, idPosition })

/-! ### What one call does -/

/-- The sizes that describe two documents and a request. -/
def sizes (d1 d2 : SimDoc) (reqNgrams : List ℤ) : List ℕ :=
  [d1.ngrams.toFinset.card, d2.ngrams.toFinset.card, (d1.ngrams.toFinset ∩ d2.ngrams.toFinset).card,
    reqNgrams.toFinset.card, (d1.ngrams.toFinset ∩ d2.ngrams.toFinset ∩ reqNgrams.toFinset).card]

/-- An n-gram vector, as `generate_ngrams` makes it. -/
def SortedNgrams (ngrams : List ℤ) : Prop := ngrams.Pairwise (· < ·)

theorem SortedNgrams.card {ngrams : List ℤ} (sorted : SortedNgrams ngrams) :
    ngrams.toFinset.card = ngrams.length :=
  List.toFinset_card_of_nodup (sorted.imp fun less => less.ne)

theorem toFinset_common (f s : List ℤ) : (common f s).toFinset = f.toFinset ∩ s.toFinset := by
  ext x
  rw [List.mem_toFinset, mem_common, Finset.mem_inter, List.mem_toFinset, List.mem_toFinset]

/-- **What `generate_features` does** with sorted vectors. -/
theorem generateFeatures_eq {le : LearnElement} {d1 d2 : SimDoc} (sorted : SortedNgrams d1.ngrams)
    (sorted' : SortedNgrams d2.ngrams) (sortedReq : SortedNgrams le.reqNgrams) :
    le.generateFeatures d1 d2 =
      if d1.ngrams = [] ∨ d2.ngrams = [] then some (false, le)
      else some (true, { le with
        features := le.features ++ (sizes d1 d2 le.reqNgrams).map sizeToInt, valid := true }) := by
  have once : SortedNgrams (common d1.ngrams d2.ngrams) := common_pairwise sorted
  have twice : SortedNgrams (common (common d1.ngrams d2.ngrams) le.reqNgrams) :=
    common_pairwise once
  have listed : (sizes d1 d2 le.reqNgrams).map sizeToInt =
      [sizeToInt d1.ngrams.length, sizeToInt d2.ngrams.length,
        sizeToInt (common d1.ngrams d2.ngrams).length, sizeToInt le.reqNgrams.length,
        sizeToInt (common (common d1.ngrams d2.ngrams) le.reqNgrams).length] := by
    rw [sizes, ← toFinset_common, ← toFinset_common, sorted.card, sorted'.card, sortedReq.card,
      once.card, twice.card]
    rfl
  dsimp only [LearnElement.generateFeatures]
  rw [intersect_eq sorted sorted']
  simp only [List.length_eq_zero_iff, Option.bind_eq_bind, Option.bind_some]
  rw [intersect_eq once sortedReq, listed]
  simp only [Option.bind_some, List.append_assoc, List.cons_append, List.nil_append]
  rfl

/-- A size is pushed as it is, below `2 ^ 31`. -/
theorem sizeToInt_eq_iff (size : ℕ) : sizeToInt size = size ↔ size < 2 ^ 31 := by
  rw [sizeToInt, BitVec.toInt_eq_toNat_cond, BitVec.toNat_ofNat]
  constructor
  · intro same
    split at same <;> omega
  · intro small
    split <;> omega

/-- The vectors of the call are short enough. -/
structure Short (d1 d2 : SimDoc) (reqNgrams : List ℤ) : Prop where
  first : d1.ngrams.length < 2 ^ 31
  second : d2.ngrams.length < 2 ^ 31
  req : reqNgrams.length < 2 ^ 31

/-- **The features are right** if and only if the sizes are appended to nothing, and fit. -/
theorem features_right_iff {d1 d2 : SimDoc} {reqNgrams features : List ℤ}
    (sorted : SortedNgrams d1.ngrams) (sorted' : SortedNgrams d2.ngrams)
    (sortedReq : SortedNgrams reqNgrams) :
    features ++ (sizes d1 d2 reqNgrams).map sizeToInt = (sizes d1 d2 reqNgrams).map Nat.cast ↔
      features = [] ∧ Short d1 d2 reqNgrams := by
  have inter : (d1.ngrams.toFinset ∩ d2.ngrams.toFinset).card ≤ d1.ngrams.toFinset.card :=
    Finset.card_le_card Finset.inter_subset_left
  have both : (d1.ngrams.toFinset ∩ d2.ngrams.toFinset ∩ reqNgrams.toFinset).card ≤
      reqNgrams.toFinset.card := Finset.card_le_card Finset.inter_subset_right
  have fit : (sizes d1 d2 reqNgrams).map sizeToInt = (sizes d1 d2 reqNgrams).map Nat.cast ↔
      Short d1 d2 reqNgrams := by
    rw [List.map_inj_left]
    simp only [sizeToInt_eq_iff, sizes, List.mem_cons, List.not_mem_nil, or_false,
      forall_eq_or_imp, forall_eq]
    rw [sorted.card, sorted'.card, sortedReq.card] at *
    constructor
    · rintro ⟨first, second, -, req, -⟩
      exact ⟨first, second, req⟩
    · rintro ⟨first, second, req⟩
      exact ⟨first, second, inter.trans_lt first, req, both.trans_lt req⟩
  rw [← fit]
  constructor
  · intro same
    have length := congrArg List.length same
    simp only [List.length_append, List.length_map] at length
    have empty : features = [] := List.length_eq_zero_iff.mp (by omega)
    subst empty
    exact ⟨rfl, same⟩
  · rintro ⟨rfl, same⟩
    exact same

/-! ### Runs of calls -/

/-- A call, from its parts. -/
theorem call_eq {loader : Loader} {call : ElementCall} {le le' : LearnElement} {d1 d2 : SimDoc}
    {idPosition : Std.TreeMap ℤ ℕ} {success : Bool}
    (held : loader.elements[call.lepos]? = some le)
    (documents : loader.documentsOf le call = some ((d1, d2), idPosition))
    (generated : le.generateFeatures d1 d2 = some (success, le')) :
    loader.call call = some (success,
      { loader with elements := loader.elements.set call.lepos le', idPosition }) := by
  simp only [Loader.call, held, documents, generated, Option.bind_eq_bind, Option.bind_some]
  rfl

/-- **What a call did** that returned. -/
theorem call_cases {loader loader' : Loader} {call : ElementCall} {success : Bool}
    (called : loader.call call = some (success, loader')) :
    ∃ le le' d1 d2 idPosition, loader.elements[call.lepos]? = some le ∧
      loader.documentsOf le call = some ((d1, d2), idPosition) ∧
      le.generateFeatures d1 d2 = some (success, le') ∧
      loader' = { loader with elements := loader.elements.set call.lepos le', idPosition } := by
  obtain ⟨le, held, called⟩ := Option.bind_eq_some_iff.mp called
  obtain ⟨⟨⟨d1, d2⟩, idPosition⟩, documents, called⟩ := Option.bind_eq_some_iff.mp called
  obtain ⟨⟨returned, le'⟩, generated, called⟩ := Option.bind_eq_some_iff.mp called
  cases called
  exact ⟨le, le', d1, d2, idPosition, held, documents, generated, rfl⟩

/-- The documents that `make_element` looks up are loaded ones. -/
theorem lookUp_mem {loader : Loader} {le : LearnElement} {d1 d2 : SimDoc}
    {idPosition : Std.TreeMap ℤ ℕ} (found : loader.lookUp le = some ((d1, d2), idPosition)) :
    d1 ∈ loader.documents ∧ d2 ∈ loader.documents := by
  obtain ⟨first, -, found⟩ := Option.bind_eq_some_iff.mp found
  obtain ⟨second, -, found⟩ := Option.bind_eq_some_iff.mp found
  obtain ⟨doc, held, found⟩ := Option.bind_eq_some_iff.mp found
  obtain ⟨doc', held', found⟩ := Option.bind_eq_some_iff.mp found
  cases found
  exact ⟨List.mem_of_getElem? held, List.mem_of_getElem? held'⟩

/-- The n-gram vectors come from `generate_ngrams`. -/
structure Loader.Sorted (loader : Loader) : Prop where
  documents : ∀ doc ∈ loader.documents, SortedNgrams doc.ngrams
  elements : ∀ le ∈ loader.elements, SortedNgrams le.reqNgrams

/-- So do those of the documents of a call. -/
def ElementCall.Sorted : ElementCall → Prop
  | .generateFeatures _ d1 d2 => SortedNgrams d1.ngrams ∧ SortedNgrams d2.ngrams
  | .makeElement _ => True

theorem Loader.Sorted.documentsOf {loader : Loader} (sorted : loader.Sorted) {call : ElementCall}
    (sortedCall : call.Sorted) {le : LearnElement} {d1 d2 : SimDoc} {idPosition : Std.TreeMap ℤ ℕ}
    (documents : loader.documentsOf le call = some ((d1, d2), idPosition)) :
    SortedNgrams d1.ngrams ∧ SortedNgrams d2.ngrams := by
  cases call with
  | generateFeatures lepos first second =>
    cases documents
    exact sortedCall
  | makeElement lepos =>
    obtain ⟨first, second⟩ := lookUp_mem documents
    exact ⟨sorted.documents d1 first, sorted.documents d2 second⟩

/-- A call keeps the requests of the elements. -/
theorem generateFeatures_reqNgrams {le le' : LearnElement} {d1 d2 : SimDoc} {success : Bool}
    (generated : le.generateFeatures d1 d2 = some (success, le')) :
    le'.reqNgrams = le.reqNgrams := by
  dsimp only [LearnElement.generateFeatures] at generated
  split at generated
  · cases generated
    rfl
  · obtain ⟨inter, -, generated⟩ := Option.bind_eq_some_iff.mp generated
    obtain ⟨both, -, generated⟩ := Option.bind_eq_some_iff.mp generated
    cases generated
    rfl

theorem Loader.Sorted.call {loader loader' : Loader} (sorted : loader.Sorted) {call : ElementCall}
    {success : Bool} (called : loader.call call = some (success, loader')) : loader'.Sorted := by
  obtain ⟨le, le', d1, d2, idPosition, held, -, generated, rfl⟩ := call_cases called
  refine ⟨sorted.documents, fun other listed => ?_⟩
  rcases List.mem_or_eq_of_mem_set listed with old | rfl
  · exact sorted.elements other old
  · rw [generateFeatures_reqNgrams generated]
    exact sorted.elements le (List.mem_of_getElem? held)

/-- One call of a run. After one that reads or writes outside of a vector there is no loader. -/
def Loader.step (state : Option Loader) (call : ElementCall) : Option Loader :=
  state.bind fun loader => (loader.call call).map Prod.snd

/-- **What a call should do**: a successful one leaves the five numbers of its documents, a failed
one leaves features and validity alone. -/
def FeaturesRight (state : Option Loader) (call : ElementCall) : Prop :=
  ∀ loader success loader', state = some loader → loader.call call = some (success, loader') →
    ∃ le le', loader.elements[call.lepos]? = some le ∧ loader'.elements[call.lepos]? = some le' ∧
      (success = true → ∃ d1 d2 idPosition,
        loader.documentsOf le call = some ((d1, d2), idPosition) ∧
        le'.features = (sizes d1 d2 le.reqNgrams).map Nat.cast) ∧
      (success = false → le'.features = le.features ∧ le'.valid = le.valid)

/-- The element has no features yet, where there are n-grams to compare, and the vectors are short.
-/
def FreshAndShort (state : Option Loader) (call : ElementCall) : Prop :=
  ∀ loader le d1 d2 idPosition, state = some loader → loader.elements[call.lepos]? = some le →
    loader.documentsOf le call = some ((d1, d2), idPosition) →
    d1.ngrams ≠ [] → d2.ngrams ≠ [] → le.features = [] ∧ Short d1 d2 le.reqNgrams

/-- **One call is right** if and only if it finds what it needs. -/
theorem featuresRight_iff {state : Option Loader} {call : ElementCall}
    (sorted : ∀ loader ∈ state, loader.Sorted) (sortedCall : call.Sorted) :
    FeaturesRight state call ↔ FreshAndShort state call := by
  constructor
  · intro right loader le d1 d2 idPosition at_ held documents some some'
    obtain ⟨first, second⟩ := (sorted loader at_).documentsOf sortedCall documents
    have sortedReq := (sorted loader at_).elements le (List.mem_of_getElem? held)
    have generated := generateFeatures_eq first second sortedReq
    rw [if_neg (by tauto)] at generated
    obtain ⟨le₀, le', held', after, success, -⟩ :=
      right loader _ _ at_ (call_eq held documents generated)
    cases held.symm.trans held'
    obtain ⟨d1', d2', idPosition', documents', same⟩ := success rfl
    cases documents.symm.trans documents'
    rw [List.getElem?_set_self (List.getElem?_eq_some_iff.mp held).1] at after
    cases after
    exact (features_right_iff first second sortedReq).mp same
  · intro fresh loader success loader' at_ called
    obtain ⟨le, le', d1, d2, idPosition, held, documents, generated, rfl⟩ := call_cases called
    obtain ⟨first, second⟩ := (sorted loader at_).documentsOf sortedCall documents
    have sortedReq := (sorted loader at_).elements le (List.mem_of_getElem? held)
    refine ⟨le, le', held, List.getElem?_set_self (List.getElem?_eq_some_iff.mp held).1, ?_, ?_⟩
    · rintro rfl
      rw [generateFeatures_eq first second sortedReq] at generated
      split at generated
      · cases generated
      · rename_i several
        cases generated
        refine ⟨d1, d2, idPosition, documents, ?_⟩
        rw [features_right_iff first second sortedReq]
        exact fresh loader le d1 d2 idPosition at_ held documents (by tauto) (by tauto)
    · rintro rfl
      rw [generateFeatures_eq first second sortedReq] at generated
      split at generated
      · cases generated
        exact ⟨rfl, rfl⟩
      · cases generated

/-- **A run of calls on the elements of a loader** leaves every element as it should, call by call,
if and only if each time the features are empty and the vectors short. -/
theorem features_repeatable_iff {loader : Loader} (sorted : loader.Sorted)
    {calls : List ElementCall} (sortedCalls : ∀ call ∈ calls, call.Sorted) :
    EachCall Loader.step FeaturesRight (some loader) calls ↔
      EachCall Loader.step FreshAndShort (some loader) calls := by
  refine eachCall_iff (fun state => ∀ loader ∈ state, loader.Sorted)
    (fun state call _ held loader' after => ?_)
    (fun state call listed held => featuresRight_iff held (sortedCalls call listed)) ?_
  · obtain ⟨before, at_, called⟩ := Option.bind_eq_some_iff.mp after
    obtain ⟨⟨success, _⟩, returned, rfl⟩ := Option.map_eq_some_iff.mp called
    exact (held before at_).call returned
  · rintro _ ⟨⟩
    exact sorted

/-- Two documents that share one n-gram, and an element about them. -/
def pair : Loader where
  documents := [⟨1, [5, 7]⟩, ⟨2, [7]⟩]
  elements := [{ LearnElement.new with docIds := [1, 2], reqNgrams := [7] }]
  idPosition := (∅ : Std.TreeMap ℤ ℕ).insert 1 0 |>.insert 2 1

theorem pair_sorted : pair.Sorted := by
  refine ⟨fun doc listed => ?_, fun le listed => ?_⟩
  · simp only [pair, List.mem_cons, List.not_mem_nil, or_false] at listed
    rcases listed with rfl | rfl <;> simp [SortedNgrams]
  · rw [List.mem_singleton.mp listed]
    exact List.pairwise_singleton _ _

/-- One call. -/
theorem features_repeatable_iff_once :
    EachCall Loader.step FeaturesRight (some pair) [.makeElement 0] := by
  refine (features_repeatable_iff pair_sorted fun call listed => ?_).mpr ⟨?_, trivial⟩
  · rw [List.mem_singleton.mp listed]
    trivial
  · rintro _ le d1 d2 idPosition ⟨⟩ held documents - -
    cases held
    cases documents
    exact ⟨rfl, by decide, by decide, by decide⟩

/-- **The same element twice.** -/
theorem features_repeated :
    ¬ EachCall Loader.step FeaturesRight (some pair) [.makeElement 0, .makeElement 0] := by
  rintro ⟨-, again, -⟩
  have sorted : SortedNgrams [5, 7] ∧ SortedNgrams [7] := by simp [SortedNgrams]
  let le := { LearnElement.new with docIds := [1, 2], reqNgrams := [7] }
  have generated : le.generateFeatures ⟨1, [5, 7]⟩ ⟨2, [7]⟩ = _ :=
    generateFeatures_eq sorted.1 sorted.2 sorted.2
  rw [if_neg (by simp)] at generated
  have called : pair.call (.makeElement 0) = _ := call_eq rfl rfl generated
  have after : Loader.step (some pair) (.makeElement 0) = some _ :=
    congrArg (Option.map Prod.snd) called
  have sorted_ : ∀ loader ∈ Loader.step (some pair) (.makeElement 0), loader.Sorted := by
    rw [after]
    rintro _ ⟨⟩
    exact pair_sorted.call called
  rw [after] at again sorted_
  have sortedCall : (ElementCall.makeElement 0).Sorted := trivial
  have fresh := (featuresRight_iff sorted_ sortedCall).mp again
  obtain ⟨empty, -⟩ := fresh _ _ _ _ _ rfl rfl rfl (by simp) (by simp)
  exact absurd empty (by simp [le, LearnElement.new, sizes])

end Wookie
