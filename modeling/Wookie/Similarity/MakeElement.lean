/-
**Which documents `make_element` compares.**

`load` keeps the documents in the order in which they were read, and their positions by id;
`make_element` looks up two positions with `operator []`, which makes up position zero for an id
that it does not know.

* `lookedUp_iff` — which document a look-up leads to.
* `call_lookedUp` — a call, in terms of the documents that it finds.
* `makes_right_iff` — **a sequence of calls never compares the wrong documents** if and only if
  each of them finds the documents of its element, or documents without n-grams.
* `makes_wrong` — an element of a document that was not loaded.
-/

import Wookie.Similarity.LearnElement

namespace Wookie

open Library

/-! ### `load` -/

/-- A position, after it was kept as an `int` and used as an index. -/
def indexOf (i : ℕ) : ℕ := ((BitVec.ofNat 32 i).signExtend 64).toNat

/-- The loop of `load` over `m_documents`: `m_id_position[doc.id] = i`. -/
def idPositions (documents : List SimDoc) : Std.TreeMap ℤ ℕ :=
  documents.zipIdx.foldl (fun idPosition (doc, i) => idPosition.insert doc.id (indexOf i)) ∅

/-- `loader::load`: the documents in the order in which `result_callback` got them. -/
def Loader.load (documents : List SimDoc) (elements : List LearnElement) : Loader :=
  ⟨documents, elements, idPositions documents⟩

/-- The last document with the id. -/
structure LastAt (documents : List SimDoc) (id : ℤ) (i : ℕ) : Prop where
  held : ∃ doc, documents[i]? = some doc ∧ doc.id = id
  last : ∀ j doc, documents[j]? = some doc → doc.id = id → j ≤ i

/-- **The document that is read for an id.** -/
inductive LookedUp (documents : List SimDoc) (id : ℤ) : SimDoc → Prop
  /-- The one at the position of the last document with the id, as far as it fits an `int`. -/
  | loaded {i : ℕ} {doc : SimDoc} (last : LastAt documents id i)
      (held : documents[indexOf i]? = some doc) : LookedUp documents id doc
  /-- The first document of all: there is none with the id. -/
  | missing {doc : SimDoc} (unknown : ∀ doc ∈ documents, doc.id ≠ id)
      (held : documents[0]? = some doc) : LookedUp documents id doc

section Load

variable {documents : List SimDoc} {id : ℤ}

theorem idPositions_append (documents : List SimDoc) (doc : SimDoc) :
    idPositions (documents ++ [doc]) =
      (idPositions documents).insert doc.id (indexOf documents.length) := by
  rw [idPositions, List.zipIdx_append, List.foldl_append, Nat.zero_add]
  rfl

theorem LastAt.unique {i j : ℕ} (last : LastAt documents id i) (last' : LastAt documents id j) :
    i = j := by
  obtain ⟨doc, held, named⟩ := last.held
  obtain ⟨doc', held', named'⟩ := last'.held
  exact Nat.le_antisymm (last'.last i doc held named) (last.last j doc' held' named')

/-- One more document: the last one, or as before. -/
theorem LastAt.append {i : ℕ} {doc : SimDoc} (differs : doc.id ≠ id)
    (last : LastAt documents id i) : LastAt (documents ++ [doc]) id i := by
  obtain ⟨held, named, same⟩ := last.held
  refine ⟨⟨held, ?_, same⟩, fun j other at_ named' => ?_⟩
  · rw [List.getElem?_append_left (List.getElem?_eq_some_iff.mp named).1, named]
  · rcases Nat.lt_or_ge j documents.length with inside | behind
    · rw [List.getElem?_append_left inside] at at_
      exact last.last j other at_ named'
    · rw [List.getElem?_append_right behind, List.getElem?_singleton] at at_
      split at at_
      · cases at_
        exact absurd named' differs
      · cases at_

/-- **What `load` leaves**: the position of the last document with the id, if there is one. -/
theorem idPositions_spec (documents : List SimDoc) (id : ℤ) :
    (∃ i, LastAt documents id i ∧ (idPositions documents)[id]? = some (indexOf i)) ∨
      (∀ doc ∈ documents, doc.id ≠ id) ∧ (idPositions documents)[id]? = none := by
  induction documents using List.reverseRecOn with
  | nil => exact .inr ⟨fun _ listed => absurd listed List.not_mem_nil, rfl⟩
  | append_singleton documents doc ih =>
    rw [idPositions_append, Std.TreeMap.getElem?_insert]
    by_cases same : doc.id = id
    · refine .inl ⟨documents.length, ⟨⟨doc, ?_, same⟩, fun j other at_ _ => ?_⟩, ?_⟩
      · rw [List.getElem?_concat_length]
      · have bound := (List.getElem?_eq_some_iff.mp at_).1
        rw [List.length_append, List.length_singleton] at bound
        exact Nat.lt_succ_iff.mp bound
      · rw [if_pos (compare_eq_iff_eq.mpr same)]
    · rw [if_neg fun equal => same (compare_eq_iff_eq.mp equal)]
      rcases ih with ⟨i, last, found⟩ | ⟨unknown, nothing⟩
      · exact .inl ⟨i, last.append same, found⟩
      · refine .inr ⟨fun other listed => ?_, nothing⟩
        rcases List.mem_append.mp listed with old | new
        · exact unknown other old
        · rwa [List.mem_singleton.mp new]

/-- **Which document a look-up leads to.** -/
theorem lookedUp_iff {doc : SimDoc} :
    LookedUp documents id doc ↔ documents[(idPositions documents)[id]?.getD 0]? = some doc := by
  rcases idPositions_spec documents id with ⟨i, last, found⟩ | ⟨unknown, nothing⟩
  · rw [found, Option.getD_some]
    constructor
    · rintro (⟨last', held⟩ | ⟨unknown, -⟩)
      · rwa [last.unique last']
      · obtain ⟨other, held, named⟩ := last.held
        exact absurd named (unknown other (List.mem_of_getElem? held))
    · exact .loaded last
  · rw [nothing, Option.getD_none]
    constructor
    · rintro (⟨last, -⟩ | ⟨-, held⟩)
      · obtain ⟨other, held, named⟩ := last.held
        exact absurd named (unknown other (List.mem_of_getElem? held))
      · exact held
    · exact .missing unknown

end Load

/-! ### One call -/

section Call

variable {documents : List SimDoc} {elements : List LearnElement} {loader loader' : Loader}
  {le : LearnElement} {d1 d2 : SimDoc} {idPosition : Std.TreeMap ℤ ℕ} {lepos : ℕ} {success : Bool}

theorem subscript_fst (idPosition : Std.TreeMap ℤ ℕ) (id : ℤ) :
    (subscript idPosition id).1 = idPosition[id]?.getD 0 := by
  rw [subscript]
  split <;> simp [*]

/-- What `operator []` inserts is what it would have returned. -/
theorem getD_subscript (idPosition : Std.TreeMap ℤ ℕ) (id other : ℤ) :
    (subscript idPosition id).2[other]?.getD 0 = idPosition[other]?.getD 0 := by
  rw [subscript]
  split
  · rfl
  next nothing =>
    rw [Std.TreeMap.getElem?_insert]
    split
    next same => rw [← compare_eq_iff_eq.mp same, nothing]; rfl
    · rfl

theorem generateFeatures_empty (le : LearnElement) (empty : d1.ngrams = [] ∨ d2.ngrams = []) :
    le.generateFeatures d1 d2 = some (false, le) := by
  dsimp only [LearnElement.generateFeatures]
  rw [if_pos (by simpa only [List.length_eq_zero_iff] using empty)]

/-- Documents with n-grams make a valid element. -/
theorem generateFeatures_nonempty (le : LearnElement) (several : d1.ngrams ≠ [] ∧ d2.ngrams ≠ []) :
    ∃ features, le.generateFeatures d1 d2 = some (true, { le with features, valid := true }) := by
  obtain ⟨inter, first⟩ := intersect_within d1.ngrams d2.ngrams
  obtain ⟨both, second⟩ := intersect_within inter le.reqNgrams
  dsimp only [LearnElement.generateFeatures]
  rw [if_neg (by simpa only [List.length_eq_zero_iff, not_or] using several), first]
  simp only [Option.bind_eq_bind, Option.bind_some]
  rw [second]
  exact ⟨_, rfl⟩

/-- The two look-ups of a call, in a map that knows some ids. -/
theorem lookUp_eq {id1 id2 : ℤ} {rest : List ℤ} (ids : le.docIds = id1 :: id2 :: rest)
    (first : loader.documents[loader.idPosition[id1]?.getD 0]? = some d1)
    (second : loader.documents[loader.idPosition[id2]?.getD 0]? = some d2) :
    loader.lookUp le =
      some ((d1, d2), (subscript (subscript loader.idPosition id1).2 id2).2) := by
  rw [← subscript_fst] at first
  rw [← getD_subscript _ id1, ← subscript_fst] at second
  simp only [Loader.lookUp, ids, List.getElem?_cons_zero, List.getElem?_cons_succ,
    Option.bind_eq_bind, Option.bind_some, first, second]
  rfl

/-- **What they found**, if they did. -/
theorem lookUp_cases (found : loader.lookUp le = some ((d1, d2), idPosition)) :
    ∃ id1 id2 rest, le.docIds = id1 :: id2 :: rest ∧
      loader.documents[loader.idPosition[id1]?.getD 0]? = some d1 ∧
      loader.documents[loader.idPosition[id2]?.getD 0]? = some d2 ∧
      idPosition = (subscript (subscript loader.idPosition id1).2 id2).2 := by
  obtain ⟨id1, first, found⟩ := Option.bind_eq_some_iff.mp found
  obtain ⟨id2, second, found⟩ := Option.bind_eq_some_iff.mp found
  obtain ⟨doc, held, found⟩ := Option.bind_eq_some_iff.mp found
  obtain ⟨doc', held', found⟩ := Option.bind_eq_some_iff.mp found
  rcases ids : le.docIds with _ | ⟨named, _ | ⟨named', rest⟩⟩
  · rw [ids] at first
    cases first
  · rw [ids] at second
    cases second
  · rw [ids] at first second
    cases first
    cases second
    cases found
    have read : loader.documents[(subscript loader.idPosition id1).1]? = some d1 := held
    have read' : loader.documents[(subscript (subscript loader.idPosition id1).2 id2).1]? =
        some d2 := held'
    rw [subscript_fst] at read
    rw [subscript_fst, getD_subscript] at read'
    exact ⟨id1, id2, rest, rfl, read, read', rfl⟩

/-- **The loader between two calls**: only the features and the validity of its elements change, and
the ids that are inserted mean nothing new. -/
structure Keeps (documents : List SimDoc) (elements : List LearnElement) (loader : Loader) :
    Prop where
  vector : loader.documents = documents
  positions : ∀ id : ℤ, loader.idPosition[id]?.getD 0 = (idPositions documents)[id]?.getD 0
  docIds : loader.elements.map (·.docIds) = elements.map (·.docIds)

theorem keeps_load (documents : List SimDoc) (elements : List LearnElement) :
    Keeps documents elements (Loader.load documents elements) := ⟨rfl, fun _ => rfl, rfl⟩

/-- What a call reads for an id is what `load` has left. -/
theorem Keeps.lookedUp_iff (keeps : Keeps documents elements loader) {id : ℤ} {doc : SimDoc} :
    LookedUp documents id doc ↔ loader.documents[loader.idPosition[id]?.getD 0]? = some doc := by
  rw [keeps.vector, keeps.positions]
  exact Wookie.lookedUp_iff

theorem generateFeatures_docIds {le' : LearnElement}
    (generated : le.generateFeatures d1 d2 = some (success, le')) : le'.docIds = le.docIds := by
  by_cases several : d1.ngrams ≠ [] ∧ d2.ngrams ≠ []
  · obtain ⟨features, made⟩ := generateFeatures_nonempty le several
    rw [made] at generated
    cases generated
    rfl
  · rw [generateFeatures_empty le (by tauto)] at generated
    cases generated
    rfl

/-- **What one call preserves.** -/
theorem Keeps.call (keeps : Keeps documents elements loader)
    (called : loader.call (.makeElement lepos) = some (success, loader')) :
    Keeps documents elements loader' := by
  obtain ⟨le, le', d1, d2, idPosition, held, found, generated, rfl⟩ := call_cases called
  obtain ⟨id1, id2, rest, ids, -, -, rfl⟩ := lookUp_cases found
  refine ⟨keeps.vector, fun id => ?_, ?_⟩
  · rw [getD_subscript, getD_subscript, keeps.positions]
  · obtain ⟨inside, rfl⟩ := List.getElem?_eq_some_iff.mp held
    have within : lepos < (loader.elements.map (·.docIds)).length := by rwa [List.length_map]
    have same := List.set_getElem_self within
    rw [List.getElem_map] at same
    show (loader.elements.set lepos le').map (·.docIds) = _
    rw [List.map_set, generateFeatures_docIds generated, ← keeps.docIds]
    exact same

end Call

/-! ### What a call should do -/

/-- A document with the id was loaded. -/
def IsLoaded (documents : List SimDoc) (id : ℤ) : Prop := ∃ doc ∈ documents, doc.id = id

/-- **A call that does not compare the wrong documents**: it accesses what is there, it succeeds
with the two documents of the element only, and without one of them it fails and leaves the element
alone. -/
def MakesRight (state : Option Loader) (lepos : ℕ) : Prop :=
  ∃ loader le success loader' le', state = some loader ∧ loader.elements[lepos]? = some le ∧
    loader.call (.makeElement lepos) = some (success, loader') ∧
    loader'.elements[lepos]? = some le' ∧
    ∃ id1 id2, le.docIds[0]? = some id1 ∧ le.docIds[1]? = some id2 ∧
      (success = true → ∃ d1 d2 idPosition, loader.lookUp le = some ((d1, d2), idPosition) ∧
        d1 ∈ loader.documents ∧ d2 ∈ loader.documents ∧ d1.id = id1 ∧ d2.id = id2 ∧
        le.generateFeatures d1 d2 = some (true, le')) ∧
      (¬ IsLoaded loader.documents id1 ∨ ¬ IsLoaded loader.documents id2 →
        success = false ∧ le' = le)

/-- **The documents of an element are there**, or one without n-grams is compared in their place. -/
def Comparable (documents : List SimDoc) (le : LearnElement) : Prop :=
  ∃ id1 id2 rest d1 d2, le.docIds = id1 :: id2 :: rest ∧
    LookedUp documents id1 d1 ∧ LookedUp documents id2 d2 ∧
    (d1.id = id1 ∧ d2.id = id2 ∨ d1.ngrams = [] ∨ d2.ngrams = [])

section Right

variable {documents : List SimDoc} {elements : List LearnElement} {loader : Loader} {lepos : ℕ}

/-- The element of a call names the same documents as when it was loaded. -/
theorem Keeps.docIds_eq (keeps : Keeps documents elements loader) (lepos : ℕ) :
    loader.elements[lepos]?.map (·.docIds) = elements[lepos]?.map (·.docIds) := by
  rw [← List.getElem?_map, ← List.getElem?_map, keeps.docIds]

/-- Where the documents are there, a call is right. -/
theorem makesRight_of_comparable (keeps : Keeps documents elements loader) {le : LearnElement}
    (loaded : elements[lepos]? = some le) (comparable : Comparable documents le) :
    MakesRight (some loader) lepos := by
  obtain ⟨id1, id2, rest, d1, d2, ids, first, second, right⟩ := comparable
  have same := keeps.docIds_eq lepos
  rw [loaded] at same
  obtain ⟨now, held, named⟩ := Option.map_eq_some_iff.mp same
  replace named := named.trans ids
  have read := keeps.lookedUp_iff.mp first
  have read' := keeps.lookedUp_iff.mp second
  have found := lookUp_eq named read read'
  have inside := (List.getElem?_eq_some_iff.mp held).1
  have listed := List.mem_of_getElem? read
  have listed' := List.mem_of_getElem? read'
  by_cases several : d1.ngrams ≠ [] ∧ d2.ngrams ≠ []
  · obtain ⟨named1, named2⟩ : d1.id = id1 ∧ d2.id = id2 := by tauto
    obtain ⟨features, generated⟩ := generateFeatures_nonempty now several
    refine ⟨loader, now, true, _, _, rfl, held, call_eq held found generated,
      List.getElem?_set_self inside, id1, id2, by rw [named]; rfl, by rw [named]; rfl,
      fun _ => ⟨d1, d2, _, found, listed, listed', named1, named2, generated⟩, fun missing => ?_⟩
    exfalso
    rcases missing with missing | missing
    · exact missing ⟨d1, listed, named1⟩
    · exact missing ⟨d2, listed', named2⟩
  · have generated := generateFeatures_empty now (show d1.ngrams = [] ∨ d2.ngrams = [] by tauto)
    exact ⟨loader, now, false, _, _, rfl, held, call_eq held found generated,
      List.getElem?_set_self inside, id1, id2, by rw [named]; rfl, by rw [named]; rfl,
      fun absurd => (nomatch absurd), fun _ => ⟨rfl, rfl⟩⟩

/-- A call that is right has found its documents. -/
theorem comparable_of_makesRight (keeps : Keeps documents elements loader)
    (makes : MakesRight (some loader) lepos) :
    ∃ le, elements[lepos]? = some le ∧ Comparable documents le := by
  obtain ⟨_, now, success, after, le', ⟨⟩, held, called, -, id1, id2, first, second, right, -⟩ :=
    makes
  obtain ⟨le, made, d1, d2, idPosition, held', found, generated, -⟩ := call_cases called
  cases held.symm.trans held'
  obtain ⟨named1, named2, rest, ids, read, read', -⟩ := lookUp_cases found
  rw [ids] at first second
  cases first
  cases second
  have same := keeps.docIds_eq lepos
  rw [held] at same
  obtain ⟨initial, loaded, named⟩ := Option.map_eq_some_iff.mp same.symm
  refine ⟨initial, loaded, id1, id2, rest, d1, d2, named.trans ids, keeps.lookedUp_iff.mpr read,
    keeps.lookedUp_iff.mpr read', ?_⟩
  by_cases several : d1.ngrams ≠ [] ∧ d2.ngrams ≠ []
  · obtain ⟨features, made⟩ := generateFeatures_nonempty now several
    rw [made] at generated
    cases generated
    obtain ⟨d1', d2', _, found', -, -, same1, same2, -⟩ := right rfl
    cases Option.some.inj (found.symm.trans found')
    exact .inl ⟨same1, same2⟩
  · right
    tauto

/-- **One call is right** if and only if its documents are there. -/
theorem makesRight_iff (keeps : Keeps documents elements loader) :
    MakesRight (some loader) lepos ↔ ∃ le, elements[lepos]? = some le ∧ Comparable documents le :=
  ⟨comparable_of_makesRight keeps, fun ⟨_, loaded, comparable⟩ =>
    makesRight_of_comparable keeps loaded comparable⟩

/-- The calls of `make_element`. -/
def makeStep (state : Option Loader) (lepos : ℕ) : Option Loader :=
  Loader.step state (.makeElement lepos)

/-- **A sequence of calls**, between any two of which the loader knows what it knew at first. -/
theorem makes_right_of_keeps {calls : List ℕ} (keeps : Keeps documents elements loader) :
    EachCall makeStep MakesRight (some loader) calls ↔
      ∀ lepos ∈ calls, ∃ le, elements[lepos]? = some le ∧ Comparable documents le := by
  induction calls generalizing loader with
  | nil => exact ⟨fun _ _ listed => absurd listed List.not_mem_nil, fun _ => trivial⟩
  | cons lepos rest ih =>
    rw [List.forall_mem_cons, ← makesRight_iff keeps]
    refine and_congr_right fun makes => ?_
    obtain ⟨_, le, success, after, le', ⟨⟩, -, called, -⟩ := makes
    have step : makeStep (some loader) lepos = some after := congrArg (Option.map Prod.snd) called
    rw [step]
    exact ih (keeps.call called)

end Right

/-- **Calls of `make_element` never compare the wrong documents**, for the documents that were
loaded and the elements that are asked for, if and only if each element names documents that the
look-ups lead to, or the look-ups lead to one without n-grams. -/
theorem makes_right_iff (documents : List SimDoc) (elements : List LearnElement)
    (calls : List ℕ) :
    EachCall makeStep MakesRight (some (Loader.load documents elements)) calls ↔
      ∀ lepos ∈ calls, ∃ le, elements[lepos]? = some le ∧ Comparable documents le :=
  makes_right_of_keeps (keeps_load documents elements)

/-- **A document that could not be read**: its element is compared with the first one. -/
theorem makes_wrong :
    ¬ EachCall makeStep MakesRight
      (some (Loader.load [⟨1, [5]⟩, ⟨2, [5]⟩]
        [{ LearnElement.new with docIds := [2, 3] }])) [0] := by
  rintro ⟨makes, -⟩
  obtain ⟨le, loaded, id1, id2, rest, d1, d2, ids, first, second, right⟩ :=
    comparable_of_makesRight (keeps_load _ _) makes
  cases loaded
  cases ids
  cases lookedUp_iff.mp first
  cases lookedUp_iff.mp second
  revert right
  decide

end Wookie
