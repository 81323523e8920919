/-
**Finding: `on_result_ready`.**

The callback decodes every index payload of every entry, merges the positions into one map, and
keeps the entries in which all quotes stand. A payload that does not decode throws out of the
callback, before `m_completion` is called.

* `Returned` — what elliptics' `find_all_indexes` answers with, for a store and the indexes asked.
* `scanEntries_spec` — where all payloads decode, the entries kept are those with all quotes.
* `positions_agrees` — the merged map, where no two tokens share a position.
-/

import Wookie.Search.Match

namespace Wookie.FindResult

/-- `find_indexes_result_entry`. -/
structure Entry where
  id : RawId
  indexes : List (RawId × DataPointer)

/-- `elliptics::error_info`, when there is an error. -/
structure ErrorInfo where
  code : Int
  message : String
  deriving DecidableEq, Repr

/-- `std::map<int, const dnet_raw_id *>`. -/
abbrev Positions := Std.TreeMap Int RawId

/-- The entries of a position map rise. -/
theorem rising_toList (pos : Positions) : Rising pos.toList :=
  (Std.TreeMap.ordered_keys_toList).imp fun below => Int.compare_eq_lt.mp below

/-- The members of `find_result` that the callbacks write. `completions` counts the calls of
`m_completion`. -/
structure State where
  findResult : List Entry
  resultIds : List RawId
  error : Option ErrorInfo
  ready : Bool
  completions : Nat

/-- `find_result` before the answer comes. -/
def State.new : State := ⟨[], [], none, false, 0⟩

/-- `m_completion` of the waiting constructor: `on_wait_completion`. -/
def State.complete (s : State) (err : Option ErrorInfo) : State :=
  { s with error := err, ready := true, completions := s.completions + 1 }

/-- `pos.insert` for all positions of one index. -/
def insertPositions (pos : Positions) (index : RawId × DataPointer) :
    Except ConvertError Positions := do
  let idata ← IndexData.ofData index.2
  return idata.pos.foldl (fun pos p => pos.insertIfNew p index.1) pos

/-- The position map of an entry. -/
def positions (entry : Entry) : Except ConvertError Positions :=
  entry.indexes.foldlM insertPositions ∅

/-- `all_quotes_ok`. -/
def allQuotesOk (request : FindRequest) (pos : Positions) : Bool :=
  request.quotes.all fun quote => matchQuote quote pos.toList

/-- The loop over the entries: the ids kept, and what it throws. -/
def scanEntries (request : FindRequest) :
    List Entry → List RawId → List RawId × Option ConvertError
  | [], ids => (ids, none)
  | entry :: rest, ids =>
    match positions entry with
    | .error thrown => (ids, some thrown)
    | .ok pos =>
      scanEntries request rest (if allQuotesOk request pos then ids ++ [entry.id] else ids)

/-- `find_result::on_result_ready`: the new state, and what it throws. -/
def onResultReady (request : FindRequest) (result : List Entry) (err : Option ErrorInfo)
    (s : State) : State × Option ConvertError :=
  if err.isSome || result.isEmpty then (s.complete err, none)
  else
    let (ids, thrown) := scanEntries request result s.resultIds
    let s := { s with findResult := result, resultIds := ids }
    match thrown with
    | some thrown => (s, some thrown)
    | none => (s.complete none, none)

/-- What `find_all_indexes` answers: exactly the objects that carry all the indexes asked for, each
with what is stored under them. Nothing is said about a request for no index at all. -/
structure Returned (store : Indexes) (requested : List RawId) (result : List Entry) : Prop where
  carries : ∀ entry ∈ result, ∀ index ∈ requested, index ∈ (store entry.id).map Prod.fst
  complete : requested ≠ [] → ∀ id, (∀ index ∈ requested, index ∈ (store id).map Prod.fst) →
    ∃ entry ∈ result, entry.id = id
  indexes_iff : ∀ entry ∈ result, ∀ index,
    index ∈ entry.indexes ↔ index ∈ store entry.id ∧ index.1 ∈ requested

/-- `find` has sent the request for a query text, and the store answers it. -/
structure Answered (loc : Locale) (ell : Elliptics) (store : Indexes) (text : Str)
    (request : FindRequest) (names : List Str) (result : List Entry) : Prop where
  found : find loc ell text = .ok (request, names)
  returned : Returned store (transformTokens ell names) result

/-- `find_all_indexes` on the store that a sequence of updates makes. -/
def findAllIndexes (loc : Locale) (ell : Elliptics) (updates : List Update)
    (requested : List RawId) : List Entry :=
  let store := Indexes.ofUpdates loc ell updates
  let carrying := (updates.map fun update => ell.transform update.key).eraseDups.filter fun id =>
    requested.all fun index => ((store id).map Prod.fst).contains index
  carrying.map fun id => ⟨id, (store id).filter fun index => requested.contains index.1⟩

/-- It answers as it should. -/
theorem returned_findAllIndexes (loc : Locale) (ell : Elliptics) (updates : List Update)
    (requested : List RawId) :
    Returned (Indexes.ofUpdates loc ell updates) requested
      (findAllIndexes loc ell updates requested) where
  carries entry listed index asked := by
    obtain ⟨id, carrying, rfl⟩ := List.mem_map.mp listed
    have all := List.all_eq_true.mp (List.mem_filter.mp carrying).2 index asked
    exact List.contains_iff_mem.mp all
  complete some id carries := by
    obtain ⟨index, asked⟩ := List.exists_mem_of_ne_nil _ some
    obtain ⟨update, newest, -⟩ := mem_ids_ofUpdates.mp (carries index asked)
    obtain ⟨member, own⟩ := mem_of_lastIndexed newest
    refine ⟨_, List.mem_map.mpr ⟨id, List.mem_filter.mpr ⟨?_, ?_⟩, rfl⟩, rfl⟩
    · exact List.mem_eraseDups.mpr (List.mem_map.mpr ⟨update, member, own⟩)
    · exact List.all_eq_true.mpr fun index asked =>
        List.contains_iff_mem.mpr (carries index asked)
  indexes_iff entry listed index := by
    obtain ⟨id, -, rfl⟩ := List.mem_map.mp listed
    rw [List.mem_filter, List.contains_iff_mem]

/-! ### Decoding -/

/-- The payload is a packed `index_data`. -/
def IsIndexData (data : DataPointer) : Prop := ∃ idata : IndexData, data = idata.convert

/-- The positions a payload holds. -/
def positionsOf (data : DataPointer) : List Int :=
  match IndexData.ofData data with
  | .ok idata => idata.pos
  | .error _ => []

@[simp] theorem positionsOf_convert (idata : IndexData) :
    positionsOf idata.convert = idata.pos := by
  rw [positionsOf, ofData_convert]

/-- The positions a token's record holds are the places of the token. -/
theorem mem_positionsOf_record {loc : Locale} {content token : Str} {data : DataPointer}
    (record : IsTokenRecord loc content token data) {p : Int} :
    p ∈ positionsOf data ↔ ∃ n : Nat, p = n ∧ (loc.words content)[n]? = some token := by
  obtain ⟨idata, rfl, at_iff⟩ := record.packed
  rw [positionsOf_convert, at_iff]

theorem insertPositions_convert (pos : Positions) (id : RawId) (idata : IndexData) :
    insertPositions pos (id, idata.convert) =
      .ok (idata.pos.foldl (fun pos p => pos.insertIfNew p id) pos) := by
  simp only [insertPositions, ofData_convert, bind, Except.bind, pure, Except.pure]

theorem insertIfNew_position {pos : Positions} {id : RawId} {p q : Int} :
    (pos.insertIfNew p id)[q]? = if p = q ∧ p ∉ pos then some id else pos[q]? := by
  rw [Std.TreeMap.getElem?_insertIfNew]
  simp only [Std.compare_eq_iff_eq]

/-- A map from positions to ids that agrees with a layout: `layout` names at most one id for each
position, and the map has no other. -/
structure Agrees (layout : Int → RawId → Prop) (pos : Positions) (seen : Int → RawId → Prop) :
    Prop where
  functional : ∀ p a b, layout p a → layout p b → a = b
  within : ∀ p id, seen p id → layout p id
  at_iff : ∀ p id, pos[p]? = some id ↔ seen p id

theorem Agrees.congr {layout seen seen' : Int → RawId → Prop} {pos : Positions}
    (agrees : Agrees layout pos seen) (same : ∀ p id, seen p id ↔ seen' p id) :
    Agrees layout pos seen' :=
  ⟨agrees.functional, fun p id held => agrees.within p id ((same p id).mpr held),
    fun p id => (agrees.at_iff p id).trans (same p id)⟩

/-- Inserting one position. -/
theorem Agrees.insert {layout : Int → RawId → Prop} {pos : Positions} {seen : Int → RawId → Prop}
    {p : Int} {id : RawId} (agrees : Agrees layout pos seen) (own : layout p id) :
    Agrees layout (pos.insertIfNew p id) fun q other => seen q other ∨ id = other ∧ q = p where
  functional := agrees.functional
  within q other held := by
    rcases held with old | ⟨rfl, rfl⟩
    · exact agrees.within q other old
    · exact own
  at_iff q other := by
    rw [insertIfNew_position]
    split
    · rename_i fresh
      obtain ⟨rfl, fresh⟩ := fresh
      have nothing : ¬ seen p other := by
        intro old
        rw [← agrees.at_iff] at old
        exact fresh (Std.TreeMap.mem_iff_isSome_getElem?.mpr (old ▸ rfl))
      rw [or_iff_right nothing, Option.some.injEq]
      exact (and_iff_left rfl).symm
    · rename_i known
      rw [agrees.at_iff]
      refine (or_iff_left_of_imp ?_).symm
      rintro ⟨rfl, rfl⟩
      have member : q ∈ pos := by
        by_contra fresh
        exact known ⟨rfl, fresh⟩
      obtain ⟨old, found⟩ := Option.isSome_iff_exists.mp
        (Std.TreeMap.mem_iff_isSome_getElem?.mp member)
      have held := (agrees.at_iff q old).mp found
      rwa [agrees.functional q old id (agrees.within q old held) own] at held

/-- Inserting the positions of one index. -/
theorem Agrees.insertAll {layout : Int → RawId → Prop} {id : RawId} (ps : List Int)
    (own : ∀ p ∈ ps, layout p id) :
    ∀ {pos : Positions} {seen : Int → RawId → Prop}, Agrees layout pos seen →
      Agrees layout (ps.foldl (fun pos p => pos.insertIfNew p id) pos)
        fun p other => seen p other ∨ id = other ∧ p ∈ ps := by
  induction ps with
  | nil =>
    intro pos seen agrees
    simpa using agrees
  | cons p rest ih =>
    intro pos seen agrees
    have all := ih (fun q member => own q (List.mem_cons_of_mem _ member))
      (agrees.insert (own p List.mem_cons_self))
    refine all.congr fun q other => ?_
    rw [or_assoc, List.mem_cons, and_or_left]

/-- Inserting the positions of a list of indexes. -/
theorem Agrees.insertIndexes {layout : Int → RawId → Prop} (indexes : List (RawId × DataPointer))
    (packed : ∀ index ∈ indexes, IsIndexData index.2)
    (own : ∀ index ∈ indexes, ∀ p ∈ positionsOf index.2, layout p index.1) :
    ∀ {pos : Positions} {seen : Int → RawId → Prop}, Agrees layout pos seen →
      ∃ pos', indexes.foldlM insertPositions pos = .ok pos' ∧
        Agrees layout pos' fun p id =>
          seen p id ∨ ∃ index ∈ indexes, index.1 = id ∧ p ∈ positionsOf index.2 := by
  induction indexes with
  | nil =>
    intro pos seen agrees
    exact ⟨pos, rfl, by simpa using agrees⟩
  | cons index rest ih =>
    intro pos seen agrees
    obtain ⟨id, data⟩ := index
    obtain ⟨idata, rfl⟩ := packed _ List.mem_cons_self
    have inside : ∀ p ∈ idata.pos, layout p id := fun p member =>
      own _ List.mem_cons_self p (by rwa [positionsOf_convert])
    obtain ⟨pos', read, agrees'⟩ := ih
      (fun index member => packed index (List.mem_cons_of_mem _ member))
      (fun index member => own index (List.mem_cons_of_mem _ member))
      (agrees.insertAll idata.pos inside)
    refine ⟨pos', ?_, ?_⟩
    · rw [List.foldlM_cons, insertPositions_convert]
      exact read
    · refine agrees'.congr fun p other => ?_
      rw [or_assoc, List.exists_mem_cons_iff, positionsOf_convert]

/-- **The position map of an entry** whose tokens share no position. -/
theorem positions_agrees {layout : Int → RawId → Prop} {entry : Entry}
    (functional : ∀ p a b, layout p a → layout p b → a = b)
    (packed : ∀ index ∈ entry.indexes, IsIndexData index.2)
    (own : ∀ index ∈ entry.indexes, ∀ p ∈ positionsOf index.2, layout p index.1) :
    ∃ pos, positions entry = .ok pos ∧ ∀ p id, pos[p]? = some id ↔
      ∃ index ∈ entry.indexes, index.1 = id ∧ p ∈ positionsOf index.2 := by
  have start : Agrees layout ∅ fun _ _ => False :=
    ⟨functional, fun _ _ never => never.elim, fun p id => by simp⟩
  obtain ⟨pos, read, agrees⟩ := start.insertIndexes entry.indexes packed own
  refine ⟨pos, read, fun p id => ?_⟩
  rw [agrees.at_iff, false_or]

/-- Packed index data always decodes. -/
theorem positions_ok {entry : Entry} (packed : ∀ index ∈ entry.indexes, IsIndexData index.2) :
    ∃ pos, positions entry = .ok pos := by
  have fold : ∀ indexes : List (RawId × DataPointer), (∀ index ∈ indexes, IsIndexData index.2) →
      ∀ pos : Positions, ∃ pos', indexes.foldlM insertPositions pos = .ok pos' := by
    intro indexes packed
    induction indexes with
    | nil => exact fun pos => ⟨pos, rfl⟩
    | cons index rest ih =>
      intro pos
      obtain ⟨id, data⟩ := index
      obtain ⟨idata, rfl⟩ := packed _ List.mem_cons_self
      rw [List.foldlM_cons, insertPositions_convert]
      exact ih (fun index member => packed index (List.mem_cons_of_mem _ member)) _
  exact fold entry.indexes packed ∅

/-- An entry with a payload that does not decode throws. -/
theorem positions_error {entry : Entry} {index : RawId × DataPointer} {thrown : ConvertError}
    (member : index ∈ entry.indexes) (rejected : IndexData.ofData index.2 = .error thrown) :
    ∃ thrown, positions entry = .error thrown := by
  have fold : ∀ indexes : List (RawId × DataPointer), index ∈ indexes → ∀ pos : Positions,
      ∃ thrown, indexes.foldlM insertPositions pos = .error thrown := by
    intro indexes member
    induction indexes with
    | nil => cases member
    | cons first rest ih =>
      intro pos
      rw [List.foldlM_cons]
      cases read : insertPositions pos first with
      | error thrown => exact ⟨thrown, rfl⟩
      | ok pos' =>
        rcases List.mem_cons.mp member with rfl | later
        · simp only [insertPositions, rejected, bind, Except.bind] at read
          cases read
        · exact ih later pos'
  exact fold entry.indexes member ∅

/-! ### The loop over the entries -/

/-- **Where every payload decodes, nothing is thrown** and the entries with all quotes are kept. -/
theorem scanEntries_spec (request : FindRequest) {result : List Entry}
    (packed : ∀ entry ∈ result, ∀ index ∈ entry.indexes, IsIndexData index.2) (ids : List RawId) :
    (scanEntries request result ids).2 = none ∧
      ∀ id, id ∈ (scanEntries request result ids).1 ↔ id ∈ ids ∨ ∃ entry ∈ result, entry.id = id ∧
        ∃ pos, positions entry = .ok pos ∧ allQuotesOk request pos = true := by
  induction result generalizing ids with
  | nil => simp [scanEntries]
  | cons entry rest ih =>
    obtain ⟨pos, read⟩ := positions_ok (packed entry List.mem_cons_self)
    obtain ⟨thrown, kept⟩ := ih (fun entry member => packed entry (List.mem_cons_of_mem _ member))
      (if allQuotesOk request pos then ids ++ [entry.id] else ids)
    simp only [scanEntries, read]
    refine ⟨thrown, fun id => ?_⟩
    rw [kept]
    simp only [List.exists_mem_cons_iff, read, Except.ok.injEq, exists_eq_left', ← or_assoc]
    refine or_congr_left ?_
    split
    · rename_i found
      simp only [List.mem_append, List.mem_singleton, found, and_true, eq_comm]
    · rename_i missed
      simp only [missed, Bool.false_eq_true, and_false, or_false]

/-- **A payload that is no index data throws**, if every payload before it decodes. -/
theorem scanEntries_throws (request : FindRequest) {result : List Entry} (ids : List RawId)
    (thrower : ∃ entry ∈ result, ∃ thrown, positions entry = .error thrown) :
    (scanEntries request result ids).2 ≠ none := by
  induction result generalizing ids with
  | nil =>
    obtain ⟨entry, member, -⟩ := thrower
    cases member
  | cons first rest ih =>
    cases read : positions first with
    | error thrown =>
      simp only [scanEntries, read]
      exact Option.some_ne_none _
    | ok pos =>
      simp only [scanEntries, read]
      refine ih _ ?_
      obtain ⟨entry, member, thrown, failed⟩ := thrower
      rcases List.mem_cons.mp member with rfl | later
      · rw [read] at failed
        cases failed
      · exact ⟨entry, later, thrown, failed⟩

/-- The ids kept are those of the loop. -/
theorem resultIds_onResultReady (request : FindRequest) (result : List Entry) :
    (onResultReady request result none .new).1.resultIds = (scanEntries request result []).1 := by
  cases result with
  | nil => rfl
  | cons entry rest =>
    simp only [onResultReady, Option.isSome_none, List.isEmpty_cons, Bool.or_self,
      Bool.false_eq_true, if_false, State.new]
    split <;> simp_all [State.complete]

end Wookie.FindResult
