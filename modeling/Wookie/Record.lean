/-
**The stored records: `wookie::document` and `wookie::index_data`.**

Both are four-field msgpack arrays with a version in front, written and read by hand-written
operators in `document.hpp` and `index_data.hpp`. `Object` is what msgpack decodes a byte string to;
msgpack's own encoding of an object as bytes is assumed to round-trip, so a packed record is kept as
the object.

* `unpackDocument_packDocument`, `ofData_convert` — each record is read back as it was written.
* `ofData_packDocument` — the `index_data` reader rejects every packed document: the versions
  differ, and the reader throws.
* `unpackDocument_eq_ok_iff`, `ofData_eq_ok_iff` — a reader accepts what its own writer writes, and
  nothing else; `records_round_trip` puts the two formats side by side.
-/

import Mathlib.Data.Char
import Mathlib.Data.List.Destutter
import Mathlib.Data.List.Lex
import Mathlib.Data.List.Sort

namespace Wookie

/-- A `std::string`: the sequence of its chars. -/
abbrev Str := List Char

/-- A `std::string` whose encoding matters: its bytes. -/
abbrev Bytes := List UInt8

/-- The hash behind the unordered maps with string keys. -/
instance : Hashable Str := @instHashableList Char instHashableChar

/-- `std::sort`, then `std::unique` and `erase`. -/
def sortUnique (names : List Str) : List Str :=
  (names.insertionSort (· ≤ ·)).destutter (· ≠ ·)

theorem mem_destutter' {name first : Str} {names : List Str} :
    name ∈ List.destutter' (· ≠ ·) first names ↔ name = first ∨ name ∈ names := by
  induction names generalizing first with
  | nil => simp
  | cons next rest ih =>
    by_cases differs : first ≠ next
    · rw [List.destutter'_cons_pos _ differs, List.mem_cons, ih, List.mem_cons]
    · rw [List.destutter'_cons_neg _ differs, ih, List.mem_cons, not_not.mp differs]
      simp

theorem mem_destutter {name : Str} {names : List Str} :
    name ∈ names.destutter (· ≠ ·) ↔ name ∈ names := by
  cases names with
  | nil => rfl
  | cons first rest => rw [List.destutter_cons', mem_destutter', List.mem_cons]

/-- **No name is lost in sorting.** -/
theorem mem_sortUnique {name : Str} {names : List Str} :
    name ∈ sortUnique names ↔ name ∈ names := by
  rw [sortUnique, mem_destutter, List.mem_insertionSort]

/-- `struct dnet_time`. -/
structure DnetTime where
  tsec : Nat
  tnsec : Nat
  deriving DecidableEq, Repr

/-- `dnet_time_before`: seconds first, then nanoseconds. -/
def DnetTime.before (first second : DnetTime) : Bool :=
  first.tsec < second.tsec || (first.tsec == second.tsec && first.tnsec < second.tnsec)

theorem DnetTime.before_irrefl (time : DnetTime) : time.before time = false := by
  simp [DnetTime.before]

/-- A time not before `low` stays so when it grows. -/
theorem DnetTime.not_before_trans {low middle high : DnetTime} (first : middle.before low = false)
    (second : high.before middle = false) : high.before low = false := by
  simp only [DnetTime.before, Bool.or_eq_false_iff, Bool.and_eq_false_iff, decide_eq_false_iff_not,
    beq_eq_false_iff_ne] at first second ⊢
  omega

/-- `msgpack::object`. -/
inductive Object
  | nil
  | boolean (b : Bool)
  | integer (n : Int)
  | double (bits : UInt64)
  | raw (text : Str)
  | array (elements : List Object)
  | map (pairs : List (Object × Object))

/-- The exceptions the readers throw. -/
inductive ConvertError
  /-- `msgpack::unpack_error`: the bytes are no msgpack object. -/
  | unpack
  /-- `msgpack::type_error`. -/
  | type
  /-- `"msgpack: … array size mismatch: compiled: %d, unpacked: %d"`. -/
  | arraySize (record : String) (compiled : Nat) (unpacked : Option Nat)
  /-- `"msgpack: … version mismatch: compiled: %d, unpacked: %d"`. -/
  | version (record : String) (compiled unpacked : Int)
  deriving DecidableEq, Repr

/-- `elliptics::data_pointer`: the bytes of a packed object, or bytes msgpack cannot unpack. -/
inductive DataPointer
  | packed (object : Object)
  | bytes (content : List UInt8)

/-- `msgpack::unpack`. -/
def unpack : DataPointer → Except ConvertError Object
  | .packed object => .ok object
  | .bytes _ => .error .unpack

/-! ### msgpack's own conversions -/

/-- `object.convert(&int)`. -/
def convertInt : Object → Except ConvertError Int
  | .integer n => .ok n
  | _ => .error .type

/-- `object.convert(&uint64_t)`. -/
def convertUint64 : Object → Except ConvertError Nat
  | .integer n => if 0 ≤ n then .ok n.toNat else .error .type
  | _ => .error .type

/-- `object.convert(&std::string)`. -/
def convertString : Object → Except ConvertError Str
  | .raw text => .ok text
  | _ => .error .type

/-- `object.convert(&std::vector<int>)`. -/
def convertInts : Object → Except ConvertError (List Int)
  | .array elements => elements.mapM convertInt
  | _ => .error .type

/-- `operator >>(msgpack::object, dnet_time &)`. -/
def convertTime : Object → Except ConvertError DnetTime
  | .array [tsec, tnsec] => do
    let tsec ← convertUint64 tsec
    let tnsec ← convertUint64 tnsec
    return ⟨tsec, tnsec⟩
  | _ => .error .type

/-- `operator <<(msgpack::packer &, const dnet_time &)`. -/
def packTime (tm : DnetTime) : Object := .array [.integer tm.tsec, .integer tm.tnsec]

@[simp] theorem convertTime_packTime (tm : DnetTime) : convertTime (packTime tm) = .ok tm := by
  simp [convertTime, packTime, convertUint64, bind, Except.bind, pure, Except.pure]

theorem convertInts_map (ns : List Int) : convertInts (.array (ns.map .integer)) = .ok ns := by
  have each : (ns.map Object.integer).mapM convertInt = .ok ns := by
    induction ns with
    | nil => rfl
    | cons n rest ih =>
      rw [List.map_cons, List.mapM_cons, ih]
      rfl
  exact each

/-- The size an array-size error reports. -/
def arraySize : Object → Option Nat
  | .array elements => some elements.length
  | _ => none

/-! ### `wookie::document` -/

/-- `struct document`. -/
structure Document where
  ts : DnetTime
  key : Str
  data : Str
  deriving DecidableEq, Repr

/-- `document::version`. -/
def Document.version : Int := 1

/-- `document::document()` at time `now`. -/
def Document.new (now : DnetTime) : Document := ⟨now, [], []⟩

/-- `operator >>(msgpack::object, document &)`. -/
def convertDocument : Object → Except ConvertError Document
  | .array [version, ts, key, data] => do
    let version ← convertInt version
    if version ≠ Document.version then
      .error (.version "document" Document.version version)
    else
      let ts ← convertTime ts
      let key ← convertString key
      let data ← convertString data
      return ⟨ts, key, data⟩
  | object => .error (.arraySize "document" 4 (arraySize object))

/-- `storage::pack_document`. -/
def packDocument (doc : Document) : DataPointer :=
  .packed (.array [.integer Document.version, packTime doc.ts, .raw doc.key, .raw doc.data])

/-- `storage::unpack_document`. -/
def unpackDocument (result : DataPointer) : Except ConvertError Document :=
  (unpack result).bind convertDocument

/-- **A packed document is read back.** -/
@[simp] theorem unpackDocument_packDocument (doc : Document) :
    unpackDocument (packDocument doc) = .ok doc := by
  simp [unpackDocument, packDocument, unpack, convertDocument, convertInt, convertString, bind,
    Except.bind, pure, Except.pure]

/-! ### `wookie::index_data` -/

/-- `struct index_data`. -/
structure IndexData where
  ts : DnetTime
  key : Str
  pos : List Int
  deriving DecidableEq, Repr

/-- `index_data::version`. -/
def IndexData.version : Int := 2

/-- `operator >>(msgpack::object, index_data &)`. The size error names three elements where four are
checked. -/
def convertIndexData : Object → Except ConvertError IndexData
  | .array [version, ts, pos, key] => do
    let version ← convertInt version
    if version ≠ IndexData.version then
      .error (.version "index data" IndexData.version version)
    else
      let ts ← convertTime ts
      let pos ← convertInts pos
      let key ← convertString key
      return ⟨ts, key, pos⟩
  | object => .error (.arraySize "index data" 3 (arraySize object))

/-- `index_data::convert`. -/
def IndexData.convert (idata : IndexData) : DataPointer :=
  .packed (.array [.integer IndexData.version, packTime idata.ts,
    .array (idata.pos.map .integer), .raw idata.key])

/-- `index_data::index_data(const elliptics::data_pointer &)`. -/
def IndexData.ofData (d : DataPointer) : Except ConvertError IndexData :=
  (unpack d).bind convertIndexData

/-- **Packed index data is read back.** -/
@[simp] theorem ofData_convert (idata : IndexData) :
    IndexData.ofData idata.convert = .ok idata := by
  have positions := convertInts_map idata.pos
  simp [IndexData.ofData, IndexData.convert, unpack, convertIndexData, convertInt, convertString,
    positions, bind, Except.bind, pure, Except.pure]

/-- **The index reader rejects every packed document.** -/
@[simp] theorem ofData_packDocument (doc : Document) :
    IndexData.ofData (packDocument doc) =
      .error (.version "index data" IndexData.version Document.version) := by
  simp [IndexData.ofData, packDocument, unpack, convertIndexData, convertInt, Document.version,
    IndexData.version, bind, Except.bind]

/-! ### What the readers accept -/

/-- A reading of two steps. -/
theorem bind_eq_ok_iff {α β : Type} {first : Except ConvertError α}
    {second : α → Except ConvertError β} {value : β} :
    (first >>= second) = .ok value ↔ ∃ read, first = .ok read ∧ second read = .ok value := by
  cases first with
  | error thrown =>
    constructor
    · intro never
      cases never
    · rintro ⟨read, never, -⟩
      cases never
  | ok read =>
    constructor
    · exact fun next => ⟨read, rfl, next⟩
    · rintro ⟨_, same, next⟩
      cases same
      exact next

theorem convertInt_eq_ok_iff {object : Object} {n : Int} :
    convertInt object = .ok n ↔ object = .integer n := by
  cases object <;> simp [convertInt]

theorem convertUint64_eq_ok_iff {object : Object} {n : Nat} :
    convertUint64 object = .ok n ↔ object = .integer n := by
  cases object with
  | integer value =>
    rw [convertUint64]
    split
    · simp only [Except.ok.injEq, Object.integer.injEq]
      omega
    · simp only [reduceCtorEq, Object.integer.injEq, false_iff]
      omega
  | _ => simp [convertUint64]

theorem convertString_eq_ok_iff {object : Object} {text : Str} :
    convertString object = .ok text ↔ object = .raw text := by
  cases object <;> simp [convertString]

theorem convertInts_eq_ok_iff {object : Object} {ns : List Int} :
    convertInts object = .ok ns ↔ object = .array (ns.map .integer) := by
  constructor
  · intro read
    cases object with
    | array elements =>
      rw [Object.array.injEq]
      change elements.mapM convertInt = .ok ns at read
      induction elements generalizing ns with
      | nil =>
        cases read
        rfl
      | cons element rest ih =>
        rw [List.mapM_cons] at read
        obtain ⟨n, first, read⟩ := bind_eq_ok_iff.mp read
        obtain ⟨others, later, read⟩ := bind_eq_ok_iff.mp read
        cases read
        rw [List.map_cons, convertInt_eq_ok_iff.mp first, ih later]
    | _ => cases read
  · rintro rfl
    exact convertInts_map ns

theorem convertTime_eq_ok_iff {object : Object} {tm : DnetTime} :
    convertTime object = .ok tm ↔ object = packTime tm := by
  constructor
  · intro read
    unfold convertTime at read
    split at read
    · obtain ⟨tsec, seconds, read⟩ := bind_eq_ok_iff.mp read
      obtain ⟨tnsec, nanoseconds, read⟩ := bind_eq_ok_iff.mp read
      cases read
      rw [convertUint64_eq_ok_iff.mp seconds, convertUint64_eq_ok_iff.mp nanoseconds, packTime]
    · cases read
  · rintro rfl
    exact convertTime_packTime tm

/-- The check of the version lets through the record's own alone. -/
theorem version_eq_of_read {α : Type} {object : Object} {own : Int}
    {mismatch : Int → ConvertError} {rest : Except ConvertError α} {value : α}
    (read : (do
      let version ← convertInt object
      if version ≠ own then .error (mismatch version) else rest) = .ok value) :
    object = .integer own ∧ rest = .ok value := by
  obtain ⟨version, first, read⟩ := bind_eq_ok_iff.mp read
  split at read
  · cases read
  · rename_i same
    rw [← not_not.mp same]
    exact ⟨convertInt_eq_ok_iff.mp first, read⟩

/-- **The document reader accepts packed documents only.** -/
theorem unpackDocument_eq_ok_iff {d : DataPointer} {doc : Document} :
    unpackDocument d = .ok doc ↔ d = packDocument doc := by
  constructor
  · intro read
    cases d with
    | bytes content => cases read
    | packed object =>
      change convertDocument object = .ok doc at read
      unfold convertDocument at read
      split at read
      · obtain ⟨rfl, fields⟩ := version_eq_of_read read
        obtain ⟨ts, time, fields⟩ := bind_eq_ok_iff.mp fields
        obtain ⟨key, name, fields⟩ := bind_eq_ok_iff.mp fields
        obtain ⟨data, content, fields⟩ := bind_eq_ok_iff.mp fields
        cases fields
        rw [convertTime_eq_ok_iff.mp time, convertString_eq_ok_iff.mp name,
          convertString_eq_ok_iff.mp content, packDocument]
      · cases read
  · rintro rfl
    exact unpackDocument_packDocument doc

/-- **The index reader accepts packed index data only.** -/
theorem ofData_eq_ok_iff {d : DataPointer} {idata : IndexData} :
    IndexData.ofData d = .ok idata ↔ d = idata.convert := by
  constructor
  · intro read
    cases d with
    | bytes content => cases read
    | packed object =>
      change convertIndexData object = .ok idata at read
      unfold convertIndexData at read
      split at read
      · obtain ⟨rfl, fields⟩ := version_eq_of_read read
        obtain ⟨ts, time, fields⟩ := bind_eq_ok_iff.mp fields
        obtain ⟨pos, positions, fields⟩ := bind_eq_ok_iff.mp fields
        obtain ⟨key, name, fields⟩ := bind_eq_ok_iff.mp fields
        cases fields
        rw [convertTime_eq_ok_iff.mp time, convertInts_eq_ok_iff.mp positions,
          convertString_eq_ok_iff.mp name, IndexData.convert]
      · cases read
  · rintro rfl
    exact ofData_convert idata

/-- What a reader rejects. -/
def Rejected {α : Type} (read : Except ConvertError α) : Prop := ∃ thrown, read = .error thrown

theorem rejected_of_never_ok {α : Type} {read : Except ConvertError α}
    (never : ∀ value, read ≠ .ok value) : Rejected read := by
  cases read with
  | error thrown => exact ⟨thrown, rfl⟩
  | ok value => exact absurd rfl (never value)

/-- A four-element array with a version in front. -/
def Object.Versioned (version : Int) (object : Object) : Prop :=
  ∃ second third fourth, object = .array [.integer version, second, third, fourth]

/-- **The record formats round-trip and do not mix.** -/
theorem records_round_trip :
    (∀ doc : Document, unpackDocument (packDocument doc) = .ok doc) ∧
    (∀ idata : IndexData, IndexData.ofData idata.convert = .ok idata) ∧
    (∀ object : Object, ¬ object.Versioned Document.version → Rejected (convertDocument object)) ∧
    (∀ object : Object, ¬ object.Versioned IndexData.version →
      Rejected (convertIndexData object)) ∧
    (∀ idata : IndexData, Rejected (unpackDocument idata.convert)) ∧
    (∀ doc : Document, Rejected (IndexData.ofData (packDocument doc))) := by
  refine ⟨unpackDocument_packDocument, ofData_convert, fun object other => ?_,
    fun object other => ?_, fun idata => ?_, fun doc => ⟨_, ofData_packDocument doc⟩⟩
  · refine rejected_of_never_ok fun doc read => other ?_
    have packed : DataPointer.packed object = packDocument doc := unpackDocument_eq_ok_iff.mp read
    cases packed
    exact ⟨_, _, _, rfl⟩
  · refine rejected_of_never_ok fun idata read => other ?_
    have packed : DataPointer.packed object = idata.convert := ofData_eq_ok_iff.mp read
    cases packed
    exact ⟨_, _, _, rfl⟩
  · refine rejected_of_never_ok fun doc read => ?_
    have packed : idata.convert = packDocument doc := unpackDocument_eq_ok_iff.mp read
    simp [IndexData.convert, packDocument, IndexData.version, Document.version] at packed

end Wookie
