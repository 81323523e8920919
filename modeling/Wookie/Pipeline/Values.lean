/-
**Meta information as a map: `meta_info_t`.**

The applications of the pipeline hand a document on with its properties: `set_value` packs a value
under a name, `value` unpacks it, and between two applications the whole map is packed and unpacked.
`set_value` calls `std::map::insert`, which leaves a name that is there alone.

* `TypeTraits` — `cocaine::io::type_traits` of a type, whose `pack` and `unpack` round-trip.
* `getElem?_ofEvents` — after any history a name holds what was set under it first.
* `behavesAsMap_iff` — **a history of sets and transfers behaves as a map exactly if what was set
  first under each name is read as what was set last.**
* `reprocessed_keeps_old` — a document whose term frequencies are computed anew.
-/

import Wookie.Pipeline.Handler

namespace Wookie

/-! ### `cocaine::io::type_traits` -/

/-- `type_traits<T>` with `T()`. What is packed is read back. -/
structure TypeTraits (T : Type) where
  pack : T → Object
  unpack : Object → Except ConvertError T
  default : T
  unpack_pack : ∀ value, unpack (pack value) = .ok value

namespace TypeTraits

variable {T T₁ T₂ : Type}

/-- `type_traits<std::string>`. -/
def string : TypeTraits Str where
  pack := .raw
  unpack := convertString
  default := []
  unpack_pack _ := rfl

/-- `type_traits<size_t>`. -/
def size : TypeTraits ℕ where
  pack n := .integer n
  unpack := convertUint64
  default := 0
  unpack_pack n := by simp [convertUint64]

/-- `type_traits<std::pair<T1, T2>>`. -/
def pair (first : TypeTraits T₁) (second : TypeTraits T₂) : TypeTraits (T₁ × T₂) where
  pack value := .array [first.pack value.1, second.pack value.2]
  unpack
    | .array [one, two] => do
      let one ← first.unpack one
      let two ← second.unpack two
      return (one, two)
    | _ => .error .type
  default := (first.default, second.default)
  unpack_pack value := by
    simp [first.unpack_pack, second.unpack_pack, bind, Except.bind, pure, Except.pure]

theorem mapM_unpack_map (traits : TypeTraits T) (values : List T) :
    (values.map traits.pack).mapM traits.unpack = .ok values := by
  induction values with
  | nil => rfl
  | cons value rest ih =>
    rw [List.map_cons, List.mapM_cons, ih, traits.unpack_pack]
    rfl

/-- `type_traits<std::vector<T>>`. -/
def vector (traits : TypeTraits T) : TypeTraits (List T) where
  pack values := .array (values.map traits.pack)
  unpack
    | .array elements => elements.mapM traits.unpack
    | _ => .error .type
  default := []
  unpack_pack := mapM_unpack_map traits

end TypeTraits

/-! ### Values -/

namespace MetaInfo

variable {T : Type}

/-- `set_value<T>`. -/
def setValueAs (traits : TypeTraits T) (info : MetaInfo) (name : Str) (value : T) : MetaInfo :=
  info.setValue name (traits.pack value)

/-- `value<T>`. -/
def valueAs (traits : TypeTraits T) (info : MetaInfo) (name : Str) : Except ConvertError T :=
  match info[name]? with
  | none => .ok traits.default
  | some packed => (Wookie.unpack packed).bind traits.unpack

/-- What a name holds decides its value. -/
theorem valueAs_congr {info other : MetaInfo} {name : Str} (traits : TypeTraits T)
    (same : info[name]? = other[name]?) : valueAs traits info name = valueAs traits other name := by
  rw [valueAs, valueAs, same]

theorem valueAs_of_packed {info : MetaInfo} {name : Str} {object : Object} (traits : TypeTraits T)
    (held : info[name]? = some (.packed object)) :
    valueAs traits info name = traits.unpack object := by
  rw [valueAs, held]
  rfl

/-- **What a name holds after a set**: what it held, or else what is set under it. -/
theorem getElem?_setValue (info : MetaInfo) (other : Str) (object : Object) (name : Str) :
    (info.setValue other object)[name]? =
      info[name]?.or (if other = name then some (.packed object) else none) := by
  rw [setValue, Std.TreeMap.getElem?_insertIfNew]
  by_cases own : other = name
  · subst own
    rw [if_pos rfl]
    cases held : info[other]? with
    | some data =>
      have member : other ∈ info := Std.TreeMap.mem_iff_isSome_getElem?.mpr (held ▸ rfl)
      rw [if_neg fun fresh => fresh.2 member]
      rfl
    | none =>
      have missing : other ∉ info := by
        rw [Std.TreeMap.mem_iff_isSome_getElem?, held]
        exact Bool.false_ne_true
      rw [if_pos ⟨Std.ReflCmp.compare_self, missing⟩]
      rfl
  · rw [if_neg fun fresh => own (Std.LawfulEqCmp.eq_of_compare fresh.1), if_neg own, Option.or_none]

/-! ### Transfers -/

/-- `type_traits<meta_info_t>::pack`: the map, pair by pair. -/
def pack (info : MetaInfo) : List (Str × DataPointer) := info.toList

/-- `type_traits<meta_info_t>::unpack`: every pair is put into a fresh map. -/
def unpack (pairs : List (Str × DataPointer)) : MetaInfo := .ofList pairs

/-- **A transfer changes no property.** -/
theorem getElem?_unpack_pack (info : MetaInfo) (name : Str) :
    (unpack (pack info))[name]? = info[name]? := by
  cases held : info[name]? with
  | some data =>
    exact Std.TreeMap.getElem?_ofList_of_mem Std.ReflCmp.compare_self
      Std.TreeMap.distinct_keys_toList (Std.TreeMap.mem_toList_iff_getElem?_eq_some.mpr held)
  | none =>
    refine Std.TreeMap.getElem?_ofList_of_contains_eq_false ?_
    rw [Bool.eq_false_iff]
    intro listed
    obtain ⟨⟨other, data⟩, member, rfl⟩ := List.mem_map.mp (List.contains_iff_mem.mp listed)
    have found := Std.TreeMap.mem_toList_iff_getElem?_eq_some.mp member
    rw [held] at found
    cases found

end MetaInfo

/-! ### Histories -/

/-- A value that is set, with the type it is set as. -/
structure Setting where
  {T : Type}
  traits : TypeTraits T
  value : T

/-- What the applications do with the meta information of a document. -/
inductive MetaEvent
  | setValue (name : Str) (setting : Setting)
  | setUrl (url : Str)
  | setBody (body : Str)
  /-- The meta information is packed, pushed to the next application and unpacked there. -/
  | transfer

namespace MetaEvent

/-- The meta information after the event. -/
def apply (info : MetaInfo) : MetaEvent → MetaInfo
  | .setValue name setting => info.setValueAs setting.traits name setting.value
  | .setUrl url => info.setUrl url
  | .setBody body => info.setBody body
  | .transfer => .unpack info.pack

/-- The name that is set, and to what. -/
def sets : MetaEvent → Option (Str × Setting)
  | .setValue name setting => some (name, setting)
  | .setUrl url => some ("url".toList, ⟨.string, url⟩)
  | .setBody body => some ("body".toList, ⟨.string, body⟩)
  | .transfer => none

/-- What is set under a name. -/
def settingOf (event : MetaEvent) (name : Str) : Option Setting :=
  event.sets.bind fun set => if set.1 = name then some set.2 else none

/-- **What an event leaves under a name**: what was there, or else what it sets. -/
theorem getElem?_apply (info : MetaInfo) (event : MetaEvent) (name : Str) :
    (event.apply info)[name]? = info[name]?.or
      ((event.settingOf name).map fun setting => .packed (setting.traits.pack setting.value)) := by
  have set : ∀ (other : Str) (setting : Setting),
      (info.setValue other (setting.traits.pack setting.value))[name]? = info[name]?.or
        ((if other = name then some setting else none).map
          fun setting => .packed (setting.traits.pack setting.value)) := by
    intro other setting
    rw [MetaInfo.getElem?_setValue]
    split
    · rfl
    · rfl
  cases event with
  | setValue other setting => exact set other setting
  | setUrl url => exact set "url".toList ⟨.string, url⟩
  | setBody body => exact set "body".toList ⟨.string, body⟩
  | transfer =>
    rw [apply, MetaInfo.getElem?_unpack_pack]
    exact Option.or_none.symm

end MetaEvent

/-- The meta information after the events, from a fresh one. -/
def MetaInfo.ofEvents (events : List MetaEvent) : MetaInfo := events.foldl MetaEvent.apply ∅

/-- What is set under a name, in order. -/
def settings (events : List MetaEvent) (name : Str) : List Setting :=
  events.filterMap (·.settingOf name)

/-- **A name holds what was set under it first.** -/
theorem getElem?_ofEvents (events : List MetaEvent) (name : Str) :
    (MetaInfo.ofEvents events)[name]? =
      (settings events name).head?.map fun setting =>
        .packed (setting.traits.pack setting.value) := by
  induction events using List.reverseRecOn with
  | nil => exact Std.TreeMap.getElem?_emptyc
  | append_singleton events event ih =>
    have last : MetaInfo.ofEvents (events ++ [event]) = event.apply (.ofEvents events) := by
      simp only [MetaInfo.ofEvents, List.foldl_append, List.foldl_cons, List.foldl_nil]
    have more : settings (events ++ [event]) name =
        settings events name ++ (event.settingOf name).toList := by
      simp only [settings, List.filterMap_append, List.filterMap_cons, List.filterMap_nil]
      cases event.settingOf name with
      | none => rfl
      | some setting => rfl
    rw [last, MetaEvent.getElem?_apply, ih, more, List.head?_append, Option.map_or]
    cases event.settingOf name with
    | none => rfl
    | some setting => rfl

/-- **What is read under a name** is what was set under it first. -/
theorem valueAs_ofEvents {events : List MetaEvent} {name : Str} {first : Setting}
    (found : (settings events name).head? = some first) {T : Type} (traits : TypeTraits T) :
    MetaInfo.valueAs traits (.ofEvents events) name =
      traits.unpack (first.traits.pack first.value) := by
  refine MetaInfo.valueAs_of_packed traits ?_
  rw [getElem?_ofEvents, found]
  rfl

/-- **The meta information behaves as a map**: a name that was never set has the default value of
any type, any other the value set last; a set leaves all other names alone. -/
structure BehavesAsMap (events : List MetaEvent) : Prop where
  unset : ∀ name, settings events name = [] → ∀ {T : Type} (traits : TypeTraits T),
    MetaInfo.valueAs traits (.ofEvents events) name = .ok traits.default
  latest : ∀ name setting, (settings events name).getLast? = some setting →
    MetaInfo.valueAs setting.traits (.ofEvents events) name = .ok setting.value
  others : ∀ (event : MetaEvent) name, (∀ set, event.sets = some set → set.1 ≠ name) →
    ∀ {T : Type} (traits : TypeTraits T),
      MetaInfo.valueAs traits (event.apply (.ofEvents events)) name =
        MetaInfo.valueAs traits (.ofEvents events) name

/-- Under every name, what was set first is read, by the type of the last set, as what was set
last. -/
def SetsAgree (events : List MetaEvent) : Prop :=
  ∀ name first last, (settings events name).head? = some first →
    (settings events name).getLast? = some last →
    last.traits.unpack (first.traits.pack first.value) = .ok last.value

/-- **A history behaves as a map** exactly if its sets agree. -/
theorem behavesAsMap_iff (events : List MetaEvent) : BehavesAsMap events ↔ SetsAgree events := by
  constructor
  · intro maps name first last found newest
    rw [← valueAs_ofEvents found]
    exact maps.latest name last newest
  · intro agree
    refine ⟨fun name never T traits => ?_, fun name last newest => ?_,
      fun event name elsewhere T traits => ?_⟩
    · have absent : (MetaInfo.ofEvents events)[name]? = none := by
        rw [getElem?_ofEvents, never]
        rfl
      rw [MetaInfo.valueAs, absent]
    · cases found : (settings events name).head? with
      | none =>
        rw [List.head?_eq_none_iff.mp found] at newest
        cases newest
      | some first =>
        rw [valueAs_ofEvents found]
        exact agree name first last found newest
    · refine MetaInfo.valueAs_congr traits ?_
      rw [MetaEvent.getElem?_apply]
      have untouched : event.settingOf name = none := by
        rw [MetaEvent.settingOf, Option.bind_eq_none_iff]
        exact fun set sets => if_neg (elsewhere set sets)
      rw [untouched]
      exact Option.or_none

/-! ### Reprocessing -/

/-- `std::vector<std::pair<std::string, size_t>>`, the type of `terms_frequencies`. -/
abbrev TypeTraits.frequencies : TypeTraits (List (Str × ℕ)) := .vector (.pair .string .size)

/-- The frequencies of a document are computed, handed on, and computed anew. -/
def reprocessed : List MetaEvent :=
  [.setUrl ['u'], .setBody ['a'],
    .setValue "terms_frequencies".toList ⟨.frequencies, [(['a'], 1)]⟩, .transfer,
    .setValue "terms_frequencies".toList ⟨.frequencies, [(['b'], 1)]⟩]

/-- **The frequencies computed first stay.** -/
theorem reprocessed_keeps_old : ¬ BehavesAsMap reprocessed := by
  intro maps
  have agree := (behavesAsMap_iff reprocessed).mp maps "terms_frequencies".toList
    ⟨.frequencies, [(['a'], 1)]⟩ ⟨.frequencies, [(['b'], 1)]⟩ rfl rfl
  rw [TypeTraits.unpack_pack] at agree
  exact absurd (Except.ok.inj agree) (by decide)

end Wookie
