import Steward.Proofs.Document.IncludeOrder
import Steward.Proofs.Document.Inclusion
import Steward.Proofs.Value.Lookup

set_option autoImplicit false

namespace Steward.Merge

variable {es d : Entries} {own : Own} {e : Value × Value} {key : Value}

def isInclude : Value → Bool
  | .string name => Include.isKey name
  | _ => false

def ofKey (key : Value) (es : Entries) : Option (Option Value) :=
  if isInclude key then some none else (es.get? key).map some

def ofProperty (key : Value) (es : Entries) : Option (Option Value) :=
  match es.lookup propertiesKey with
  | some (.mapping ps) => (Entries.get? ps key).map some
  | some .null | none => none
  | some _ => some none

def property? (es : Entries) (key : Value) : Option Value :=
  match es.lookup propertiesKey with
  | some (.mapping ps) => Entries.get? ps key
  | _ => none

section Keys

theorem hasKey_map (es : Entries) (key : Value) :
    hasKey (es.map (·.1)) key = (es.get? key).isSome := by
  refine Bool.eq_iff_iff.mpr ?_
  simp [hasKey, Entries.get?_isSome_iff]

theorem hasKey_of_same (keys : List Value) {other : Value} (same : key.same other = true)
    (kept : key.distinct = true) : hasKey keys other = hasKey keys key := by
  unfold hasKey
  congr 1
  funext k
  exact Bool.eq_iff_iff.mpr
    ⟨Value.same_trans same, Value.same_trans (Value.same_symm same kept)⟩

def entryValue? (key : Value) (e : Value × Value) : Option Value :=
  if key.same e.1 then some e.2 else none

theorem latest_entryValue? (distinct : (Value.mapping es).distinct = true)
    (kept : key.distinct = true) : latest (entryValue? key) es = es.get? key := by
  have here {e : Value × Value} {v : Value} :
      entryValue? key e = some v ↔ key.same e.1 = true ∧ e.2 = v := by simp [entryValue?]
  refine Option.ext fun v => ?_
  rw [latest_eq_some_iff fun e member f among v w left right => ?_]
  · simp only [here, Entries.get?_eq_some_iff distinct kept]
  · have first := (Entries.get?_eq_some_iff distinct kept).mpr ⟨e, member, here.mp left⟩
    have second := (Entries.get?_eq_some_iff distinct kept).mpr ⟨f, among, here.mp right⟩
    exact Option.some.inj (first.symm.trans second)

theorem get?_insertMissing (mine : List Value) (es : Entries) (kept : key.distinct = true)
    (given : e.1.distinct = true) : Entries.get? (insertMissing mine es e) key =
      (if hasKey mine key then none else entryValue? key e).or (es.get? key) := by
  unfold insertMissing entryValue?
  by_cases here : key.same e.1 = true
  · rw [hasKey_of_same mine here kept]
    split
    · rfl
    · simp [Entries.get?_insert es e.2 given kept, here]
  · split <;> simp [Entries.get?_insert es e.2 given kept, here]

theorem get?_foldl_insertMissing (mine : List Value) (es : Entries) (kept : key.distinct = true)
    (distinct : (Value.mapping d).distinct = true) :
    Entries.get? (d.foldl (insertMissing mine) es) key =
      (if hasKey mine key then none else d.get? key).or (es.get? key) := by
  have each := ((Value.distinct_mapping d).mp distinct).2
  rw [foldl_latest (Entries.get? · key) (fun fs e member =>
    get?_insertMissing mine fs (e := e) kept (each e member).1) es, latest_gated,
    latest_entryValue? distinct kept]

theorem adopt_distinct (distinct : (Value.mapping es).distinct = true)
    (given : (Value.mapping d).distinct = true) :
    (Value.mapping (adopt own es d)).distinct = true :=
  (adopt_alike (.refl distinct) ⟨fun _ => rfl, fun _ => rfl⟩ given).left

theorem get?_adoptEntry (es : Entries) (own : Own) (kept : key.distinct = true)
    (given : e.1.distinct = true) (other : key.string? ≠ some propertiesKey) :
    Entries.get? (adoptEntry own es e) key =
      (if hasKey own.keys key then none else entryValue? key e).or (es.get? key) := by
  have apart : ¬ key.same (.string propertiesKey) = true := fun same =>
    other (Value.string?_of_same same)
  unfold adoptEntry
  split
  · next named =>
    have silent : entryValue? key e = none :=
      if_neg fun same => other ((Value.string?_of_same same).trans named)
    have put (v : Value) :
        Entries.get? (es.insert (.string propertiesKey) v) key = es.get? key := by
      rw [Entries.get?_insert es v rfl kept, if_neg apart]
    rw [silent, ite_self, Option.none_or]
    unfold adoptProperties
    split
    · split <;> first | exact put _ | rfl
    · rfl
  · exact get?_insertMissing own.keys es kept given

theorem get?_adopt (es : Entries) (own : Own) (kept : key.distinct = true)
    (distinct : (Value.mapping d).distinct = true) (other : key.string? ≠ some propertiesKey) :
    Entries.get? (adopt own es d) key =
      (if hasKey own.keys key then none else d.get? key).or (es.get? key) := by
  have each := ((Value.distinct_mapping d).mp distinct).2
  rw [adopt, foldl_latest (Entries.get? · key) (fun fs e member =>
    get?_adoptEntry fs own (e := e) kept (each e member).1 other) es, latest_gated,
    latest_entryValue? distinct kept]

theorem eq_string_of_isInclude (included : isInclude key = true) :
    ∃ name, key = .string name := by
  cases key with
  | string name => exact ⟨name, rfl⟩
  | _ => cases included

theorem get?_foldl_remove (includes : List (String × Value)) {v : Value}
    (distinct : (Value.mapping es).distinct = true) (kept : key.distinct = true) :
    Entries.get? (includes.foldl (fun es e => es.remove (.string e.1)) es) key = some v ↔
      es.get? key = some v ∧ ∀ e ∈ includes, key ≠ .string e.1 := by
  induction includes generalizing es with
  | nil => simp
  | cons e includes ih =>
    have left := Entries.distinct_of_subperm (Entries.remove_subperm es (.string e.1)) distinct
    have text : (Value.string e.1).distinct = true := rfl
    rw [List.foldl_cons, ih left, Entries.get?_remove distinct text kept, List.forall_mem_cons]
    by_cases here : key = .string e.1 <;> simp [here, Value.same_string_iff]

theorem get?_withoutIncludes (distinct : (Value.mapping es).distinct = true)
    (kept : key.distinct = true) :
    Entries.get? (withoutIncludes es) key = if isInclude key then none else es.get? key := by
  refine Option.ext fun v => ?_
  rw [withoutIncludes, get?_foldl_remove _ distinct kept]
  cases included : isInclude key with
  | false =>
    have apart : ∀ e ∈ Include.ofEntries es, key ≠ .string e.1 := by
      rintro e member rfl
      obtain ⟨-, -, -, name, -⟩ := Include.mem_ofEntries.mp member
      rw [isInclude, name] at included
      cases included
    simpa using fun _ => apart
  | true =>
    obtain ⟨name, rfl⟩ := eq_string_of_isInclude included
    refine iff_of_false ?_ (by simp)
    rintro ⟨found, apart⟩
    have member := (Entries.lookup_eq_some_iff distinct).mp found
    exact apart (name, v) (Include.mem_ofEntries.mpr ⟨_, member, rfl, included, rfl⟩) rfl

structure Clean (es : Entries) : Prop where
  distinct : (Value.mapping es).distinct = true
  clean : ∀ key, isInclude key = true → es.get? key = none

theorem merged_distinct {ds : List Entries} (distinct : (Value.mapping es).distinct = true)
    (given : ∀ d ∈ ds, Clean d) : (Value.mapping (merged es ds)).distinct = true := by
  refine List.foldlRecOn (motive := fun fs => (Value.mapping fs).distinct = true) ds _ ?_
    fun fs distinct d member => adopt_distinct distinct (given d member).distinct
  exact Entries.distinct_of_subperm (withoutIncludes_subperm es) distinct

theorem get?_merged {ds : List Entries} (distinct : (Value.mapping es).distinct = true)
    (given : ∀ d ∈ ds, Clean d) (kept : key.distinct = true)
    (other : key.string? ≠ some propertiesKey) : Entries.get? (merged es ds) key =
      (ofKey key es).getD (latest (Entries.get? · key) ds) := by
  rw [merged, foldl_latest (Entries.get? · key) (fun fs d member =>
    get?_adopt fs (Own.of (withoutIncludes es)) (d := d) kept (given d member).distinct other),
    latest_gated, Own.of, hasKey_map, get?_withoutIncludes distinct kept, ofKey]
  cases included : isInclude key with
  | true =>
    have silent : latest (Entries.get? · key) ds = none :=
      latest_eq_none_iff.mpr fun d member => (given d member).clean key included
    simp [silent]
  | false => cases es.get? key <;> simp

theorem merged_clean {ds : List Entries} (distinct : (Value.mapping es).distinct = true)
    (given : ∀ d ∈ ds, Clean d) : Clean (merged es ds) := by
  refine ⟨merged_distinct distinct given, fun key included => ?_⟩
  obtain ⟨name, rfl⟩ := eq_string_of_isInclude included
  have other : (Value.string name).string? ≠ some propertiesKey := by
    rintro ⟨⟩
    cases included
  simp [get?_merged distinct given rfl other, ofKey, included]

theorem answered_key (kept : key.distinct = true) (other : key.string? ≠ some propertiesKey) :
    Answered (ofKey key) (Entries.get? · key) (fun fs => (Value.mapping fs).distinct = true)
      Clean where
  fine _ _ distinct given := merged_clean distinct given
  reads _ _ distinct given := get?_merged distinct given kept other

end Keys

section Properties

def Untagged (texts : String → Bool) (es : Entries) : Prop :=
  ∀ e ∈ es, ∀ name, e.1.string? = some name → texts name = true → e.1 = .string name

theorem Untagged.insert {texts : String → Bool} {k v : Value} (untagged : Untagged texts es)
    (distinct : (Value.mapping es).distinct = true) (given : k.distinct = true)
    (plain : ∀ name, k.string? = some name → texts name = true → k = .string name) :
    Untagged texts (es.insert k v) := by
  intro f member name text among
  rcases Entries.mem_insert distinct given member with ⟨same, -⟩ | ⟨-, before⟩
  · rw [plain name ((Value.string?_of_same same).trans text) among] at same
    exact Value.eq_of_string_same same
  · exact untagged f before name text among

theorem adoptEntry_distinct (distinct : (Value.mapping es).distinct = true)
    (key : e.1.distinct = true) (value : e.2.distinct = true) :
    (Value.mapping (adoptEntry own es e)).distinct = true :=
  (adoptEntry_alike (.refl distinct) ⟨fun _ => rfl, fun _ => rfl⟩ key value).left

theorem Untagged.adoptEntry {texts : String → Bool} (untagged : Untagged texts es)
    (distinct : (Value.mapping es).distinct = true) (key : e.1.distinct = true)
    (plain : ∀ name, e.1.string? = some name → texts name = true → e.1 = .string name) :
    Untagged texts (adoptEntry own es e) := by
  have named : ∀ name, (Value.string propertiesKey).string? = some name → texts name = true →
      Value.string propertiesKey = .string name := by
    rintro name ⟨⟩ -
    rfl
  unfold Merge.adoptEntry adoptProperties insertMissing
  split
  · split
    · split <;> first | exact untagged.insert distinct rfl named | exact untagged
    · exact untagged
  · split
    · exact untagged
    · exact untagged.insert distinct key plain

theorem Untagged.adopt {texts : String → Bool} (untagged : Untagged texts es)
    (distinct : (Value.mapping es).distinct = true) (other : Untagged texts d)
    (given : (Value.mapping d).distinct = true) : Untagged texts (adopt own es d) := by
  have each := ((Value.distinct_mapping d).mp given).2
  refine (List.foldlRecOn (motive := fun fs => (Value.mapping fs).distinct = true ∧
    Untagged texts fs) d _ ⟨distinct, untagged⟩ fun fs holds e member => ?_).2
  obtain ⟨key, value⟩ := each e member
  exact ⟨adoptEntry_distinct holds.1 key value, holds.2.adoptEntry holds.1 key (other e member)⟩

theorem Untagged.merged {texts : String → Bool} {ds : List Entries}
    (untagged : Untagged texts es) (distinct : (Value.mapping es).distinct = true)
    (given : ∀ d ∈ ds, Clean d ∧ Untagged texts d) : Untagged texts (merged es ds) := by
  have sub := withoutIncludes_subperm es
  refine (List.foldlRecOn (motive := fun fs => (Value.mapping fs).distinct = true ∧
    Untagged texts fs) ds _ ⟨Entries.distinct_of_subperm sub distinct,
      fun e member => untagged e (sub.subset member)⟩ fun fs holds d member => ?_).2
  obtain ⟨clean, other⟩ := given d member
  exact ⟨adopt_distinct holds.1 clean.distinct, holds.2.adopt holds.1 other clean.distinct⟩

def entryProperty? (key : Value) (e : Value × Value) : Option Value :=
  match e.1.string? == some propertiesKey, e.2 with
  | true, .mapping ps => Entries.get? ps key
  | _, _ => none

theorem property?_of_lookup {ps : Entries} (found : es.lookup propertiesKey = some (.mapping ps))
    (key : Value) : property? es key = Entries.get? ps key := by
  rw [property?, found]

theorem latest_entryProperty? (distinct : (Value.mapping d).distinct = true)
    (untagged : Untagged (· == propertiesKey) d) (key : Value) :
    latest (entryProperty? key) d = property? d key := by
  have here {e : Value × Value} {v : Value} (member : e ∈ d)
      (found : entryProperty? key e = some v) : property? d key = some v := by
    obtain ⟨k, block⟩ := e
    unfold entryProperty? at found
    split at found
    · next ps named same =>
      subst same
      obtain rfl : k = .string propertiesKey :=
        untagged _ member propertiesKey (beq_iff_eq.mp named) (by simp)
      rw [property?_of_lookup ((Entries.lookup_eq_some_iff distinct).mpr member), found]
    · cases found
  refine Option.ext fun v => ?_
  rw [latest_eq_some_iff fun e member f among v w left right =>
    Option.some.inj ((here member left).symm.trans (here among right))]
  refine ⟨fun ⟨e, member, found⟩ => here member found, fun found => ?_⟩
  unfold property? at found
  split at found
  · next ps there =>
    have member := (Entries.lookup_eq_some_iff distinct).mp there
    exact ⟨_, member, by simpa [entryProperty?] using found⟩
  · cases found

def Open (own : Own) (es : Entries) : Prop :=
  (∃ ps, es.lookup propertiesKey = some (.mapping ps)) ∨
    (es.lookup propertiesKey = none ∨ es.lookup propertiesKey = some .null) ∧ own.properties = []

theorem lookup_insertMissing (mine : List Value) (es : Entries)
    (other : e.1.string? ≠ some propertiesKey) :
    (insertMissing mine es e).lookup propertiesKey = es.lookup propertiesKey := by
  unfold insertMissing
  split
  · rfl
  · exact Entries.lookup_insert_of_ne es e.2 fun same => other (by rw [same]; rfl)

theorem property?_insert (es ps : Entries) (key : Value) :
    property? (es.insert (.string propertiesKey) (.mapping ps)) key = Entries.get? ps key :=
  property?_of_lookup (Entries.lookup_insert_self ..) key

theorem adoptProperties_of_mapping {mine : Entries}
    (found : es.lookup propertiesKey = some (.mapping mine)) (own : Own) (ps : Entries) :
    adoptProperties own es (.mapping ps) = es.insert (.string propertiesKey)
      (.mapping (ps.foldl (insertMissing own.properties) mine)) := by
  simp only [adoptProperties, found]

theorem adoptProperties_of_empty
    (empty : es.lookup propertiesKey = none ∨ es.lookup propertiesKey = some .null) (own : Own)
    (ps : Entries) :
    adoptProperties own es (.mapping ps) = es.insert (.string propertiesKey) (.mapping ps) := by
  rcases empty with found | found <;> simp only [adoptProperties, found]

theorem property?_of_empty
    (empty : es.lookup propertiesKey = none ∨ es.lookup propertiesKey = some .null)
    (key : Value) : property? es key = none := by
  rcases empty with found | found <;> simp only [property?, found]

theorem property?_adoptEntry (ready : Open own es) (value : e.2.distinct = true)
    (kept : key.distinct = true) : Open own (adoptEntry own es e) ∧
      property? (adoptEntry own es e) key =
        (if hasKey own.properties key then none else entryProperty? key e).or
          (property? es key) := by
  obtain ⟨k, v⟩ := e
  by_cases named : k.string? = some propertiesKey
  · have taken : adoptEntry own es (k, v) = adoptProperties own es v := if_pos named
    rw [taken]
    cases v with
    | mapping ps =>
      rcases ready with ⟨mine, found⟩ | ⟨empty, none⟩
      · rw [adoptProperties_of_mapping found, property?_insert, property?_of_lookup found,
          get?_foldl_insertMissing own.properties mine kept value]
        exact ⟨.inl ⟨_, Entries.lookup_insert_self ..⟩, by simp [entryProperty?, named]⟩
      · rw [adoptProperties_of_empty empty, property?_insert, property?_of_empty empty]
        exact ⟨.inl ⟨_, Entries.lookup_insert_self ..⟩,
          by simp [none, hasKey, entryProperty?, named]⟩
    | _ => exact ⟨ready, by simp [adoptProperties, entryProperty?]⟩
  · have taken : adoptEntry own es (k, v) = insertMissing own.keys es (k, v) := if_neg named
    have same := lookup_insertMissing own.keys es (e := (k, v)) named
    rw [taken, Open, property?, same]
    exact ⟨ready, by simp [entryProperty?, named, property?]⟩

theorem property?_adopt (ready : Open own es) (distinct : (Value.mapping d).distinct = true)
    (untagged : Untagged (· == propertiesKey) d) (kept : key.distinct = true) :
    Open own (adopt own es d) ∧ property? (adopt own es d) key =
      (if hasKey own.properties key then none else property? d key).or (property? es key) := by
  have each := ((Value.distinct_mapping d).mp distinct).2
  rw [← latest_entryProperty? distinct untagged, ← latest_gated]
  exact foldl_latest_of (Open own) (property? · key) (fun fs ready e member =>
    property?_adoptEntry (e := e) ready (each e member).2 kept) ready

theorem lookup_withoutIncludes_properties (distinct : (Value.mapping es).distinct = true) :
    (withoutIncludes es).lookup propertiesKey = es.lookup propertiesKey := by
  have kept : (Value.string propertiesKey).distinct = true := rfl
  have plain : isInclude (.string propertiesKey) = false := by decide +kernel
  rw [Entries.lookup, get?_withoutIncludes distinct kept, plain]
  rfl

theorem property?_foldl_adopt {ds : List Entries} (ready : Open own es)
    (given : ∀ d ∈ ds, Clean d ∧ Untagged (· == propertiesKey) d) (kept : key.distinct = true) :
    property? (ds.foldl (adopt own) es) key =
      (if hasKey own.properties key then none else latest (property? · key) ds).or
        (property? es key) := by
  rw [← latest_gated]
  refine (foldl_latest_of (Open own) (property? · key) (fun fs ready d member => ?_) ready).2
  obtain ⟨clean, untagged⟩ := given d member
  exact property?_adopt ready clean.distinct untagged kept

theorem lookup_adoptProperties_of_other {v : Value} (found : es.lookup propertiesKey = some v)
    (other : ∀ ps, v ≠ .mapping ps) (given : v ≠ .null) (own : Own) (included : Value) :
    adoptProperties own es included = es := by
  unfold adoptProperties
  split
  · rw [found]
    cases v <;> first | rfl | simp at other given
  · rfl

theorem lookup_foldl_adopt_of_other {ds : List Entries} {v : Value}
    (found : es.lookup propertiesKey = some v) (other : ∀ ps, v ≠ .mapping ps)
    (given : v ≠ .null) (own : Own) :
    Entries.lookup (ds.foldl (adopt own) es) propertiesKey = some v := by
  refine List.foldlRecOn (motive := fun fs => Entries.lookup fs propertiesKey = some v) ds _
    found fun fs found d _ => ?_
  refine List.foldlRecOn (motive := fun fs => Entries.lookup fs propertiesKey = some v) d _
    found fun fs found e _ => ?_
  unfold adoptEntry
  split
  · rw [lookup_adoptProperties_of_other found other given own, found]
  · next unnamed => rw [lookup_insertMissing own.keys fs unnamed, found]

theorem property?_merged {ds : List Entries} (distinct : (Value.mapping es).distinct = true)
    (given : ∀ d ∈ ds, Clean d ∧ Untagged (· == propertiesKey) d) (kept : key.distinct = true) :
    property? (merged es ds) key = (ofProperty key es).getD (latest (property? · key) ds) := by
  have same := lookup_withoutIncludes_properties distinct
  unfold merged
  cases found : es.lookup propertiesKey with
  | none =>
    rw [found] at same
    have none : (Own.of (withoutIncludes es)).properties = [] := by simp [Own.of, same]
    rw [property?_foldl_adopt (.inr ⟨.inl same, none⟩) given kept]
    simp [property?, ofProperty, same, found, none, hasKey]
  | some v =>
    rw [found] at same
    cases v with
    | mapping ps =>
      have mine : (Own.of (withoutIncludes es)).properties = ps.map (·.1) := by
        simp [Own.of, same]
      rw [property?_foldl_adopt (.inl ⟨ps, same⟩) given kept, mine, hasKey_map,
        property?_of_lookup same, ofProperty, found]
      cases here : Entries.get? ps key <;> simp [here]
    | null =>
      have none : (Own.of (withoutIncludes es)).properties = [] := by simp [Own.of, same]
      rw [property?_foldl_adopt (.inr ⟨.inr same, none⟩) given kept]
      simp [property?, ofProperty, same, found, none, hasKey]
    | _ =>
      rw [property?, lookup_foldl_adopt_of_other same (by simp) (by simp), ofProperty, found]
      rfl

theorem answered_property (kept : key.distinct = true) :
    Answered (ofProperty key) (property? · key)
      (fun fs => (Value.mapping fs).distinct = true ∧ Untagged (· == propertiesKey) fs)
      (fun d => Clean d ∧ Untagged (· == propertiesKey) d) where
  fine _ _ good given :=
    ⟨merged_clean good.1 fun d member => (given d member).1, good.2.merged good.1 given⟩
  reads _ _ good given := property?_merged good.1 given kept

instance (texts : String → Bool) (es : Entries) : Decidable (Untagged texts es) :=
  decidable_of_iff (∀ e ∈ es, ∀ name ∈ e.1.string?, texts name = true →
      e.1.same (.string name) = true) <| by
    simp only [Untagged, Value.same_string_iff, Option.mem_def]

end Properties

end Steward.Merge
