import Steward.Document.Listing
import Steward.Proofs.Loading.Completeness
import Steward.Proofs.Typed.Readings

set_option autoImplicit false

namespace Steward

namespace Value

variable {f g : String → String} {v w : Value}

@[simp] theorem mapStrings_sequence (xs : List Value) :
    (Value.sequence xs).mapStrings f = .sequence (xs.map (mapStrings f)) := by
  rw [mapStrings, mapItems_eq_map]

@[simp] theorem mapStrings_mapping (es : Entries) :
    (Value.mapping es).mapStrings f = .mapping (es.map fun e => (e.1, e.2.mapStrings f)) := by
  rw [mapStrings, mapEntries_eq_map]

@[simp] theorem distinct_mapStrings (v : Value) :
    (v.mapStrings f).distinct = true ↔ v.distinct = true := by
  induction v using induct with
  | sequence xs ih =>
    rw [mapStrings_sequence, distinct_sequence, distinct_sequence, List.forall_mem_map]
    exact forall₂_congr ih
  | mapping es ih =>
    rw [mapStrings_mapping, distinct_mapping, distinct_mapping, List.forall_mem_map,
      List.pairwise_map]
    exact and_congr_right fun _ => forall₂_congr fun e member =>
      and_congr_right fun _ => (ih e member).2
  | _ => rfl

@[simp] theorem unsignedZeros_mapStrings (v : Value) :
    (v.mapStrings f).unsignedZeros = true ↔ v.unsignedZeros = true := by
  induction v using induct with
  | sequence xs ih =>
    rw [mapStrings_sequence, unsignedZeros_sequence, unsignedZeros_sequence, List.forall_mem_map]
    exact forall₂_congr ih
  | mapping es ih =>
    rw [mapStrings_mapping, unsignedZeros_mapping, unsignedZeros_mapping, List.forall_mem_map]
    exact forall₂_congr fun e member => (ih e member).2
  | _ => rfl

end Value

theorem Entries.lookup_map (es : Entries) (f : Value → Value) (key : String) :
    lookup (es.map fun e => (e.1, f e.2)) key = (es.lookup key).map f := by
  simp only [lookup, get?, List.find?_map, Option.map_map]
  rfl

theorem Entries.lookup_expanded {f g : String → String} {es fs : Entries}
    (same : ((Value.mapping es).mapStrings f).same ((Value.mapping fs).mapStrings g) = true)
    (left : (Value.mapping es).distinct = true) (right : (Value.mapping fs).distinct = true)
    (key : String) :
    Option.Rel (fun v w => (v.mapStrings f).same (w.mapStrings g) = true) (es.lookup key)
      (fs.lookup key) := by
  rw [Value.mapStrings_mapping, Value.mapStrings_mapping] at same
  rw [← Value.distinct_mapStrings (f := f), Value.mapStrings_mapping] at left
  rw [← Value.distinct_mapStrings (f := g), Value.mapStrings_mapping] at right
  cases found : es.lookup key with
  | none =>
    have absent := lookup_map fs (Value.mapStrings g) key
    rw [lookup_none_same same left right (by rw [lookup_map, found]; rfl), eq_comm,
      Option.map_eq_none_iff] at absent
    rw [absent]
    exact .none
  | some v =>
    have expanded : lookup (es.map fun e => (e.1, e.2.mapStrings f)) key =
        some (v.mapStrings f) := by
      rw [lookup_map, found]
      rfl
    obtain ⟨w, found', alike⟩ := lookup_same same left right expanded
    rw [lookup_map, Option.map_eq_some_iff] at found'
    obtain ⟨w, found', rfl⟩ := found'
    rw [found']
    exact .some alike

def Value.plain : Value → Bool
  | .string _ => false
  | .mapping es =>
    (Include.ofEntries es).isEmpty &&
      match Entries.lookup es Merge.propertiesKey with
      | some (.mapping _) => false
      | _ => true
  | _ => true

theorem Merge.mergeWith_plain (file : Path → Load Entries) (t : PropertyTable) {es : Entries}
    (base : Option Path) (plain : Include.ofEntries es = []) :
    Merge.mergeWith file t es base = pure es := by
  simp [Merge.mergeWith, Merge.withoutIncludes, plain]

inductive Way
  | field (key : String)
  | item (key : String) (index : Nat)

namespace Entries

def node (es : Entries) (key : String) : Value := (es.lookup key).getD .null

def ofValue : Value → Entries
  | .mapping es => es
  | _ => []

def entered (es : Entries) : Way → Entries
  | .field key => ofValue (es.node key)
  | .item key index =>
    match es.node key with
    | .sequence vs => ofValue (vs[index]?.getD .null)
    | _ => []

def staysIn (es : Entries) : Way → Bool
  | .field key => (es.node key).plain
  | .item key index =>
    match es.node key with
    | .string _ => false
    | .sequence vs =>
      vs.all (fun v => (Listing.loneInclude? v).isNone) && (vs[index]?.getD .null).plain
    | _ => true

/-- The walk meets nothing but what is written in the document itself. -/
def stays (es : Entries) : List Way → Bool
  | [] => true
  | way :: ways => es.staysIn way && (es.entered way).stays ways

end Entries

namespace Section

def go (sec : Section) : Way → Load Section
  | .field key => sec.getSection key
  | .item key index => do (← sec.getList key).get index

def walk (sec : Section) (ways : List Way) : Load Section := ways.foldlM go sec

def readAt (α : Type) [Typed α] (sec : Section) (ways : List Way) (key : String) :
    Load (Option α) := do
  (← sec.walk ways).fetch key fun sec s key => sec.get s key

def inside (sec : Section) (place : String) : Value → Except ConfigFault Section
  | .null => .ok ⟨place, sec.table, [], sec.base⟩
  | .mapping es =>
    match Entries.lookup es Merge.propertiesKey with
    | none | some .null => .ok ⟨place, sec.table, es, sec.base⟩
    | some _ => .error (.malformed (joinPlace place Merge.propertiesKey) .properties)
  | _ => .error (.malformed (orRoot place) .section)

theorem finish_plain (sec : Section) (place : String) (left : Nat) {es : Entries}
    (plain : (Value.mapping es).plain = true) :
    build.finish place sec.table left es sec.base = liftM (sec.inside place (.mapping es)) := by
  simp only [Value.plain, Bool.and_eq_true, List.isEmpty_iff] at plain
  obtain ⟨none, own⟩ := plain
  unfold build.finish Merge.mergeIncludes
  rw [Merge.mergeWith_plain _ _ _ none, pure_bind]
  simp only [inside]
  cases found : es.lookup Merge.propertiesKey with
  | none => rfl
  | some block =>
    rw [found] at own
    cases block with
    | mapping block => cases own
    | _ => rfl

theorem build_plain (sec : Section) (place : String) (left : Nat) {v : Value}
    (plain : v.plain = true) :
    build place sec.table left v sec.base = liftM (sec.inside place v) := by
  cases v with
  | null =>
    rw [build]
    have plain : (Value.mapping []).plain = true := by
      simp [Value.plain, Include.ofEntries, Entries.lookup, Entries.get?]
    exact finish_plain sec place left plain
  | mapping es =>
    rw [build]
    exact finish_plain sec place left plain
  | string text => cases plain
  | _ => cases left <;> rfl

end Section

theorem Load.mapM_pure {α β : Type} {f : α → Load β} {g : α → β} {items : List α}
    (each : ∀ a ∈ items, f a = pure (g a)) : items.mapM f = pure (items.map g) := by
  induction items with
  | nil => rfl
  | cons a items ih =>
    simp only [List.forall_mem_cons] at each
    rw [List.mapM_cons, each.1, pure_bind, ih each.2, pure_bind, List.map_cons]

theorem Listing.spliceWith_plain (file : Path → Load (List (Value × Option Path)))
    (t : PropertyTable) {vs : List Value} (base : Option Path)
    (plain : ∀ v ∈ vs, loneInclude? v = none) :
    spliceWith file t vs base = pure (vs.map (·, base)) := by
  rw [spliceWith, Load.mapM_pure (g := fun v => [(v, base)]), pure_bind, ← List.flatMap_def]
  · rw [List.map_eq_flatMap]
  · intro v member
    simp only [plain v member]

namespace Section

def stepIn (sec : Section) : Way → Except ConfigFault Section
  | .field key => sec.inside (sec.placeOf key) (sec.document.node key)
  | .item key index =>
    let place := joinPlace (sec.placeOf key) (toString index)
    match sec.document.node key with
    | .null => .error (.missing place)
    | .sequence vs =>
      match vs[index]? with
      | none => .error (.missing place)
      | some v => sec.inside place v
    | _ => .error (.malformed (orRoot (sec.placeOf key)) .list)

theorem go_plain {sec : Section} {way : Way} (stays : sec.document.staysIn way = true) :
    sec.go way = liftM (sec.stepIn way) := by
  cases way with
  | field key => exact build_plain sec (sec.placeOf key) includeLimit stays
  | item key index =>
    simp only [Entries.staysIn] at stays
    simp only [stepIn]
    change (Listing.build (sec.placeOf key) sec.table (sec.document.node key) sec.base >>= _) = _
    generalize sec.document.node key = v at stays ⊢
    cases v with
    | string text => cases stays
    | sequence vs =>
      simp only [Bool.and_eq_true, List.all_eq_true, Option.isNone_iff_eq_none] at stays
      obtain ⟨alone, plain⟩ := stays
      simp only [Listing.build, Listing.spliceWith_plain _ _ _ alone, pure_bind, Listing.get,
        List.getElem?_map]
      cases found : vs[index]? with
      | none => rfl
      | some v =>
        rw [found] at plain
        exact build_plain sec _ includeLimit plain
    | _ => rfl

end Section

namespace Include

theorem ofEntries_eq_nil (es : Entries) : ofEntries es = [] ↔ ∀ e ∈ es, ofEntry? e = none := by
  rw [ofEntries, ← List.length_eq_zero_iff, List.length_mergeSort, List.length_eq_zero_iff,
    List.filterMap_eq_nil_iff]

theorem ofEntry?_eq_none {e e' : Value × Value} (key : e.1.string? = e'.1.string?)
    (absent : ofEntry? e = none) : ofEntry? e' = none := by
  unfold ofEntry? at absent ⊢
  rw [Option.map_eq_none_iff] at absent ⊢
  rwa [← key]

end Include

theorem Listing.loneInclude?_same {v w : Value} (same : v.same w = true)
    (alone : loneInclude? v = none) : loneInclude? w = none := by
  induction v using Value.induct generalizing w with
  | null => rwa [Value.eq_of_null_same same]
  | bool b => rwa [Value.eq_of_bool_same same]
  | string s => rwa [Value.eq_of_string_same same]
  | number n =>
    obtain ⟨m, rfl, -⟩ := Value.of_number_same same
    rfl
  | sequence xs =>
    obtain ⟨ys, rfl, -⟩ := Value.of_sequence_same same
    rfl
  | mapping es =>
    obtain ⟨fs, rfl, length, matched⟩ := Value.of_mapping_same same
    match es, fs, length with
    | [e], [e'], _ =>
      obtain ⟨_, inside, key, -⟩ := matched e (by simp)
      cases List.mem_singleton.mp inside
      exact Include.ofEntry?_eq_none (Value.string?_same key) alone
    | [], [], _ => rfl
    | _ :: _ :: _, _ :: _ :: _, _ => rfl
  | tagged tag v ih =>
    obtain ⟨other, u, rfl, -, inner⟩ := Value.of_tagged_same same
    have apart : loneInclude? u = none := ih inner alone
    exact apart

theorem Listing.loneInclude?_mapStrings (f : String → String) (v : Value) :
    loneInclude? (v.mapStrings f) = none ↔ loneInclude? v = none := by
  cases v with
  | mapping es =>
    rw [Value.mapStrings_mapping]
    match es with
    | [] => rfl
    | [e] =>
      change Include.ofEntry? (e.1, e.2.mapStrings f) = none ↔ Include.ofEntry? e = none
      exact ⟨Include.ofEntry?_eq_none rfl, Include.ofEntry?_eq_none rfl⟩
    | _ :: _ :: _ => rfl
  | sequence xs => rw [Value.mapStrings_sequence]; rfl
  | _ => rfl

structure Value.Like (f g : String → String) (v w : Value) : Prop where
  same : (v.mapStrings f).same (w.mapStrings g) = true
  distinct : v.distinct = true ∧ w.distinct = true
  unsigned : v.unsignedZeros = true ∧ w.unsignedZeros = true

namespace Value.Like

variable {f g : String → String} {v w : Value} {es fs : Entries} {xs ys : List Value}

theorem null : Like f g .null .null := ⟨rfl, ⟨rfl, rfl⟩, rfl, rfl⟩

theorem eq_null (like : Like f g .null w) : w = .null := by
  have same := like.same
  cases w <;> first | rfl | cases same

theorem entry (like : Like f g (.mapping es) (.mapping fs)) (key : String) :
    Option.Rel (Like f g) (es.lookup key) (fs.lookup key) := by
  have alike := Entries.lookup_expanded like.same like.distinct.1 like.distinct.2 key
  match found : es.lookup key, found' : Entries.lookup fs key, alike with
  | none, none, _ => exact .none
  | some v, some w, .some alike =>
    have member := (Entries.lookup_eq_some_iff like.distinct.1).mp found
    have member' := (Entries.lookup_eq_some_iff like.distinct.2).mp found'
    exact .some ⟨alike, ⟨((distinct_mapping es).mp like.distinct.1).2 _ member |>.2,
      ((distinct_mapping fs).mp like.distinct.2).2 _ member' |>.2⟩,
      (unsignedZeros_mapping es).mp like.unsigned.1 _ member,
      (unsignedZeros_mapping fs).mp like.unsigned.2 _ member'⟩

theorem item (like : Like f g (.sequence xs) (.sequence ys)) (index : Nat) :
    Option.Rel (Like f g) xs[index]? ys[index]? := by
  have same := like.same
  rw [mapStrings_sequence, mapStrings_sequence, same_sequence, List.forall₂_map_left_iff,
    List.forall₂_map_right_iff] at same
  have length := same.length_eq
  by_cases within : index < xs.length
  · have within' : index < ys.length := length ▸ within
    rw [List.getElem?_eq_getElem within, List.getElem?_eq_getElem within']
    have distinct := like.distinct
    have unsigned := like.unsigned
    simp only [distinct_sequence, unsignedZeros_sequence] at distinct unsigned
    exact .some ⟨same.get within within',
      ⟨distinct.1 _ (List.getElem_mem within), distinct.2 _ (List.getElem_mem within')⟩,
      unsigned.1 _ (List.getElem_mem within), unsigned.2 _ (List.getElem_mem within')⟩
  · rw [List.getElem?_eq_none (by omega), List.getElem?_eq_none (by omega)]
    exact .none

theorem keys (like : Like f g (.mapping es) (.mapping fs)) {e : Value × Value} (member : e ∈ fs) :
    ∃ e' ∈ es, e'.1.string? = e.1.string? := by
  have same := like.same
  have distinct := (distinct_mapStrings (f := f) _).mpr like.distinct.1
  have back := same_symm same distinct
  rw [mapStrings_mapping, mapStrings_mapping] at back
  obtain ⟨-, matched⟩ := (same_mapping _ _).mp back
  obtain ⟨_, expanded, key, -⟩ := matched _ (List.mem_map.mpr ⟨e, member, rfl⟩)
  obtain ⟨e', inside, rfl⟩ := List.mem_map.mp expanded
  exact ⟨e', inside, (string?_same key).symm⟩

theorem plain (like : Like f g v w) (plain : v.plain = true) : w.plain = true := by
  have same := like.same
  cases v with
  | mapping es =>
    cases w with
    | mapping fs =>
      have own := like.entry Merge.propertiesKey
      simp only [Value.plain, Bool.and_eq_true, List.isEmpty_iff] at plain ⊢
      generalize Entries.lookup es Merge.propertiesKey = block at own plain
      generalize Entries.lookup fs Merge.propertiesKey = block' at own ⊢
      refine ⟨(Include.ofEntries_eq_nil fs).mpr fun e member => ?_, ?_⟩
      · obtain ⟨e', inside, key⟩ := like.keys member
        exact Include.ofEntry?_eq_none key ((Include.ofEntries_eq_nil es).mp plain.1 e' inside)
      · cases own with
        | none => rfl
        | @some v w alike =>
          have same := alike.same
          cases v <;> cases w <;> first | rfl | cases same | cases plain.2
    | _ => cases same
  | _ => cases w <;> first | rfl | cases same | cases plain

theorem node (like : Like f g (.mapping es) (.mapping fs)) (key : String) :
    Like f g (Entries.node es key) (Entries.node fs key) := by
  have found := like.entry key
  unfold Entries.node
  generalize Entries.lookup es key = v at found ⊢
  generalize Entries.lookup fs key = w at found ⊢
  cases found with
  | none => exact .null
  | some like => exact like

theorem apart (like : Like f g (.sequence xs) (.sequence ys))
    (apart : ∀ v ∈ xs, Listing.loneInclude? v = none) :
    ∀ w ∈ ys, Listing.loneInclude? w = none := by
  have same := like.same
  rw [mapStrings_sequence, mapStrings_sequence, same_sequence, List.forall₂_map_left_iff,
    List.forall₂_map_right_iff] at same
  clear like
  induction same with
  | nil => simp
  | cons head tail ih =>
    obtain ⟨first, others⟩ := List.forall_mem_cons.mp apart
    rw [← Listing.loneInclude?_mapStrings f] at first
    have first := Listing.loneInclude?_same head first
    rw [Listing.loneInclude?_mapStrings] at first
    exact List.forall_mem_cons.mpr ⟨first, ih others⟩

theorem staysIn (like : Like f g (.mapping es) (.mapping fs)) {way : Way}
    (stays : Entries.staysIn es way = true) : Entries.staysIn fs way = true := by
  cases way with
  | field key => exact (like.node key).plain stays
  | item key index =>
    have node := like.node key
    simp only [Entries.staysIn] at stays ⊢
    generalize Entries.node es key = v at node stays
    generalize Entries.node fs key = w at node ⊢
    have same := node.same
    cases v with
    | string text => cases stays
    | sequence vs =>
      cases w with
      | sequence ws =>
        simp only [Bool.and_eq_true, List.all_eq_true, Option.isNone_iff_eq_none] at stays ⊢
        refine ⟨node.apart stays.1, ?_⟩
        have found := node.item index
        have plain := stays.2
        generalize vs[index]? = v at found plain
        generalize ws[index]? = w at found ⊢
        cases found with
        | none => rfl
        | some like => exact like.plain plain
      | _ => cases same
    | _ => cases w <;> first | rfl | cases same

end Value.Like

def ConfigFault.reason : ConfigFault → ConfigFault
  | .malformed _ cause => .malformed "" cause
  | .missing _ => .missing ""
  | .mistyped _ kind cause => .mistyped "" kind cause
  | .refused _ cause => .refused "" cause
  | fault => fault

namespace Section

def Alike (s : Surroundings) (a b : Section) : Prop :=
  Value.Like (a.table.expand s.env) (b.table.expand s.env) (.mapping a.document)
    (.mapping b.document)

abbrev SameReason (f g : ConfigFault) : Prop := f.reason = g.reason

variable {s : Surroundings} {a b : Section} {v w : Value}

theorem inside_alike (like : Value.Like (a.table.expand s.env) (b.table.expand s.env) v w)
    (place place' : String) :
    Agree SameReason (Alike s) (a.inside place v) (b.inside place' w) := by
  have same := like.same
  cases v with
  | null =>
    rw [like.eq_null]
    exact .ok ⟨rfl, ⟨rfl, rfl⟩, rfl, rfl⟩
  | mapping es =>
    cases w with
    | mapping fs =>
      have own := like.entry Merge.propertiesKey
      simp only [inside]
      generalize Entries.lookup es Merge.propertiesKey = block at own ⊢
      generalize Entries.lookup fs Merge.propertiesKey = block' at own ⊢
      cases own with
      | none => exact .ok like
      | @some v w alike =>
        have same := alike.same
        -- What stands under the key is either null in both documents or in neither.
        cases v <;> cases w <;> first | exact .ok like | exact .error rfl | cases same
    | _ => cases same
  | _ => cases w <;> first | exact .error rfl | cases same

theorem stepIn_alike (alike : Alike s a b) (way : Way) :
    Agree SameReason (Alike s) (a.stepIn way) (b.stepIn way) := by
  cases way with
  | field key => exact inside_alike (Value.Like.node alike key) _ _
  | item key index =>
    have like := Value.Like.node alike key
    simp only [stepIn]
    generalize a.document.node key = v at like ⊢
    generalize b.document.node key = w at like ⊢
    have same := like.same
    cases v with
    | null =>
      rw [like.eq_null]
      exact .error rfl
    | sequence vs =>
      cases w with
      | sequence ws =>
        have found := like.item index
        simp only
        generalize vs[index]? = v at found ⊢
        generalize ws[index]? = w at found ⊢
        cases found with
        | none => exact .error rfl
        | some like => exact inside_alike like _ _
      | _ => cases same
    | _ => cases w <;> first | exact .error rfl | cases same

theorem inside_document {sec sub : Section} {place : String} {v : Value}
    (done : sec.inside place v = .ok sub) : sub.document = Entries.ofValue v := by
  cases v with
  | null =>
    cases done
    rfl
  | mapping es =>
    simp only [inside] at done
    split at done <;> cases done <;> rfl
  | _ => cases done

theorem stepIn_document {sec sub : Section} {way : Way} (done : sec.stepIn way = .ok sub) :
    sub.document = sec.document.entered way := by
  cases way with
  | field key => exact inside_document done
  | item key index =>
    simp only [stepIn] at done
    simp only [Entries.entered]
    generalize sec.document.node key = v at done ⊢
    cases v with
    | sequence vs =>
      simp only at done ⊢
      cases found : vs[index]? with
      | none =>
        rw [found] at done
        cases done
      | some v =>
        rw [found] at done
        exact inside_document done
    | _ => cases done

theorem walk_plain {sec : Section} {ways : List Way} (stays : sec.document.stays ways = true) :
    sec.walk ways = liftM (ways.foldlM stepIn sec) := by
  induction ways generalizing sec with
  | nil => rfl
  | cons way ways ih =>
    simp only [Entries.stays, Bool.and_eq_true] at stays
    rw [walk, List.foldlM_cons, List.foldlM_cons, go_plain stays.1]
    cases done : sec.stepIn way with
    | error fault => rfl
    | ok sub =>
      rw [← stepIn_document done] at stays
      exact ih stays.2

theorem walkIn_alike (alike : Alike s a b) (ways : List Way) :
    Agree SameReason (Alike s) (ways.foldlM stepIn a) (ways.foldlM stepIn b) := by
  induction ways generalizing a b with
  | nil => exact .ok alike
  | cons way ways ih =>
    rw [List.foldlM_cons, List.foldlM_cons]
    have step := stepIn_alike alike way
    generalize a.stepIn way = r at step ⊢
    generalize b.stepIn way = r' at step ⊢
    cases step with
    | ok alike => exact ih alike
    | error same => exact .error same

theorem walk_plain_of_alike (alike : Alike s a b) {ways : List Way}
    (stays : a.document.stays ways = true) : b.walk ways = liftM (ways.foldlM stepIn b) := by
  induction ways generalizing a b with
  | nil => rfl
  | cons way ways ih =>
    simp only [Entries.stays, Bool.and_eq_true] at stays
    have step := stepIn_alike alike way
    rw [walk, List.foldlM_cons, List.foldlM_cons, go_plain (Value.Like.staysIn alike stays.1)]
    cases done : a.stepIn way with
    | error fault =>
      rw [done] at step
      generalize b.stepIn way = r at step
      cases step
      rfl
    | ok sub =>
      rw [← stepIn_document done] at stays
      rw [done] at step
      generalize b.stepIn way = r at step
      cases step with
      | ok alike => exact ih alike stays.2

theorem field?_rel {R : Value → Value → Prop} {key : String}
    (found : Option.Rel R (a.document.lookup key) (b.document.lookup key))
    (null : ∀ v w, R v w → (v = .null ↔ w = .null)) :
    Option.Rel R (a.field? key) (b.field? key) := by
  unfold field? raw?
  generalize a.document.lookup key = v at found ⊢
  generalize b.document.lookup key = w at found ⊢
  cases found with
  | none => exact .none
  | @some v w related =>
    have both := null v w related
    cases v <;> cases w <;> first | exact .none | exact .some related | simp at both

theorem null_of_expanded_same {f g : String → String}
    (same : (v.mapStrings f).same (w.mapStrings g) = true) : v = .null ↔ w = .null := by
  constructor
  · rintro rfl
    cases w <;> first | rfl | cases same
  · rintro rfl
    cases v <;> first | rfl | cases same

theorem get_of_reads {α : Type} [Typed α] {R : α → α → Prop} {key : String}
    (reads : Option.Rel (fun v w => Agree Eq R (Typed.ofValue s (a.resolve s v))
      (Typed.ofValue s (b.resolve s w))) (a.field? key) (b.field? key)) :
    Agree SameReason (Option.Rel R) (a.get s key) (b.get s key) := by
  unfold get
  generalize a.field? key = v at reads ⊢
  generalize b.field? key = w at reads ⊢
  cases reads with
  | none => exact .ok .none
  | @some v w read =>
    simp only
    generalize Typed.ofValue (α := α) s (a.resolve s v) = r at read ⊢
    generalize Typed.ofValue (α := α) s (b.resolve s w) = r' at read ⊢
    cases read with
    | ok alike => exact .ok (.some alike)
    | error same =>
      cases same
      exact .error rfl

theorem get_alike (alike : Alike s a b) (α : Type) [Typed α] [LawfulTyped α] (key : String) :
    Agree SameReason (Option.Rel LawfulTyped.alike) (a.get (α := α) s key) (b.get s key) := by
  have found := field?_rel (Value.Like.entry alike key) fun v w like =>
    null_of_expanded_same like.same
  refine get_of_reads ?_
  generalize a.field? key = v at found ⊢
  generalize b.field? key = w at found ⊢
  cases found with
  | none => exact .none
  | some like =>
    exact .some (LawfulTyped.ofValue_alike (α := α) s like.same
      ((Value.unsignedZeros_mapStrings _).mpr like.unsigned.1)
      ((Value.unsignedZeros_mapStrings _).mpr like.unsigned.2))

theorem readAt_of_walk {α : Type} [Typed α] {sec : Section} {ways : List Way}
    (walks : sec.walk ways = liftM (ways.foldlM stepIn sec)) (key : String) (l : Loading) :
    ((sec.readAt α ways key).runOn s l).1 = (ways.foldlM stepIn sec).bind (·.get s key) := by
  rw [readAt, walks]
  cases ways.foldlM stepIn sec <;> rfl

theorem reads_alike (alike : Alike s a b) {ways : List Way} (stays : a.document.stays ways = true)
    (α : Type) [Typed α] [LawfulTyped α] (key : String) (l l' : Loading) :
    Agree SameReason (Option.Rel LawfulTyped.alike) ((a.readAt α ways key).runOn s l).1
      ((b.readAt α ways key).runOn s l').1 := by
  rw [readAt_of_walk (walk_plain stays), readAt_of_walk (walk_plain_of_alike alike stays)]
  have walked := walkIn_alike alike ways
  generalize ways.foldlM stepIn a = r at walked ⊢
  generalize ways.foldlM stepIn b = r' at walked ⊢
  cases walked with
  | ok alike => exact get_alike alike α key
  | error same => exact .error same

/-- A document in which no mapping has a key twice and no floating zero has a sign. -/
structure Regular (sec : Section) : Prop where
  distinct : (Value.mapping sec.document).distinct = true
  unsigned : (Value.mapping sec.document).unsignedZeros = true

theorem Alike.of_differs (same : a.differs b s = false) (left : a.Regular) (right : b.Regular) :
    Alike s a b := by
  simp only [differs, Bool.or_eq_false_iff, Bool.not_eq_false'] at same
  exact ⟨same.2, ⟨left.distinct, right.distinct⟩, left.unsigned, right.unsigned⟩

theorem reads_agree (same : a.differs b s = false) (left : a.Regular) (right : b.Regular)
    {ways : List Way} (stays : a.document.stays ways = true) (α : Type) [Typed α] [LawfulTyped α]
    (key : String) (l l' : Loading) :
    Agree SameReason (Option.Rel LawfulTyped.alike) ((a.readAt α ways key).runOn s l).1
      ((b.readAt α ways key).runOn s l').1 :=
  reads_alike (.of_differs same left right) stays α key l l'

def parsed (content : String) : Section :=
  match ((ofYaml content).runOn (.ofFiles []) {}).1 with
  | .ok sec => sec
  | .error _ => .empty

theorem spelled_reads_agree :
    let s := Surroundings.ofFiles []
    let a := parsed "properties: \x7bh: A\x7d\nsub:\n  v: \"\x7b\x7b.h\x7d\x7d\"\n"
    let b := parsed "properties: \x7bh: A\x7d\nsub:\n  v: A\n"
    a.differs b s = false ∧
      Agree SameReason (Option.Rel LawfulTyped.alike)
        ((a.readAt String [.field "sub"] "v").runOn s {}).1
        ((b.readAt String [.field "sub"] "v").runOn s {}).1 := by
  intro s a b
  have same : a.differs b s = false := by decide +kernel
  exact ⟨same, reads_agree same ⟨by decide +kernel, by decide +kernel⟩
    ⟨by decide +kernel, by decide +kernel⟩ (by decide +kernel) String "v" {} {}⟩

-- The value is compared with the property of the whole document, and read with that of its part.
theorem unseen_change :
    let s := Surroundings.ofFiles []
    let parts := "properties: \x7bh: A\x7d\nsub:\n  properties: \x7bh: B\x7d\n"
    let a := parsed (parts ++ "  v: \"\x7b\x7b.h\x7d\x7d\"\n")
    let b := parsed (parts ++ "  v: A\n")
    a.differs b s = false ∧
      ((a.readAt String [.field "sub"] "v").runOn s {}).1 = .ok (some "B") ∧
      ((b.readAt String [.field "sub"] "v").runOn s {}).1 = .ok (some "A") := by
  intro s parts a b
  exact ⟨by decide +kernel, by decide +kernel, by decide +kernel⟩

end Section

end Steward
