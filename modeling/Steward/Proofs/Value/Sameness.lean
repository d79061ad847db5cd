import Mathlib.Data.List.Forall2
import Steward.Value

set_option autoImplicit false

namespace Steward

namespace Binary64

theorem eq_of_same {x y : Binary64} (same : ((x.isNaN && y.isNaN) || x.eq y) = true) :
    x = y ∨ x.isZero = true ∧ y.isZero = true := by
  match x, y with
  | .nan, .nan => exact .inl rfl
  | .infinite a, .infinite b => exact .inl (by simpa [isNaN, eq] using same)
  | .finite a u, .finite b v =>
    have equal : signed a u = signed b v := by simpa [isNaN, eq] using same
    cases a <;> cases b <;> simp [signed] at equal
    · have units : u = v := by omega
      exact .inl (by rw [units])
    · have zero : u = 0 ∧ v = 0 := by omega
      exact .inr (by simp [isZero, zero])
    · have zero : u = 0 ∧ v = 0 := by omega
      exact .inr (by simp [isZero, zero])
    · have units : u = v := by omega
      exact .inl (by rw [units])
  | .nan, .infinite _ | .nan, .finite .. | .infinite _, .nan | .infinite _, .finite ..
  | .finite .., .nan | .finite .., .infinite _ => simp [isNaN, eq] at same

theorem same_self (x : Binary64) : ((x.isNaN && x.isNaN) || x.eq x) = true := by
  cases x <;> simp [isNaN, eq]

theorem same_of_zero {x y : Binary64} (left : x.isZero = true) (right : y.isZero = true) :
    ((x.isNaN && y.isNaN) || x.eq y) = true := by
  match x, y with
  | .finite a 0, .finite b 0 => simp [isNaN, eq, signed]

end Binary64

namespace Number

def isZeroFloat : Number → Bool
  | .float x => x.isZero
  | .int _ => false

theorem same_iff (n m : Number) :
    n.same m = true ↔ n = m ∨ n.isZeroFloat = true ∧ m.isZeroFloat = true := by
  cases n with
  | int i => cases m <;> simp [same, isZeroFloat]
  | float x =>
    cases m with
    | int i => simp [same, isZeroFloat]
    | float y =>
      simp only [same, isZeroFloat, float.injEq]
      constructor
      · exact Binary64.eq_of_same
      · rintro (rfl | ⟨left, right⟩)
        · exact Binary64.same_self x
        · exact Binary64.same_of_zero left right

end Number

namespace Value

@[elab_as_elim]
theorem induct {motive : Value → Prop} (null : motive .null) (bool : ∀ b, motive (.bool b))
    (number : ∀ n, motive (.number n)) (string : ∀ s, motive (.string s))
    (sequence : ∀ xs, (∀ v ∈ xs, motive v) → motive (.sequence xs))
    (mapping : ∀ es : Entries, (∀ e ∈ es, motive e.1 ∧ motive e.2) → motive (.mapping es))
    (tagged : ∀ tag v, motive v → motive (.tagged tag v)) (v : Value) : motive v := by
  refine @Value.rec motive (fun xs => ∀ v ∈ xs, motive v)
    (fun es => ∀ e ∈ es, motive e.1 ∧ motive e.2) (fun e => motive e.1 ∧ motive e.2)
    null bool number string sequence mapping tagged ?_ ?_ ?_ ?_ ?_ v
  · simp
  · exact fun v vs first rest => List.forall_mem_cons.mpr ⟨first, rest⟩
  · simp
  · exact fun e es first rest => List.forall_mem_cons.mpr ⟨first, rest⟩
  · exact fun k v key value => ⟨key, value⟩

mutual

def distinct : Value → Bool
  | .sequence xs => itemsDistinct xs
  | .mapping es => decide (es.Pairwise fun e f => e.1.same f.1 = false) && entriesDistinct es
  | .tagged _ v => distinct v
  | _ => true

def itemsDistinct : List Value → Bool
  | [] => true
  | v :: vs => distinct v && itemsDistinct vs

def entriesDistinct : Entries → Bool
  | [] => true
  | (k, v) :: es => distinct k && distinct v && entriesDistinct es

end

theorem itemsDistinct_iff (xs : List Value) :
    itemsDistinct xs = true ↔ ∀ v ∈ xs, v.distinct = true := by
  induction xs with
  | nil => simp [itemsDistinct]
  | cons v vs ih => simp [itemsDistinct, ih]

theorem entriesDistinct_iff (es : Entries) :
    entriesDistinct es = true ↔ ∀ e ∈ es, e.1.distinct = true ∧ e.2.distinct = true := by
  induction es with
  | nil => simp [entriesDistinct]
  | cons e es ih => simp [entriesDistinct, ih]

@[simp] theorem distinct_sequence (xs : List Value) :
    (Value.sequence xs).distinct = true ↔ ∀ v ∈ xs, v.distinct = true := by
  simp [distinct, itemsDistinct_iff]

@[simp] theorem distinct_mapping (es : Entries) :
    (Value.mapping es).distinct = true ↔
      (es.Pairwise fun e f => e.1.same f.1 = false) ∧
        ∀ e ∈ es, e.1.distinct = true ∧ e.2.distinct = true := by
  simp [distinct, entriesDistinct_iff]

@[simp] theorem distinct_tagged (tag : String) (v : Value) :
    (Value.tagged tag v).distinct = v.distinct := by
  simp [distinct]

@[simp] theorem sameItems_iff (xs ys : List Value) :
    sameItems xs ys = true ↔ List.Forall₂ (fun v w => v.same w = true) xs ys := by
  induction xs generalizing ys with
  | nil => cases ys <;> simp [sameItems]
  | cons x xs ih => cases ys <;> simp [sameItems, ih]

@[simp] theorem sameEntries_iff (xs ys : Entries) :
    sameEntries xs ys = true ↔
      ∀ e ∈ xs, ∃ f ∈ ys, e.1.same f.1 = true ∧ e.2.same f.2 = true := by
  induction xs with
  | nil => simp [sameEntries]
  | cons x xs ih => simp [sameEntries, ih]

@[simp] theorem same_number (n m : Number) : (Value.number n).same (.number m) = n.same m := rfl

@[simp] theorem same_sequence (xs ys : List Value) :
    (Value.sequence xs).same (.sequence ys) = true ↔
      List.Forall₂ (fun v w => v.same w = true) xs ys :=
  sameItems_iff xs ys

@[simp] theorem same_mapping (xs ys : Entries) :
    (Value.mapping xs).same (.mapping ys) = true ↔
      xs.length = ys.length ∧
        ∀ e ∈ xs, ∃ f ∈ ys, e.1.same f.1 = true ∧ e.2.same f.2 = true := by
  change (xs.length == ys.length && sameEntries xs ys) = true ↔ _
  simp

@[simp] theorem same_tagged (tag other : String) (v w : Value) :
    (Value.tagged tag v).same (.tagged other w) = true ↔
      tagName tag = tagName other ∧ v.same w = true := by
  change (tagName tag == tagName other && v.same w) = true ↔ _
  simp

theorem same_refl (v : Value) : v.same v = true := by
  induction v using induct with
  | null => rfl
  | bool b => exact beq_self_eq_true b
  | number n => simp [Number.same_iff]
  | string s => exact beq_self_eq_true s
  | sequence xs ih => simpa [List.forall₂_same] using ih
  | mapping es ih => simpa using fun k v member => ⟨k, v, member, ih (k, v) member⟩
  | tagged tag v ih => simp [ih]

section Inversion

variable {v : Value}

theorem eq_of_null_same (same : Value.null.same v = true) : v = .null := by
  cases v with
  | null => rfl
  | _ => cases same

theorem eq_of_bool_same {b : Bool} (same : (Value.bool b).same v = true) : v = .bool b := by
  cases v with
  | bool c => rw [eq_of_beq (show (b == c) = true from same)]
  | _ => cases same

theorem eq_of_string_same {s : String} (same : (Value.string s).same v = true) :
    v = .string s := by
  cases v with
  | string t => rw [eq_of_beq (show (s == t) = true from same)]
  | _ => cases same

theorem of_number_same {n : Number} (same : (Value.number n).same v = true) :
    ∃ m, v = .number m ∧ n.same m = true := by
  cases v with
  | number m => exact ⟨m, rfl, same⟩
  | _ => cases same

theorem of_sequence_same {xs : List Value} (same : (Value.sequence xs).same v = true) :
    ∃ ys, v = .sequence ys ∧ List.Forall₂ (fun v w => v.same w = true) xs ys := by
  cases v with
  | sequence ys => exact ⟨ys, rfl, (same_sequence xs ys).mp same⟩
  | _ => cases same

theorem of_mapping_same {xs : Entries} (same : (Value.mapping xs).same v = true) :
    ∃ ys : Entries, v = .mapping ys ∧ xs.length = ys.length ∧
      ∀ e ∈ xs, ∃ f ∈ ys, e.1.same f.1 = true ∧ e.2.same f.2 = true := by
  cases v with
  | mapping ys => exact ⟨ys, rfl, (same_mapping xs ys).mp same⟩
  | _ => cases same

theorem of_tagged_same {tag : String} {u : Value} (same : (Value.tagged tag u).same v = true) :
    ∃ other w, v = .tagged other w ∧ tagName tag = tagName other ∧ u.same w = true := by
  cases v with
  | tagged other w => exact ⟨other, w, rfl, (same_tagged tag other u w).mp same⟩
  | _ => cases same

end Inversion

theorem same_trans {u v w : Value} (first : u.same v = true) (second : v.same w = true) :
    u.same w = true := by
  induction u using induct generalizing v w with
  | null => rwa [eq_of_null_same first] at second
  | bool b => rwa [eq_of_bool_same first] at second
  | string s => rwa [eq_of_string_same first] at second
  | number n =>
    obtain ⟨m, rfl, nm⟩ := of_number_same first
    obtain ⟨k, rfl, mk⟩ := of_number_same second
    rw [same_number]
    rw [Number.same_iff] at nm mk ⊢
    grind
  | sequence xs ih =>
    obtain ⟨ys, rfl, xys⟩ := of_sequence_same first
    obtain ⟨zs, rfl, yzs⟩ := of_sequence_same second
    rw [same_sequence]
    clear first second
    induction xys generalizing zs with
    | nil => exact yzs
    | cons head tail rest =>
      cases yzs with
      | cons next others =>
        exact .cons (ih _ (by simp) head next)
          (rest (fun v member => ih v (by simp [member])) _ others)
  | mapping es ih =>
    obtain ⟨fs, rfl, length, matched⟩ := of_mapping_same first
    obtain ⟨gs, rfl, length', matched'⟩ := of_mapping_same second
    refine (same_mapping es gs).mpr ⟨length.trans length', fun e member => ?_⟩
    obtain ⟨f, inside, key, value⟩ := matched e member
    obtain ⟨g, inside, key', value'⟩ := matched' f inside
    exact ⟨g, inside, (ih e member).1 key key', (ih e member).2 value value'⟩
  | tagged tag u ih =>
    obtain ⟨other, v, rfl, name, uv⟩ := of_tagged_same first
    obtain ⟨third, w, rfl, name', vw⟩ := of_tagged_same second
    simp [name, name', ih uv vw]

end Value

-- Each element is matched, no two are by one, and there are as many: so all are matched with.
theorem matched_onto {α β : Type} {R : α → β → Prop} {xs : List α} {ys : List β}
    (matched : ∀ x ∈ xs, ∃ y ∈ ys, R x y) (apart : xs.Pairwise fun x x' => ∀ y, R x y → ¬R x' y)
    (length : xs.length = ys.length) : ∀ y ∈ ys, ∃ x ∈ xs, R x y := by
  induction xs generalizing ys with
  | nil =>
    cases ys with
    | nil => simp
    | cons y ys => simp at length
  | cons x xs ih =>
    obtain ⟨y, inside, own⟩ := matched x (by simp)
    obtain ⟨front, back, rfl⟩ := List.append_of_mem inside
    obtain ⟨first, apart⟩ := List.pairwise_cons.mp apart
    have others : ∀ x' ∈ xs, ∃ y' ∈ front ++ back, R x' y' := by
      intro x' member
      obtain ⟨y', inside, found⟩ := matched x' (by simp [member])
      have different : y' ≠ y := fun same => first x' member y own (same ▸ found)
      exact ⟨y', by simpa [different] using inside, found⟩
    have onto := ih others apart (by simp at length ⊢; omega)
    intro y' member
    by_cases same : y' = y
    · exact ⟨x, by simp, same ▸ own⟩
    · obtain ⟨x', member, found⟩ := onto y' (by simpa [same] using member)
      exact ⟨x', by simp [member], found⟩

namespace Value

theorem same_symm {v w : Value} (same : v.same w = true) (distinct : v.distinct = true) :
    w.same v = true := by
  induction v using induct generalizing w with
  | null => rw [eq_of_null_same same, same_refl]
  | bool b => rw [eq_of_bool_same same, same_refl]
  | string s => rw [eq_of_string_same same, same_refl]
  | number n =>
    obtain ⟨m, rfl, equal⟩ := of_number_same same
    rw [same_number]
    rw [Number.same_iff] at equal ⊢
    grind
  | sequence xs ih =>
    obtain ⟨ys, rfl, items⟩ := of_sequence_same same
    rw [same_sequence]
    rw [distinct_sequence] at distinct
    clear same
    induction items with
    | nil => exact .nil
    | cons head tail rest =>
      exact .cons (ih _ (by simp) head (distinct _ (by simp)))
        (rest (fun v member => ih v (by simp [member])) fun v member =>
          distinct v (by simp [member]))
  | mapping es ih =>
    obtain ⟨fs, rfl, length, matched⟩ := of_mapping_same same
    rw [distinct_mapping] at distinct
    obtain ⟨apart, distinct⟩ := distinct
    refine (same_mapping fs es).mpr ⟨length.symm, ?_⟩
    have once : es.Pairwise fun e e' => ∀ f : Value × Value,
        (e.1.same f.1 = true ∧ e.2.same f.2 = true) →
          ¬(e'.1.same f.1 = true ∧ e'.2.same f.2 = true) := by
      refine apart.imp_of_mem fun {e e'} _ member different f found again => ?_
      have back := (ih e' member).1 again.1 (distinct e' member).1
      simp [same_trans found.1 back] at different
    intro f inside
    obtain ⟨e, member, key, value⟩ := matched_onto matched once length f inside
    exact ⟨e, member, (ih e member).1 key (distinct e member).1,
      (ih e member).2 value (distinct e member).2⟩
  | tagged tag v ih =>
    obtain ⟨other, w, rfl, name, inner⟩ := of_tagged_same same
    rw [distinct_tagged] at distinct
    simp [name, ih inner distinct]

end Value

namespace Entries

variable {es fs : Entries} {key : String} {v : Value}

theorem lookup_eq_some_iff (distinct : (Value.mapping es).distinct = true) :
    es.lookup key = some v ↔ (.string key, v) ∈ es := by
  rw [Value.distinct_mapping] at distinct
  obtain ⟨apart, -⟩ := distinct
  induction es with
  | nil => simp [lookup, get?]
  | cons e es ih =>
    obtain ⟨k, w⟩ := e
    obtain ⟨first, apart⟩ := List.pairwise_cons.mp apart
    by_cases here : (Value.string key).same k = true
    · cases Value.eq_of_string_same here
      have once : (Value.string key, v) ∉ es := by
        intro again
        have different := first _ again
        simp [Value.same_refl] at different
      simp [lookup, get?, Value.same_refl, once, eq_comm]
    · have other : Value.string key ≠ k := fun same => here (same ▸ Value.same_refl _)
      have rest : lookup ((k, w) :: es) key = lookup es key := by simp [lookup, get?, here]
      simp [rest, ih apart, other]

theorem lookup_same (same : (Value.mapping es).same (.mapping fs) = true)
    (distinct : (Value.mapping es).distinct = true) (distinct' : (Value.mapping fs).distinct = true)
    (found : es.lookup key = some v) : ∃ w, fs.lookup key = some w ∧ v.same w = true := by
  rw [lookup_eq_some_iff distinct] at found
  obtain ⟨-, matched⟩ := (Value.same_mapping es fs).mp same
  obtain ⟨⟨k, w⟩, inside, name, value⟩ := matched _ found
  cases Value.eq_of_string_same name
  exact ⟨w, (lookup_eq_some_iff distinct').mpr inside, value⟩

theorem lookup_none_same (same : (Value.mapping es).same (.mapping fs) = true)
    (distinct : (Value.mapping es).distinct = true) (distinct' : (Value.mapping fs).distinct = true)
    (absent : es.lookup key = none) : fs.lookup key = none := by
  cases found : fs.lookup key with
  | none => rfl
  | some w =>
    obtain ⟨v, found, -⟩ := lookup_same (Value.same_symm same distinct) distinct' distinct found
    rw [absent] at found
    cases found

end Entries

end Steward
