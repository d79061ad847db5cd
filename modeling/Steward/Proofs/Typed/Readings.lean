import Steward.Proofs.Value.Sameness
import Steward.Typed.Coerce

set_option autoImplicit false

namespace Steward

inductive Agree {ε α : Type} (F : ε → ε → Prop) (R : α → α → Prop) :
    Except ε α → Except ε α → Prop
  | ok {a b : α} (alike : R a b) : Agree F R (.ok a) (.ok b)
  | error {f g : ε} (same : F f g) : Agree F R (.error f) (.error g)

theorem Agree.of_eq {ε α : Type} {r r' : Except ε α} (same : r = r') : Agree Eq Eq r r' := by
  subst same
  cases r with
  | ok a => exact .ok rfl
  | error fault => exact .error rfl

def Number.isSignedZero : Number → Bool
  | .float x => x.isZero && x.isNegative
  | .int _ => false

theorem Binary64.eq_zero {x : Binary64} (isZero : x.isZero = true)
    (unsigned : (x.isZero && x.isNegative) = false) : x = .zero := by
  cases x with
  | finite negative units =>
    cases units <;> cases negative <;> simp_all [isNegative, zero, Binary64.isZero]
  | _ => cases isZero

theorem Number.eq_of_same {n m : Number} (same : n.same m = true) (left : n.isSignedZero = false)
    (right : m.isSignedZero = false) : n = m := by
  rw [same_iff] at same
  rcases same with rfl | ⟨zero, zero'⟩
  · rfl
  · cases n with
    | int i => cases zero
    | float x =>
      cases m with
      | int i => cases zero'
      | float y => rw [Binary64.eq_zero zero left, Binary64.eq_zero zero' right]

namespace Value

mutual

def unsignedZeros : Value → Bool
  | .number n => !n.isSignedZero
  | .sequence xs => unsignedItems xs
  | .mapping es => unsignedEntries es
  | _ => true

def unsignedItems : List Value → Bool
  | [] => true
  | v :: vs => unsignedZeros v && unsignedItems vs

def unsignedEntries : Entries → Bool
  | [] => true
  | (_, v) :: es => unsignedZeros v && unsignedEntries es

end

@[simp] theorem unsignedZeros_number (n : Number) :
    (Value.number n).unsignedZeros = !n.isSignedZero := by
  rw [unsignedZeros]

@[simp] theorem unsignedZeros_sequence (xs : List Value) :
    (Value.sequence xs).unsignedZeros = true ↔ ∀ v ∈ xs, v.unsignedZeros = true := by
  rw [unsignedZeros]
  induction xs with
  | nil => simp [unsignedItems]
  | cons v vs ih => simp [unsignedItems, ih]

@[simp] theorem unsignedZeros_mapping (es : Entries) :
    (Value.mapping es).unsignedZeros = true ↔ ∀ e ∈ es, e.2.unsignedZeros = true := by
  rw [unsignedZeros]
  induction es with
  | nil => simp [unsignedEntries]
  | cons e es ih => simp [unsignedEntries, ih]

inductive Composite : Value → Value → Prop
  | sequence (xs ys : List Value) : Composite (.sequence xs) (.sequence ys)
  | mapping (es fs : Entries) : Composite (.mapping es) (.mapping fs)
  | tagged (t u : String) (v w : Value) : Composite (.tagged t v) (.tagged u w)

section Same

variable {v w : Value}

theorem eq_or_composite (same : v.same w = true) (left : v.unsignedZeros = true)
    (right : w.unsignedZeros = true) : v = w ∨ Composite v w := by
  cases v with
  | null => exact .inl (eq_of_null_same same).symm
  | bool b => exact .inl (eq_of_bool_same same).symm
  | string s => exact .inl (eq_of_string_same same).symm
  | number n =>
    obtain ⟨m, rfl, equal⟩ := of_number_same same
    rw [Number.eq_of_same equal (by simpa using left) (by simpa using right)]
    exact .inl rfl
  | sequence xs =>
    obtain ⟨ys, rfl, -⟩ := of_sequence_same same
    exact .inr (.sequence xs ys)
  | mapping es =>
    obtain ⟨fs, rfl, -⟩ := of_mapping_same same
    exact .inr (.mapping es fs)
  | tagged tag v =>
    obtain ⟨other, w, rfl, -⟩ := of_tagged_same same
    exact .inr (.tagged tag other v w)

theorem string?_same (same : v.same w = true) : v.string? = w.string? := by
  induction v using induct generalizing w with
  | null => rw [eq_of_null_same same]
  | bool b => rw [eq_of_bool_same same]
  | string s => rw [eq_of_string_same same]
  | number n =>
    obtain ⟨m, rfl, -⟩ := of_number_same same
    rfl
  | sequence xs =>
    obtain ⟨ys, rfl, -⟩ := of_sequence_same same
    rfl
  | mapping es =>
    obtain ⟨fs, rfl, -⟩ := of_mapping_same same
    rfl
  | tagged tag v ih =>
    obtain ⟨other, u, rfl, -, inner⟩ := of_tagged_same same
    simpa using ih inner

theorem shape_same (same : v.same w = true) : v.shape = w.shape := by
  cases v <;> cases w <;> first | rfl | cases same

theorem text?_same (same : v.same w = true) : v.text? = w.text? := by
  simp only [text?, expect, string?_same same, shape_same same]

end Same

end Value

class LawfulTyped (α : Type) [Typed α] where
  alike : α → α → Prop
  ofValue_alike : ∀ (s : Surroundings) {v w : Value}, v.same w = true →
    v.unsignedZeros = true → w.unsignedZeros = true →
      Agree Eq alike (Typed.ofValue (α := α) s v) (Typed.ofValue s w)

namespace LawfulTyped

variable {α : Type} [Typed α]

@[reducible] def ofEq (equal : ∀ (s : Surroundings) {v w : Value}, v.same w = true →
    v.unsignedZeros = true → w.unsignedZeros = true →
      Typed.ofValue (α := α) s v = Typed.ofValue s w) : LawfulTyped α where
  alike := Eq
  ofValue_alike s _ _ same left right := .of_eq (equal s same left right)

-- Scalars that are the same are equal; of other values a reader of scalars sees the shape alone.
theorem eq_of_scalar {β : Type} {f : Value → Except TypedFault β} {v w : Value}
    (same : v.same w = true) (left : v.unsignedZeros = true) (right : w.unsignedZeros = true)
    (composite : ∀ v w, Value.Composite v w → f v = f w) : f v = f w := by
  rcases Value.eq_or_composite same left right with rfl | other
  · rfl
  · exact composite v w other

instance : LawfulTyped String := ofEq fun _ _ _ same left right =>
  eq_of_scalar same left right fun _ _ other => by cases other <;> rfl

instance : LawfulTyped Int := ofEq fun _ _ _ same left right =>
  eq_of_scalar same left right fun _ _ other => by cases other <;> rfl

instance : LawfulTyped Nat := ofEq fun _ _ _ same left right =>
  eq_of_scalar same left right fun _ _ other => by cases other <;> rfl

instance : LawfulTyped Binary64 := ofEq fun _ _ _ same left right =>
  eq_of_scalar same left right fun _ _ other => by cases other <;> rfl

instance : LawfulTyped Bool := ofEq fun _ _ _ same left right =>
  eq_of_scalar same left right fun _ _ other => by cases other <;> rfl

instance : LawfulTyped Span := ofEq fun _ _ _ same left right =>
  eq_of_scalar same left right fun _ _ other => by cases other <;> rfl

instance : LawfulTyped Path := ofEq fun _ _ _ same _ _ => by
  simp only [Typed.ofValue, Value.text?_same same]

instance : LawfulTyped Url := ofEq fun _ _ _ same _ _ => by
  simp only [Typed.ofValue, Value.url, Value.text?_same same]

instance : LawfulTyped Expression := ofEq fun _ _ _ same _ _ => by
  simp only [Typed.ofValue, Value.expression, Value.text?_same same]

theorem listItems_same {xs ys : List Value}
    (items : List.Forall₂ (fun v w => v.same w = true) xs ys)
    (left : ∀ v ∈ xs, v.unsignedZeros = true) (right : ∀ w ∈ ys, w.unsignedZeros = true) :
    xs.mapM Value.listItem = ys.mapM Value.listItem := by
  induction items with
  | nil => rfl
  | @cons v w xs ys head tail ih =>
    have first : v.listItem = w.listItem :=
      eq_of_scalar head (left v (by simp)) (right w (by simp)) fun _ _ other => by
        cases other <;> rfl
    have rest := ih (fun v member => left v (by simp [member])) fun w member =>
      right w (by simp [member])
    rw [List.mapM_cons, List.mapM_cons, first, rest]

instance : LawfulTyped (List String) := ofEq fun _ v w same left right => by
  rcases Value.eq_or_composite same left right with rfl | other
  · rfl
  · cases other with
    | sequence xs ys =>
      rw [Value.same_sequence] at same
      rw [Value.unsignedZeros_sequence] at left right
      exact listItems_same same left right
    | mapping es fs => rfl
    | tagged t u v w => rfl

instance : LawfulTyped Value where
  alike v w := v.same w = true
  ofValue_alike _ _ _ same _ _ := .ok same

end LawfulTyped

end Steward
