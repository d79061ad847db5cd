import Steward.Proofs.Typed.Readings

set_option autoImplicit false

namespace Steward

namespace Value

def isSignedZero : Value → Bool
  | .number n => n.isSignedZero
  | _ => false

/-- How values that are the same can differ: inside a value with parts, or in the sign of a zero. -/
inductive Differ : Value → Value → Prop
  | inside {v w : Value} (composite : Composite v w) : Differ v w
  | zeros (a b : Bool) :
      Differ (.number (.float (.finite a 0))) (.number (.float (.finite b 0)))

variable {v w : Value}

theorem eq_or_differ (same : v.same w = true) : v = w ∨ Differ v w := by
  cases v with
  | null => exact .inl (eq_of_null_same same).symm
  | bool b => exact .inl (eq_of_bool_same same).symm
  | string s => exact .inl (eq_of_string_same same).symm
  | number n =>
    obtain ⟨m, rfl, equal⟩ := of_number_same same
    rw [Number.same_iff] at equal
    rcases equal with rfl | ⟨zero, zero'⟩
    · exact .inl rfl
    · match n, m with
      | .float (.finite a 0), .float (.finite b 0) => exact .inr (.zeros a b)
  | sequence xs =>
    obtain ⟨ys, rfl, -⟩ := of_sequence_same same
    exact .inr (.inside (.sequence xs ys))
  | mapping es =>
    obtain ⟨fs, rfl, -⟩ := of_mapping_same same
    exact .inr (.inside (.mapping es fs))
  | tagged tag v =>
    obtain ⟨other, w, rfl, -⟩ := of_tagged_same same
    exact .inr (.inside (.tagged tag other v w))

theorem isSignedZero_mapStrings (f : String → String) (v : Value) :
    (v.mapStrings f).isSignedZero = v.isSignedZero := by
  cases v <;> rfl

end Value

class TypedUpToSigns (α : Type) [Typed α] where
  alike : α → α → Prop
  signs : Value → List Bool
  signs_mapStrings : ∀ f v, signs (v.mapStrings f) = signs v
  ofValue_alike : ∀ (s : Surroundings) {v w : Value}, v.same w = true → signs v = signs w →
    Agree Eq alike (Typed.ofValue (α := α) s v) (Typed.ofValue s w)

namespace TypedUpToSigns

variable {α : Type} [Typed α]

@[reducible] def blind (equal : ∀ (s : Surroundings) {v w : Value}, v.same w = true →
    Typed.ofValue (α := α) s v = Typed.ofValue s w) : TypedUpToSigns α where
  alike := Eq
  signs _ := []
  signs_mapStrings _ _ := rfl
  ofValue_alike s _ _ same _ := .of_eq (equal s same)

@[reducible] def ofSign (composite : ∀ (s : Surroundings) {v w : Value}, Value.Composite v w →
    Typed.ofValue (α := α) s v = Typed.ofValue s w) : TypedUpToSigns α where
  alike := Eq
  signs v := [v.isSignedZero]
  signs_mapStrings f v := by rw [Value.isSignedZero_mapStrings]
  ofValue_alike s v w same signs := by
    refine .of_eq ?_
    rcases Value.eq_or_differ same with rfl | differ
    · rfl
    · cases differ with
      | inside parts => exact composite s parts
      | zeros a b => cases a <;> cases b <;> first | rfl | cases signs

theorem blind_of_scalar {β : Type} {f : Value → Except TypedFault β} {v w : Value}
    (same : v.same w = true) (composite : ∀ v w, Value.Composite v w → f v = f w)
    (zeros : f (.number (.float (.finite true 0))) = f (.number (.float (.finite false 0)))) :
    f v = f w := by
  rcases Value.eq_or_differ same with rfl | differ
  · rfl
  · cases differ with
    | inside parts => exact composite v w parts
    | zeros a b => cases a <;> cases b <;> first | rfl | exact zeros | exact zeros.symm

instance : TypedUpToSigns String := ofSign fun _ _ _ parts => by cases parts <;> rfl

instance : TypedUpToSigns Bool := ofSign fun _ _ _ parts => by cases parts <;> rfl

instance : TypedUpToSigns Int := blind fun _ _ _ same =>
  blind_of_scalar (f := Value.integer) same (fun _ _ parts => by cases parts <;> rfl)
    (by decide +kernel)

instance : TypedUpToSigns Nat := blind fun _ _ _ same =>
  blind_of_scalar (f := Value.unsigned) same (fun _ _ parts => by cases parts <;> rfl)
    (by decide +kernel)

instance : TypedUpToSigns Span := blind fun _ _ _ same =>
  blind_of_scalar (f := Value.span) same (fun _ _ parts => by cases parts <;> rfl)
    (by decide +kernel)

instance : TypedUpToSigns Path := blind fun _ _ _ same => by
  simp only [Typed.ofValue, Value.text?_same same]

instance : TypedUpToSigns Url := blind fun _ _ _ same => by
  simp only [Typed.ofValue, Value.url, Value.text?_same same]

instance : TypedUpToSigns Expression := blind fun _ _ _ same => by
  simp only [Typed.ofValue, Value.expression, Value.text?_same same]

instance : TypedUpToSigns Binary64 where
  alike x y := (Number.float x).same (.float y) = true
  signs _ := []
  signs_mapStrings _ _ := rfl
  ofValue_alike _ v w same _ := by
    rcases Value.eq_or_differ same with rfl | differ
    · change Agree _ _ v.float v.float
      cases v.float with
      | ok x => exact .ok (by rw [Number.same_iff]; exact .inl rfl)
      | error fault => exact .error rfl
    · cases differ with
      | inside parts => cases parts <;> exact .error rfl
      | zeros a b => exact .ok (by cases a <;> cases b <;> rfl)

theorem listItems_of_signs {xs ys : List Value}
    (items : List.Forall₂ (fun v w => v.same w = true) xs ys)
    (signs : xs.map Value.isSignedZero = ys.map Value.isSignedZero) :
    xs.mapM Value.listItem = ys.mapM Value.listItem := by
  induction items with
  | nil => rfl
  | @cons v w xs ys head tail ih =>
    obtain ⟨sign, signs⟩ := List.cons.inj signs
    have first : v.listItem = w.listItem := by
      rcases Value.eq_or_differ head with rfl | differ
      · rfl
      · cases differ with
        | inside parts => cases parts <;> rfl
        | zeros a b => cases a <;> cases b <;> first | rfl | cases sign
    rw [List.mapM_cons, List.mapM_cons, first, ih signs]

instance : TypedUpToSigns (List String) where
  alike := Eq
  signs
    | .sequence xs => xs.map Value.isSignedZero
    | _ => []
  signs_mapStrings f v := by
    cases v with
    | sequence xs =>
      rw [Value.mapStrings, Value.mapItems_eq_map]
      simp [Value.isSignedZero_mapStrings]
    | _ => rfl
  ofValue_alike _ v w same signs := by
    refine .of_eq ?_
    rcases Value.eq_or_differ same with rfl | differ
    · rfl
    · cases differ with
      | zeros a b => rfl
      | inside parts =>
        cases parts with
        | sequence xs ys =>
          rw [Value.same_sequence] at same
          exact listItems_of_signs same signs
        | mapping es fs => rfl
        | tagged t u v w => rfl

instance : TypedUpToSigns Value where
  alike v w := v.same w = true
  signs _ := []
  signs_mapStrings _ _ := rfl
  ofValue_alike _ _ _ same _ := .ok same

end TypedUpToSigns

end Steward
