import Steward.Proofs.Document.Difference
import Steward.Proofs.Document.Independence
import Steward.Proofs.Typed.Signs

set_option autoImplicit false

namespace Steward

open List (Forall₂)

theorem Value.Reordered.mapStrings {v w : Value} (reordered : v.Reordered w)
    (f : String → String) : (v.mapStrings f).Reordered (w.mapStrings f) := by
  induction v using Value.induct generalizing w with
  | sequence vs ih =>
    cases reordered with
    | sequence items =>
      rw [mapStrings_sequence, mapStrings_sequence]
      refine .sequence ?_
      induction items with
      | nil => exact .nil
      | cons head tail rest =>
        exact .cons (ih _ (by simp) head) (rest fun v member => ih v (by simp [member]))
  | mapping es ih =>
    cases reordered with
    | @mapping _ fs gs keys values order =>
      rw [mapStrings_mapping, mapStrings_mapping]
      refine mapping_iff.mpr ⟨_, ?_, order.map _⟩
      have twins := Entries.forall₂_twin_iff.mpr ⟨keys, values⟩
      clear * - twins ih
      induction twins with
      | nil => exact .nil
      | cons twin rest inner =>
        exact .cons ⟨twin.1, (ih _ (by simp)).2 twin.2⟩
          (inner fun e member => ih e (by simp [member]))
  | tagged tag v ih =>
    cases reordered with
    | tagged _ inner => exact .tagged tag inner
  | _ =>
    cases reordered
    exact .refl _

namespace Section

variable {s : Surroundings} {a b c a' b' : Section}

def Distinct (sec : Section) : Prop := (Value.mapping sec.document).distinct = true

theorem furnish_document {context : String} {t : PropertyTable} {es : Entries}
    {base : Option Path} {l l' : Loading} {sec : Section}
    (done : LoadOr.runOn (furnish context t (es, base)) s l = (.ok sec, l')) :
    sec.document = es := by
  unfold furnish at done
  dsimp only at done
  split at done
  · cases done
    rfl
  · cases done
    rfl
  · obtain ⟨⟨table, files⟩, l₁, -, done⟩ := LoadOr.ok_of_bind done
    obtain ⟨_, l₂, -, done⟩ := LoadOr.ok_of_bind done
    cases done
    rfl
  · cases done

theorem build_distinct {context : String} {t : PropertyTable} {left : Nat} {v : Value}
    {base : Option Path} {l : Loading} {sec : Section} (distinct : v.distinct = true)
    (made : ((build context t left v base).runOn s l).1 = .ok sec) : sec.Distinct := by
  have done : LoadOr.runOn (build context t left v base) s l = (.ok sec, _) := Prod.ext made rfl
  rw [build_eq] at done
  obtain ⟨⟨es, dir⟩, l₁, gathered, done⟩ := LoadOr.ok_of_bind done
  have comes := ((gather_agrees_self (t := t) (s := s) context left base distinct).run l).1
  rw [gathered] at comes
  cases comes with
  | ok goes =>
    unfold Distinct
    rw [furnish_document done]
    exact goes.1.left

theorem resolved_eq (sec : Section) (s : Surroundings) :
    sec.resolved s = .mapping
      (sec.document.map fun e => (e.1, e.2.mapStrings (sec.table.expand s.env))) :=
  Value.mapStrings_mapping _

-- Documents of different lengths are not the same, so that the lengths need not be compared.
theorem differs_eq (a b : Section) (s : Surroundings) :
    a.differs b s = !(a.resolved s).same (b.resolved s) := by
  unfold differs
  cases same : (a.resolved s).same (b.resolved s) with
  | false => simp
  | true =>
    rw [resolved_eq, resolved_eq, Value.same_mapping, List.length_map, List.length_map] at same
    simp [same.1]

theorem differs_eq_false_iff :
    a.differs b s = false ↔ (a.resolved s).same (b.resolved s) = true := by
  simp [differs_eq]

theorem Distinct.resolved (distinct : a.Distinct) (s : Surroundings) :
    (a.resolved s).distinct = true :=
  (Value.distinct_mapStrings _).mpr distinct

structure Shuffles (a b : Section) : Prop where
  table : b.table = a.table
  document : (Value.mapping a.document).Reordered (.mapping b.document)

theorem Shuffles.same (shuffles : a.Shuffles b) (s : Surroundings) :
    (a.resolved s).same (b.resolved s) = true := by
  unfold resolved resolve
  rw [shuffles.table]
  exact (shuffles.document.mapStrings _).same

theorem Shuffles.differs (left : a.Shuffles a') (right : b.Shuffles b') (distinct : a.Distinct)
    (distinct' : b.Distinct) (s : Surroundings) : a.differs b s = a'.differs b' s := by
  have back := Value.same_symm (left.same s) (distinct.resolved s)
  have back' := Value.same_symm (right.same s) (distinct'.resolved s)
  rw [differs_eq, differs_eq, Bool.not_inj_iff]
  refine Bool.eq_iff_iff.mpr ⟨fun same => ?_, fun same => ?_⟩
  · exact Value.same_trans back (Value.same_trans same (right.same s))
  · exact Value.same_trans (left.same s) (Value.same_trans same back')

theorem get_of_undiffering (same : a.differs b s = false) (left : a.Distinct)
    (right : b.Distinct) {α : Type} [Typed α] [TypedUpToSigns α] {key : String}
    (signs : ∀ v w, a.field? key = some v → b.field? key = some w →
      TypedUpToSigns.signs α v = TypedUpToSigns.signs α w) :
    Agree SameReason (Option.Rel TypedUpToSigns.alike) (a.get (α := α) s key) (b.get s key) := by
  have found := field?_rel
    (Entries.lookup_expanded (differs_eq_false_iff.mp same) left right key)
    fun v w => null_of_expanded_same
  refine get_of_reads ?_
  match here : a.field? key, there : b.field? key, found with
  | none, none, _ => exact .none
  | some v, some w, .some same =>
    refine .some (TypedUpToSigns.ofValue_alike s same ?_)
    unfold resolve
    rw [TypedUpToSigns.signs_mapStrings, TypedUpToSigns.signs_mapStrings]
    exact signs v w here there

theorem differs_laws (s : Surroundings) :
    (Equivalence fun a b : { sec : Section // sec.Distinct } => a.1.differs b.1 s = false) ∧
    (∀ a b : Section, a.differs b s = !(a.resolved s).same (b.resolved s)) ∧
    (∀ a a' b b' : Section, a.Distinct → b.Distinct → a.Shuffles a' → b.Shuffles b' →
      a.differs b s = a'.differs b' s) ∧
    (∀ a b : Section, a.Distinct → b.Distinct → a.differs b s = false →
      ∀ (α : Type) [Typed α] [TypedUpToSigns α] (key : String),
        (∀ v w, a.field? key = some v → b.field? key = some w →
          TypedUpToSigns.signs α v = TypedUpToSigns.signs α w) →
        Agree SameReason (Option.Rel (TypedUpToSigns.alike (α := α))) (a.get s key)
          (b.get s key)) ∧
    ∀ (context : String) (t : PropertyTable) (left : Nat) (v : Value) (base : Option Path)
      (l : Loading) (sec : Section), v.distinct = true →
      ((build context t left v base).runOn s l).1 = .ok sec → sec.Distinct := by
  refine ⟨⟨fun a => ?_, fun {a b} same => ?_, fun first second => ?_⟩, fun a b => differs_eq a b s,
    fun a a' b b' distinct distinct' left right => left.differs right distinct distinct' s,
    fun a b left right same α _ _ key => get_of_undiffering same left right,
    fun context t left v base l sec => build_distinct⟩
  · exact differs_eq_false_iff.mpr (Value.same_refl _)
  · rw [differs_eq_false_iff] at same ⊢
    exact Value.same_symm same (a.2.resolved s)
  · rw [differs_eq_false_iff] at first second ⊢
    exact Value.same_trans first second

-- The two are read as texts that are not the same.
theorem zeros_undiffering :
    let s := Surroundings.ofFiles []
    let a := parsed "v: 0.0\n"
    let b := parsed "v: -0.0\n"
    a.differs b s = false ∧ a.get (α := String) s "v" = .ok (some "0.0") ∧
      b.get (α := String) s "v" = .ok (some "-0.0") := by
  decide +kernel

theorem spelled_undiffering :
    let s := Surroundings.ofFiles []
    let a := parsed "properties: \x7bh: A\x7d\nw: -0.0\nv: \"\x7b\x7b.h\x7d\x7d\"\n"
    let b := parsed "v: A\nw: 0.0\nproperties: \x7bh: A\x7d\n"
    a.differs b s = false ∧
      Agree SameReason (Option.Rel Eq) (a.get (α := String) s "v") (b.get s "v") := by
  intro s a b
  have same : a.differs b s = false := by decide +kernel
  have left : a.Distinct := by unfold Distinct; decide +kernel
  have right : b.Distinct := by unfold Distinct; decide +kernel
  obtain ⟨-, -, -, reads, -⟩ := differs_laws s
  refine ⟨same, reads a b left right same String "v" ?_⟩
  intro v w found found'
  have unsigned : (a.field? "v").map Value.isSignedZero = some false := by decide +kernel
  have unsigned' : (b.field? "v").map Value.isSignedZero = some false := by decide +kernel
  rw [found] at unsigned
  rw [found'] at unsigned'
  exact congrArg (fun sign => [sign])
    ((Option.some.inj unsigned).trans (Option.some.inj unsigned').symm)

end Section

end Steward
