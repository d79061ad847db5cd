import Steward.Proofs.Document.Provenance
import Steward.Proofs.Property.Arrangement

set_option autoImplicit false

namespace Steward

open List (Forall₂)
open Entries (Twin)

structure Entries.Rearranged (es fs : Entries) : Prop where
  shuffled : es.Shuffled fs
  left : (Value.mapping es).distinct = true
  right : (Value.mapping fs).distinct = true

namespace Entries.Rearranged

variable {es fs : Entries} {k v w : Value}

theorem insert (rearranged : es.Rearranged fs) (key : k.distinct = true)
    (value : v.Reordered w) (left : v.distinct = true) (right : w.distinct = true) :
    Rearranged (es.insert k v) (fs.insert k w) where
  shuffled := rearranged.shuffled.insert rearranged.left rearranged.right key value
  left := insert_distinct rearranged.left key left
  right := insert_distinct rearranged.right key right

theorem remove (rearranged : es.Rearranged fs) (key : k.distinct = true) :
    Rearranged (es.remove k) (fs.remove k) where
  shuffled := rearranged.shuffled.remove rearranged.left rearranged.right key
  left := distinct_of_subperm (remove_subperm es k) rearranged.left
  right := distinct_of_subperm (remove_subperm fs k) rearranged.right

theorem hasKey (rearranged : es.Rearranged fs) (k : Value) :
    Merge.hasKey (es.map (·.1)) k = Merge.hasKey (fs.map (·.1)) k := by
  obtain ⟨gs, twins, order⟩ := rearranged.shuffled
  have each := ((Value.distinct_mapping es).mp rearranged.left).2
  refine Bool.eq_iff_iff.mpr ?_
  simp only [Merge.hasKey, List.any_map, List.any_eq_true, Function.comp_apply]
  constructor
  · rintro ⟨e, member, same⟩
    obtain ⟨f, among, twin⟩ := matched_of_mem twins member
    exact ⟨f, order.mem_iff.mp among, twin.1.same_iff (each e member).1 ▸ same⟩
  · rintro ⟨f, member, same⟩
    obtain ⟨e, among, twin⟩ := matched_of_mem twins.flip (order.mem_iff.mpr member)
    exact ⟨e, among, (twin.1.same_iff (each e among).1).symm ▸ same⟩

theorem lookup_cases (rearranged : es.Rearranged fs) (key : String) :
    (es.lookup key = none ∧ fs.lookup key = none) ∨
      ∃ v w, es.lookup key = some v ∧ fs.lookup key = some w ∧ v.Reordered w := by
  have related : Option.Rel Value.Reordered (es.lookup key) (fs.lookup key) :=
    rearranged.shuffled.lookup rearranged.left rearranged.right
  revert related
  generalize es.lookup key = v
  generalize fs.lookup key = w
  rintro (reordered | _)
  · exact .inr ⟨_, _, rfl, rfl, reordered⟩
  · exact .inl ⟨rfl, rfl⟩

end Entries.Rearranged

structure PropertyBlock.Alike (ps qs : Entries) : Prop extends ps.Rearranged qs where
  under : ∀ name, Forall₂ Twin (ps.under name) (qs.under name)

theorem PropertyBlock.Alike.refl {ps : Entries} (distinct : (Value.mapping ps).distinct = true) :
    Alike ps ps :=
  ⟨⟨.refl ps, distinct, distinct⟩, fun _ => List.forall₂_same.mpr fun e _ => .refl e⟩

namespace Merge

structure Alike (es fs : Entries) : Prop extends es.Rearranged fs where
  block : ∀ ps qs, es.lookup propertiesKey = some (.mapping ps) →
    fs.lookup propertiesKey = some (.mapping qs) → PropertyBlock.Alike ps qs

structure Own.Alike (own own' : Own) : Prop where
  keys : ∀ k, hasKey own.keys k = hasKey own'.keys k
  properties : ∀ k, hasKey own.properties k = hasKey own'.properties k

variable {es fs : Entries} {own own' : Own} {e : Value × Value}

theorem Alike.refl (distinct : (Value.mapping es).distinct = true) : Alike es es where
  shuffled := .refl es
  left := distinct
  right := distinct
  block ps qs found found' := by
    rw [found] at found'
    cases found'
    have member := (Entries.lookup_eq_some_iff distinct).mp found
    exact .refl (((Value.distinct_mapping es).mp distinct).2 _ member).2

theorem Own.of_alike (alike : Merge.Alike es fs) : (Own.of es).Alike (Own.of fs) where
  keys := alike.hasKey
  properties k := by
    unfold Own.of
    obtain ⟨none, none'⟩ | ⟨v, w, found, found', reordered⟩ := alike.lookup_cases propertiesKey
    · simp only [none, none']
    · simp only [found, found']
      cases reordered with
      | mapping keys values order => exact (alike.block _ _ found found').hasKey k
      | _ => rfl

theorem insertMissing_alike {ps qs : Entries} {mine mine' : List Value}
    (own : ∀ k, hasKey mine k = hasKey mine' k) (alike : PropertyBlock.Alike ps qs)
    (key : e.1.distinct = true) (value : e.2.distinct = true) :
    PropertyBlock.Alike (insertMissing mine ps e) (insertMissing mine' qs e) := by
  unfold insertMissing
  rw [own]
  split
  · exact alike
  · refine ⟨alike.insert key (.refl e.2) value value, fun name => ?_⟩
    rw [Entries.under_insert, Entries.under_insert]
    split
    · refine Entries.forall₂_insert (alike.under name) (fun f member => ?_) (.refl e.2)
      exact (((Value.distinct_mapping ps).mp alike.left).2 f (List.mem_filter.mp member).1).1
    · exact alike.under name

theorem foldl_insertMissing_alike {ps qs included : Entries} {mine mine' : List Value}
    (own : ∀ k, hasKey mine k = hasKey mine' k) (alike : PropertyBlock.Alike ps qs)
    (each : ∀ e ∈ included, e.1.distinct = true ∧ e.2.distinct = true) :
    PropertyBlock.Alike (included.foldl (insertMissing mine) ps)
      (included.foldl (insertMissing mine') qs) := by
  induction included generalizing ps qs with
  | nil => exact alike
  | cons e included ih =>
    obtain ⟨key, value⟩ := each e (by simp)
    exact ih (insertMissing_alike own alike key value) fun e member => each e (by simp [member])

theorem Alike.insert_properties (alike : Alike es fs) {ps qs : Entries}
    (blocks : PropertyBlock.Alike ps qs) :
    Alike (es.insert (.string propertiesKey) (.mapping ps))
      (fs.insert (.string propertiesKey) (.mapping qs)) where
  toRearranged := alike.insert rfl (Value.Reordered.mapping_iff.mpr blocks.shuffled) blocks.left
    blocks.right
  block ps qs found found' := by
    rw [Entries.lookup_insert_self] at found found'
    cases found
    cases found'
    exact blocks

theorem adoptProperties_alike (alike : Alike es fs) (same : own.Alike own') {included : Value}
    (distinct : included.distinct = true) :
    Alike (adoptProperties own es included) (adoptProperties own' fs included) := by
  unfold adoptProperties
  split
  · next ps =>
    have each := ((Value.distinct_mapping ps).mp distinct).2
    have fresh := alike.insert_properties (PropertyBlock.Alike.refl distinct)
    obtain ⟨none, none'⟩ | ⟨v, w, found, found', reordered⟩ := alike.lookup_cases propertiesKey
    · simpa only [none, none'] using fresh
    · simp only [found, found']
      cases reordered with
      | null => exact fresh
      | mapping keys values order =>
        have blocks := alike.block _ _ found found'
        exact alike.insert_properties (foldl_insertMissing_alike same.properties blocks each)
      | _ => exact alike
  · exact alike

theorem adoptEntry_alike (alike : Alike es fs) (same : own.Alike own')
    (key : e.1.distinct = true) (value : e.2.distinct = true) :
    Alike (adoptEntry own es e) (adoptEntry own' fs e) := by
  unfold adoptEntry
  split
  · exact adoptProperties_alike alike same value
  · next other =>
    unfold insertMissing
    rw [same.keys]
    split
    · exact alike
    · have apart : e.1 ≠ .string propertiesKey := fun named => other (by rw [named]; rfl)
      refine ⟨alike.insert key (.refl e.2) value value, fun ps qs found found' => ?_⟩
      rw [Entries.lookup_insert_of_ne _ _ apart] at found found'
      exact alike.block ps qs found found'

theorem adopt_alike {included : Entries} (alike : Alike es fs) (same : own.Alike own')
    (distinct : (Value.mapping included).distinct = true) :
    Alike (adopt own es included) (adopt own' fs included) := by
  have each := ((Value.distinct_mapping included).mp distinct).2
  clear distinct
  unfold adopt
  induction included generalizing es fs with
  | nil => exact alike
  | cons e included ih =>
    obtain ⟨key, value⟩ := each e (by simp)
    exact ih (adoptEntry_alike alike same key value) fun e member => each e (by simp [member])

theorem withoutIncludes_eq (es : Entries) : withoutIncludes es =
    ((Include.orders es).map (·.1)).foldl (fun es key => es.remove (.string key)) es := by
  rw [Include.orders, List.map_map, List.foldl_map]
  rfl

theorem lookup_withoutIncludes (distinct : (Value.mapping es).distinct = true) {key : String}
    {v : Value} (found : (withoutIncludes es).lookup key = some v) : es.lookup key = some v := by
  have sub := withoutIncludes_subperm es
  rw [Entries.lookup_eq_some_iff (Entries.distinct_of_subperm sub distinct)] at found
  exact (Entries.lookup_eq_some_iff distinct).mpr (sub.subset found)

theorem withoutIncludes_alike (alike : Alike es fs)
    (same : Include.orders es = Include.orders fs) :
    Alike (withoutIncludes es) (withoutIncludes fs) := by
  refine ⟨?_, fun ps qs found found' => alike.block ps qs
    (lookup_withoutIncludes alike.left found) (lookup_withoutIncludes alike.right found')⟩
  rw [withoutIncludes_eq, withoutIncludes_eq, same]
  have rearranged := alike.toRearranged
  clear alike same
  generalize (Include.orders fs).map (·.1) = keys
  induction keys generalizing es fs with
  | nil => exact rearranged
  | cons key keys ih => exact ih (rearranged.remove rfl)

end Merge

end Steward
