import Steward.Proofs.Value.Reordering

set_option autoImplicit false

namespace Steward.Entries

variable {es fs : Entries} {k key v : Value}

theorem get?_cons (e : Value × Value) (es : Entries) (key : Value) :
    get? (e :: es) key = if key.same e.1 then some e.2 else es.get? key := by
  by_cases here : key.same e.1 = true <;> simp [get?, here]

theorem get?_eq_some_iff (distinct : (Value.mapping es).distinct = true)
    (kept : key.distinct = true) :
    es.get? key = some v ↔ ∃ e ∈ es, key.same e.1 = true ∧ e.2 = v := by
  rw [Value.distinct_mapping] at distinct
  obtain ⟨apart, -⟩ := distinct
  induction es with
  | nil => simp [get?]
  | cons e es ih =>
    obtain ⟨first, apart⟩ := List.pairwise_cons.mp apart
    rw [get?_cons, List.exists_mem_cons_iff]
    by_cases here : key.same e.1 = true
    · have others : ¬ ∃ f ∈ es, key.same f.1 = true ∧ f.2 = v := by
        rintro ⟨f, member, again, -⟩
        rw [apart_of_same kept (first f member) here] at again
        cases again
      simp [here, others]
    · simp [here, ih apart]

theorem get?_isSome_iff (es : Entries) (key : Value) :
    (es.get? key).isSome = true ↔ ∃ e ∈ es, key.same e.1 = true := by
  simp [get?]

theorem get?_perm (perm : es.Perm fs) (distinct : (Value.mapping es).distinct = true)
    (kept : key.distinct = true) : es.get? key = fs.get? key := by
  have other := distinct_of_subperm perm.symm.subperm distinct
  refine Option.ext fun v => ?_
  simp only [get?_eq_some_iff distinct kept, get?_eq_some_iff other kept, perm.mem_iff]

theorem get?_insert (es : Entries) (v : Value) (given : k.distinct = true)
    (kept : key.distinct = true) :
    (es.insert k v).get? key = if key.same k then some v else es.get? key := by
  induction es with
  | nil => simp [insert, get?_cons]
  | cons e es ih =>
    unfold insert
    split
    · next here =>
      rw [get?_cons, get?_cons]
      by_cases same : key.same k = true
      · simp [same, Value.same_trans same here]
      · have apart : ¬ key.same e.1 = true := fun again =>
          same (Value.same_trans again (Value.same_symm here given))
        simp [same, apart]
    · next other =>
      rw [get?_cons, get?_cons, ih]
      by_cases same : key.same k = true
      · have apart : ¬ key.same e.1 = true := fun again =>
          other (Value.same_trans (Value.same_symm same kept) again)
        simp [same, apart]
      · simp [same]

theorem get?_remove (distinct : (Value.mapping es).distinct = true) (given : k.distinct = true)
    (kept : key.distinct = true) :
    (es.remove k).get? key = if key.same k then none else es.get? key := by
  have left := distinct_of_subperm (remove_subperm es k) distinct
  rw [get?_perm (remove_perm given distinct) left kept]
  clear left distinct
  induction es with
  | nil => simp [get?]
  | cons e es ih =>
    rw [List.filter_cons, get?_cons]
    by_cases here : k.same e.1 = true
    · by_cases same : key.same k = true
      · simpa [here, same] using ih
      · have apart : ¬ key.same e.1 = true := fun again =>
          same (Value.same_trans again (Value.same_symm here given))
        simpa [here, same, apart] using ih
    · by_cases same : key.same k = true
      · have apart : ¬ key.same e.1 = true := fun again =>
          here (Value.same_trans (Value.same_symm same kept) again)
        simpa [here, same, apart, get?_cons] using ih
      · rw [if_neg same] at ih
        simp [here, same, get?_cons, ih]

end Steward.Entries
