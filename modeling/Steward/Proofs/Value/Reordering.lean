import Mathlib.Data.List.Perm.Basic
import Steward.Proofs.Value.Distinctness

set_option autoImplicit false

namespace Steward

open List (Forall₂)

theorem matched_of_mem {α β : Type} {R : α → β → Prop} {xs : List α} {ys : List β}
    (related : Forall₂ R xs ys) {x : α} (member : x ∈ xs) : ∃ y ∈ ys, R x y := by
  induction related with
  | nil => cases member
  | @cons a b xs ys first rest ih =>
    rcases List.mem_cons.mp member with rfl | member
    · exact ⟨b, by simp, first⟩
    · obtain ⟨y, among, found⟩ := ih member
      exact ⟨y, by simp [among], found⟩

/-- The second value is the first one with the entries of its mappings in another order, at any
depth. -/
inductive Value.Reordered : Value → Value → Prop
  | null : Reordered .null .null
  | bool (b : Bool) : Reordered (.bool b) (.bool b)
  | number (n : Number) : Reordered (.number n) (.number n)
  | string (s : String) : Reordered (.string s) (.string s)
  | sequence {vs ws : List Value} (items : Forall₂ Reordered vs ws) :
      Reordered (.sequence vs) (.sequence ws)
  | mapping {es fs gs : Entries} (keys : Forall₂ Reordered (es.map Prod.fst) (fs.map Prod.fst))
      (values : Forall₂ Reordered (es.map Prod.snd) (fs.map Prod.snd)) (order : fs.Perm gs) :
      Reordered (.mapping es) (.mapping gs)
  | tagged (tag : String) {v w : Value} (inner : Reordered v w) :
      Reordered (.tagged tag v) (.tagged tag w)

namespace Entries

def Twin (e f : Value × Value) : Prop := e.1.Reordered f.1 ∧ e.2.Reordered f.2

def Shuffled (es gs : Entries) : Prop := ∃ fs, Forall₂ Twin es fs ∧ fs.Perm gs

variable {es fs gs : Entries}

theorem forall₂_twin_iff : Forall₂ Twin es fs ↔
    Forall₂ Value.Reordered (es.map Prod.fst) (fs.map Prod.fst) ∧
      Forall₂ Value.Reordered (es.map Prod.snd) (fs.map Prod.snd) := by
  induction es generalizing fs with
  | nil => cases fs <;> simp
  | cons e es ih => cases fs <;> simp [Twin, ih, and_assoc, and_left_comm]

end Entries

open Entries (Twin Shuffled)

namespace Value.Reordered

theorem mapping_iff {es gs : Entries} :
    Reordered (.mapping es) (.mapping gs) ↔ es.Shuffled gs := by
  constructor
  · intro reordered
    cases reordered with
    | mapping keys values order => exact ⟨_, Entries.forall₂_twin_iff.mpr ⟨keys, values⟩, order⟩
  · rintro ⟨fs, twins, order⟩
    obtain ⟨keys, values⟩ := Entries.forall₂_twin_iff.mp twins
    exact .mapping keys values order

theorem refl (v : Value) : v.Reordered v := by
  induction v using Value.induct with
  | null => exact .null
  | bool b => exact .bool b
  | number n => exact .number n
  | string s => exact .string s
  | sequence vs ih => exact .sequence (List.forall₂_same.mpr ih)
  | mapping es ih =>
    exact mapping_iff.mpr ⟨es, List.forall₂_same.mpr fun e member => ih e member, .refl es⟩
  | tagged tag v ih => exact .tagged tag ih

variable {v w : Value}

theorem same (reordered : v.Reordered w) : v.same w = true := by
  induction v using Value.induct generalizing w with
  | null => cases reordered; rfl
  | bool b => cases reordered; exact same_refl _
  | number n => cases reordered; exact same_refl _
  | string s => cases reordered; exact same_refl _
  | sequence vs ih =>
    cases reordered with
    | sequence items =>
      rw [same_sequence]
      induction items with
      | nil => exact .nil
      | cons head tail rest =>
        exact .cons (ih _ (by simp) head) (rest fun v member => ih v (by simp [member]))
  | mapping es ih =>
    cases reordered with
    | @mapping _ fs gs keys values order =>
      have twins := Entries.forall₂_twin_iff.mpr ⟨keys, values⟩
      refine (same_mapping es gs).mpr ⟨twins.length_eq.trans order.length_eq, ?_⟩
      intro e member
      obtain ⟨f, among, twin⟩ := matched_of_mem twins member
      exact ⟨f, order.mem_iff.mp among, (ih e member).1 twin.1, (ih e member).2 twin.2⟩
  | tagged tag v ih =>
    cases reordered with
    | tagged _ inner => simp [ih inner]

theorem string? (reordered : v.Reordered w) : v.string? = w.string? := by
  induction v using Value.induct generalizing w with
  | tagged tag v ih =>
    cases reordered with
    | tagged _ inner => simp [ih inner]
  | _ => cases reordered; rfl

theorem eq_string {text : String} (reordered : (Value.string text).Reordered w) :
    w = .string text := by
  cases reordered
  rfl

theorem scalarText? (reordered : v.Reordered w) : v.scalarText? = w.scalarText? := by
  cases reordered <;> rfl

theorem isNull_untagged (reordered : v.Reordered w) :
    v.untagged.isNull = w.untagged.isNull := by
  induction v using Value.induct generalizing w with
  | tagged tag v ih =>
    cases reordered with
    | tagged _ inner => simpa [Value.untagged] using ih inner
  | _ => cases reordered; rfl

theorem same_iff {k : Value} (reordered : v.Reordered w) (distinct : v.distinct = true) :
    k.same v = k.same w := by
  refine Bool.eq_iff_iff.mpr ⟨fun found => same_trans found reordered.same, fun found => ?_⟩
  exact same_trans found (same_symm reordered.same distinct)

end Value.Reordered

theorem Value.string?_of_same {k l : Value} (same : k.same l = true) : k.string? = l.string? := by
  induction k using Value.induct generalizing l with
  | tagged tag k ih =>
    obtain ⟨other, m, rfl, -, inner⟩ := of_tagged_same same
    simpa using ih inner
  | string s => rw [eq_of_string_same same]
  | null => rw [eq_of_null_same same]
  | bool b => rw [eq_of_bool_same same]
  | number n =>
    obtain ⟨m, rfl, -⟩ := of_number_same same
    rfl
  | sequence vs ih =>
    obtain ⟨ws, rfl, -⟩ := of_sequence_same same
    rfl
  | mapping es ih =>
    obtain ⟨fs, rfl, -⟩ := of_mapping_same same
    rfl

namespace Entries

variable {es fs gs : Entries} {k v w : Value}

theorem Twin.refl (e : Value × Value) : Twin e e := ⟨.refl e.1, .refl e.2⟩

theorem filterMap_twin {α : Type} {g : Value × Value → Option α}
    (same : ∀ e f, Twin e f → g e = g f) (twins : Forall₂ Twin es fs) :
    es.filterMap g = fs.filterMap g := by
  induction twins with
  | nil => rfl
  | cons twin rest ih => rw [List.filterMap_cons, List.filterMap_cons, same _ _ twin, ih]

theorem Shuffled.of_perm (perm : es.Perm fs) : es.Shuffled fs :=
  ⟨es, List.forall₂_same.mpr fun e _ => .refl e, perm⟩

theorem Shuffled.refl (es : Entries) : es.Shuffled es := .of_perm (.refl es)

theorem Shuffled.perm_left (perm : es.Perm fs) (shuffled : fs.Shuffled gs) : es.Shuffled gs := by
  obtain ⟨hs, twins, order⟩ := shuffled
  obtain ⟨is, twins, before⟩ := List.perm_comp_forall₂ perm twins
  exact ⟨is, twins, before.trans order⟩

theorem Shuffled.perm_right (shuffled : es.Shuffled fs) (perm : fs.Perm gs) : es.Shuffled gs := by
  obtain ⟨hs, twins, order⟩ := shuffled
  exact ⟨hs, twins, order.trans perm⟩

theorem Shuffled.filter {p : Value × Value → Bool} (shuffled : es.Shuffled fs)
    (same : ∀ e ∈ es, ∀ f, Twin e f → p e = p f) : Shuffled (es.filter p) (fs.filter p) := by
  obtain ⟨gs, twins, order⟩ := shuffled
  refine ⟨gs.filter p, ?_, order.filter p⟩
  clear order
  induction twins with
  | nil => exact .nil
  | @cons e g es gs twin rest ih =>
    have others := ih fun e member => same e (by simp [member])
    have first := same e (by simp) g twin
    rw [List.filter_cons, List.filter_cons, first]
    split
    · exact .cons twin others
    · exact others

section Lookup

variable {key : String}

theorem Shuffled.lookup (shuffled : es.Shuffled fs) (left : (Value.mapping es).distinct = true)
    (right : (Value.mapping fs).distinct = true) :
    Option.Rel Value.Reordered (es.lookup key) (fs.lookup key) := by
  obtain ⟨gs, twins, order⟩ := shuffled
  cases found : es.lookup key with
  | some v =>
    obtain ⟨⟨k, w⟩, among, twin⟩ := matched_of_mem twins ((lookup_eq_some_iff left).mp found)
    cases twin.1.eq_string
    rw [(lookup_eq_some_iff right).mpr (order.mem_iff.mp among)]
    exact .some twin.2
  | none =>
    cases there : fs.lookup key with
    | none => exact .none
    | some w =>
      have among := order.mem_iff.mpr ((lookup_eq_some_iff right).mp there)
      obtain ⟨⟨k, v⟩, among, key, -⟩ := matched_of_mem twins.flip among
      cases key
      rw [(lookup_eq_some_iff left).mpr among] at found
      cases found

end Lookup

section Insert

theorem forall₂_insert (twins : Forall₂ Twin es fs) (distinct : ∀ e ∈ es, e.1.distinct = true)
    (value : v.Reordered w) : Forall₂ Twin (es.insert k v) (fs.insert k w) := by
  induction twins with
  | nil => exact .cons ⟨.refl k, value⟩ .nil
  | @cons e f es fs twin rest ih =>
    have same := twin.1.same_iff (k := k) (distinct e (by simp))
    unfold insert
    rw [same]
    split
    · exact .cons ⟨twin.1, value⟩ rest
    · exact .cons twin (ih fun e member => distinct e (by simp [member]))

theorem apart_of_same {e f : Value × Value} (key : k.distinct = true)
    (apart : e.1.same f.1 = false) (here : k.same e.1 = true) : k.same f.1 = false := by
  by_contra again
  rw [Bool.not_eq_false] at again
  rw [Value.same_trans (Value.same_symm here key) again] at apart
  cases apart

theorem insert_perm (perm : es.Perm fs) (distinct : (Value.mapping es).distinct = true)
    (key : k.distinct = true) : (es.insert k v).Perm (fs.insert k v) := by
  induction perm with
  | nil => exact .refl _
  | @cons e es fs perm ih =>
    have rest := distinct_of_subperm (List.sublist_cons_self e es).subperm distinct
    unfold insert
    split
    · exact perm.cons _
    · exact (ih rest).cons e
  | swap e f es =>
    have apart := (List.pairwise_cons.mp ((Value.distinct_mapping _).mp distinct).1).1 e (by simp)
    by_cases first : k.same f.1 = true
    · have second := apart_of_same key apart first
      simp only [insert, first, second, if_true, Bool.false_eq_true, if_false]
      exact .swap ..
    · by_cases second : k.same e.1 = true
      · simp only [insert, first, second, if_true, Bool.false_eq_true, if_false]
        exact .swap ..
      · simp only [insert, first, second, Bool.false_eq_true, if_false]
        exact .swap ..
  | trans first second ih ih' =>
    exact (ih distinct).trans (ih' (distinct_of_subperm first.symm.subperm distinct))

theorem Shuffled.insert (shuffled : es.Shuffled fs) (left : (Value.mapping es).distinct = true)
    (right : (Value.mapping fs).distinct = true) (key : k.distinct = true)
    (value : v.Reordered w) : Shuffled (es.insert k v) (fs.insert k w) := by
  obtain ⟨gs, twins, order⟩ := shuffled
  have each := ((Value.distinct_mapping es).mp left).2
  exact ⟨Entries.insert gs k w, forall₂_insert twins (fun e member => (each e member).1) value,
    insert_perm order (distinct_of_subperm order.subperm right) key⟩

end Insert

section Remove

theorem replaceFirst_perm {last : Value × Value} (key : k.distinct = true)
    (distinct : (Value.mapping es).distinct = true) (found : ∃ e ∈ es, k.same e.1 = true) :
    (replaceFirst k last es).Perm (last :: es.filter fun e => !k.same e.1) := by
  induction es with
  | nil => simp at found
  | cons e es ih =>
    have apart := (List.pairwise_cons.mp ((Value.distinct_mapping _).mp distinct).1).1
    unfold replaceFirst
    split
    · next here =>
      have others : (es.filter fun e => !k.same e.1) = es :=
        List.filter_eq_self.mpr fun f member => by
          rw [apart_of_same key (apart f member) here, Bool.not_false]
      simp [here, others]
    · next other =>
      have rest := distinct_of_subperm (List.sublist_cons_self e es).subperm distinct
      have later : ∃ e ∈ es, k.same e.1 = true := by simpa [other] using found
      simpa [other] using ((ih rest later).cons e).trans (.swap ..)

theorem remove_perm (key : k.distinct = true) (distinct : (Value.mapping es).distinct = true) :
    (es.remove k).Perm (es.filter fun e => !k.same e.1) := by
  unfold remove
  split
  · next none => simp [List.getLast?_eq_none_iff.mp none]
  · next last found =>
    obtain ⟨front, rfl⟩ := List.getLast?_eq_some_iff.mp found
    have apart : ∀ e ∈ front, e.1.same last.1 = false := fun e member =>
      (List.pairwise_append.mp ((Value.distinct_mapping _).mp distinct).1).2.2 e member last
        (by simp)
    rw [List.dropLast_concat, List.filter_append]
    split
    · next here =>
      have others : (front.filter fun e => !k.same e.1) = front := by
        refine List.filter_eq_self.mpr fun e member => ?_
        by_contra again
        rw [Bool.not_eq_true, Bool.not_eq_false'] at again
        rw [apart_of_same key (apart e member) again] at here
        cases here
      simp [here, others]
    · next other =>
      split
      · next some =>
        have earlier : ∃ e ∈ front, k.same e.1 = true := by simpa [other] using some
        have rest := distinct_of_subperm (List.sublist_append_left front [last]).subperm distinct
        refine (replaceFirst_perm key rest earlier).trans ?_
        simpa [other] using (List.perm_append_singleton last _).symm
      · next none =>
        have others : (front.filter fun e => !k.same e.1) = front :=
          List.filter_eq_self.mpr fun e member => by
            simp only [List.any_append, Bool.or_eq_true, not_or, List.any_eq_true] at none
            simpa using fun same => none.1 ⟨e, member, same⟩
        simp [other, others]

theorem Shuffled.remove (shuffled : es.Shuffled fs) (left : (Value.mapping es).distinct = true)
    (right : (Value.mapping fs).distinct = true) (key : k.distinct = true) :
    Shuffled (es.remove k) (fs.remove k) := by
  have each := ((Value.distinct_mapping es).mp left).2
  refine ((shuffled.filter fun e member f twin => ?_).perm_left (remove_perm key left)).perm_right
    (remove_perm key right).symm
  rw [twin.1.same_iff (each e member).1]

end Remove

section Texts

theorem lookup_insert_self (es : Entries) (key : String) (v : Value) :
    Entries.lookup (es.insert (.string key) v) key = some v := by
  induction es with
  | nil => simp [insert, lookup, get?, Value.same_refl]
  | cons e es ih =>
    by_cases here : (Value.string key).same e.1 = true
    · simp [insert, lookup, get?, here]
    · simpa [insert, lookup, get?, here] using ih

theorem lookup_insert_of_ne (es : Entries) {key : String} (v : Value) (other : k ≠ .string key) :
    Entries.lookup (es.insert k v) key = es.lookup key := by
  induction es with
  | nil =>
    have apart : (Value.string key).same k = false := by
      rw [Bool.eq_false_iff]
      exact fun same => other (Value.eq_of_string_same same)
    simp [insert, lookup, get?, apart]
  | cons e es ih =>
    by_cases here : k.same e.1 = true
    · have apart : (Value.string key).same e.1 = false := by
        rw [Bool.eq_false_iff]
        intro same
        rw [Value.eq_of_string_same same] at here
        exact other (Value.same_string_iff.mp here)
      simp [insert, lookup, get?, here, apart]
    · by_cases first : (Value.string key).same e.1 = true
      · simp [insert, lookup, get?, here, first]
      · simpa [insert, lookup, get?, here, first] using ih

def under (es : Entries) (name : String) : Entries :=
  es.filter fun e => decide (e.1.string? = some name)

theorem under_insert (es : Entries) (k v : Value) (name : String) :
    under (es.insert k v) name =
      if k.string? = some name then (es.under name).insert k v else es.under name := by
  induction es with
  | nil => by_cases named : k.string? = some name <;> simp [insert, under, named]
  | cons e es ih =>
    by_cases here : k.same e.1 = true
    · have text := Value.string?_of_same here
      by_cases named : e.1.string? = some name <;> simp [insert, under, here, text, named]
    · by_cases first : e.1.string? = some name
      · by_cases named : k.string? = some name <;>
          simpa [insert, under, here, first, named] using ih
      · simpa [insert, under, here, first] using ih

theorem length_under (es : Entries) (name : String) :
    (es.under name).length = es.stringKeys.count name := by
  induction es with
  | nil => rfl
  | cons e es ih =>
    cases text : e.1.string? with
    | none => simpa [under, stringKeys, text] using ih
    | some other =>
      by_cases same : other = name <;> simpa [under, stringKeys, text, same] using ih

theorem Shuffled.under (shuffled : es.Shuffled fs) {name : String}
    (once : es.stringKeys.count name ≤ 1) : Forall₂ Twin (es.under name) (fs.under name) := by
  obtain ⟨gs, twins, order⟩ := shuffled
  have related : Forall₂ Twin (es.under name) (Entries.under gs name) := by
    refine List.rel_filter ?_ twins
    intro e f twin
    simp [twin.1.string?]
  have short : (Entries.under gs name).length ≤ 1 := by
    rwa [← related.length_eq, length_under]
  have perm : (Entries.under gs name).Perm (fs.under name) := order.filter _
  have equal : Entries.under gs name = fs.under name := by
    match same : Entries.under gs name with
    | [] => exact (List.perm_nil.mp (same ▸ perm).symm).symm
    | [e] => exact (List.perm_singleton.mp (same ▸ perm).symm).symm
    | e :: f :: rest => simp [same] at short
  exact equal ▸ related

end Texts

end Entries

end Steward
