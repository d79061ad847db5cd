import Steward.Document.Include
import Steward.Proofs.Value.Reordering

set_option autoImplicit false

namespace Steward.Include

open List (Forall₂)
open Entries (Twin)

variable {α : Type}

section Order

variable {a b c : String}

theorem isBefore_iff (a b : String) :
    isBefore a b = true ↔ (suffix a).utf8ByteSize < (suffix b).utf8ByteSize ∨
      (suffix a).utf8ByteSize = (suffix b).utf8ByteSize ∧ suffix a ≤ suffix b := by
  unfold isBefore rank
  dsimp only
  rw [Bool.or_eq_true, Bool.and_eq_true, beq_iff_eq, decide_eq_true_eq, decide_eq_true_eq]

theorem isBefore_trans (first : isBefore a b = true) (second : isBefore b c = true) :
    isBefore a c = true := by
  rw [isBefore_iff] at *
  rcases first with shorter | ⟨long, le⟩ <;> rcases second with shorter' | ⟨long', le'⟩
  · exact .inl (by omega)
  · exact .inl (by omega)
  · exact .inl (by omega)
  · exact .inr ⟨by omega, String.le_trans le le'⟩

theorem isBefore_total (a b : String) : (isBefore a b || isBefore b a) = true := by
  rw [Bool.or_eq_true, isBefore_iff, isBefore_iff]
  rcases Nat.lt_trichotomy (suffix a).utf8ByteSize (suffix b).utf8ByteSize with h | h | h
  · exact .inl (.inl h)
  · rcases String.le_total (suffix a) (suffix b) with le | le
    · exact .inl (.inr ⟨h, le⟩)
    · exact .inr (.inr ⟨h.symm, le⟩)
  · exact .inr (.inl h)

theorem toList_of_isKey (key : isKey a = true) : a.toList = mark ++ (suffix a).toList := by
  unfold isKey at key
  unfold suffix
  split at key
  · next rest found => simp [Text.stripPrefix?_eq_some found]
  · cases key

theorem isBefore_antisymm (left : isKey a = true) (right : isKey b = true)
    (first : isBefore a b = true) (second : isBefore b a = true) : a = b := by
  rw [isBefore_iff] at first second
  have same : suffix a = suffix b := by
    rcases first with shorter | ⟨long, le⟩ <;> rcases second with shorter' | ⟨long', le'⟩
    · omega
    · omega
    · omega
    · exact String.le_antisymm le le'
  rw [← String.toList_inj, toList_of_isKey left, toList_of_isKey right, same]

end Order

def under (items : List (String × α)) (name : String) : List (String × α) :=
  items.filter fun e => decide (e.1 = name)

def precedes (a b : String × α) : Bool := isBefore a.1 b.1

def InOrder (items : List (String × α)) : Prop := items.Pairwise fun a b => precedes a b = true

instance (items : List (String × α)) : Decidable (InOrder items) :=
  inferInstanceAs (Decidable (items.Pairwise fun a b => precedes a b = true))

def sort (items : List (String × α)) : List (String × α) := items.mergeSort precedes

theorem precedes_trans (a b c : String × α) (first : precedes a b = true)
    (second : precedes b c = true) : precedes a c = true :=
  isBefore_trans first second

theorem precedes_total (a b : String × α) : (precedes a b || precedes b a) = true :=
  isBefore_total a.1 b.1

theorem sort_inOrder (items : List (String × α)) : InOrder (sort items) :=
  List.pairwise_mergeSort precedes_trans precedes_total items

theorem under_sort (items : List (String × α)) (name : String) :
    under (sort items) name = under items name := by
  have one : InOrder (under items name) := by
    refine List.pairwise_of_forall_mem_list fun a left b right => ?_
    have first := (List.mem_filter.mp left).2
    have second := (List.mem_filter.mp right).2
    rw [decide_eq_true_eq] at first second
    rw [precedes, first, second, isBefore_refl]
  have inside : (under items name).Sublist (sort items) :=
    List.sublist_mergeSort precedes_trans precedes_total one List.filter_sublist
  have again : (under (under items name) name).Sublist (under (sort items) name) :=
    inside.filter _
  have twice : under (under items name) name = under items name := by simp [under]
  have perm : (under (sort items) name).Perm (under items name) :=
    (List.mergeSort_perm items _).filter _
  rw [twice] at again
  exact (again.eq_of_length perm.length_eq.symm).symm

theorem mem_of_under {xs ys : List (String × α)} (same : ∀ name, under xs name = under ys name)
    {e : String × α} (member : e ∈ xs) : e ∈ ys := by
  have here : e ∈ under xs e.1 := List.mem_filter.mpr ⟨member, by simp⟩
  rw [same] at here
  exact (List.mem_filter.mp here).1

theorem eq_of_inOrder {xs ys : List (String × α)} (left : InOrder xs) (right : InOrder ys)
    (keys : ∀ e ∈ xs, isKey e.1 = true) (same : ∀ name, under xs name = under ys name) :
    xs = ys := by
  induction xs generalizing ys with
  | nil =>
    cases ys with
    | nil => rfl
    | cons f ys => cases mem_of_under (fun name => (same name).symm) (List.mem_cons_self (a := f))
  | cons e xs ih =>
    cases ys with
    | nil => cases mem_of_under same (List.mem_cons_self (a := e))
    | cons f ys =>
      have first : isBefore e.1 f.1 = true := by
        rcases List.mem_cons.mp (mem_of_under (fun name => (same name).symm)
          (List.mem_cons_self (a := f))) with rfl | later
        · exact isBefore_refl _
        · exact (List.pairwise_cons.mp left).1 f later
      have second : isBefore f.1 e.1 = true := by
        rcases List.mem_cons.mp (mem_of_under same (List.mem_cons_self (a := e))) with rfl | later
        · exact isBefore_refl _
        · exact (List.pairwise_cons.mp right).1 e later
      have key' : isKey f.1 = true :=
        keys f (mem_of_under (fun name => (same name).symm) (List.mem_cons_self (a := f)))
      have name := isBefore_antisymm (keys e (by simp)) key' first second
      have heads : e :: under xs e.1 = f :: under ys e.1 := by
        simpa [under, name] using same e.1
      obtain ⟨rfl, -⟩ := List.cons.inj heads
      have rest : ∀ name, under xs name = under ys name := by
        intro name
        have both := same name
        unfold under at both ⊢
        by_cases here : e.1 = name <;> simpa [here] using both
      rw [ih (List.pairwise_cons.mp left).2 (List.pairwise_cons.mp right).2
        (fun f member => keys f (by simp [member])) rest]

theorem ofEntries_of_inOrder {es : Entries} (inOrder : InOrder (es.filterMap ofEntry?)) :
    ofEntries es = es.filterMap ofEntry? :=
  List.mergeSort_of_pairwise inOrder

theorem ofEntry?_eq_some {e : Value × Value} {x : String × Value} :
    ofEntry? e = some x ↔
      e.1.string? = some x.1 ∧ isKey x.1 = true ∧ e.2 = x.2 := by
  obtain ⟨name, v⟩ := x
  simp [Include.ofEntry?, Option.filter_eq_some_iff, and_assoc]

theorem mem_ofEntries {es : Entries} {x : String × Value} :
    x ∈ ofEntries es ↔
      ∃ e ∈ es, e.1.string? = some x.1 ∧ isKey x.1 = true ∧ e.2 = x.2 := by
  rw [ofEntries, (List.mergeSort_perm _ _).mem_iff, List.mem_filterMap]
  simp only [Include.ofEntry?_eq_some]

def order? (e : Value × Value) : Option (String × Except ConfigFault (List String)) :=
  (Include.ofEntry? e).map fun e => (e.1, paths e.1 e.2)

def orders (es : Entries) : List (String × Except ConfigFault (List String)) :=
  (ofEntries es).map fun e => (e.1, paths e.1 e.2)

theorem orders_eq_sort (es : Entries) : orders es = sort (es.filterMap order?) := by
  have moved : orders es = sort ((es.filterMap ofEntry?).map fun e => (e.1, paths e.1 e.2)) :=
    List.map_mergeSort fun _ _ _ _ => rfl
  rw [moved, List.map_filterMap]
  rfl

theorem order?_eq_some {e : Value × Value} {o : String × Except ConfigFault (List String)}
    (found : order? e = some o) : e.1.string? = some o.1 ∧ isKey o.1 = true := by
  obtain ⟨_, entry, rfl⟩ := Option.map_eq_some_iff.mp found
  obtain ⟨key, text, rfl⟩ := Option.map_eq_some_iff.mp entry
  exact Option.filter_eq_some_iff.mp text

theorem under_filterMap {g : Value × Value → Option (String × α)}
    (text : ∀ e o, g e = some o → e.1.string? = some o.1) (es : Entries) (name : String) :
    under (es.filterMap g) name = (es.under name).filterMap g := by
  induction es with
  | nil => rfl
  | cons e es ih =>
    unfold under Entries.under at ih ⊢
    cases found : g e with
    | none => by_cases same : e.1.string? = some name <;> simpa [found, same] using ih
    | some o =>
      have text := text e o found
      by_cases same : o.1 = name <;> simpa [found, text, same] using ih

theorem itemPath_reordered {key : String} {vs ws : List Value}
    (items : Forall₂ Value.Reordered vs ws) :
    vs.mapM (itemPath key) = ws.mapM (itemPath key) := by
  induction items with
  | nil => rfl
  | cons item rest ih => rw [List.mapM_cons, List.mapM_cons, ih, itemPath, itemPath, item.string?]

theorem paths_reordered {key : String} {v w : Value} (reordered : v.Reordered w) :
    paths key v = paths key w := by
  cases reordered with
  | sequence items => exact itemPath_reordered items
  | _ => rfl

theorem order?_twin {e f : Value × Value} (twin : Twin e f) : order? e = order? f := by
  unfold order? ofEntry?
  rw [twin.1.string?]
  cases f.1.string?.filter isKey with
  | none => rfl
  | some key => simp [paths_reordered twin.2]

theorem isKey_of_mem_orders {es : Entries} {o : String × Except ConfigFault (List String)}
    (member : o ∈ es.filterMap order?) : isKey o.1 = true := by
  obtain ⟨e, -, found⟩ := List.mem_filterMap.mp member
  exact (order?_eq_some found).2

theorem orders_twin {es fs : Entries} (twins : ∀ name, isKey name = true →
    Forall₂ Twin (es.under name) (fs.under name)) : orders es = orders fs := by
  rw [orders_eq_sort, orders_eq_sort]
  refine eq_of_inOrder (sort_inOrder _) (sort_inOrder _) (fun o member => ?_) fun name => ?_
  · exact isKey_of_mem_orders ((List.mergeSort_perm _ _).mem_iff.mp member)
  · rw [under_sort, under_sort]
    by_cases key : isKey name = true
    · have text (e : Value × Value) o (found : order? e = some o) := (order?_eq_some found).1
      rw [under_filterMap text, under_filterMap text]
      exact Entries.filterMap_twin (fun _ _ => order?_twin) (twins name key)
    · have none (es : Entries) : under (es.filterMap order?) name = [] := by
        refine List.filter_eq_nil_iff.mpr fun o member => ?_
        rw [decide_eq_true_eq]
        rintro rfl
        exact key (isKey_of_mem_orders member)
      rw [none, none]

end Steward.Include
