import Mathlib.Data.List.Perm.Basic
import Steward.Proofs.Document.Placement
import Steward.Proofs.Supervision.Roll

set_option autoImplicit false

namespace Steward.Roll

def Reads (s : Surroundings) (t : PropertyTable) (item : Value × Option Path)
    (spec : ComponentSpec) : Prop :=
  ∀ place l, ∃ spec' l',
    LoadOr.runOn (do
      ComponentSpec.ofSection (← Section.build place t includeLimit item.1 item.2)) s l =
      (.ok spec', l') ∧ spec.Elsewhere spec'

variable {s s' : Surroundings} {t : PropertyTable} {item : Value × Option Path}

theorem entry_accounts (t : PropertyTable) (item : Value × Option Path) (place : String) :
    Load.Accounts (do
      ComponentSpec.ofSection (← Section.build place t includeLimit item.1 item.2)) :=
  .bind (Section.build_accounts place t includeLimit item.1 item.2) ComponentSpec.ofSection_accounts

theorem Reads.of_run {place : String} {l l' : Loading} {spec : ComponentSpec}
    (done : LoadOr.runOn (do
      ComponentSpec.ofSection (← Section.build place t includeLimit item.1 item.2)) s l =
        (.ok spec, l')) : Reads s t item spec := by
  intro place' l₁
  have echoes : LoadOr.Echoes ComponentSpec.Elsewhere (do
      ComponentSpec.ofSection (← Section.build place t includeLimit item.1 item.2)) (do
      ComponentSpec.ofSection (← Section.build place' t includeLimit item.1 item.2)) s := by
    refine .bind (Section.build_echoes place place' t includeLimit item.1 item.2 s) ?_
    rintro sec _ ⟨there, rfl⟩
    exact ComponentSpec.ofSection_echoes sec there s
  exact echoes l l' spec done l₁

def At (R : Value × Option Path → ComponentSpec → Prop) (list : Listing) (place : Nat)
    (spec : ComponentSpec) : Prop :=
  ∃ item, list.items[place]? = some item ∧ R item spec

theorem forall₂_at_iff {R : Value × Option Path → ComponentSpec → Prop} {list : Listing}
    {specs : List ComponentSpec} :
    List.Forall₂ (At R list) (List.range list.size) specs ↔ List.Forall₂ R list.items specs := by
  have at_iff {place : Nat} (inside : place < list.items.length) (spec : ComponentSpec) :
      At R list place spec ↔ R list.items[place] spec := by
    simp [At, List.getElem?_eq_getElem inside]
  rw [List.forall₂_iff_get, List.forall₂_iff_get]
  simp +contextual [Listing.size, at_iff]

theorem get_of_item {list : Listing} {place : Nat} (found : list.items[place]? = some item) :
    list.get place =
      Section.build (Section.joinPlace list.context (toString place)) list.table includeLimit
        item.1 item.2 := by
  unfold Listing.get
  rw [found]

theorem runOn_mapFault {ε δ α : Type} (f : ε → δ) (m : LoadOr ε α) (s : Surroundings)
    (l : Loading) :
    (LoadOr.mapFault f m).runOn s l = ((m.runOn s l).1.mapError f, (m.runOn s l).2) :=
  rfl

theorem ok_of_mapFault {ε δ α : Type} {f : ε → δ} {m : LoadOr ε α} {l l' : Loading} {a : α}
    (done : (LoadOr.mapFault f m).runOn s l = (.ok a, l')) : m.runOn s l = (.ok a, l') := by
  rw [runOn_mapFault] at done
  revert done
  rcases m.runOn s l with ⟨r, l₁⟩
  cases r with
  | ok b =>
    rintro ⟨⟩
    rfl
  | error fault => nofun

theorem item_of_get {list : Listing} {place : Nat} {l l' : Loading} {spec : ComponentSpec}
    (done : LoadOr.runOn (do ComponentSpec.ofSection (← list.get place)) s l = (.ok spec, l')) :
    ∃ item, list.items[place]? = some item := by
  unfold Listing.get at done
  cases found : list.items[place]? with
  | none =>
    rw [found] at done
    cases done
  | some item => exact ⟨item, rfl⟩

theorem readFrom_reads {knows : String → Bool} {list : Listing} {seen : List String}
    {places : List Nat} {l l' : Loading} {specs : List ComponentSpec}
    (done : (readFrom knows list seen places).runOn s l = (.ok specs, l'))
    (agrees : s.AgreesOn (l'.watch.Covers s) s') :
    (∃ trail, l' = l.after trail) ∧
      List.Forall₂ (At (Reads s' list.table) list) places specs := by
  induction places generalizing seen l specs with
  | nil =>
    cases done
    exact ⟨⟨[], rfl⟩, .nil⟩
  | cons place places ih =>
    unfold readFrom at done
    obtain ⟨spec, l₁, read, done⟩ := LoadOr.ok_of_bind done
    split at done
    · cases done
    · split at done
      · cases done
      · obtain ⟨rest, l₂, later, done⟩ := LoadOr.ok_of_bind done
        cases done
        obtain ⟨⟨back, ends⟩, others⟩ := ih later
        have read := ok_of_mapFault read
        obtain ⟨item, found⟩ := item_of_get read
        rw [get_of_item found] at read
        obtain ⟨front, begins, same⟩ := (entry_accounts list.table _ _).ok_after read
        rw [begins, ← Loading.after_append] at ends
        subst ends
        have again := same s' (agrees.mono fun p filed =>
          Loading.holds_of_filed (List.mem_append_left back filed) l) l
        exact ⟨⟨front ++ back, rfl⟩, .cons ⟨item, found, .of_run again⟩ others⟩

theorem Orderly.tail {knows : String → Bool} {seen : List String} {spec : ComponentSpec}
    {specs : List ComponentSpec} (orderly : Orderly knows seen (spec :: specs)) :
    Orderly knows (spec.name :: seen) specs := by
  obtain ⟨new, nodup⟩ := List.nodup_cons.mp orderly.nodup
  refine ⟨nodup, fun other member again => ?_, fun other member =>
    orderly.known other (List.mem_cons_of_mem _ member)⟩
  rcases List.mem_cons.mp again with same | before
  · exact new (List.mem_map.mpr ⟨other, member, same⟩)
  · exact orderly.new other (List.mem_cons_of_mem _ member) before

theorem readFrom_of_reads {knows : String → Bool} {list : Listing} {seen : List String}
    {places : List Nat} {specs : List ComponentSpec} (orderly : Orderly knows seen specs)
    (reads : List.Forall₂ (At (Reads s list.table) list) places specs) (l : Loading) :
    ∃ specs' l', (readFrom knows list seen places).runOn s l = (.ok specs', l') ∧
      List.Forall₂ ComponentSpec.Elsewhere specs specs' := by
  induction reads generalizing seen l with
  | nil => exact ⟨[], l, rfl, .nil⟩
  | @cons place spec places specs first later ih =>
    obtain ⟨item, found, reads⟩ := first
    obtain ⟨_, l₁, read, there, rfl⟩ :=
      reads (Section.joinPlace list.context (toString place)) l
    rw [← get_of_item found] at read
    obtain ⟨rest, l₂, ran, others⟩ := ih orderly.tail l₁
    have new : (seen.contains spec.name) = false := by
      simpa using orderly.new spec (by simp)
    have known : knows spec.kind = true := orderly.known spec (by simp)
    refine ⟨spec.moved there :: rest, l₂, ?_, .cons ⟨there, rfl⟩ others⟩
    unfold readFrom
    rw [LoadOr.runOn_bind, runOn_mapFault, read]
    simp only [ComponentSpec.moved, Except.mapError, new, known, Bool.not_true, Bool.false_eq_true,
      if_false]
    rw [LoadOr.runOn_bind, ran]
    rfl

theorem read_permuted {knows : String → Bool} {list again : Listing} {l l' : Loading}
    {specs : List ComponentSpec} (done : (read knows list).runOn s l = (.ok specs, l'))
    (agrees : s.AgreesOn (l'.watch.Covers s) s') (table : again.table = list.table)
    (items : again.items.Perm list.items) (later : Loading) :
    ∃ specs' l₁, (read knows again).runOn s' later = (.ok specs', l₁) ∧
      ∃ order, order.Perm specs ∧ List.Forall₂ ComponentSpec.Elsewhere order specs' := by
  have orderly := read_orderly done
  have reads := (readFrom_reads done agrees).2
  rw [forall₂_at_iff] at reads
  obtain ⟨order, reads, permuted⟩ := List.perm_comp_forall₂ items reads
  rw [← table, ← forall₂_at_iff] at reads
  have arranged : Orderly knows [] order := by
    refine ⟨?_, fun spec member => ?_, fun spec member => ?_⟩
    · exact (permuted.map _).nodup_iff.mpr orderly.nodup
    · exact orderly.new spec (permuted.subset member)
    · exact orderly.known spec (permuted.subset member)
  obtain ⟨specs', l₁, read, there⟩ := readFrom_of_reads arranged reads later
  exact ⟨specs', l₁, read, order, permuted, there⟩

end Steward.Roll
