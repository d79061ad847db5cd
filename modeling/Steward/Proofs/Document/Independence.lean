import Steward.Proofs.Document.Rearrangement
import Steward.Proofs.Loading.Agreement
import Steward.Proofs.Loading.Limits

set_option autoImplicit false

namespace Steward

open List (Forall₂)
open Entries (Twin)
open LoadOr (Agrees)

variable {s : Surroundings} {t : PropertyTable} {es fs : Entries}

namespace Merge

def mergeOrder (file : Path → Load Entries) (t : PropertyTable) (own : Own) (base : Option Path)
    (es : Entries) (o : String × Except ConfigFault (List String)) : Load Entries := do
  let raws ← liftM o.2
  raws.foldlM
    (fun es raw => do
      let included ← file (← Load.resolve t raw base)
      Load.note (adoptNotes es included)
      return adopt own es included)
    es

theorem mergeWith_eq (file : Path → Load Entries) (t : PropertyTable) (es : Entries)
    (base : Option Path) : mergeWith file t es base =
      (Include.orders es).foldlM (mergeOrder file t (Own.of (withoutIncludes es)) base)
        (withoutIncludes es) := by
  rw [Include.orders, List.foldlM_map]
  rfl

def Same (es fs : Entries) : Prop := es = fs ∧ (Value.mapping es).distinct = true

theorem mergeOrder_agrees {file : Path → Load Entries}
    (each : ∀ p, Agrees Same (file p) (file p) s) {own own' : Own} (same : own.Alike own')
    (base : Option Path) (alike : Alike es fs)
    (o : String × Except ConfigFault (List String)) :
    Agrees Alike (mergeOrder file t own base es o) (mergeOrder file t own' base fs o) s := by
  refine .after (.lift o.2) fun raws _ => .foldlM (fun es fs raw alike => ?_) alike
  refine .after (Load.resolve_leaves t raw base) fun p _ => (each p).bind ?_
  rintro included _ ⟨rfl, distinct⟩
  exact Load.notes_agree _ _ (.pure (adopt_alike alike same distinct))

theorem mergeWith_agrees {file : Path → Load Entries}
    (each : ∀ p, Agrees Same (file p) (file p) s) (base : Option Path) (alike : Alike es fs)
    (orders : Include.orders es = Include.orders fs) :
    Agrees Alike (mergeWith file t es base) (mergeWith file t fs base) s := by
  have plain := withoutIncludes_alike alike orders
  rw [mergeWith_eq, mergeWith_eq, orders]
  exact .foldlM (fun es fs o alike =>
    mergeOrder_agrees each (Own.of_alike plain) base alike o) plain

theorem documentEntries_distinct {p : Path} {v : Value} {es : Entries}
    (distinct : v.distinct = true) (found : documentEntries p v = .ok es) :
    (Value.mapping es).distinct = true := by
  cases v <;> cases found
  · rfl
  · exact distinct

theorem included_agrees (left : Nat) (p : Path) :
    Agrees Same (included t left p) (included t left p) s := by
  induction left generalizing p with
  | zero => exact .throw _
  | succ left ih =>
    unfold included
    refine .after (Load.readYaml_leaves p) fun v read => .after (.lift _) fun es found => ?_
    refine .after (Load.register_leaves p) fun _ _ => .after (Load.note_leaves _) fun _ _ => ?_
    refine .after (Load.directoryOf_leaves p) fun dir _ => ?_
    have distinct := documentEntries_distinct (Load.readText_distinct read) found
    have merged := mergeWith_agrees (t := t) (s := s) ih dir (Alike.refl distinct) rfl
    exact .of_ends (merged.ends.mono fun r trail holds es same => ⟨rfl, (holds es same).left⟩)

end Merge

theorem PropertyBlock.add_agrees (t : PropertyTable) {ps qs : Entries} (base : Option Path)
    (twins : ∀ name, Forall₂ Twin (ps.under name) (qs.under name)) :
    Agrees Eq (add t ps base) (add t qs base) s := by
  rw [add_eq_fill, add_twin t base twins]
  refine Load.notes_agree _ _ (.of_ends ?_)
  exact (fill_yields t (definitions ps) _ base).mono fun _ _ _ _ _ => rfl

namespace Section

def GatheredAlike (a b : Entries × Option Path) : Prop := Merge.Alike a.1 b.1 ∧ a.2 = b.2

theorem gather_documents_agree (context : String) (left : Nat) (base : Option Path)
    (alike : Merge.Alike es fs) (orders : Include.orders es = Include.orders fs) :
    Agrees GatheredAlike (gather context t left (.mapping es) base)
      (gather context t left (.mapping fs) base) s := by
  rw [gather_mapping, gather_mapping]
  refine (Merge.mergeWith_agrees (Merge.included_agrees left) base alike orders).bind ?_
  exact fun es fs alike => .pure ⟨alike, rfl⟩

theorem gather_null_agrees (context : String) (left : Nat) (base : Option Path) :
    Agrees GatheredAlike (gather context t left .null base)
      (gather context t left .null base) s := by
  rw [gather_null]
  exact gather_documents_agree context left base (.refl rfl) rfl

theorem gather_agrees_self (context : String) (left : Nat) (base : Option Path) {v : Value}
    (distinct : v.distinct = true) :
    Agrees GatheredAlike (gather context t left v base) (gather context t left v base) s := by
  induction left generalizing v base with
  | zero =>
    cases v with
    | null => exact gather_null_agrees context 0 base
    | mapping es => exact gather_documents_agree context 0 base (.refl distinct) rfl
    | string text => exact .after (Load.resolve_leaves t text base) fun p _ => .throw _
    | _ => exact .throw _
  | succ left ih =>
    cases v with
    | null => exact gather_null_agrees context (left + 1) base
    | mapping es => exact gather_documents_agree context (left + 1) base (.refl distinct) rfl
    | string text =>
      refine .after (Load.resolve_leaves t text base) fun p _ => ?_
      refine .after (Load.note_leaves _) fun _ _ => .after (Load.readYaml_leaves p) fun v read => ?_
      refine .after (Load.register_leaves p) fun _ _ => ?_
      exact .after (Load.directoryOf_leaves p) fun dir _ => ih dir (Load.readText_distinct read)
    | _ => exact .throw _

structure Rearranged (a b : Section) : Prop where
  context : a.context = b.context
  table : a.table = b.table
  base : a.base = b.base
  document : (Value.mapping a.document).Reordered (.mapping b.document)

theorem furnish_agrees (context : String) {a b : Entries × Option Path}
    (alike : GatheredAlike a b) :
    Agrees Rearranged (furnish context t a) (furnish context t b) s := by
  obtain ⟨es, base⟩ := a
  obtain ⟨fs, _⟩ := b
  obtain ⟨alike, rfl⟩ := alike
  have document := Value.Reordered.mapping_iff.mpr alike.shuffled
  have plain : Agrees Rearranged (pure ⟨context, t, es, base⟩ : Load Section)
      (pure ⟨context, t, fs, base⟩) s := .pure ⟨rfl, rfl, rfl, document⟩
  unfold furnish
  obtain ⟨none, none'⟩ | ⟨v, w, found, found', reordered⟩ :=
    alike.lookup_cases Merge.propertiesKey
  · simpa only [none, none'] using plain
  · simp only [found, found']
    cases reordered with
    | null => exact plain
    | mapping keys values order =>
      refine (PropertyBlock.add_agrees t base (alike.block _ _ found found').under).bind ?_
      rintro ⟨table, files⟩ _ rfl
      refine .after (Load.registerAll_leaves files s) fun _ _ => ?_
      exact .pure ⟨rfl, rfl, rfl, document⟩
    | _ => exact .throw _

end Section

/-- No two includes of a document have one text, and no two properties: only tagged keys could. -/
structure Entries.Clear (es : Entries) : Prop where
  includes : (es.stringKeys.filter Include.isKey).Nodup
  properties : ∀ ps : Entries, es.lookup Merge.propertiesKey = some (.mapping ps) →
    ps.stringKeys.Nodup

theorem Entries.lookup_distinct (distinct : (Value.mapping es).distinct = true) {key : String}
    {v : Value} (found : es.lookup key = some v) : v.distinct = true :=
  (((Value.distinct_mapping es).mp distinct).2 _ ((lookup_eq_some_iff distinct).mp found)).2

theorem PropertyBlock.Alike.of_nodup {ps qs : Entries} (rearranged : ps.Rearranged qs)
    (once : ps.stringKeys.Nodup) : Alike ps qs :=
  ⟨rearranged, fun name => rearranged.shuffled.under (List.nodup_iff_count.mp once name)⟩

namespace Entries.Rearranged

theorem alike (rearranged : es.Rearranged fs) (clear : es.Clear) : Merge.Alike es fs := by
  refine ⟨rearranged, fun ps qs found found' => ?_⟩
  obtain ⟨none, -⟩ | ⟨v, w, there, there', reordered⟩ := rearranged.lookup_cases Merge.propertiesKey
  · rw [none] at found
    cases found
  · rw [found] at there
    rw [found'] at there'
    cases there
    cases there'
    exact .of_nodup ⟨Value.Reordered.mapping_iff.mp reordered,
      lookup_distinct rearranged.left found, lookup_distinct rearranged.right found'⟩
      (clear.properties ps found)

theorem orders (rearranged : es.Rearranged fs) (clear : es.Clear) :
    Include.orders es = Include.orders fs := by
  refine Include.orders_twin fun name key => rearranged.shuffled.under ?_
  have once := List.nodup_iff_count.mp clear.includes name
  rwa [List.count_filter key] at once

end Entries.Rearranged

theorem Section.build_agrees (context : String) (left : Nat) (base : Option Path) {v w : Value}
    (reordered : v.Reordered w) (distinct : v.distinct = true) (distinct' : w.distinct = true)
    (clear : ∀ es : Entries, v = .mapping es → es.Clear) :
    Agrees Rearranged (build context t left v base) (build context t left w base) s := by
  have gathered : Agrees GatheredAlike (gather context t left v base)
      (gather context t left w base) s := by
    cases reordered with
    | null => exact gather_agrees_self context left base rfl
    | string text => exact gather_agrees_self context left base rfl
    | @mapping es _ fs keys values order =>
      have rearranged : es.Rearranged fs :=
        ⟨⟨_, Entries.forall₂_twin_iff.mpr ⟨keys, values⟩, order⟩, distinct, distinct'⟩
      have clear := clear es rfl
      exact gather_documents_agree context left base (rearranged.alike clear)
        (rearranged.orders clear)
    | _ => cases left <;> exact .throw _
  rw [build_eq, build_eq]
  exact gathered.bind fun a b alike => furnish_agrees context alike

theorem Load.independent_of_order (s : Surroundings) (t : PropertyTable) (base : Option Path)
    (l : Loading) :
    (∀ context left (v w : Value), v.Reordered w → v.distinct = true → w.distinct = true →
      (∀ es : Entries, v = .mapping es → es.Clear) →
      let made := (Section.build context t left v base).runOn s l
      let made' := (Section.build context t left w base).runOn s l
      LoadOr.Comes Section.Rearranged made.1 made'.1 ∧ made.2.watch = made'.2.watch) ∧
    (∀ ps qs : Entries, (Value.mapping ps).Reordered (.mapping qs) →
      (Value.mapping ps).distinct = true → (Value.mapping qs).distinct = true →
      ps.stringKeys.Nodup →
      let added := (PropertyBlock.add t ps base).runOn s l
      let added' := (PropertyBlock.add t qs base).runOn s l
      added.1 = added'.1 ∧ added.2.watch = added'.2.watch) := by
  refine ⟨fun context left v w reordered distinct distinct' clear => ?_,
    fun ps qs reordered distinct distinct' once => ?_⟩
  · exact (Section.build_agrees context left base reordered distinct distinct' clear).run l
  · have blocks := PropertyBlock.Alike.of_nodup
      ⟨Value.Reordered.mapping_iff.mp reordered, distinct, distinct'⟩ once
    obtain ⟨comes, watches⟩ := (PropertyBlock.add_agrees (s := s) t base blocks.under).run l
    exact ⟨comes.eq, watches⟩

def orderedFiles : List (String × String) :=
  [("/etc/a.yaml", "v: 1\nproperties:\n  host: other\n"), ("/etc/b.yaml", "v: 2\n"),
    ("/etc/p.yaml", "port: 8080\n")]

def orderedBlock : Entries :=
  [(.string "host", .string "db"), (.string "include_", .string "p.yaml"),
    (.string "address", .string "\x7b\x7b.host\x7d\x7d:\x7b\x7b.port\x7d\x7d")]

def orderedDocument (block : Entries) : Entries :=
  [(.string "include_", .string "a.yaml"), (.string "properties", .mapping block),
    (.string "include_10", .string "b.yaml"), (.string "w", .null)]

theorem Load.sample_independent_of_order :
    let s := Surroundings.ofFiles orderedFiles
    let base := some ⟨"/etc"⟩
    let made (es : Entries) :=
      (Section.build "" .empty includeLimit (.mapping es) base).runOn s {}
    let added (block : Entries) := (PropertyBlock.add .empty block base).runOn s {}
    let es := orderedDocument orderedBlock
    let fs := (orderedDocument orderedBlock.reverse).reverse
    es.Clear ∧ es.Shuffled fs ∧ LoadOr.Comes Section.Rearranged (made es).1 (made fs).1 ∧
      (made es).2.watch = (made fs).2.watch ∧
      (added orderedBlock).1 = (added orderedBlock.reverse).1 ∧
      (added orderedBlock.reverse).1.map (·.1.get? "address") = .ok (some "db:8080") := by
  intro s base made added es fs
  have block : (Value.mapping orderedBlock).Reordered (.mapping orderedBlock.reverse) :=
    Value.Reordered.mapping_iff.mpr (.of_perm (List.reverse_perm _).symm)
  have shuffled : es.Shuffled fs :=
    ⟨orderedDocument orderedBlock.reverse, .cons (.refl _) (.cons ⟨.refl _, block⟩
      (.cons (.refl _) (.cons (.refl _) .nil))), (List.reverse_perm _).symm⟩
  have clear : es.Clear := by
    refine ⟨by decide +kernel, fun ps found => ?_⟩
    have there : es.lookup Merge.propertiesKey = some (.mapping orderedBlock) := rfl
    cases there.symm.trans found
    decide +kernel
  obtain ⟨sections, blocks⟩ := Load.independent_of_order s .empty base {}
  obtain ⟨comes, watches⟩ := sections "" includeLimit (.mapping es) (.mapping fs)
    (Value.Reordered.mapping_iff.mpr shuffled) (by decide +kernel) (by decide +kernel)
    (by rintro _ ⟨⟩; exact clear)
  obtain ⟨equal, -⟩ := blocks orderedBlock orderedBlock.reverse block (by decide +kernel)
    (by decide +kernel) (by decide +kernel)
  exact ⟨clear, shuffled, comes, watches, equal, by decide +kernel⟩

def taggedIncludes : Entries :=
  [(.string "include_", .string "a.yaml"),
    (.tagged "!t" (.string "include_"), .string "b.yaml")]

-- Keys of one text: the one that comes later in the document is taken later.
theorem Section.tagged_includes_change_places :
    let s := Surroundings.ofFiles orderedFiles
    let made (es : Entries) :=
      (build "" .empty includeLimit (.mapping es) (some ⟨"/etc"⟩)).runOn s {}
    let es := taggedIncludes
    let fs := taggedIncludes.reverse
    (Value.mapping es).Reordered (.mapping fs) ∧ (Value.mapping es).distinct = true ∧
      (Value.mapping fs).distinct = true ∧ ∃ a b, (made es).1 = .ok a ∧ (made fs).1 = .ok b ∧
        ¬ (Value.mapping a.document).Reordered (.mapping b.document) := by
  intro s made es fs
  refine ⟨Value.Reordered.mapping_iff.mpr (.of_perm (List.reverse_perm _).symm),
    by decide +kernel, by decide +kernel, ?_⟩
  have shown : ((made es).1.bind fun a => (made fs).1.map fun b =>
      (Value.mapping a.document).same (.mapping b.document)) = .ok false := by
    have first : Include.ofEntries taggedIncludes =
        [("include_", .string "a.yaml"), ("include_", .string "b.yaml")] :=
      Include.ofEntries_of_inOrder (by decide +kernel)
    have second : Include.ofEntries taggedIncludes.reverse =
        [("include_", .string "b.yaml"), ("include_", .string "a.yaml")] :=
      Include.ofEntries_of_inOrder (by decide +kernel)
    simp only [made, es, fs, build_eq, gather_mapping, Merge.mergeIncludes, Merge.mergeWith,
      Merge.withoutIncludes, first, second]
    decide +kernel
  generalize (made es).1 = left at shown ⊢
  generalize (made fs).1 = right at shown ⊢
  cases left with
  | error fault => cases shown
  | ok a =>
    cases right with
    | error fault => cases shown
    | ok b =>
      refine ⟨a, b, rfl, rfl, fun reordered => ?_⟩
      simp [Except.bind, Except.map, reordered.same] at shown

end Steward
