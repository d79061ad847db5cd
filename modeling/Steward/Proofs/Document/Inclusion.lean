import Steward.Proofs.Document.Independence
import Steward.Proofs.Loading.Takings
import Steward.Proofs.Property.Inheritance

set_option autoImplicit false

namespace Steward.Merge

open List (Forall₂)

variable {α : Type} {s : Surroundings} {t : PropertyTable} {left : Nat} {es fs : Entries}
  {base dir : Option Path} {answer : Entries → Option (Option α)}

def documentAt (s : Surroundings) (p : Path) : Except ConfigFault Entries := do
  documentEntries p (← Load.readText p (s.stored p))

def inclusion? (s : Surroundings) (t : PropertyTable) (base : Option Path) (raw : String) :
    Option (Entries × Option Path) :=
  match documentAt s (s.resolve (t.expand s.env raw) base) with
  | .ok fs => some (fs, s.directoryOf (s.resolve (t.expand s.env raw) base))
  | .error _ => none

def inclusions (s : Surroundings) (t : PropertyTable) (es : Entries) (base : Option Path) :
    List (Entries × Option Path) :=
  (Include.texts (Include.ofEntries es)).filterMap (inclusion? s t base)

/-- What a document says to a question, if it can go through `left` more includes: its own answer,
or if it has none, the answer of the last include that has one. -/
def said (s : Surroundings) (t : PropertyTable) (answer : Entries → Option (Option α)) :
    Nat → Entries → Option Path → Option α
  | 0, es, _ => (answer es).getD none
  | left + 1, es, base =>
    (answer es).getD
      (latest (fun d => said s t answer left d.1 d.2) (inclusions s t es base))

/-- The document, or one that it includes, directly or through others. -/
inductive Involves (s : Surroundings) (t : PropertyTable) :
    Nat → Entries → Option Path → Entries → Prop
  | here {left : Nat} {es : Entries} {base : Option Path} : Involves s t left es base es
  | there {left : Nat} {es fs gs : Entries} {base dir : Option Path}
      (included : (fs, dir) ∈ inclusions s t es base) (inside : Involves s t left fs dir gs) :
      Involves s t (left + 1) es base gs

def merged (es : Entries) (ds : List Entries) : Entries :=
  ds.foldl (adopt (Own.of (withoutIncludes es))) (withoutIncludes es)

theorem mergeWith_yields {file : Path → Load Entries} {R : String → Entries → Prop}
    {front : List Mark}
    (each : ∀ raw ∈ Include.texts (Include.ofEntries es), ∀ trail,
      (file (s.resolve (t.expand s.env raw) base)).Yields s trail fun d _ => R raw d) :
    (mergeWith file t es base).Yields s front fun m _ =>
      ∃ ds, Forall₂ R (Include.texts (Include.ofEntries es)) ds ∧ m = merged es ds := by
  refine Include.through_yields (f := fun fs raw => do
    let included ← file (← Load.resolve t raw base)
    Load.note (adoptNotes fs included)
    return adopt (Own.of (withoutIncludes es)) fs included) (fun raw member fs trail => ?_) _ _
  refine .behind (Load.resolve_leaves t raw base) ((each raw member _).bind fun d trail given => ?_)
  exact .after (Load.note_leaves _) fun _ => .pure ⟨d, given, rfl⟩

section Asking

variable {read : Entries → Option α} {Good Fine : Entries → Prop}

theorem inclusion?_of_found {raw : String}
    (found : documentAt s (s.resolve (t.expand s.env raw) base) = .ok fs) :
    inclusion? s t base raw =
      some (fs, s.directoryOf (s.resolve (t.expand s.env raw) base)) := by
  rw [inclusion?, found]

theorem latest_inclusions {raws : List String} {ds : List Entries}
    {tell : Entries → Option Path → Option α}
    (given : Forall₂ (fun raw d => ∃ fs dir,
      inclusion? s t base raw = some (fs, dir) ∧ read d = tell fs dir) raws ds) :
    latest read ds =
      latest (fun d => tell d.1 d.2) (raws.filterMap (inclusion? s t base)) := by
  induction given with
  | nil => rfl
  | cons first _ ih =>
    obtain ⟨fs, dir, found, same⟩ := first
    rw [List.filterMap_cons_some found, latest_cons, latest_cons, ih, same]

structure Answered (answer : Entries → Option (Option α)) (read : Entries → Option α)
    (Good Fine : Entries → Prop) : Prop where
  fine : ∀ es ds, Good es → (∀ d ∈ ds, Fine d) → Fine (merged es ds)
  reads : ∀ es ds, Good es → (∀ d ∈ ds, Fine d) →
    read (merged es ds) = (answer es).getD (latest read ds)

theorem mergeIncludes_yields (answered : Answered answer read Good Fine)
    (good : ∀ fs, Involves s t left es base fs → Good fs) (front : List Mark) :
    (mergeIncludes t left es base).Yields s front fun m _ =>
      Fine m ∧ read m = said s t answer left es base := by
  induction left generalizing es base front with
  | zero =>
    have stops (p : Path) : included t 0 p = throw (.tooDeep p.text) := rfl
    have taken : (mergeIncludes t 0 es base).Yields s front fun m _ =>
        ∃ ds, Forall₂ (fun _ _ => False) (Include.texts (Include.ofEntries es)) ds ∧
          m = merged es ds := by
      refine mergeWith_yields fun raw _ trail => ?_
      rw [stops]
      exact .throw
    refine taken.imp fun m found => ?_
    obtain ⟨ds, given, rfl⟩ := found
    cases ds with
    | nil => exact ⟨answered.fine es [] (good es .here) nofun,
        answered.reads es [] (good es .here) nofun⟩
    | cons d ds => exact (matched_of_mem given.flip (List.mem_cons_self (a := d))).elim nofun
  | succ left ih =>
    have taken : (mergeIncludes t (left + 1) es base).Yields s front fun m _ =>
        ∃ ds, Forall₂ (fun raw d => Fine d ∧ ∃ fs dir,
          inclusion? s t base raw = some (fs, dir) ∧ read d = said s t answer left fs dir)
          (Include.texts (Include.ofEntries es)) ds ∧ m = merged es ds := by
      refine mergeWith_yields fun raw member trail => ?_
      unfold included
      refine .after_ok (Load.readYaml_leaves _) fun v text => ?_
      refine .after_ok (.lift _) fun fs taken => .after (Load.register_leaves _) fun _ => ?_
      refine .after (Load.note_leaves _) fun _ => .behind (Load.directoryOf_leaves _) ?_
      have found : documentAt s (s.resolve (t.expand s.env raw) base) = .ok fs := by
        rw [documentAt, text]
        exact taken
      have found := inclusion?_of_found found
      have inside := ih (fun gs inside =>
        good gs (.there (List.mem_filterMap.mpr ⟨raw, member, found⟩) inside)) []
      exact inside.imp fun d given => ⟨given.1, _, _, found, given.2⟩
    refine taken.imp fun m found => ?_
    obtain ⟨ds, given, rfl⟩ := found
    have each : ∀ d ∈ ds, Fine d := fun d member => by
      obtain ⟨raw, -, fine, -⟩ := matched_of_mem given.flip member
      exact fine
    refine ⟨answered.fine es ds (good es .here) each,
      (answered.reads es ds (good es .here) each).trans ?_⟩
    rw [latest_inclusions (given.imp fun raw d holds => holds.2)]
    rfl

theorem mergeIncludes_reads (answered : Answered answer read Good Fine)
    (good : ∀ fs, Involves s t left es base fs → Good fs) {l l' : Loading} {m : Entries}
    (done : (mergeIncludes t left es base).runOn s l = (.ok m, l')) :
    Fine m ∧ read m = said s t answer left es base :=
  LoadOr.Yields.of_run (mergeIncludes_yields answered good []) done

end Asking

theorem documentAt_distinct {p : Path} (found : documentAt s p = .ok fs) :
    (Value.mapping fs).distinct = true := by
  obtain ⟨v, read, taken⟩ := ok_of_bind found
  exact documentEntries_distinct (Load.readText_distinct read) taken

theorem Involves.distinct (involved : Involves s t left es base fs)
    (distinct : (Value.mapping es).distinct = true) : (Value.mapping fs).distinct = true := by
  induction involved with
  | here => exact distinct
  | there included _ ih =>
    refine ih ?_
    obtain ⟨raw, -, found⟩ := List.mem_filterMap.mp included
    unfold inclusion? at found
    split at found
    · next found' =>
      cases found
      exact documentAt_distinct found'
    · cases found

theorem said_isSome_iff (asks : ∀ fs, answer fs ≠ some none) :
    (said s t answer left es base).isSome ↔
      ∃ fs, Involves s t left es base fs ∧ (answer fs).isSome := by
  induction left generalizing es base with
  | zero =>
    constructor
    · intro some
      refine ⟨es, .here, ?_⟩
      cases found : answer es with
      | none => simp [said, found] at some
      | some a => rfl
    · rintro ⟨fs, involved, some⟩
      cases involved
      obtain ⟨a, found⟩ := Option.isSome_iff_exists.mp some
      cases a with
      | none => exact (asks es found).elim
      | some a => simp [said, found]
  | succ left ih =>
    cases found : answer es with
    | none =>
      simp only [said, found, Option.getD_none, latest_isSome_iff, ih]
      constructor
      · rintro ⟨⟨fs, dir⟩, included, gs, inside, some⟩
        exact ⟨gs, .there included inside, some⟩
      · rintro ⟨gs, involved, some⟩
        cases involved with
        | here => simp [found] at some
        | there included inside => exact ⟨_, included, gs, inside, some⟩
    | some a =>
      cases a with
      | none => exact (asks es found).elim
      | some a => simpa [said, found] using ⟨es, .here, by simp [found]⟩

theorem forall_involves_succ {P : Entries → Prop} :
    (∀ fs, Involves s t (left + 1) es base fs → P fs) ↔
      P es ∧ ∀ d ∈ inclusions s t es base, ∀ fs, Involves s t left d.1 d.2 fs → P fs := by
  constructor
  · exact fun all => ⟨all es .here, fun d included fs inside => all fs (.there included inside)⟩
  · rintro ⟨here, there⟩ fs involved
    cases involved with
    | here => exact here
    | there included inside => exact there _ included fs inside

instance Involves.decidableForall (s : Surroundings) (t : PropertyTable) (P : Entries → Prop)
    [DecidablePred P] : ∀ (left : Nat) (es : Entries) (base : Option Path),
      Decidable (∀ fs, Involves s t left es base fs → P fs)
  | 0, es, base => decidable_of_iff (P es) ⟨fun here _ involved => by cases involved; exact here,
      fun all => all es .here⟩
  | left + 1, es, base =>
    have := fun d : Entries × Option Path => decidableForall s t P left d.1 d.2
    decidable_of_iff _ forall_involves_succ.symm

end Steward.Merge
