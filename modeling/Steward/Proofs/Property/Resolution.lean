import Mathlib.Data.List.Chain
import Mathlib.Data.Nat.Find
import Steward.Proofs.Property.Growth
import Steward.Proofs.Property.Parts

set_option autoImplicit false

namespace Steward

namespace Table

variable {α β : Type}

theorem map_insertRow (f : α → β) (name : String) (a : α) (rows : List (String × α)) :
    (insertRow name a rows).map (fun row => (row.1, f row.2)) =
      insertRow name (f a) (rows.map fun row => (row.1, f row.2)) := by
  induction rows with
  | nil => rfl
  | cons row rows ih =>
    simp only [insertRow, List.map_cons]
    split
    · rfl
    · rfl
    · rw [List.map_cons, ih]

theorem mapNamed_insert (t : Table α) (f : α → β) (name : String) (a : α) :
    (t.insert name a).mapNamed (fun _ => f) = (t.mapNamed fun _ => f).insert name (f a) := by
  simp only [insert, mapNamed, map_insertRow]

end Table

abbrev PartTable := Table (List Part)

namespace PartTable

variable {P Q : PartTable} {name other : String} {parts : List Part} {cs : List Char}

def value (Q : PartTable) (name : String) : List Part := (Q.get? name).getD []

def spelled (Q : PartTable) : PropertyTable := Q.mapNamed fun _ => Part.spelled

def Refers (Q : PartTable) (name other : String) : Prop :=
  ∃ parts, Q.get? name = some parts ∧ .reference other ∈ parts

/-- The parts fit together, and every reference is to an entry. -/
structure Sound (Q : PartTable) : Prop where
  fit : ∀ name parts, Q.get? name = some parts → ∀ part ∈ parts, part.fits = true
  known : ∀ name other, Q.Refers name other → Q.has other = true

inductive Resolves (Q : PartTable) : List Part → List Char → Prop
  | nil : Resolves Q [] []
  | text {ds cs : List Char} {parts : List Part} (rest : Resolves Q parts cs) :
      Resolves Q (.text ds :: parts) (ds ++ cs)
  | reference {name : String} {own parts : List Part} {ds cs : List Char}
      (found : Q.get? name = some own) (value : Resolves Q own ds) (rest : Resolves Q parts cs) :
      Resolves Q (.reference name :: parts) (ds ++ cs)

def inlineEntry (Q : PartTable) (name : String) : PartTable :=
  Q.update name (Part.inlined Q.value)

theorem get?_spelled (Q : PartTable) (name : String) :
    Q.spelled.get? name = (Q.get? name).map Part.spelled :=
  Table.get?_mapNamed Q (fun _ => Part.spelled) name

theorem names_spelled (Q : PartTable) : Q.spelled.names = Q.names := by
  simp [spelled, Table.names, Table.mapNamed, List.map_map, Function.comp_def]

theorem get?_inlineEntry (Q : PartTable) (name other : String) :
    (Q.inlineEntry name).get? other =
      if other = name then (Q.get? name).map (Part.inlined Q.value) else Q.get? other :=
  Table.get?_update Q name other (Part.inlined Q.value)

theorem has_inlineEntry (Q : PartTable) (name other : String) :
    (Q.inlineEntry name).has other = Q.has other := by
  unfold Table.has
  rw [get?_inlineEntry]
  split
  · next same => rw [same, Option.isSome_map]
  · rfl

theorem mem_inlined {values : String → List Part} {part : Part} :
    part ∈ Part.inlined values parts ↔
      (part ∈ parts ∧ ∃ cs, part = .text cs) ∨
        ∃ name, .reference name ∈ parts ∧ part ∈ values name := by
  unfold Part.inlined
  rw [List.mem_flatMap]
  constructor
  · rintro ⟨source, inside, member⟩
    cases source with
    | text cs =>
      cases List.mem_singleton.mp member
      exact .inl ⟨inside, cs, rfl⟩
    | reference name => exact .inr ⟨name, inside, member⟩
  · rintro (⟨inside, cs, rfl⟩ | ⟨name, inside, member⟩)
    · exact ⟨.text cs, inside, List.mem_singleton_self _⟩
    · exact ⟨.reference name, inside, member⟩

theorem refers_iff_mem_value : Q.Refers name other ↔ .reference other ∈ Q.value name := by
  unfold Refers value
  cases Q.get? name with
  | none => simp
  | some parts => simp

theorem value_inlineEntry (Q : PartTable) (name other : String) :
    (Q.inlineEntry name).value other =
      if other = name then Part.inlined Q.value (Q.value name) else Q.value other := by
  unfold value
  rw [get?_inlineEntry]
  split
  · cases Q.get? name <;> rfl
  · rfl

theorem refers_inlineEntry {far : String} (refers : (Q.inlineEntry name).Refers other far) :
    (other ≠ name ∧ Q.Refers other far) ∨
      (other = name ∧ ∃ near, Q.Refers name near ∧ Q.Refers near far) := by
  rw [refers_iff_mem_value, value_inlineEntry] at refers
  by_cases here : other = name
  · rw [if_pos here, mem_inlined] at refers
    obtain ⟨-, cs, text⟩ | ⟨near, first, second⟩ := refers
    · cases text
    · exact .inr ⟨here, near, refers_iff_mem_value.mpr first, refers_iff_mem_value.mpr second⟩
  · rw [if_neg here] at refers
    exact .inl ⟨here, refers_iff_mem_value.mpr refers⟩

namespace Sound

theorem fits (sound : Q.Sound) (name : String) : ∀ part ∈ Q.value name, part.fits = true := by
  unfold value
  cases found : Q.get? name with
  | none => exact nofun
  | some parts => exact sound.fit name parts found

theorem fits_inlined (sound : Q.Sound) (name : String) :
    ∀ part ∈ Part.inlined Q.value (Q.value name), part.fits = true := by
  intro part member
  obtain ⟨inside, -⟩ | ⟨near, -, member⟩ := mem_inlined.mp member
  · exact sound.fits name part inside
  · exact sound.fits near part member

theorem inlineEntry (sound : Q.Sound) (name : String) : (Q.inlineEntry name).Sound where
  fit other parts found := by
    have value : (Q.inlineEntry name).value other = parts := by simp [value, found]
    rw [value_inlineEntry] at value
    subst value
    split
    · exact sound.fits_inlined name
    · exact sound.fits other
  known other far refers := by
    rw [has_inlineEntry]
    obtain ⟨-, refers⟩ | ⟨-, near, -, refers⟩ := refers_inlineEntry refers
    · exact sound.known other far refers
    · exact sound.known near far refers

theorem expandEntry (sound : Q.Sound) (env : String → Option String) (name : String) :
    PropertyTable.expandEntry env Q.spelled name = (Q.inlineEntry name).spelled := by
  unfold PropertyTable.expandEntry PartTable.inlineEntry Table.update
  rw [get?_spelled]
  cases found : Q.get? name with
  | none => rfl
  | some parts =>
    have own : Q.value name = parts := by simp [value, found]
    have known : ∀ other, .reference other ∈ parts →
        Q.spelled.get? other = some (Part.spelled (Q.value other)) := by
      intro other member
      have there := sound.known name other ⟨parts, found, member⟩
      obtain ⟨others, there⟩ := (Q.has_iff other).mp there
      simp [get?_spelled, value, there]
    have expanded := Part.expand_spelled env (sound.fit name parts found)
      (own ▸ sound.fits_inlined name) known
    simp only [Option.map_some, expanded]
    exact (Table.mapNamed_insert Q Part.spelled name (Part.inlined Q.value parts)).symm

end Sound

def pass (Q : PartTable) : PartTable := Q.names.foldl inlineEntry Q

theorem foldl_expandEntry (sound : Q.Sound) (env : String → Option String) (names : List String) :
    names.foldl (PropertyTable.expandEntry env) Q.spelled = (names.foldl inlineEntry Q).spelled ∧
      (names.foldl inlineEntry Q).Sound := by
  induction names generalizing Q with
  | nil => exact ⟨rfl, sound⟩
  | cons name names ih =>
    rw [List.foldl_cons, List.foldl_cons, sound.expandEntry]
    exact ih (sound.inlineEntry name)

theorem pass_spelled (sound : Q.Sound) (env : String → Option String) :
    PropertyTable.pass env Q.spelled = Q.pass.spelled ∧ Q.pass.Sound := by
  unfold PropertyTable.pass pass
  rw [names_spelled]
  exact foldl_expandEntry sound env Q.names

section Ranks

variable {rank : String → Nat} {gap : Nat}

/-- All that the entry refers to lies lower than it, by the gap at least. -/
def Drops (Q : PartTable) (rank : String → Nat) (gap : Nat) (name : String) : Prop :=
  ∀ other, Q.Refers name other → rank other + gap ≤ rank name

theorem Drops.inlineEntry (drops : ∀ other, Q.Drops rank gap other) (name : String) :
    (Q.inlineEntry name).Drops rank (2 * gap) name := by
  intro far refers
  obtain ⟨away, -⟩ | ⟨-, near, first, second⟩ := refers_inlineEntry refers
  · exact absurd rfl away
  · have := drops name near first
    have := drops near far second
    omega

theorem Drops.inlineEntry_of_drops {wide : Nat} (drops : ∀ other, Q.Drops rank gap other)
    (own : Q.Drops rank wide other) (within : wide ≤ 2 * gap) (name : String) :
    (Q.inlineEntry name).Drops rank wide other := by
  by_cases here : other = name
  · subst here
    intro far refers
    have := Drops.inlineEntry drops other far refers
    omega
  · intro far refers
    obtain ⟨-, refers⟩ | ⟨same, -⟩ := refers_inlineEntry refers
    · exact own far refers
    · exact absurd same here

-- The entries in `names` are still to be visited; those that have been drop twice as far.
theorem drops_foldl (drops : ∀ other, Q.Drops rank gap other) (names : List String)
    (visited : ∀ other, other ∉ names → Q.Drops rank (2 * gap) other) :
    ∀ other, (names.foldl inlineEntry Q).Drops rank (2 * gap) other := by
  induction names generalizing Q with
  | nil => exact fun other => visited other nofun
  | cons name names ih =>
    rw [List.foldl_cons]
    refine ih (fun other => Drops.inlineEntry_of_drops drops (drops other) (by omega) name) ?_
    intro other ahead
    by_cases here : other = name
    · rw [here]
      exact Drops.inlineEntry drops name
    · have behind : other ∉ name :: names := by simp [here, ahead]
      exact Drops.inlineEntry_of_drops drops (visited other behind) (Nat.le_refl _) name

theorem drops_pass (drops : ∀ other, Q.Drops rank gap other) :
    ∀ other, Q.pass.Drops rank (2 * gap) other := by
  refine drops_foldl drops Q.names fun other absent far refers => ?_
  obtain ⟨parts, found, -⟩ := refers
  exact absurd ((Q.mem_names_iff other).mpr ⟨parts, found⟩) absent

end Ranks

def Upholds (Q P : PartTable) : Prop :=
  ∀ name cs, P.Resolves (P.value name) cs → P.Resolves (Q.value name) cs

theorem Resolves.append {front back : List Part} {cs ds : List Char} (first : P.Resolves front cs)
    (second : P.Resolves back ds) : P.Resolves (front ++ back) (cs ++ ds) := by
  induction first with
  | nil => exact second
  | text _ ih =>
    rw [List.append_assoc]
    exact .text ih
  | reference found value _ _ ih =>
    rw [List.append_assoc]
    exact .reference found value ih

theorem Resolves.inlined (upholds : Q.Upholds P) (resolves : P.Resolves parts cs) :
    P.Resolves (Part.inlined Q.value parts) cs := by
  induction resolves with
  | nil => exact .nil
  | text _ ih => exact .text ih
  | @reference name own parts ds cs found value _ _ ih =>
    have there : P.Resolves (Q.value name) ds :=
      upholds name ds (by simpa [PartTable.value, found] using value)
    exact there.append ih

theorem Upholds.inlineEntry (upholds : Q.Upholds P) (name : String) :
    (Q.inlineEntry name).Upholds P := by
  intro other cs resolves
  rw [value_inlineEntry]
  split
  · next here => exact (upholds name cs (here ▸ resolves)).inlined upholds
  · exact upholds other cs resolves

theorem Upholds.pass (upholds : Q.Upholds P) : Q.pass.Upholds P := by
  unfold PartTable.pass
  generalize Q.names = names
  induction names generalizing Q with
  | nil => exact upholds
  | cons name names ih =>
    rw [List.foldl_cons]
    exact ih (upholds.inlineEntry name)

theorem Resolves.eq_of_closed (closed : ∀ name, .reference name ∉ parts)
    (resolves : P.Resolves parts cs) : parts.flatMap Part.spell = cs := by
  induction resolves with
  | nil => rfl
  | text _ ih =>
    rw [List.flatMap_cons, ih fun name member => closed name (.tail _ member)]
    rfl
  | reference => exact absurd (.head _) (closed _)

theorem exists_resolves_parts
    (each : ∀ name, .reference name ∈ parts →
      ∃ own ds, P.get? name = some own ∧ P.Resolves own ds) :
    ∃ cs, P.Resolves parts cs := by
  induction parts with
  | nil => exact ⟨[], .nil⟩
  | cons part parts ih =>
    obtain ⟨cs, rest⟩ := ih fun name member => each name (.tail _ member)
    cases part with
    | text ds => exact ⟨ds ++ cs, .text rest⟩
    | reference name =>
      obtain ⟨own, ds, found, value⟩ := each name (.head _)
      exact ⟨ds ++ cs, .reference found value rest⟩

-- The induction is on a bound of the rank, which every reference lowers.
theorem Sound.exists_resolves {rank : String → Nat} (sound : P.Sound)
    (drops : ∀ name, P.Drops rank 1 name) {name : String} {parts : List Part}
    (found : P.get? name = some parts) : ∃ cs, P.Resolves parts cs := by
  suffices bounded : ∀ bound name parts, P.get? name = some parts → rank name < bound →
      ∃ cs, P.Resolves parts cs from bounded (rank name + 1) name parts found (Nat.lt_succ_self _)
  intro bound
  induction bound with
  | zero => exact fun _ _ _ below => absurd below (Nat.not_lt_zero _)
  | succ bound ih =>
    intro name parts found below
    refine exists_resolves_parts fun other member => ?_
    have refers : P.Refers name other := ⟨parts, found, member⟩
    have lower := drops name other refers
    obtain ⟨own, there⟩ := (P.has_iff other).mp (sound.known name other refers)
    obtain ⟨ds, value⟩ := ih other own there (by omega)
    exact ⟨own, ds, there, value⟩

section Chains

variable {limit : Nat}

def ChainsWithin (Q : PartTable) (limit : Nat) : Prop :=
  ∀ name names, List.IsChain Q.Refers (name :: names) → names.length ≤ limit

theorem length_le_of_drops {rank : String → Nat} (drops : ∀ name, Q.Drops rank 1 name)
    {names : List String} (chain : List.IsChain Q.Refers (name :: names)) :
    names.length ≤ rank name := by
  induction names generalizing name with
  | nil => exact Nat.zero_le _
  | cons next names ih =>
    obtain ⟨refers, rest⟩ := List.isChain_cons_cons.mp chain
    have := drops name next refers
    have := ih rest
    rw [List.length_cons]
    omega

theorem ChainsWithin.exists_rank (within : Q.ChainsWithin limit) :
    ∃ rank : String → Nat, (∀ name, rank name ≤ limit) ∧ ∀ name, Q.Drops rank 1 name := by
  classical
  let long (name : String) (n : Nat) : Prop :=
    ∃ names, names.length = n ∧ List.IsChain Q.Refers (name :: names)
  refine ⟨fun name => Nat.findGreatest (long name) limit,
    fun name => Nat.findGreatest_le limit, fun name other refers => ?_⟩
  have start : long other 0 := ⟨[], rfl, .singleton other⟩
  obtain ⟨names, length, chain⟩ := Nat.findGreatest_spec (Nat.zero_le limit) start
  have longer := List.isChain_cons_cons.mpr ⟨refers, chain⟩
  have bound := within name (other :: names) longer
  rw [List.length_cons, length] at bound
  exact Nat.le_findGreatest bound ⟨other :: names, by rw [List.length_cons, length], longer⟩

end Chains

theorem has_pass (Q : PartTable) (name : String) : Q.pass.has name = Q.has name := by
  unfold pass
  generalize Q.names = names
  induction names generalizing Q with
  | nil => rfl
  | cons other names ih => rw [List.foldl_cons, ih, has_inlineEntry]

theorem settle_spelled (sound : P.Sound) (within : P.ChainsWithin 3)
    (env : String → Option String) {name : String} {parts : List Part}
    (found : P.get? name = some parts) :
    ∃ cs, (∀ ds, P.Resolves parts ds ↔ ds = cs) ∧
      (P.spelled.settle env).get? name = some (String.ofList cs) ∧
      Template.occursIn (String.ofList cs) = false := by
  obtain ⟨rank, low, drops⟩ := within.exists_rank
  obtain ⟨first, sound₁⟩ := pass_spelled sound env
  obtain ⟨second, sound₂⟩ := pass_spelled sound₁ env
  have far := drops_pass (drops_pass drops)
  have closed : ∀ other, .reference other ∉ P.pass.pass.value name := by
    intro other member
    have := far name other (refers_iff_mem_value.mpr member)
    have := low name
    omega
  have start : P.Upholds P := fun _ _ resolves => resolves
  have own : P.value name = parts := by simp [value, found]
  have comes (ds : List Char) (resolves : P.Resolves parts ds) :
      (P.pass.pass.value name).flatMap Part.spell = ds :=
    (start.pass.pass name ds (own ▸ resolves)).eq_of_closed closed
  obtain ⟨cs, resolves⟩ := sound.exists_resolves drops found
  have there : P.pass.pass.has name = true := by
    rw [has_pass, has_pass]
    exact (P.has_iff name).mpr ⟨parts, found⟩
  obtain ⟨left, there⟩ := (Table.has_iff _ name).mp there
  have final : P.pass.pass.value name = left := by simp [value, there]
  have spells := comes cs resolves
  refine ⟨cs, fun ds => ⟨fun other => (comes ds other).symm.trans spells, ?_⟩, ?_, ?_⟩
  · rintro rfl
    exact resolves
  · rw [PropertyTable.settle, first, second, get?_spelled, there, Option.map_some, ← spells, final]
    rfl
  · rw [← spells]
    exact Part.unmarked_of_closed closed (sound₂.fits name)

end PartTable

theorem PropertyBlock.opened_in_full {t : PropertyTable} {block : Entries} {P : PartTable}
    (table : define t (definitions block) = P.spelled) (sound : P.Sound)
    (within : P.ChainsWithin 3) (s : Surroundings) :
    (∀ name parts, P.get? name = some parts →
      ∃ cs, (∀ ds, P.Resolves parts ds ↔ ds = cs) ∧
        (opened t block s.env).get? name = some (String.ofList cs) ∧
        Template.occursIn (String.ofList cs) = false) ∧
    (Include.ofEntries block = [] → ∀ base l,
      ((add t block base).runOn s l).1 = .ok (opened t block s.env, [])) := by
  refine ⟨fun name parts found => ?_, fun alone base l => ?_⟩
  · unfold opened
    rw [table]
    exact PartTable.settle_spelled sound within s.env found
  · rw [add_eq_takeIncludes, alone]
    rfl

section Examples

def PartTable.references (Q : PartTable) : List (String × String) :=
  Q.rows.flatMap fun row => row.2.filterMap fun
    | .reference other => some (row.1, other)
    | .text _ => none

theorem PartTable.Refers.listed {Q : PartTable} {name other : String}
    (refers : Q.Refers name other) : (name, other) ∈ Q.references := by
  obtain ⟨parts, found, member⟩ := refers
  exact List.mem_flatMap.mpr ⟨(name, parts), (Q.mem_rows_iff name parts).mpr found,
    List.mem_filterMap.mpr ⟨.reference other, member, rfl⟩⟩

-- The pass visits `a` first, while everything below it still has its references.
def PartTable.chained : PartTable := .ofList
  [("a", [.reference "b", .text ['/', 'x'], .reference "d"]), ("b", [.reference "c"]),
    ("c", [.text ['-'], .reference "d"]), ("d", [.text ['1']])]

def PropertyBlock.chained : Entries :=
  [(.string "a", .string "\x7b\x7b.b\x7d\x7d/x\x7b\x7b.d\x7d\x7d"),
    (.string "b", .string "\x7b\x7b.c\x7d\x7d"), (.string "c", .string "-\x7b\x7b.d\x7d\x7d"),
    (.string "d", .number (.int 1))]

theorem PartTable.chained_sound : chained.Sound where
  fit name parts found := by
    have each : ∀ row ∈ chained.rows, ∀ part ∈ row.2, part.fits = true := by decide +kernel
    exact each (name, parts) ((chained.mem_rows_iff name parts).mpr found)
  known name other refers := by
    have each : ∀ pair ∈ chained.references, chained.has pair.2 = true := by decide +kernel
    exact each (name, other) refers.listed

def PartTable.chainedRank (name : String) : Nat :=
  (([("a", 3), ("b", 2), ("c", 1)] : List (String × Nat)).lookup name).getD 0

theorem PartTable.chained_within : chained.ChainsWithin 3 := by
  have low : ∀ name, chainedRank name ≤ 3 := by
    intro name
    unfold chainedRank
    cases found : ([("a", 3), ("b", 2), ("c", 1)] : List (String × Nat)).lookup name with
    | none => decide
    | some rank =>
      obtain ⟨front, back, rows, -⟩ := List.lookup_eq_some_iff.mp found
      have each : ∀ row ∈ ([("a", 3), ("b", 2), ("c", 1)] : List (String × Nat)), row.2 ≤ 3 := by
        decide
      exact each (name, rank) (by rw [rows]; simp)
  have drops : ∀ name, chained.Drops chainedRank 1 name := by
    intro name other refers
    have each : ∀ pair ∈ chained.references, chainedRank pair.2 + 1 ≤ chainedRank pair.1 := by
      decide +kernel
    exact each (name, other) refers.listed
  exact fun name names chain => (length_le_of_drops drops chain).trans (low name)

theorem PropertyBlock.chained_in_full :
    let s := Surroundings.ofFiles []
    define .empty (definitions chained) = PartTable.chained.spelled ∧ PartTable.chained.Sound ∧
      PartTable.chained.ChainsWithin 3 ∧
      (opened .empty chained s.env).get? "a" = some "-1/x1" := by
  intro s
  have table : define .empty (definitions chained) = PartTable.chained.spelled := by
    decide +kernel
  refine ⟨table, PartTable.chained_sound, PartTable.chained_within, ?_⟩
  obtain ⟨values, -⟩ := opened_in_full table PartTable.chained_sound PartTable.chained_within s
  obtain ⟨cs, only, value, -⟩ := values "a" [.reference "b", .text ['/', 'x'], .reference "d"]
    (by decide +kernel)
  have d : PartTable.chained.Resolves [.reference "d"] (['1'] ++ [] ++ []) :=
    .reference (by decide +kernel : PartTable.chained.get? "d" = some [.text ['1']]) (.text .nil)
      .nil
  have c : PartTable.chained.Resolves [.reference "c"] (['-'] ++ (['1'] ++ [] ++ []) ++ []) :=
    .reference (by decide +kernel : _ = some [.text ['-'], .reference "d"]) (.text d) .nil
  have a : PartTable.chained.Resolves [.reference "b", .text ['/', 'x'], .reference "d"]
      (['-'] ++ (['1'] ++ [] ++ []) ++ [] ++ (['/', 'x'] ++ (['1'] ++ [] ++ []))) :=
    .reference (by decide +kernel : _ = some [.reference "c"]) c (.text d)
  rw [value, ← (only _).mp a]
  rfl

end Examples

end Steward
