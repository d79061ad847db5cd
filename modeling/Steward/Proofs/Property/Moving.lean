import Steward.Proofs.Document.Gathering
import Steward.Proofs.Property.Layering

set_option autoImplicit false

namespace Steward

variable {s : Surroundings}

namespace LoadOr

variable {ε α β : Type} {m : LoadOr ε α} {f : α → LoadOr ε β} {a : α} {b : β}

def Succeeds (m : LoadOr ε α) (s : Surroundings) (a : α) : Prop := ∃ trail, m.Leaves s (.ok a) trail

namespace Succeeds

theorem pure (a : α) : Succeeds (Pure.pure a : LoadOr ε α) s a := ⟨_, .pure a⟩

theorem bind (first : m.Succeeds s a) (rest : (f a).Succeeds s b) : (m >>= f).Succeeds s b := by
  obtain ⟨front, before⟩ := first
  obtain ⟨back, after⟩ := rest
  exact ⟨front ++ back, before.bind after⟩

theorem lift {r : Except ε α} (same : r = .ok a) : Succeeds (liftM r : LoadOr ε α) s a := by
  subst same
  exact ⟨_, .lift _⟩

theorem look {f : Surroundings → LoadOr ε α}
    (same : ∀ s', s'.here = s.here → s'.env = s.env → f s' = f s) (rest : (f s).Succeeds s a) :
    (read >>= f).Succeeds s a := by
  obtain ⟨trail, leaves⟩ := rest
  exact ⟨trail, .look same leaves⟩

theorem run (succeeds : m.Succeeds s a) (l : Loading) : (m.runOn s l).1 = .ok a := by
  obtain ⟨trail, leaves⟩ := succeeds
  exact congrArg Prod.fst (leaves.run l)

theorem of_outcome {Q : Except ε α → List Mark → Prop} (ends : m.Ends s Q)
    (comes : m.outcome s = .ok a) : m.Succeeds s a := by
  obtain ⟨r, trail, leaves, -⟩ := ends
  rw [leaves.outcome] at comes
  exact ⟨trail, comes ▸ leaves⟩

end Succeeds

end LoadOr

theorem Load.note_succeeds (records : List Record) : LoadOr.Succeeds (Load.note records) s () :=
  ⟨_, Load.note_leaves records⟩

namespace PropertyBlock

variable {t : PropertyTable} {block : Entries} {base : Option Path} {p : Path}

theorem add_succeeds (none : Include.ofEntries block = []) :
    LoadOr.Succeeds (add t block base) s (opened t block s.env, []) := by
  rw [add_eq_takeIncludes, none]
  refine (Load.note_succeeds _).bind (.look (fun s' here env => by simp only [env]) ?_)
  exact (Load.note_succeeds _).bind (.pure _)

theorem readFile_succeeds (found : fileAt s p = .ok block) (none : Include.ofEntries block = [])
    (left : Nat) : LoadOr.Succeeds (readFile (left + 1) p) s
      (define .empty (block.filterMap fileDefinition?), [p]) := by
  obtain ⟨v, text, taken⟩ := ok_of_bind found
  have reads : LoadOr.Succeeds (Load.readYaml p) s v := ⟨_, text ▸ Load.readYaml_leaves p⟩
  have dir : LoadOr.Succeeds (Load.directoryOf p) s (s.directoryOf p) :=
    ⟨_, Load.directoryOf_leaves p⟩
  rw [readFile_succ]
  refine (Load.note_succeeds _).bind (reads.bind ((LoadOr.Succeeds.lift taken).bind ?_))
  refine dir.bind ?_
  rw [none]
  exact (LoadOr.Succeeds.pure _).bind (.pure _)

theorem adopt_nil (u : PropertyTable) : adopt [] .empty u = u :=
  Table.ext_get? fun name => by simp [get?_adopt, Table.get?_empty]

theorem add_moved_succeeds {key text : String} (included : Include.isKey key = true)
    (named : s.resolve (PropertyTable.expand .empty s.env text) base = p)
    (found : fileAt s p = .ok block) (none : Include.ofEntries block = []) :
    LoadOr.Succeeds (add .empty [(.string key, .string text)] base) s
      ((define .empty (block.filterMap fileDefinition?)).settle s.env, [p]) := by
  have includes : Include.ofEntries [(.string key, .string text)] = [(key, .string text)] := by
    simp [Include.ofEntries, Include.ofEntry?, included]
  have unnamed : definitions [(.string key, .string text)] = [] := by
    simp [definitions, definition?, included]
  have start : opened .empty [(.string key, .string text)] s.env = .empty := by
    rw [opened, unnamed]
    rfl
  have takes : LoadOr.Succeeds (takeFile [] base ([], .empty) text) s
      ([p], define .empty (block.filterMap fileDefinition?)) := by
    refine LoadOr.Succeeds.bind ⟨_, named ▸ Load.resolve_leaves .empty text base⟩ ?_
    refine (readFile_succeeds found none _).bind ?_
    dsimp only
    rw [adopt_nil]
    exact .pure _
  rw [add_eq_takeIncludes, includes]
  refine (Load.note_succeeds _).bind (.look (fun s' here env => by simp only [env]) ?_)
  refine (Load.note_succeeds _).bind ?_
  rw [start, ownNames, unnamed]
  refine LoadOr.Succeeds.bind
    (a := ([p], define .empty (block.filterMap fileDefinition?))) ?_ ?_
  · refine LoadOr.Succeeds.bind (LoadOr.Succeeds.bind (.lift rfl) ?_) (.pure _)
    exact takes.bind (.pure _)
  · refine .look (fun s' here env => by simp only [env]) ?_
    exact (Load.note_succeeds _).bind (.pure _)

section Rows

-- Only null makes a difference between an entry in a document and one in a property file.
theorem definition?_eq_fileDefinition? {e : Value × Value}
    (given : e.1.string?.isSome → e.2.untagged.isNull = false) :
    definition? e = fileDefinition? e := by
  unfold definition? fileDefinition? localText?
  cases text : e.1.string? with
  | none => rfl
  | some name => simp [given (by rw [text]; rfl)]

theorem definitions_eq (given : ∀ e ∈ block, e.1.string?.isSome → e.2.untagged.isNull = false) :
    definitions block = block.filterMap fileDefinition? :=
  List.filterMap_congr fun e member => definition?_eq_fileDefinition? (given e member)

theorem fileDefinition?_eq_some {e : Value × Value} {row : String × String}
    (found : fileDefinition? e = some row) :
    e.1.string? = some row.1 ∧ e.2.scalarText? = some row.2 := by
  unfold fileDefinition? at found
  split at found
  · next name text =>
    split at found
    · cases found
    · obtain ⟨raw, scalar, rfl⟩ := Option.map_eq_some_iff.mp found
      exact ⟨text, scalar⟩
  · cases found

theorem definition?_of_null {e : Value × Value} {name : String} (text : e.1.string? = some name)
    (null : e.2.untagged.isNull = true) (other : Include.ofEntry? e = none) :
    definition? e = some (name, "") := by
  have unnamed : Include.isKey name = false := by simpa [Include.ofEntry?, text] using other
  simp [definition?, text, unnamed, localText?, null]

theorem mem_names_settle_iff (env : String → Option String) (name : String) :
    name ∈ (t.settle env).names ↔ name ∈ t.names := by
  refine ⟨fun member => ?_, (PropertyTable.settle_keeps env t).names name⟩
  by_contra absent
  simp only [Table.mem_names_iff, ← Option.isSome_iff_exists, Option.not_isSome_iff_eq_none] at *
  rw [PropertyTable.get?_settle_eq_none absent env] at member
  cases member

theorem mem_names_define_empty {rows : List (String × String)} {name : String} :
    name ∈ (define .empty rows).names ↔ name ∈ rows.map (·.1) := by
  rw [Table.mem_names_iff, ← Option.isSome_iff_exists, get?_define, Table.get?_empty,
    Option.or_none, rowValue?_isSome_iff]

end Rows

end PropertyBlock

namespace Section

/-- The block is the properties of the root document that the value stands for, and the directory is
that of the document. -/
def HasProperties (s : Surroundings) (v : Value) (base : Option Path) (block : Entries)
    (dir : Option Path) : Prop :=
  ∃ es : Entries, (gather "" .empty includeLimit v base).outcome s = .ok (es, dir) ∧
    es.lookup Merge.propertiesKey = some (.mapping block)

variable {v w : Value} {base base' dir dir' : Option Path} {block : Entries}

theorem build_succeeds (has : HasProperties s v base block dir) {table : PropertyTable}
    {files : List Path}
    (added : LoadOr.Succeeds (PropertyBlock.add .empty block dir) s (table, files)) :
    ∃ es, LoadOr.Succeeds (build "" .empty includeLimit v base) s ⟨"", table, es, dir⟩ := by
  obtain ⟨es, comes, found⟩ := has
  refine ⟨es, ?_⟩
  rw [build_eq]
  refine (LoadOr.Succeeds.of_outcome (gather_limited "" includeLimit v base) comes).bind ?_
  unfold furnish
  simp only [found]
  exact added.bind (LoadOr.Succeeds.bind ⟨_, Load.registerAll_leaves files s⟩ (.pure _))

theorem hasProperties_mapping {es : Entries} (none : Include.ofEntries es = [])
    (found : es.lookup Merge.propertiesKey = some (.mapping block)) :
    HasProperties s (.mapping es) base block base := by
  have merged : Merge.mergeIncludes .empty includeLimit es base = pure es := by
    simp [Merge.mergeIncludes, Merge.mergeWith, Merge.withoutIncludes, none]
  refine ⟨es, ?_, found⟩
  rw [gather_mapping, merged]
  rfl

theorem build_moved {key text : String} {p : Path} (inline : HasProperties s v base block dir)
    (moved : HasProperties s w base' [(.string key, .string text)] dir')
    (included : Include.isKey key = true)
    (named : s.resolve (PropertyTable.expand .empty s.env text) dir' = p)
    (found : PropertyBlock.fileAt s p = .ok block) (none : Include.ofEntries block = []) :
    ∃ a b : Section, (∀ l, ((build "" .empty includeLimit v base).runOn s l).1 = .ok a) ∧
      (∀ l, ((build "" .empty includeLimit w base').runOn s l).1 = .ok b) ∧
      ((∀ e ∈ block, e.1.string?.isSome → e.2.untagged.isNull = false) → a.table = b.table) ∧
      (a.table = b.table → ∀ e ∈ block, ∀ name, e.1.string? = some name →
        e.2.untagged.isNull = true →
          ∃ f ∈ block, f.1.string? = some name ∧ f.2.scalarText?.isSome) := by
  obtain ⟨es, before⟩ := build_succeeds inline (PropertyBlock.add_succeeds none)
  obtain ⟨fs, after⟩ := build_succeeds moved
    (PropertyBlock.add_moved_succeeds included named found none)
  refine ⟨_, _, before.run, after.run, fun given => ?_, fun same e member name text null => ?_⟩
  · rw [PropertyBlock.opened, PropertyBlock.definitions_eq given]
  · have other := (Include.ofEntries_eq_nil block).mp none e member
    have here : name ∈ (PropertyBlock.opened .empty block s.env).names := by
      rw [PropertyBlock.opened, PropertyBlock.mem_names_settle_iff,
        PropertyBlock.mem_names_define_empty]
      have row := PropertyBlock.definition?_of_null text null other
      exact List.mem_map.mpr ⟨_, List.mem_filterMap.mpr ⟨e, member, row⟩, rfl⟩
    have same : PropertyBlock.opened .empty block s.env = (PropertyBlock.define .empty
        (block.filterMap PropertyBlock.fileDefinition?)).settle s.env := same
    rw [same, PropertyBlock.mem_names_settle_iff, PropertyBlock.mem_names_define_empty] at here
    obtain ⟨row, among, rfl⟩ := List.mem_map.mp here
    obtain ⟨f, inside, defined⟩ := List.mem_filterMap.mp among
    obtain ⟨text, scalar⟩ := PropertyBlock.fileDefinition?_eq_some defined
    exact ⟨f, inside, text, by rw [scalar]; rfl⟩

def movedFiles : List (String × String) :=
  [("/etc/p.yaml", "host: db\nport: 80\n"), ("/etc/null.yaml", "host: null\n")]

def rootWith (block : Entries) : Value := .mapping [(.string "properties", .mapping block)]

theorem hasProperties_rootWith (block : Entries) (base : Option Path) :
    HasProperties s (rootWith block) base block base := by
  have plain : Include.isKey "properties" = false := by decide +kernel
  have other : Include.ofEntry? (.string "properties", .mapping block) = none := by
    simp [Include.ofEntry?, plain]
  exact hasProperties_mapping ((Include.ofEntries_eq_nil _).mpr (by simpa using other)) rfl

def rootTable (s : Surroundings) (block : Entries) : Except ConfigFault PropertyTable :=
  ((build "" .empty includeLimit (rootWith block) (some ⟨"/etc"⟩)).outcome s).map (·.table)

theorem sample_moved :
    let s := Surroundings.ofFiles movedFiles
    ∃ block, PropertyBlock.fileAt s ⟨"/etc/p.yaml"⟩ = .ok block ∧
      rootTable s block = rootTable s [(.string "include_", .string "p.yaml")] ∧
      (rootTable s block).map (·.rows) = .ok [("host", "db"), ("port", "80")] := by
  intro s
  have shown : (PropertyBlock.fileAt s ⟨"/etc/p.yaml"⟩).map (fun block =>
      block.all fun e => (Include.ofEntry? e).isNone && !e.2.untagged.isNull) = .ok true := by
    decide +kernel
  cases found : PropertyBlock.fileAt s ⟨"/etc/p.yaml"⟩ with
  | error fault =>
    rw [found] at shown
    cases shown
  | ok block =>
    rw [found] at shown
    simp only [Except.map, Except.ok.injEq, List.all_eq_true, Bool.and_eq_true,
      Option.isNone_iff_eq_none, Bool.not_eq_true'] at shown
    have none : Include.ofEntries block = [] :=
      (Include.ofEntries_eq_nil block).mpr fun e member => (shown e member).1
    obtain ⟨a, b, inline, moved, same, -⟩ := build_moved
      (hasProperties_rootWith block (some ⟨"/etc"⟩))
      (hasProperties_rootWith [(.string "include_", .string "p.yaml")] (some ⟨"/etc"⟩))
      (by decide +kernel) (by decide +kernel) found none
    have before : rootTable s block = .ok a.table :=
      congrArg (Except.map Section.table) (inline {})
    have after : rootTable s [(.string "include_", .string "p.yaml")] = .ok b.table :=
      congrArg (Except.map Section.table) (moved {})
    have equal := same fun e member _ => (shown e member).2
    refine ⟨block, rfl, by rw [before, after, equal], ?_⟩
    rw [before, equal, ← after]
    decide +kernel

-- In the document itself a property that is null is empty, in a file there is none.
theorem null_property_lost :
    let s := Surroundings.ofFiles movedFiles
    let block : Entries := [(.string "host", .null)]
    PropertyBlock.fileAt s ⟨"/etc/null.yaml"⟩ = .ok block ∧ Include.ofEntries block = [] ∧
      (rootTable s block).map (·.rows) = .ok [("host", "")] ∧
      (rootTable s [(.string "include_", .string "null.yaml")]).map (·.rows) = .ok [] := by
  intro s block
  refine ⟨?_, (Include.ofEntries_eq_nil block).mpr (by decide +kernel), by decide +kernel,
    by decide +kernel⟩
  have shown : (PropertyBlock.fileAt s ⟨"/etc/null.yaml"⟩).map (fun es => es.map fun e =>
      ((Value.string "host").same e.1, e.2.isNull)) = .ok [(true, true)] := by decide +kernel
  cases found : PropertyBlock.fileAt s ⟨"/etc/null.yaml"⟩ with
  | error fault =>
    rw [found] at shown
    cases shown
  | ok es =>
    rw [found] at shown
    obtain ⟨⟨k, v⟩, rfl, shape⟩ := List.map_eq_singleton_iff.mp (Except.ok.inj shown)
    rw [Prod.mk.injEq] at shape
    obtain ⟨key, null⟩ := shape
    obtain rfl : k = .string "host" := Value.eq_of_string_same key
    cases v with
    | null => rfl
    | _ => cases null

end Section

end Steward
