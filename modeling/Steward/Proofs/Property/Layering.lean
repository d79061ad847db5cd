import Steward.Proofs.Property.Arrangement
import Steward.Proofs.Property.Inheritance

set_option autoImplicit false

namespace Steward

open List (Forall₂)

variable {s : Surroundings} {t u : PropertyTable}

namespace PropertyTable

theorem get?_expandEntry_eq_none {name : String} (absent : t.get? name = none)
    (env : String → Option String) (other : String) :
    (expandEntry env t other).get? name = none := by
  unfold expandEntry
  split
  · next raw found =>
    have apart : name ≠ other := fun same => by
      rw [← same, absent] at found
      cases found
    rw [Table.get?_insert_of_ne t apart, absent]
  · exact absent

theorem get?_settle_eq_none {name : String} (absent : t.get? name = none)
    (env : String → Option String) : (t.settle env).get? name = none := by
  have pass {t : PropertyTable} (absent : t.get? name = none) : (t.pass env).get? name = none :=
    List.foldlRecOn (motive := fun t => Table.get? t name = none) t.names _ absent
      fun t absent other _ => get?_expandEntry_eq_none absent env other
  exact pass (pass absent)

theorem get?_settle {name : String} {value : Option String} (found : t.get? name = value)
    (plain : ∀ raw, value = some raw → IsPlain raw) (env : String → Option String) :
    (t.settle env).get? name = value := by
  cases value with
  | none => exact get?_settle_eq_none found env
  | some raw => exact (settle_keeps env t).values name raw True.intro (plain raw rfl) found

end PropertyTable

namespace PropertyBlock

def fileAt (s : Surroundings) (p : Path) : Except ConfigFault Entries := do
  fileEntries p (← Load.readText p (s.stored p))

theorem rowValue?_isSome_iff {name : String} {rows : List (String × String)} :
    (rowValue? name rows).isSome ↔ name ∈ rows.map (·.1) := by
  simp [rowValue?, latest_isSome_iff]

theorem rowValue?_rows (t : PropertyTable) (name : String) :
    rowValue? name t.rows = t.get? name := by
  have here {row : String × String} {raw : String} :
      (if row.1 = name then some row.2 else none) = some raw ↔ row = (name, raw) := by
    simp [Prod.ext_iff]
  refine Option.ext fun raw => ?_
  rw [rowValue?, latest_eq_some_iff fun row member other among x y left right => ?_]
  · simp only [here, exists_eq_right, Table.mem_rows_iff]
  · rw [here.mp left, Table.mem_rows_iff] at member
    rw [here.mp right, Table.mem_rows_iff] at among
    exact Option.some.inj (member.symm.trans among)

theorem get?_union (t u : PropertyTable) (name : String) :
    (t.union u).get? name = (u.get? name).or (t.get? name) := by
  rw [← rowValue?_rows u]
  exact get?_define t u.rows name

theorem get?_adopt (own : List String) (t included : PropertyTable) (name : String) :
    (adopt own t included).get? name =
      (if own.contains name then none else included.get? name).or (t.get? name) := by
  rw [adopt, get?_define, rowValue?, latest_filter, ← rowValue?_rows included, rowValue?,
    ← latest_gated]
  congr 2
  funext row
  by_cases same : row.1 = name
  · subst same
    simp
  · simp [same]

/-- What a property file says the property is, if it can go through `left` files in all: what its
own entries say, or else what the last file says that it includes and that says anything. -/
def fileTells (s : Surroundings) (name : String) : Nat → Path → Option String
  | 0, _ => none
  | left + 1, p =>
    match fileAt s p with
    | .ok es => (rowValue? name (es.filterMap fileDefinition?)).or
        (latest (fun raw => fileTells s name left (s.resolve raw (s.directoryOf p)))
          (Include.texts (Include.ofEntries es)))
    | .error _ => none

def readNested (left : Nat) (dir : Option Path) (acc : PropertyTable × List Path) (raw : String) :
    Load (PropertyTable × List Path) := do
  let (table, files) ← readFile left ((← read).resolve raw dir)
  return (acc.1.union table, acc.2 ++ files)

theorem readFile_succ (left : Nat) (p : Path) :
    readFile (left + 1) p = (do
      Load.note [.debug .properties ("加载属性文件: " ++ p.text)]
      let es ← liftM (fileEntries p (← Load.readYaml p))
      let dir ← Load.directoryOf p
      let (included, files) ← (Include.ofEntries es).foldlM
        (Include.through (readNested left dir)) (.empty, [p])
      return (define included (es.filterMap fileDefinition?), files)) :=
  rfl

def joined (acc result : PropertyTable × List Path) : PropertyTable × List Path :=
  (acc.1.union result.1, acc.2 ++ result.2)

theorem get?_foldl_joined (acc : PropertyTable × List Path)
    (results : List (PropertyTable × List Path)) (name : String) :
    (results.foldl joined acc).1.get? name =
      (latest (fun result => result.1.get? name) results).or (acc.1.get? name) :=
  foldl_latest (fun acc : PropertyTable × List Path => acc.1.get? name)
    (fun acc result _ => get?_union acc.1 result.1 name) acc

theorem readFile_tells (left : Nat) (p : Path) (front : List Mark) :
    (readFile left p).Yields s front fun result _ =>
      ∀ name, result.1.get? name = fileTells s name left p := by
  induction left generalizing p front with
  | zero => exact .throw
  | succ left ih =>
    rw [readFile_succ]
    refine .after (Load.note_leaves _) fun _ => .after_ok (Load.readYaml_leaves p) fun v text => ?_
    refine .after_ok (.lift _) fun es taken => .behind (Load.directoryOf_leaves p) ?_
    have found : fileAt s p = .ok es := by
      rw [fileAt, text]
      exact taken
    have nested (raw : String) (acc : PropertyTable × List Path) (trail : List Mark) :
        (readNested left (s.directoryOf p) acc raw).Yields s trail fun acc' _ => ∃ result,
          (∀ name, result.1.get? name =
            fileTells s name left (s.resolve raw (s.directoryOf p))) ∧
          acc' = joined acc result := by
      refine .look (fun s' here _ => ?_) ((ih _ trail).bind fun result trail tells => ?_)
      · have same : s'.resolve raw (s.directoryOf p) = s.resolve raw (s.directoryOf p) := by
          simp [Surroundings.resolve, Surroundings.absolute, here]
        rw [same]
      · exact .pure ⟨result, tells, rfl⟩
    refine (Include.through_yields (fun raw _ => nested raw) (.empty, [p]) _).bind ?_
    rintro _ trail ⟨results, given, rfl⟩
    refine .pure fun name => ?_
    have others := latest_forall₂ (given.imp fun raw result tells => (tells name).symm)
    rw [get?_define, get?_foldl_joined, fileTells, found, ← others]
    simp [Table.get?_empty]

/-- What is said of a property by a block, or else by the last file included there that says
anything, or else by the table. -/
def tells (s : Surroundings) (t : PropertyTable) (block : Entries) (base : Option Path)
    (name : String) : Option String :=
  (rowValue? name (definitions block)).or
    ((latest (fun raw => fileTells s name includeLimit (s.resolve raw base))
      (Include.texts (Include.ofEntries block))).or (t.get? name))

def taken (own : List String) (acc : List Path × PropertyTable)
    (result : PropertyTable × List Path) : List Path × PropertyTable :=
  (acc.1 ++ result.2, adopt own acc.2 result.1)

theorem get?_foldl_taken (own : List String) (acc : List Path × PropertyTable)
    (results : List (PropertyTable × List Path)) (name : String) :
    (results.foldl (taken own) acc).2.get? name =
      (if own.contains name then none else
        latest (fun result => result.1.get? name) results).or (acc.2.get? name) := by
  rw [← latest_gated]
  exact foldl_latest (fun acc : List Path × PropertyTable => acc.2.get? name)
    (fun acc result _ => get?_adopt own acc.2 result.1 name) acc

variable {block : Entries} {base : Option Path}

theorem takeIncludes_tells (own : List String)
    (plain : ∀ raw ∈ Include.texts (Include.ofEntries block), PropertyTable.IsPlain raw)
    (front : List Mark) :
    (takeIncludes own base t (Include.ofEntries block)).Yields s front fun acc _ =>
      ∀ name, acc.2.get? name = (if own.contains name then none else
        latest (fun raw => fileTells s name includeLimit (s.resolve raw base))
          (Include.texts (Include.ofEntries block))).or (t.get? name) := by
  have each (raw : String) (member : raw ∈ Include.texts (Include.ofEntries block))
      (acc : List Path × PropertyTable) (trail : List Mark) :
      (takeFile own base acc raw).Yields s trail fun acc' _ =>
        ∃ result, (∀ name, result.1.get? name =
          fileTells s name includeLimit (s.resolve raw base)) ∧ acc' = taken own acc result := by
    refine .behind (Load.resolve_leaves acc.2 raw base) ?_
    rw [PropertyTable.expand_of_plain (plain raw member).1 (plain raw member).2]
    exact (readFile_tells includeLimit _ _).bind fun result trail tells =>
      .pure ⟨result, tells, rfl⟩
  refine LoadOr.Yields.imp (Include.through_yields each ([], t) front) ?_
  rintro _ ⟨results, given, rfl⟩ name
  rw [get?_foldl_taken,
    latest_forall₂ (given.imp fun raw result tells => (tells name).symm)]

theorem contains_ownNames (block : Entries) (name : String) :
    (ownNames block).contains name = (rowValue? name (definitions block)).isSome := by
  refine Bool.eq_iff_iff.mpr ?_
  rw [rowValue?_isSome_iff, List.contains_iff_mem, ownNames]

theorem get?_before (name : String) {u : PropertyTable}
    (plain : ∀ raw, tells s t block base name = some raw → PropertyTable.IsPlain raw)
    (grown : u.get? name = (if (ownNames block).contains name then none else
        latest (fun raw => fileTells s name includeLimit (s.resolve raw base))
          (Include.texts (Include.ofEntries block))).or ((opened t block s.env).get? name)) :
    u.get? name = tells s t block base name := by
  rw [grown, contains_ownNames]
  unfold tells at plain ⊢
  cases own : rowValue? name (definitions block) with
  | some raw =>
    rw [own, Option.some_or] at plain
    have defined : (define t (definitions block)).get? name = some raw := by
      rw [get?_define, own, Option.some_or]
    have settled : (opened t block s.env).get? name = some raw :=
      PropertyTable.get?_settle defined plain s.env
    simp [settled]
  | none =>
    rw [own, Option.none_or] at plain
    cases files : latest (fun raw => fileTells s name includeLimit (s.resolve raw base))
        (Include.texts (Include.ofEntries block)) with
    | some raw => simp
    | none =>
      rw [files, Option.none_or] at plain
      have defined : (define t (definitions block)).get? name = t.get? name := by
        rw [get?_define, own, Option.none_or]
      have settled : (opened t block s.env).get? name = t.get? name :=
        PropertyTable.get?_settle defined plain s.env
      simp [settled]

theorem add_tells
    (plain : ∀ raw ∈ Include.texts (Include.ofEntries block), PropertyTable.IsPlain raw)
    (front : List Mark) :
    (add t block base).Yields s front fun result _ => ∀ name,
      (∀ raw, tells s t block base name = some raw → PropertyTable.IsPlain raw) →
        result.1.get? name = tells s t block base name := by
  rw [add_eq_takeIncludes]
  refine .after (Load.note_leaves _) fun _ => .look (fun s' here env => by simp only [env]) ?_
  refine .after (Load.note_leaves _) fun _ => ?_
  split
  · next none =>
    refine .pure fun name values => get?_before name values ?_
    simp [none, Include.texts]
  · refine (takeIncludes_tells (ownNames block) plain _).bind ?_
    rintro ⟨files, u⟩ trail grown
    refine .look (fun s' here env => by simp only [env]) (.after (Load.note_leaves _) fun _ => ?_)
    refine .pure fun name values => ?_
    exact PropertyTable.get?_settle (get?_before name values (grown name)) values s.env

theorem add_precedence {l l' : Loading} {u : PropertyTable} {files : List Path}
    (done : (add t block base).runOn s l = (.ok (u, files), l'))
    (plain : ∀ raw ∈ Include.texts (Include.ofEntries block), PropertyTable.IsPlain raw)
    (name : String)
    (values : ∀ raw, tells s t block base name = some raw → PropertyTable.IsPlain raw) :
    u.get? name = tells s t block base name :=
  LoadOr.Yields.of_run (add_tells plain []) done name values

def layeredFiles : List (String × String) :=
  [("/etc/a.yaml", "host: a\nport: 1\nuser: a\n"),
    ("/etc/b.yaml", "include_: [c.yaml, d.yaml]\nport: 2\n"),
    ("/etc/c.yaml", "port: 3\nzone: c\n"), ("/etc/d.yaml", "zone: d\n")]

def layeredBlock : Entries :=
  [(.string "host", .string "own"), (.string "rank", .null),
    (.string "include_", .sequence [.string "a.yaml", .string "b.yaml"])]

def layeredTable : PropertyTable := (Table.empty.insert "user" "before").insert "mode" "before"

theorem sample_layers :
    let s := Surroundings.ofFiles layeredFiles
    let base : Option Path := some ⟨"/etc"⟩
    let names := ["host", "rank", "port", "user", "zone", "mode", "other"]
    ∃ u files, ((add layeredTable layeredBlock base).runOn s {}).1 = .ok (u, files) ∧
      (∀ name ∈ names, u.get? name = tells s layeredTable layeredBlock base name) ∧
      names.map (tells s layeredTable layeredBlock base) =
        [some "own", some "", some "2", some "a", some "d", some "before", none] := by
  intro s base names
  obtain ⟨⟨u, files⟩, done⟩ := Load.ok_of_isOk (m := add layeredTable layeredBlock base)
    (s := s) (l := {}) (by decide +kernel)
  have values : ∀ name ∈ names, ∀ raw ∈ tells s layeredTable layeredBlock base name,
      PropertyTable.IsPlain raw := by
    unfold PropertyTable.IsPlain
    decide +kernel
  have texts : ∀ raw ∈ Include.texts (Include.ofEntries layeredBlock),
      PropertyTable.IsPlain raw := by
    unfold PropertyTable.IsPlain
    decide +kernel
  exact ⟨u, files, congrArg Prod.fst done, fun name member =>
    add_precedence done texts name (values name member), by decide +kernel⟩

end PropertyBlock

end Steward
