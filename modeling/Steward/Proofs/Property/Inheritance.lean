import Steward.Proofs.Loading.Limits

set_option autoImplicit false

namespace Steward

open LoadOr (Yields)

variable {s : Surroundings} {t u w : PropertyTable}

namespace PropertyTable

def IsPlain (raw : String) : Prop :=
  Variable.occursIn raw = false ∧ Template.occursIn raw = false

structure Keeps (free : String → Prop) (t u : PropertyTable) : Prop where
  names : ∀ name ∈ t.names, name ∈ u.names
  values : ∀ name raw, free name → IsPlain raw → t.get? name = some raw → u.get? name = some raw

namespace Keeps

variable {free fewer : String → Prop}

theorem refl (free : String → Prop) (t : PropertyTable) : t.Keeps free t :=
  ⟨fun _ member => member, fun _ _ _ _ found => found⟩

theorem trans (first : t.Keeps free u) (second : u.Keeps free w) : t.Keeps free w where
  names name member := second.names name (first.names name member)
  values name raw unset plain found :=
    second.values name raw unset plain (first.values name raw unset plain found)

theorem mono (keeps : t.Keeps free u) (within : ∀ name, fewer name → free name) :
    t.Keeps fewer u :=
  ⟨keeps.names, fun name raw unset => keeps.values name raw (within name unset)⟩

theorem foldl {α : Type} {f : PropertyTable → α → PropertyTable} {items : List α}
    (each : ∀ t : PropertyTable, ∀ a ∈ items, t.Keeps free (f t a)) (t : PropertyTable) :
    t.Keeps free (items.foldl f t) := by
  induction items generalizing t with
  | nil => exact refl free t
  | cons a items ih =>
    have others := ih (fun t b member => each t b (by simp [member])) (f t a)
    exact (each t a (by simp)).trans others

end Keeps

theorem insert_keeps (t : PropertyTable) (name raw : String) :
    t.Keeps (· ≠ name) (t.insert name raw) := by
  refine ⟨fun other member => ?_, fun other value apart _ found => ?_⟩
  · obtain ⟨value, found⟩ := (t.mem_names_iff other).mp member
    rw [Table.mem_names_iff, Table.get?_insert]
    split
    · exact ⟨_, rfl⟩
    · exact ⟨value, found⟩
  · rw [Table.get?_insert_of_ne t apart, found]

theorem expandEntry_keeps (env : String → Option String) (t : PropertyTable) (name : String) :
    t.Keeps (fun _ => True) (expandEntry env t name) := by
  unfold expandEntry
  split
  · next raw here =>
    refine ⟨(insert_keeps t name _).names, fun other value _ plain found => ?_⟩
    rw [Table.get?_insert]
    split
    · next same =>
      subst same
      rw [here] at found
      cases found
      rw [expand_of_plain plain.1 plain.2]
    · exact found
  · exact .refl _ t

theorem settle_keeps (env : String → Option String) (t : PropertyTable) :
    t.Keeps (fun _ => True) (t.settle env) := by
  have pass (t : PropertyTable) : t.Keeps (fun _ => True) (t.pass env) :=
    .foldl (fun t name _ => expandEntry_keeps env t name) t
  exact (pass t).trans (pass _)

end PropertyTable

namespace PropertyBlock

open PropertyTable (Keeps)

theorem define_keeps (t : PropertyTable) (rows : List (String × String)) :
    t.Keeps (fun name => ∀ row ∈ rows, row.1 ≠ name) (define t rows) :=
  .foldl (fun t row member => (PropertyTable.insert_keeps t row.1 row.2).mono
    fun _ unset => (unset row member).symm) t

theorem mem_names_define {t : PropertyTable} {rows : List (String × String)} {name : String}
    (member : name ∈ (define t rows).names) : name ∈ t.names ∨ ∃ row ∈ rows, row.1 = name := by
  induction rows generalizing t with
  | nil => exact .inl member
  | cons row rows ih =>
    rcases ih member with before | ⟨later, among, same⟩
    · rw [Table.mem_names_iff, Table.get?_insert] at before
      obtain ⟨raw, found⟩ := before
      split at found
      · next here => exact .inr ⟨row, by simp, here.symm⟩
      · exact .inl ((t.mem_names_iff name).mpr ⟨raw, found⟩)
    · exact .inr ⟨later, by simp [among], same⟩

theorem mem_names_union {t u : PropertyTable} {name : String} (member : name ∈ (t.union u).names) :
    name ∈ t.names ∨ name ∈ u.names :=
  (mem_names_define member).imp_right fun ⟨_, among, same⟩ => List.mem_map.mpr ⟨_, among, same⟩

def FileDefines (s : Surroundings) (p : Path) (name : String) : Prop :=
  ∃ v es, Load.readText p (s.stored p) = .ok v ∧ fileEntries p v = .ok es ∧
    ∃ row ∈ es.filterMap fileDefinition?, row.1 = name

def DefinesAlong (s : Surroundings) (chains : List Path → Prop) (name : String) : Prop :=
  ∃ front p, chains (front ++ [p]) ∧ FileDefines s p name

theorem DefinesAlong.mono {chains more : List Path → Prop} {name : String}
    (defines : DefinesAlong s chains name) (within : ∀ ps, chains ps → more ps) :
    DefinesAlong s more name := by
  obtain ⟨front, p, chain, file⟩ := defines
  exact ⟨front, p, within _ chain, file⟩

-- The induction is on the depth: what a file has got from those that it includes is said further
-- down the chains.
theorem readFile_defines (left : Nat) (p : Path) (front : List Mark) {a : Node}
    (takes : ∀ p v, a.found s p v =
      (fileEntries p v).map fun es => .properties es (s.directoryOf p)) :
    (readFile left p).Yields s front fun result _ =>
      ∀ name ∈ result.1.names, DefinesAlong s (a.Through s t p) name := by
  induction left generalizing p front a with
  | zero => exact .throw
  | succ left ih =>
    unfold readFile
    refine .after (Load.note_leaves _) fun _ => ?_
    refine .after_ok (Load.readYaml_leaves p) fun v read => ?_
    refine .after_ok (.lift _) fun es found => ?_
    have child : a.follow s p = .ok (.properties es (s.directoryOf p)) := by
      rw [Node.follow, read]
      exact (takes p v).trans (by rw [found]; rfl)
    have further {name : String} (defines : DefinesAlong s
        ((Node.properties es (s.directoryOf p)).Chain s t) name) :
        DefinesAlong s (a.Through s t p) name := by
      obtain ⟨front, q, chain, file⟩ := defines
      exact ⟨p :: front, q, .inr ⟨_, _, child, chain, rfl⟩, file⟩
    refine .behind (Load.directoryOf_leaves p) ?_
    refine .bind (P := fun acc _ => ∀ name ∈ acc.1.names, DefinesAlong s
      ((Node.properties es (s.directoryOf p)).Chain s t) name) (.foldlM ?_ (by rintro _ ⟨⟩)) ?_
    · intro acc trail e among told
      refine .after_ok (.lift _) fun raws paths => .foldlM (fun acc trail raw named told => ?_) told
      refine .look (fun s' here _ => ?_) ?_
      · simp [Surroundings.resolve, Surroundings.absolute, here]
      · refine (ih _ trail (a := .properties es (s.directoryOf p)) fun _ _ => rfl).bind
          fun result trail more => .pure fun name member => ?_
        rcases mem_names_union member with member | member
        · exact told name member
        · refine (more name member).mono fun ps chain => ?_
          exact Node.chain_iff.mpr ⟨_, .property ⟨e, among, raws, paths, named⟩, chain⟩
    · rintro ⟨included, files⟩ trail told
      refine .pure fun name member => ?_
      rcases mem_names_define member with member | said
      · exact further (told name member)
      · exact ⟨[], p, .inl rfl, v, es, read, found, said⟩

theorem adopt_keeps (own : List String) (t included : PropertyTable) :
    t.Keeps (fun name => name ∉ own → name ∉ included.names) (adopt own t included) := by
  refine (define_keeps t _).mono fun name unset row member same => ?_
  subst same
  obtain ⟨member, apart⟩ := List.mem_filter.mp member
  refine unset (by simpa using apart) (List.mem_map_of_mem member)

def Defines (s : Surroundings) (t : PropertyTable) (block : Entries) (base : Option Path)
    (name : String) : Prop :=
  name ∈ ownNames block ∨ DefinesAlong s ((Node.block block base).Chain s t) name

variable {block : Entries} {base : Option Path}

structure OnTheWay (s : Surroundings) (t : PropertyTable) (block : Entries) (base : Option Path)
    (u : PropertyTable) (raws : List String) : Prop where
  keeps : t.Keeps (¬ Defines s t block base ·) u
  refers : ∀ p, Reaches s (ownNames block) base u raws p → (Node.block block base).Refers s t p

theorem takeFiles_onTheWay (raws behind : List String) (acc : List Path × PropertyTable)
    (front : List Mark) (before : OnTheWay s t block base acc.2 (raws ++ behind)) :
    (raws.foldlM (takeFile (ownNames block) base) acc).Yields s front fun acc _ =>
      OnTheWay s t block base acc.2 behind := by
  induction raws generalizing acc front with
  | nil => exact .pure before
  | cons raw raws ih =>
    rw [List.foldlM_cons, takeFile, bind_assoc]
    refine .behind (Load.resolve_leaves acc.2 raw base) ?_
    rw [bind_assoc]
    have named := before.refers _ (.here acc.2 raw (raws ++ behind))
    refine Yields.bind (readFile_defines (t := t) includeLimit _ _
      (a := .block block base) fun _ _ => rfl).known ?_
    rintro ⟨included, files⟩ trail ⟨defines, taken⟩
    refine ih _ _ ⟨before.keeps.trans ?_, fun p reached => before.refers p (.later taken reached)⟩
    refine (adopt_keeps _ acc.2 included).mono fun name unset _ member => ?_
    exact unset (.inr ((defines name member).mono fun ps chain =>
      Node.chain_iff.mpr ⟨_, named, chain⟩))

theorem takeIncludes_onTheWay (includes : List (String × Value)) (acc : List Path × PropertyTable)
    (front : List Mark) (before : OnTheWay s t block base acc.2 (Include.texts includes)) :
    (includes.foldlM (takeInclude (ownNames block) base) acc).Yields s front fun acc _ =>
      OnTheWay s t block base acc.2 [] := by
  induction includes generalizing acc front with
  | nil => exact .pure before
  | cons e includes ih =>
    rw [List.foldlM_cons, takeInclude, bind_assoc]
    refine .after_ok (.lift _) fun raws same => ?_
    rw [Include.texts_cons same] at before
    refine (takeFiles_onTheWay raws _ acc _ before).bind fun acc trail between => ?_
    exact ih acc trail between

theorem opened_keeps (env : String → Option String) :
    t.Keeps (· ∉ ownNames block) (opened t block env) := by
  refine ((define_keeps t _).mono fun name unset row member same => unset ?_).trans
    ((PropertyTable.settle_keeps env _).mono fun _ _ => True.intro)
  exact List.mem_map.mpr ⟨row, member, same⟩

theorem add_keeps (front : List Mark) :
    (add t block base).Yields s front fun result _ =>
      t.Keeps (¬ Defines s t block base ·) result.1 := by
  have own : t.Keeps (¬ Defines s t block base ·) (opened t block s.env) :=
    (opened_keeps s.env).mono fun _ unset own => unset (.inl own)
  rw [add_eq_takeIncludes]
  refine .after (Load.note_leaves _) fun _ => .look (fun s' here env => by simp only [env]) ?_
  refine .after (Load.note_leaves _) fun _ => ?_
  split
  · exact .pure own
  · refine (takeIncludes_onTheWay _ ([], opened t block s.env) _
      ⟨own, fun p reached => .block reached⟩).bind ?_
    rintro ⟨files, u⟩ trail after
    refine .look (fun s' here env => by simp only [env]) (.after (Load.note_leaves _) fun _ => ?_)
    refine .pure (after.keeps.trans ?_)
    exact (PropertyTable.settle_keeps s.env u).mono fun _ _ => True.intro

end PropertyBlock

namespace Section

def properties? (sec : Section) : Option Entries :=
  match sec.document.lookup Merge.propertiesKey with
  | some (.mapping block) => some block
  | _ => none

def Sets (child : Section) (s : Surroundings) (t : PropertyTable) (name : String) : Prop :=
  ∃ block, child.properties? = some block ∧ PropertyBlock.Defines s t block child.base name

theorem furnish_keeps (context : String) (gathered : Entries × Option Path) (front : List Mark) :
    (furnish context t gathered).Yields s front fun child _ =>
      t.Keeps (¬ child.Sets s t ·) child.table := by
  obtain ⟨es, base⟩ := gathered
  unfold furnish
  dsimp only
  split
  · exact .pure (.refl _ t)
  · exact .pure (.refl _ t)
  · next block said =>
    refine (PropertyBlock.add_keeps front).bind ?_
    rintro ⟨table, files⟩ trail keeps
    refine .after (Load.registerAll_leaves files s) fun _ => .pure (keeps.mono ?_)
    exact fun name unset told => unset ⟨block, by simp [properties?, said], told⟩
  · exact .throw

theorem build_keeps (context : String) (left : Nat) (v : Value) (base : Option Path) :
    (build context t left v base).Yields s [] fun child _ =>
      t.Keeps (¬ child.Sets s t ·) child.table := by
  rw [build_eq]
  refine Yields.bind (P := fun _ _ => True) ?_ fun gathered trail _ =>
    furnish_keeps context gathered trail
  exact (gather_limited context left v base).mono fun _ _ _ _ _ => True.intro

end Section

theorem LoadOr.Yields.of_run {ε α : Type} {m : LoadOr ε α} {Q : α → Prop}
    (yields : m.Yields s [] fun a _ => Q a) {l l' : Loading} {a : α}
    (done : m.runOn s l = (.ok a, l')) : Q a := by
  obtain ⟨r, back, leaves, holds⟩ := yields
  rw [leaves.run l] at done
  cases done
  exact holds a rfl

theorem Listing.build_table (context : String) (v : Value) (base : Option Path) :
    (Listing.build context t v base).Yields s [] fun list _ => list.table = t := by
  have splice (vs : List Value) (front : List Mark) :
      (spliceWith (spliceFile context t includeLimit) t vs base).Yields s front fun _ _ => True :=
    (spliceWith_limited fun p => spliceFile_limited context includeLimit p _ _).mono
      fun _ _ _ _ _ => True.intro
  have file (p : Path) (front : List Mark) :
      (spliceFile context t includeLimit p).Yields s front fun _ _ => True :=
    (spliceFile_limited context includeLimit p v base).mono fun _ _ _ _ _ => True.intro
  unfold build
  split
  · exact .pure rfl
  · exact (splice _ []).bind fun _ _ _ => .pure rfl
  · refine .behind (Load.resolve_leaves t _ base) ((file _ _).bind fun _ _ _ => .pure rfl)
  · exact .throw

namespace Section

/-- A section made of a value in a field or in a list of another one, or of the files that such a
value names. -/
inductive Child (s : Surroundings) (parent child : Section) : Prop
  | field {key : String} {l l' : Loading}
      (built : (parent.getSection key).runOn s l = (.ok child, l'))
  | item {key : String} {index : Nat} {list : Listing} {s₀ : Surroundings} {l₀ l₁ l l' : Loading}
      (listed : (parent.getList key).runOn s₀ l₀ = (.ok list, l₁))
      (built : (list.get index).runOn s l = (.ok child, l'))

theorem Child.keeps {parent child : Section} (of : Child s parent child) :
    parent.table.Keeps (¬ child.Sets s parent.table ·) child.table := by
  cases of with
  | field built => exact (build_keeps _ includeLimit _ _).of_run built
  | @item key index list _ _ _ _ _ listed built =>
    have same : list.table = parent.table := (Listing.build_table _ _ _).of_run listed
    unfold Listing.get at built
    split at built
    · cases built
    · rw [same] at built
      exact (build_keeps _ includeLimit _ _).of_run built

theorem Child.inherits {parent child : Section} (of : Child s parent child) :
    (∀ name ∈ parent.table.names, name ∈ child.table.names) ∧
    ∀ name raw, parent.table.get? name = some raw → PropertyTable.IsPlain raw →
      ¬ child.Sets s parent.table name → child.table.get? name = some raw :=
  ⟨of.keeps.names, fun name raw found plain unset => of.keeps.values name raw unset plain found⟩

def inheritedFiles : List (String × String) :=
  [("/etc/db.yaml", "include_: more.yaml\nproperties:\n  root: /own\n"),
    ("/etc/more.yaml", "properties:\n  include_: p.yaml\n"), ("/etc/p.yaml", "host: b\n")]

def sampleParent : Section where
  table := .ofList [("host", "a"), ("keep", "plain"), ("root", "/srv")]
  document := [(.string "db", .string "db.yaml")]
  base := some ⟨"/etc"⟩

theorem sample_unset {s : Surroundings} (same : s = .ofFiles inheritedFiles) {block : Entries}
    (own : PropertyBlock.ownNames block = ["root"])
    (texts : Include.texts (Include.ofEntries block) = ["p.yaml"]) :
    ¬ PropertyBlock.Defines s t block (some ⟨"/etc"⟩) "keep" := by
  have file (v : Value) (es : Entries)
      (read : Load.readText ⟨"/etc/p.yaml"⟩ (s.stored ⟨"/etc/p.yaml"⟩) = .ok v)
      (found : PropertyBlock.fileEntries ⟨"/etc/p.yaml"⟩ v = .ok es) :
      (Include.ofEntries es).isEmpty = true ∧
        ∀ row ∈ es.filterMap PropertyBlock.fileDefinition?, row.1 ≠ "keep" := by
    have shown : (match Load.readText ⟨"/etc/p.yaml"⟩ (s.stored ⟨"/etc/p.yaml"⟩) with
      | .ok v => match PropertyBlock.fileEntries ⟨"/etc/p.yaml"⟩ v with
        | .ok es => decide ((Include.ofEntries es).isEmpty = true ∧
          ∀ row ∈ es.filterMap PropertyBlock.fileDefinition?, row.1 ≠ "keep")
        | .error _ => true
      | .error _ => true) = true := by
      rw [same]
      decide +kernel
    rw [read] at shown
    dsimp only at shown
    rw [found] at shown
    exact of_decide_eq_true shown
  rintro (among | ⟨front, q, chain, v, es, read, found, row, among, said⟩)
  · rw [own] at among
    exact absurd among (by decide)
  · obtain ⟨p, refers, through⟩ := Node.chain_iff.mp chain
    have here : p = ⟨"/etc/p.yaml"⟩ := by
      cases refers with
      | block reached =>
        rw [texts] at reached
        cases reached with
        | here =>
          rw [PropertyTable.expand_of_plain (by decide +kernel) (by decide +kernel), same]
          decide +kernel
        | later taken rest => cases rest
    subst here
    have ends : front ++ [q] = [] ++ [⟨"/etc/p.yaml"⟩] :=
      Node.eq_of_through through (fun _ => rfl) fun v es read found =>
        List.isEmpty_iff.mp (file v es read found).1
    obtain ⟨-, last⟩ := List.append_inj' ends rfl
    cases last
    exact (file v es read found).2 row among said

theorem sample_inherits :
    let s := Surroundings.ofFiles inheritedFiles
    ∃ child, Child s sampleParent child ∧ ¬ child.Sets s sampleParent.table "keep" ∧
      child.table.get? "keep" = some "plain" ∧ "host" ∈ child.table.names ∧
      child.table.get? "host" = some "b" := by
  intro s
  have shown : ((sampleParent.getSection "db").runOn s {}).1.map (fun child =>
      (child.base, child.table.get? "host", child.properties?.map fun block =>
        (PropertyBlock.ownNames block, Include.texts (Include.ofEntries block)))) =
      .ok (some ⟨"/etc"⟩, some "b", some (["root"], ["p.yaml"])) := by
    decide +kernel
  rcases ran : (sampleParent.getSection "db").runOn s {} with ⟨r, l⟩
  rw [ran] at shown
  cases r with
  | error fault => cases shown
  | ok child =>
    simp only [Except.map, Except.ok.injEq, Prod.mk.injEq, Option.map_eq_some_iff] at shown
    obtain ⟨base, host, block, properties, own, texts⟩ := shown
    have unset : ¬ child.Sets s sampleParent.table "keep" := by
      rintro ⟨_, same, defines⟩
      rw [properties] at same
      cases same
      rw [base] at defines
      exact sample_unset rfl own texts defines
    obtain ⟨names, values⟩ := Child.inherits (.field ran)
    refine ⟨child, .field ran, unset, ?_, names "host" (by decide +kernel), host⟩
    exact values "keep" "plain" (by decide +kernel) ⟨by decide +kernel, by decide +kernel⟩ unset

end Section

end Steward
