import Steward.Document.Listing
import Steward.Proofs.Document.Gathering
import Steward.Proofs.Loading.Chains

set_option autoImplicit false

namespace Steward

open Load (Shallow Limited)

variable {α β : Type} {s : Surroundings} {t : PropertyTable} {n : Nat}

namespace Include

theorem itemPath_shallow (key : String) (item : Value) : Shallow (itemPath key item) := by
  intro file
  unfold itemPath
  split <;> rintro ⟨⟩

theorem paths_shallow (key : String) (v : Value) : Shallow (paths key v) := by
  cases v with
  | sequence items => exact .mapM (itemPath_shallow key) items
  | _ => nofun

theorem paths_limited {e : String × Value} {f : List String → Load β}
    {C : String → List Path → Prop}
    (each : ∀ raws, Limited (f raws) s (fun ps => ∃ raw ∈ raws, C raw ps) n) :
    Limited (liftM (paths e.1 e.2) >>= f) s
      (fun ps => ∃ raws, paths e.1 e.2 = .ok raws ∧ ∃ raw ∈ raws, C raw ps) n := by
  refine .lift (paths_shallow e.1 e.2) fun raws same => (each raws).congr fun ps => ?_
  simp [same]

theorem ofEntries_limited {es : Entries} {f : α → String × Value → Load α}
    {C : String → List Path → Prop}
    (each : ∀ a e, Limited (f a e) s
      (fun ps => ∃ raws, paths e.1 e.2 = .ok raws ∧ ∃ raw ∈ raws, C raw ps) n) (a : α) :
    Limited ((ofEntries es).foldlM f a) s (fun ps => ∃ raw, Names es raw ∧ C raw ps) n := by
  refine (Limited.foldlM (fun a e _ => each a e) a).congr fun ps => ?_
  unfold Names
  constructor
  · rintro ⟨raw, ⟨e, member, raws, same, named⟩, chain⟩
    exact ⟨e, member, raws, same, raw, named, chain⟩
  · rintro ⟨e, member, raws, same, raw, named, chain⟩
    exact ⟨raw, ⟨e, member, raws, same, named⟩, chain⟩

end Include

namespace Merge

theorem documentEntries_shallow (p : Path) (v : Value) : Shallow (documentEntries p v) := by
  cases v <;> nofun

theorem mergeWith_limited {file : Path → Load Entries} {es : Entries} {base : Option Path}
    (each : ∀ p, Limited (file p) s ((Node.section (.mapping es) base).Through s t p) n) :
    Limited (mergeWith file t es base) s ((Node.section (.mapping es) base).Chain s t) n := by
  refine (Include.ofEntries_limited (C := fun raw => (Node.section (.mapping es) base).Through s t
    (s.resolve (t.expand s.env raw) base)) (fun fs e => Include.paths_limited fun raws =>
      Limited.foldlM (fun fs raw _ => .resolve ?_) fs) _).congr fun ps => ?_
  · exact (each _).front fun included => (Limited.note _).after fun _ _ => .pure
  · rw [Node.chain_iff]
    constructor
    · rintro ⟨_, refers, chain⟩
      cases refers with
      | document named => exact ⟨_, named, chain⟩
    · rintro ⟨raw, named, chain⟩
      exact ⟨_, .document named, chain⟩

theorem included_limited (left : Nat) (p : Path) (es : Entries) (base : Option Path) :
    Limited (included t left p) s ((Node.section (.mapping es) base).Through s t p) left := by
  induction left generalizing p es base with
  | zero => exact .at_limit
  | succ left ih =>
    unfold included
    refine .opened fun v => .part (documentEntries_shallow p v) fun fs _ => ?_
    refine (Limited.register p).after fun _ _ => (Limited.note _).after fun _ _ => ?_
    exact .directoryOf p (mergeWith_limited fun q => ih q fs _)

end Merge

namespace Listing

theorem listEntries_shallow (p : Path) (v : Value) : Shallow (listEntries p v) := by
  cases v <;> nofun

theorem spliceWith_limited {file : Path → Load (List (Value × Option Path))} {vs : List Value}
    {base : Option Path}
    (each : ∀ p, Limited (file p) s ((Node.list (.sequence vs) base).Through s t p) n) :
    Limited (spliceWith file t vs base) s ((Node.list (.sequence vs) base).Chain s t) n := by
  unfold spliceWith
  refine Limited.front ((Limited.mapM (C := fun v ps => ∃ e, loneInclude? v = some e ∧
    ∃ raws, Include.paths e.1 e.2 = .ok raws ∧ ∃ raw ∈ raws,
      (Node.list (.sequence vs) base).Through s t (s.resolve (t.expand s.env raw) base) ps)
    fun v _ => ?_).congr fun ps => ?_) fun _ => .pure
  · split
    · next shared => exact Limited.pure.congr (by simp [shared])
    · next key value alone =>
      refine Limited.congr (Include.paths_limited (e := (key, value)) fun raws =>
        Limited.front (.mapM fun raw _ => .resolve (each _)) fun _ => .pure) fun ps => ?_
      simp [alone]
  · rw [Node.chain_iff]
    constructor
    · rintro ⟨_, refers, chain⟩
      cases refers with
      | item member alone paths named => exact ⟨_, member, _, alone, _, paths, _, named, chain⟩
    · rintro ⟨v, member, e, alone, raws, paths, raw, named, chain⟩
      exact ⟨_, .item member alone paths named, chain⟩

theorem spliceFile_limited (context : String) (left : Nat) (p : Path) (v : Value)
    (base : Option Path) :
    Limited (spliceFile context t left p) s ((Node.list v base).Through s t p) left := by
  induction left generalizing p v base with
  | zero => exact .at_limit
  | succ left ih =>
    unfold spliceFile
    refine .opened fun loaded => (Limited.register p).after fun _ _ =>
      (Limited.note _).after fun _ _ => ?_
    refine .part (listEntries_shallow p loaded) fun vs _ => .directoryOf p ?_
    exact spliceWith_limited fun q => ih q _ _

theorem build_limited (context : String) (v : Value) (base : Option Path) :
    Limited (build context t v base) s ((Node.list v base).Chain s t) includeLimit := by
  have file (p : Path) := spliceFile_limited (s := s) (t := t) context includeLimit p v base
  have none (v : Value) (alone : ∀ p, ¬ (Node.list v base).Refers s t p) (ps : List Path) :
      (Node.list v base).Chain s t ps ↔ False := by
    simp [Node.chain_iff, alone]
  unfold build
  split
  · exact Limited.pure.congr (none _ nofun)
  · exact (spliceWith_limited file).front fun _ => .pure
  · next text =>
    refine Limited.congr (C := (Node.list (.string text) base).Through s t
      (s.resolve (t.expand s.env text) base)) (.resolve ?_) fun ps => ?_
    · exact Limited.front (file _) fun items => .pure
    · rw [Node.chain_iff]
      constructor
      · rintro ⟨_, refers, chain⟩
        cases refers with
        | whole => exact chain
      · exact fun chain => ⟨_, .whole, chain⟩
  · exact .throw nofun

end Listing

namespace PropertyBlock

theorem fileEntries_shallow (p : Path) (v : Value) : Shallow (fileEntries p v) := by
  cases v <;> nofun

theorem readFile_limited (left : Nat) (p : Path) {a : Node} (takes : ∀ p v, a.found s p v =
    (fileEntries p v).map fun es => .properties es (s.directoryOf p)) :
    Limited (readFile left p) s (a.Through s t p) left := by
  induction left generalizing p a with
  | zero => exact .at_limit
  | succ left ih =>
    unfold readFile
    refine (Limited.note _).after fun _ _ => .opened fun v => ?_
    rw [takes p v]
    refine .part (fileEntries_shallow p v) fun es _ =>
      .directoryOf p (Limited.front ?_ fun _ => .pure)
    refine (Include.ofEntries_limited (C := fun raw =>
      (Node.properties es (s.directoryOf p)).Through s t (s.resolve raw (s.directoryOf p)))
      (fun acc e => Include.paths_limited fun raws =>
        Limited.foldlM (fun acc raw _ => .look (fun s' here _ => ?_) ?_) acc) _).congr fun ps => ?_
    · simp [Surroundings.resolve, Surroundings.absolute, here]
    · exact Limited.front (ih _ fun _ _ => rfl) fun _ => .pure
    · rw [Node.chain_iff]
      constructor
      · rintro ⟨_, refers, chain⟩
        cases refers with
        | property named => exact ⟨_, named, chain⟩
      · rintro ⟨raw, named, chain⟩
        exact ⟨_, .property named, chain⟩

variable {own : List String} {base : Option Path}

theorem reaches_cons {raw : String} {raws : List String} {p : Path} :
    Reaches s own base t (raw :: raws) p ↔
      s.resolve (t.expand s.env raw) base = p ∨ ∃ included files,
        (readFile includeLimit (s.resolve (t.expand s.env raw) base)).outcome s =
          .ok (included, files) ∧ Reaches s own base (adopt own t included) raws p := by
  constructor
  · intro reached
    cases reached with
    | here => exact .inl rfl
    | later taken rest => exact .inr ⟨_, _, taken, rest⟩
  · rintro (rfl | ⟨included, files, taken, rest⟩)
    · exact .here t raw raws
    · exact .later taken rest

def Down (s : Surroundings) (own : List String) (base : Option Path)
    (C : Path → List Path → Prop) (t : PropertyTable) (raws : List String) (ps : List Path) :
    Prop :=
  ∃ p, Reaches s own base t raws p ∧ C p ps

variable {C : Path → List Path → Prop}

theorem takeFiles_limited {f : List Path × PropertyTable → Load β} {behind : List String}
    (each : ∀ p, Limited (readFile includeLimit p) s (C p) n)
    (rest : ∀ acc, Limited (f acc) s (Down s own base C acc.2 behind) n) (raws : List String)
    (acc : List Path × PropertyTable) :
    Limited (raws.foldlM (takeFile own base) acc >>= f) s
      (Down s own base C acc.2 (raws ++ behind)) n := by
  induction raws generalizing acc with
  | nil => exact rest acc
  | cons raw raws ih =>
    rw [List.foldlM_cons, bind_assoc, takeFile, bind_assoc]
    refine .resolve ?_
    rw [bind_assoc]
    refine ((each _).bind (D := fun ps => ∃ included files, (readFile includeLimit
      (s.resolve (acc.2.expand s.env raw) base)).outcome s = .ok (included, files) ∧
        Down s own base C (adopt own acc.2 included) (raws ++ behind) ps)
      fun taken same => ?_).congr fun ps => ?_
    · obtain ⟨included, files⟩ := taken
      refine (ih (acc.1 ++ files, adopt own acc.2 included)).congr fun ps => ?_
      simp [same]
    · simp only [Down, List.cons_append, reaches_cons]
      constructor
      · rintro ⟨p, rfl | ⟨included, files, taken, reached⟩, chain⟩
        · exact .inl chain
        · exact .inr ⟨included, files, taken, p, reached, chain⟩
      · rintro (chain | ⟨included, files, taken, p, reached, chain⟩)
        · exact ⟨_, .inl rfl, chain⟩
        · exact ⟨p, .inr ⟨included, files, taken, reached⟩, chain⟩

theorem takeIncludes_limited (each : ∀ p, Limited (readFile includeLimit p) s (C p) n)
    (includes : List (String × Value)) (acc : List Path × PropertyTable) :
    Limited (includes.foldlM (takeInclude own base) acc) s
      (Down s own base C acc.2 (Include.texts includes)) n := by
  induction includes generalizing acc with
  | nil =>
    refine Limited.pure.congr fun ps => ⟨?_, False.elim⟩
    rintro ⟨p, reached, -⟩
    cases reached
  | cons e includes ih =>
    rw [List.foldlM_cons, takeInclude, bind_assoc]
    refine .lift (Include.paths_shallow e.1 e.2) fun raws same => ?_
    rw [Include.texts_cons same]
    exact takeFiles_limited each ih raws acc

theorem add_limited (block : Entries) :
    Limited (add t block base) s ((Node.block block base).Chain s t) includeLimit := by
  have file (p : Path) := readFile_limited (s := s) (t := t) includeLimit p
    (a := Node.block block base) fun _ _ => rfl
  have chains : ∀ ps, (Node.block block base).Chain s t ps ↔
      Down s (ownNames block) base ((Node.block block base).Through s t) (opened t block s.env)
        (Include.texts (Include.ofEntries block)) ps := by
    intro ps
    rw [Node.chain_iff]
    constructor
    · rintro ⟨p, refers, chain⟩
      cases refers with
      | block reached => exact ⟨p, reached, chain⟩
    · rintro ⟨p, reached, chain⟩
      exact ⟨p, .block reached, chain⟩
  rw [add_eq_takeIncludes]
  refine (Limited.note _).after fun _ _ => .look (fun s' here env => by simp only [env]) ?_
  refine (Limited.note _).after fun _ _ => Limited.congr ?_ chains
  split
  · next none =>
    refine Limited.pure.congr fun ps => ⟨?_, False.elim⟩
    rintro ⟨p, reached, -⟩
    rw [none] at reached
    cases reached
  · refine (takeIncludes_limited file _ _).front fun result => ?_
    exact .look (fun s' here env => by simp only [env]) ((Limited.note _).after fun _ _ => .pure)

end PropertyBlock

namespace Section

theorem redirection_chain_iff {text : String} {base : Option Path} {ps : List Path} :
    (Node.section (.string text) base).Chain s t ps ↔
      (Node.section (.string text) base).Through s t (s.resolve (t.expand s.env text) base) ps := by
  rw [Node.chain_iff]
  constructor
  · rintro ⟨_, refers, chain⟩
    cases refers with
    | redirection => exact chain
  · exact fun chain => ⟨_, .redirection, chain⟩

theorem gather_mapping_limited (context : String) (left : Nat) (es : Entries)
    (base : Option Path) :
    Limited (gather context t left (.mapping es) base) s
      ((Node.section (.mapping es) base).Chain s t) left := by
  rw [gather_mapping]
  exact (Merge.mergeWith_limited fun p => Merge.included_limited left p es base).front
    fun _ => .pure

theorem gather_null_limited (context : String) (left : Nat) (base : Option Path) :
    Limited (gather context t left .null base) s ((Node.section .null base).Chain s t) left := by
  rw [gather_null]
  refine (gather_mapping_limited context left [] base).congr fun ps => ?_
  simp only [Node.chain_iff]
  constructor
  · rintro ⟨_, ⟨⟩, -⟩
  · rintro ⟨_, refers, -⟩
    cases refers with
    | document named =>
      obtain ⟨e, member, -⟩ := named
      simp [Include.ofEntries] at member

theorem gather_limited (context : String) (left : Nat) (v : Value) (base : Option Path) :
    Limited (gather context t left v base) s ((Node.section v base).Chain s t) left := by
  induction left generalizing v base with
  | zero =>
    cases v with
    | null => exact gather_null_limited context 0 base
    | mapping es => exact gather_mapping_limited context 0 es base
    | string text =>
      refine Limited.congr ?_ fun ps => redirection_chain_iff
      exact .resolve .at_limit
    | _ => exact .throw nofun
  | succ left ih =>
    cases v with
    | null => exact gather_null_limited context (left + 1) base
    | mapping es => exact gather_mapping_limited context (left + 1) es base
    | string text =>
      refine Limited.congr ?_ fun ps => redirection_chain_iff
      refine .resolve ((Limited.note _).after fun _ _ => .opened fun v => ?_)
      refine (Limited.register _).after fun _ _ => .directoryOf _ ((ih v _).congr fun ps => ?_)
      simp [Node.found]
    | _ => exact .throw nofun

theorem registerAll_limited (files : List Path) :
    Limited (files.forM Load.register) s (fun _ => False) n :=
  .quiet (Load.registerAll_leaves files s) nofun (by simp)

theorem furnish_limited (context : String) (gathered : Entries × Option Path) :
    Limited (furnish context t gathered) s (fun ps => ∃ block,
      gathered.1.lookup Merge.propertiesKey = some (.mapping block) ∧
        (Node.block block gathered.2).Chain s t ps) includeLimit := by
  obtain ⟨es, base⟩ := gathered
  unfold furnish
  dsimp only
  split
  · next said => exact Limited.pure.congr (by simp [said])
  · next said => exact Limited.pure.congr (by simp [said])
  · next block said =>
    refine (Limited.front (PropertyBlock.add_limited block) fun result => ?_).congr (by simp [said])
    exact (registerAll_limited result.2).after fun _ _ => .pure
  · exact .throw nofun

inductive Chain (s : Surroundings) (t : PropertyTable) (context : String) (v : Value)
    (base : Option Path) (ps : List Path) : Prop
  | document (chain : (Node.section v base).Chain s t ps)
  | properties {es block : Entries} {dir : Option Path}
      (gathered : (gather context t includeLimit v base).outcome s = .ok (es, dir))
      (own : es.lookup Merge.propertiesKey = some (.mapping block))
      (chain : (Node.block block dir).Chain s t ps)

theorem build_limited (context : String) (v : Value) (base : Option Path) :
    Limited (build context t includeLimit v base) s (Chain s t context v base) includeLimit := by
  rw [build_eq]
  refine ((gather_limited context includeLimit v base).bind (D := fun ps => ∃ es dir,
    (gather context t includeLimit v base).outcome s = .ok (es, dir) ∧ ∃ block,
      es.lookup Merge.propertiesKey = some (.mapping block) ∧
        (Node.block block dir).Chain s t ps) fun gathered same => ?_).congr fun ps => ?_
  · refine (furnish_limited context gathered).congr fun ps => ?_
    obtain ⟨es, dir⟩ := gathered
    simp [same]
  · constructor
    · rintro (chain | ⟨gathered, own, chain⟩)
      · exact .inl chain
      · exact .inr ⟨_, _, gathered, _, own, chain⟩
    · rintro (chain | ⟨es, dir, gathered, block, own, chain⟩)
      · exact .document chain
      · exact .properties gathered own chain

def FileChain (s : Surroundings) (p : Path) (ps : List Path) : Prop :=
  ∃ v, Load.readText p (s.stored p) = .ok v ∧ Chain s .empty "" v (s.directoryOf p) ps

theorem ofFile_limited (p : Path) :
    (ofFile p).Ends s fun r trail => ∃ below, trail = .read (s.absolute p) :: below ∧
      Load.Within (FileChain s (s.absolute p)) includeLimit r below := by
  refine .look (fun s' here _ => by simp [Surroundings.absolute, here]) ?_
  have leaves := Load.readYaml_leaves (s := s) (s.absolute p)
  have shallow := Load.readText_shallow (s.absolute p) (s.stored (s.absolute p))
  cases read : Load.readText (s.absolute p) (s.stored (s.absolute p)) with
  | error fault =>
    rw [read] at leaves shallow
    refine ⟨_, _, leaves.bind_error, [], rfl, ?_, ?_, ?_⟩
    · rintro a ⟨⟩
    · rintro file ⟨⟩
      exact absurd rfl (shallow file)
    · rintro q ⟨⟩
  | ok v =>
    rw [read] at leaves
    have rest := (Limited.register (s.absolute p)).after fun _ _ =>
      .directoryOf (s.absolute p)
        (build_limited (t := .empty) "" v (s.directoryOf (s.absolute p)))
    obtain ⟨r, below, after, within⟩ := rest
    have same : Chain s .empty "" v (s.directoryOf (s.absolute p)) =
        FileChain s (s.absolute p) := by
      funext ps
      simp [FileChain, read]
    exact ⟨r, _, leaves.bind after, below, rfl, same ▸ within⟩

end Section

theorem Load.limit_of_includes (s : Surroundings) (t : PropertyTable) :
    (∀ context v base, Limited (Section.build context t includeLimit v base) s
      (Section.Chain s t context v base) includeLimit) ∧
    (∀ p, (Section.ofFile p).Ends s fun r trail => ∃ below,
      trail = .read (s.absolute p) :: below ∧
        Within (Section.FileChain s (s.absolute p)) includeLimit r below) ∧
    (∀ block base, Limited (PropertyBlock.add t block base) s
      ((Node.block block base).Chain s t) includeLimit) ∧
    (∀ context v base, Limited (Listing.build context t v base) s
      ((Node.list v base).Chain s t) includeLimit) :=
  ⟨Section.build_limited, Section.ofFile_limited,
    fun block _ => PropertyBlock.add_limited block, Listing.build_limited⟩

example :
    let s := Surroundings.ofFiles [("/etc/main.yaml", "include_: main.yaml\n")]
    ((Section.ofFile ⟨"main.yaml"⟩).outcome s).map (fun _ => ()) =
      .error (.tooDeep "/etc/main.yaml") := by
  decide +kernel

end Steward
