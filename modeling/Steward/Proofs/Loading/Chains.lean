import Steward.Proofs.Loading.Steadiness
import Steward.Proofs.Property.Growth

set_option autoImplicit false

namespace Steward

def Include.Names (es : Entries) (raw : String) : Prop :=
  ∃ e ∈ Include.ofEntries es, ∃ raws, Include.paths e.1 e.2 = .ok raws ∧ raw ∈ raws

def Include.texts (includes : List (String × Value)) : List String :=
  includes.flatMap fun e =>
    match Include.paths e.1 e.2 with
    | .ok raws => raws
    | .error _ => []

theorem Include.texts_cons {e : String × Value} {raws : List String}
    (same : paths e.1 e.2 = .ok raws) (includes : List (String × Value)) :
    texts (e :: includes) = raws ++ texts includes := by
  simp [texts, same]

inductive PropertyBlock.Reaches (s : Surroundings) (own : List String) (base : Option Path) :
    PropertyTable → List String → Path → Prop
  | here (t : PropertyTable) (raw : String) (raws : List String) :
      Reaches s own base t (raw :: raws) (s.resolve (t.expand s.env raw) base)
  | later {t included : PropertyTable} {raw : String} {raws : List String} {files : List Path}
      {p : Path}
      (taken : (readFile includeLimit (s.resolve (t.expand s.env raw) base)).outcome s =
        .ok (included, files))
      (rest : Reaches s own base (adopt own t included) raws p) :
      Reaches s own base t (raw :: raws) p

inductive Node
  | section (v : Value) (base : Option Path)
  | list (v : Value) (base : Option Path)
  | block (es : Entries) (base : Option Path)
  | properties (es : Entries) (base : Option Path)

namespace Node

inductive Refers (s : Surroundings) (t : PropertyTable) : Node → Path → Prop
  | redirection {raw : String} {base : Option Path} :
      Refers s t (.section (.string raw) base) (s.resolve (t.expand s.env raw) base)
  | document {es : Entries} {base : Option Path} {raw : String} (named : Include.Names es raw) :
      Refers s t (.section (.mapping es) base) (s.resolve (t.expand s.env raw) base)
  | whole {raw : String} {base : Option Path} :
      Refers s t (.list (.string raw) base) (s.resolve (t.expand s.env raw) base)
  | item {vs : List Value} {base : Option Path} {v : Value} {e : String × Value}
      {raws : List String} {raw : String} (member : v ∈ vs)
      (alone : Listing.loneInclude? v = some e) (paths : Include.paths e.1 e.2 = .ok raws)
      (named : raw ∈ raws) :
      Refers s t (.list (.sequence vs) base) (s.resolve (t.expand s.env raw) base)
  | block {es : Entries} {base : Option Path} {p : Path}
      (reached : PropertyBlock.Reaches s (PropertyBlock.ownNames es) base
        (PropertyBlock.opened t es s.env) (Include.texts (Include.ofEntries es)) p) :
      Refers s t (.block es base) p
  | property {es : Entries} {base : Option Path} {raw : String} (named : Include.Names es raw) :
      Refers s t (.properties es base) (s.resolve raw base)

def found (s : Surroundings) (p : Path) (v : Value) : Node → Except ConfigFault Node
  | .section (.string _) _ => .ok (.section v (s.directoryOf p))
  | .section _ _ =>
    (Merge.documentEntries p v).map fun es => .section (.mapping es) (s.directoryOf p)
  | .list _ _ => (Listing.listEntries p v).map fun vs => .list (.sequence vs) (s.directoryOf p)
  | .block _ _ | .properties _ _ =>
    (PropertyBlock.fileEntries p v).map fun es => .properties es (s.directoryOf p)

def follow (s : Surroundings) (a : Node) (p : Path) : Except ConfigFault Node := do
  a.found s p (← Load.readText p (s.stored p))

/-- Files of which the node refers to the first, and what is found in each one to the next. The last
one need not be there. -/
inductive Chain (s : Surroundings) (t : PropertyTable) : Node → List Path → Prop
  | last {a : Node} {p : Path} (refers : a.Refers s t p) : Chain s t a [p]
  | next {a b : Node} {p : Path} {ps : List Path} (refers : a.Refers s t p)
      (found : a.follow s p = .ok b) (rest : Chain s t b ps) : Chain s t a (p :: ps)

variable {s : Surroundings} {t : PropertyTable} {a : Node} {p : Path} {ps : List Path}

def Through (s : Surroundings) (t : PropertyTable) (a : Node) (p : Path) (ps : List Path) : Prop :=
  ps = [p] ∨ ∃ b rest, a.follow s p = .ok b ∧ Chain s t b rest ∧ ps = p :: rest

theorem chain_iff : Chain s t a ps ↔ ∃ p, a.Refers s t p ∧ a.Through s t p ps := by
  constructor
  · intro chain
    cases chain with
    | last refers => exact ⟨_, refers, .inl rfl⟩
    | next refers found rest => exact ⟨_, refers, .inr ⟨_, _, found, rest, rfl⟩⟩
  · rintro ⟨p, refers, rfl | ⟨b, rest, found, chain, rfl⟩⟩
    · exact .last refers
    · exact .next refers found chain

theorem eq_of_through (through : a.Through s t p ps)
    (takes : ∀ v, a.found s p v =
      (PropertyBlock.fileEntries p v).map fun es => .properties es (s.directoryOf p))
    (alone : ∀ v es, Load.readText p (s.stored p) = .ok v →
      PropertyBlock.fileEntries p v = .ok es → Include.ofEntries es = []) : ps = [p] := by
  rcases through with only | ⟨b, rest, follow, further, -⟩
  · exact only
  · obtain ⟨v, read, follow⟩ := ok_of_bind follow
    rw [takes] at follow
    cases found : PropertyBlock.fileEntries p v with
    | error fault =>
      rw [found] at follow
      cases follow
    | ok es =>
      rw [found] at follow
      cases follow
      obtain ⟨_, refers, -⟩ := chain_iff.mp further
      cases refers with
      | property named =>
        obtain ⟨e, member, -⟩ := named
        rw [alone v es read found] at member
        cases member

end Node

namespace Load

variable {α β γ : Type} {s : Surroundings}

/-- The load ends within a limit of the chains: it succeeds only if none is longer, it fails for the
depth only if one is, and what it reads is at the end of one within the limit. -/
structure Within (chains : List Path → Prop) (limit : Nat) (r : Except ConfigFault α)
    (trail : List Mark) : Prop where
  all : ∀ a, r = .ok a → ∀ ps, chains ps → ps.length ≤ limit
  beyond : ∀ file, r = .error (.tooDeep file) →
    ∃ front p, chains (front ++ [p]) ∧ front.length = limit ∧ file = p.text
  reads : ∀ p, .read p ∈ trail → ∃ front, chains (front ++ [p]) ∧ front.length < limit

abbrev Limited (m : Load α) (s : Surroundings) (chains : List Path → Prop) (limit : Nat) : Prop :=
  m.Ends s (Within chains limit)

def Shallow (r : Except ConfigFault α) : Prop := ∀ file, r ≠ .error (.tooDeep file)

theorem Shallow.bind {r : Except ConfigFault α} {f : α → Except ConfigFault β}
    (first : Shallow r) (rest : ∀ a, Shallow (f a)) : Shallow (r >>= f) := by
  cases r with
  | error fault =>
    intro file same
    cases same
    exact first file rfl
  | ok a => exact rest a

theorem Shallow.mapM {f : α → Except ConfigFault β} (each : ∀ a, Shallow (f a)) (items : List α) :
    Shallow (items.mapM f) := by
  induction items with
  | nil => nofun
  | cons a items ih =>
    rw [List.mapM_cons]
    exact (each a).bind fun b => ih.bind fun bs => nofun

theorem readText_shallow (p : Path) (stored : Stored) : Shallow (readText p stored) := by
  intro file
  unfold readText
  split
  · nofun
  · nofun
  · split <;> nofun

namespace Limited

variable {m : Load α} {f : α → Load β} {C D : List Path → Prop} {n : Nat}

theorem congr (limited : Limited m s C n) (same : ∀ ps, D ps ↔ C ps) : Limited m s D n := by
  have equal : D = C := funext fun ps => propext (same ps)
  exact equal ▸ limited

theorem bind (first : Limited m s C n)
    (rest : ∀ a, m.outcome s = .ok a → Limited (f a) s D n) :
    Limited (m >>= f) s (fun ps => C ps ∨ D ps) n := by
  obtain ⟨r, front, leaves, within⟩ := first
  have comes := leaves.outcome
  cases r with
  | error fault =>
    refine ⟨.error fault, front, leaves.bind_error, nofun, ?_, ?_⟩
    · rintro file ⟨⟩
      obtain ⟨ps, p, chain, deep⟩ := within.beyond file rfl
      exact ⟨ps, p, .inl chain, deep⟩
    · intro p read
      obtain ⟨ps, chain, deep⟩ := within.reads p read
      exact ⟨ps, .inl chain, deep⟩
  | ok a =>
    obtain ⟨r, back, after, behind⟩ := rest a comes
    refine ⟨r, front ++ back, leaves.bind after, ?_, ?_, ?_⟩
    · rintro b same ps (chain | chain)
      · exact within.all a rfl ps chain
      · exact behind.all b same ps chain
    · intro file same
      obtain ⟨ps, p, chain, deep⟩ := behind.beyond file same
      exact ⟨ps, p, .inr chain, deep⟩
    · intro p read
      rcases List.mem_append.mp read with read | read
      · obtain ⟨ps, chain, deep⟩ := within.reads p read
        exact ⟨ps, .inl chain, deep⟩
      · obtain ⟨ps, chain, deep⟩ := behind.reads p read
        exact ⟨ps, .inr chain, deep⟩

theorem quiet {r : Except ConfigFault α} {trail : List Mark} (leaves : m.Leaves s r trail)
    (shallow : Shallow r) (silent : ∀ p, .read p ∉ trail) : Limited m s (fun _ => False) n :=
  .of_leaves leaves ⟨fun _ _ _ => False.elim, fun file same => absurd same (shallow file),
    fun p read => absurd read (silent p)⟩

theorem note (records : List Record) : Limited (Load.note records) s (fun _ => False) n :=
  quiet (note_leaves records) nofun (by simp)

theorem register (p : Path) : Limited (Load.register p) s (fun _ => False) n :=
  quiet (register_leaves p) nofun (by simp)

theorem pure {a : α} : Limited (Pure.pure a) s (fun _ => False) n :=
  quiet (.pure a) nofun (by simp)

theorem throw {fault : ConfigFault} (shallow : Shallow (.error fault : Except ConfigFault α)) :
    Limited (MonadExcept.throw fault : Load α) s C n :=
  .of_leaves (.throw fault) ⟨nofun, fun file same => absurd same (shallow file), nofun⟩

theorem front (first : Limited m s C n) (rest : ∀ a, Limited (f a) s (fun _ => False) n) :
    Limited (m >>= f) s C n :=
  (first.bind fun a _ => rest a).congr (by simp)

theorem after (first : Limited m s (fun _ => False) n)
    (rest : ∀ a, m.outcome s = .ok a → Limited (f a) s C n) : Limited (m >>= f) s C n :=
  (first.bind rest).congr (by simp)

theorem lift {r : Except ConfigFault α} (shallow : Shallow r)
    (rest : ∀ a, r = .ok a → Limited (f a) s C n) : Limited (liftM r >>= f) s C n :=
  (quiet (.lift r) shallow (by simp)).after rest

theorem known {a : α} {trail : List Mark} (leaves : m.Leaves s (.ok a) trail)
    (silent : ∀ p, .read p ∉ trail) (rest : Limited (f a) s C n) :
    Limited (m >>= f) s C n := by
  refine (quiet leaves nofun silent).after fun b same => ?_
  rw [leaves.outcome] at same
  cases same
  exact rest

theorem directoryOf {f : Option Path → Load β} (p : Path)
    (rest : Limited (f (s.directoryOf p)) s C n) : Limited (Load.directoryOf p >>= f) s C n :=
  known (directoryOf_leaves p) (by simp) rest

theorem resolve {f : Path → Load β} {t : PropertyTable} {raw : String} {base : Option Path}
    (rest : Limited (f (s.resolve (t.expand s.env raw) base)) s C n) :
    Limited (Load.resolve t raw base >>= f) s C n :=
  known (resolve_leaves t raw base) (by simp) rest

theorem foldlM {f : β → γ → Load β} {items : List γ} {C : γ → List Path → Prop}
    (each : ∀ b, ∀ c ∈ items, Limited (f b c) s (C c) n) (b : β) :
    Limited (items.foldlM f b) s (fun ps => ∃ c ∈ items, C c ps) n := by
  induction items generalizing b with
  | nil => exact pure.congr (by simp)
  | cons c items ih =>
    rw [List.foldlM_cons]
    have others (b : β) := ih (fun b c member => each b c (by simp [member])) b
    exact ((each b c (by simp)).bind fun b _ => others b).congr (by simp)

theorem mapM {f : γ → Load β} {items : List γ} {C : γ → List Path → Prop}
    (each : ∀ c ∈ items, Limited (f c) s (C c) n) :
    Limited (items.mapM f) s (fun ps => ∃ c ∈ items, C c ps) n := by
  induction items with
  | nil => exact pure.congr (by simp)
  | cons c items ih =>
    rw [List.mapM_cons]
    have others := ih fun c member => each c (by simp [member])
    exact ((each c (by simp)).bind fun b _ => others.front fun bs => pure).congr (by simp)

variable {t : PropertyTable} {a : Node} {p : Path}

-- A file at the limit is named and not read.
theorem at_limit :
    Limited (MonadExcept.throw (.tooDeep p.text) : Load α) s (a.Through s t p) 0 := by
  refine .of_leaves (.throw _) ⟨nofun, ?_, nofun⟩
  rintro file ⟨⟩
  exact ⟨[], p, .inl rfl, rfl, rfl⟩

theorem opened {f : Value → Load β} (rest : ∀ v,
    Limited (f v) s (fun ps => ∃ b, a.found s p v = .ok b ∧ b.Chain s t ps) n) :
    Limited (Load.readYaml p >>= f) s (a.Through s t p) (n + 1) := by
  have leaves := readYaml_leaves (s := s) p
  have here : ∃ front, a.Through s t p (front ++ [p]) ∧ front.length < n + 1 :=
    ⟨[], .inl rfl, Nat.succ_pos n⟩
  have shallow := readText_shallow p (s.stored p)
  cases read : readText p (s.stored p) with
  | error fault =>
    rw [read] at leaves shallow
    refine ⟨.error fault, _, leaves.bind_error, nofun, ?_, ?_⟩
    · rintro file ⟨⟩
      exact absurd rfl (shallow file)
    · intro q member
      cases List.mem_singleton.mp member
      exact here
  | ok v =>
    rw [read] at leaves
    have follow : a.follow s p = a.found s p v := by
      rw [Node.follow, read]
      rfl
    obtain ⟨r, back, after, within⟩ := rest v
    refine ⟨r, _, leaves.bind after, ?_, ?_, ?_⟩
    · rintro b same ps (rfl | ⟨c, rest, found, chain, rfl⟩)
      · simp
      · have short := within.all b same rest ⟨c, follow ▸ found, chain⟩
        simpa using short
    · intro file same
      obtain ⟨front, q, ⟨b, found, chain⟩, long, named⟩ := within.beyond file same
      exact ⟨p :: front, q, .inr ⟨b, _, follow ▸ found, chain, rfl⟩, by simp [long], named⟩
    · intro q member
      rcases List.mem_cons.mp member with same | member
      · cases same
        exact here
      · obtain ⟨front, ⟨b, found, chain⟩, short⟩ := within.reads q member
        exact ⟨p :: front, .inr ⟨b, _, follow ▸ found, chain, rfl⟩, by simpa using short⟩

theorem part {r : Except ConfigFault α} {node : α → Node} (shallow : Shallow r)
    (rest : ∀ x, r = .ok x → Limited (f x) s ((node x).Chain s t) n) :
    Limited (liftM r >>= f) s (fun ps => ∃ b, r.map node = .ok b ∧ b.Chain s t ps) n := by
  refine .lift shallow fun x same => (rest x same).congr fun ps => ?_
  subst same
  simp [Except.map]

end Limited

end Load

end Steward
