import Steward.Proofs.Document.Placement
import Steward.Proofs.Document.Provenance

set_option autoImplicit false

namespace Steward

variable {s : Surroundings} {start : Start} {home : Option Path}

theorem Include.itemPath_ok {key path : String} {item : Value}
    (read : Include.itemPath key item = .ok path) : item.string? = some path := by
  unfold Include.itemPath at read
  split at read
  · next found =>
    cases read
    exact found
  · cases read

theorem Include.mapM_itemPath {key : String} {items : List Value} {paths : List String}
    (read : items.mapM (Include.itemPath key) = .ok paths) :
    ∀ path ∈ paths, ∃ item ∈ items, item.string? = some path := by
  induction items generalizing paths with
  | nil =>
    cases read
    exact nofun
  | cons item items ih =>
    rw [List.mapM_cons] at read
    obtain ⟨path, first, read⟩ := ok_of_bind read
    obtain ⟨others, rest, read⟩ := ok_of_bind read
    cases read
    rw [List.forall_mem_cons]
    refine ⟨⟨item, by simp, Include.itemPath_ok first⟩, fun p member => ?_⟩
    obtain ⟨item, inside, found⟩ := ih rest p member
    exact ⟨item, .tail _ inside, found⟩

theorem Source.Tells.paths {o : Source} {key : String} {v : Value} {paths : List String}
    (tells : o.Tells s start v) (read : Include.paths key v = .ok paths) :
    ∀ path ∈ paths, Stands s start o.home path := by
  unfold Include.paths at read
  split at read
  · cases read
    exact nofun
  · cases read
    intro path member
    cases List.mem_singleton.mp member
    exact ⟨_, tells, rfl⟩
  · intro path member
    obtain ⟨item, inside, found⟩ := Include.mapM_itemPath read path member
    exact ⟨item, tells.item inside, found⟩
  · cases read

namespace Homeward

/-- What may come out of a load: `P` holds of a result, and a path that has strayed really stands in
its home. -/
inductive Fair {α : Type} (s : Surroundings) (start : Start) (P : α → Prop) : Except Halt α → Prop
  | ok {a : α} (holds : P a) : Fair s start P (.ok a)
  | fault (cause : ConfigFault) : Fair s start P (.error (.fault cause))
  | stray {raw : String} {home : Option Path} (stands : Stands s start home raw)
      (base : Option Path) : Fair s start P (.error (.stray raw base home))

def Gives {α : Type} (m : Homeward α) (s : Surroundings) (start : Start) (P : α → Prop) : Prop :=
  ∀ l, Fair s start P (m.runOn s l).1

namespace Gives

variable {α β : Type} {m : Homeward α} {f : α → Homeward β} {P : α → Prop} {Q : β → Prop}

theorem pure {a : α} (holds : P a) : Gives (Pure.pure a) s start P :=
  fun _ => .ok holds

theorem throw (cause : ConfigFault) :
    Gives (MonadExcept.throw (Halt.fault cause) : Homeward α) s start P :=
  fun _ => .fault cause

theorem bind (first : m.Gives s start P) (rest : ∀ a, P a → (f a).Gives s start Q) :
    (m >>= f).Gives s start Q := by
  intro l
  rw [LoadOr.runOn_bind]
  have begun := first l
  generalize LoadOr.runOn m s l = ended at begun
  obtain ⟨r, l'⟩ := ended
  cases begun with
  | ok holds => exact rest _ holds l'
  | fault cause => exact .fault cause
  | stray stands base => exact .stray stands base

theorem look {f : Surroundings → Homeward β} (rest : (f s).Gives s start Q) :
    (read >>= f).Gives s start Q :=
  rest

theorem ofLoad {m : Load α} (each : ∀ l a l', m.runOn s l = (.ok a, l') → P a) :
    (ofLoad m).Gives s start P := by
  intro l
  change Fair s start P ((m.runOn s l).1.mapError Halt.fault)
  rcases ran : m.runOn s l with ⟨r, l'⟩
  cases r with
  | ok a => exact .ok (each l a l' ran)
  | error cause => exact .fault cause

theorem after {m : Load α} (rest : ∀ a, (f a).Gives s start Q) :
    (Homeward.ofLoad m >>= f).Gives s start Q :=
  bind (P := fun _ => True) (ofLoad fun _ _ _ _ => True.intro) fun a _ => rest a

theorem lift {r : Except ConfigFault α} (rest : ∀ a, r = .ok a → (f a).Gives s start Q) :
    (Homeward.ofLoad (liftM r) >>= f).Gives s start Q := by
  refine bind (P := fun a => r = .ok a) (ofLoad fun l a l' done => ?_) rest
  cases r <;> cases done
  rfl

theorem readYaml {f : Value → Homeward β} (p : Path)
    (rest : ∀ v, Written s start (s.directoryOf p) v → (f v).Gives s start Q) :
    (Homeward.ofLoad (Load.readYaml p) >>= f).Gives s start Q := by
  refine bind (ofLoad fun l v l' done => .file ?_) rest
  rw [Load.runOn, (Load.readYaml_leaves p).run l] at done
  exact congrArg Prod.fst done

theorem directoryOf {f : Option Path → Homeward β} (p : Path)
    (rest : (f (s.directoryOf p)).Gives s start Q) :
    (Homeward.ofLoad (Load.directoryOf p) >>= f).Gives s start Q :=
  fun l => rest l

theorem locate (t : PropertyTable) {raw : String} (base : Option Path)
    (stands : Stands s start home raw) {f : Path → Homeward β}
    (rest : ∀ p, (f p).Gives s start Q) :
    (locate t raw base home >>= f).Gives s start Q := by
  refine bind (P := fun _ => True) (.look fun l => ?_) fun p _ => rest p
  split
  · exact .stray stands base
  · exact ofLoad (P := fun _ => True) (fun _ _ _ _ => True.intro) l

theorem mapM {g : β → Homeward α} {items : List β}
    (each : ∀ b ∈ items, (g b).Gives s start P) :
    (items.mapM g).Gives s start fun as => ∀ a ∈ as, P a := by
  induction items with
  | nil => exact pure nofun
  | cons b items ih =>
    rw [List.mapM_cons]
    obtain ⟨first, others⟩ := List.forall_mem_cons.mp each
    refine first.bind fun a holds => (ih others).bind fun as rest => pure ?_
    exact List.forall_mem_cons.mpr ⟨holds, rest⟩

theorem foldlM {g : α → β → Homeward α} {items : List β} {a : α} (holds : P a)
    (each : ∀ b ∈ items, ∀ a, P a → (g a b).Gives s start P) :
    (items.foldlM g a).Gives s start P := by
  induction items generalizing a with
  | nil => exact pure holds
  | cons b items ih =>
    rw [List.foldlM_cons]
    obtain ⟨first, others⟩ := List.forall_mem_cons.mp each
    exact (first a holds).bind fun a holds => ih holds others

end Gives

theorem mem_includes {es : Entries} {homes : Homes} {e : (String × Value) × Option Path}
    (member : e ∈ includes es homes) :
    ∃ entry ∈ es, e.1.2 = entry.2 ∧ e.2 = homes entry.1 := by
  rw [includes, List.mem_mergeSort] at member
  obtain ⟨entry, inside, found⟩ := List.mem_filterMap.mp member
  obtain ⟨include_, read, rfl⟩ := Option.map_eq_some_iff.mp found
  obtain ⟨key, -, rfl⟩ := Option.map_eq_some_iff.mp read
  exact ⟨entry, inside, rfl, rfl⟩

section Merge

open Merge

theorem mergeWith_tells {file : Path → Homeward (Entries × Sources)}
    (each : ∀ p, (file p).Gives s start fun d => d.2.Tell s start d.1) (t : PropertyTable)
    {es : Entries} (base : Option Path) {o : Sources} (tell : o.Tell s start es) :
    (mergeWith file t es base o).Gives s start fun d => d.2.Tell s start d.1 := by
  unfold mergeWith
  refine .foldlM (tell.subperm (withoutIncludes_subperm es)) fun e found d told => ?_
  obtain ⟨⟨key, value⟩, home⟩ := e
  obtain ⟨entry, inside, rfl, rfl⟩ := mem_includes found
  refine .lift fun paths read => .foldlM told fun path listed d told => ?_
  refine .locate t base ((tell.each entry inside).paths read path listed) fun p => ?_
  exact (each p).bind fun included others => .after fun _ => .pure (told.adopt others)

theorem documentEntries_tells {p : Path} {v : Value} {es : Entries}
    (written : Written s start home v) (entries : documentEntries p v = .ok es) :
    (Value.mapping es).distinct = true ∧ (Source.whole home).Tells s start (.mapping es) := by
  unfold documentEntries at entries
  split at entries
  · cases entries
    exact ⟨rfl, nofun⟩
  · cases entries
    exact ⟨written.distinct, written.tells⟩
  · cases entries

theorem included_tells (t : PropertyTable) (left : Nat) (p : Path) :
    (included t left p).Gives s start fun d => d.2.Tell s start d.1 := by
  induction left generalizing p with
  | zero => exact .throw _
  | succ left ih =>
    unfold included
    refine .readYaml p fun v written => .lift fun es entries => .after fun _ => .after fun _ => ?_
    obtain ⟨distinct, tells⟩ := documentEntries_tells written entries
    exact .directoryOf p (mergeWith_tells ih t _ (tells.document distinct))

end Merge

section Properties

def Grows {α : Type} (m : Growing α) (s : Surroundings) (start : Start) : Prop :=
  ∀ t, (m.run t).Gives s start fun _ => True

namespace Grows

variable {α β : Type} {m : Growing α} {f : α → Growing β}

theorem pure (a : α) : Grows (Pure.pure a) s start :=
  fun _ => .pure True.intro

theorem bind (first : Grows m s start) (rest : ∀ a, Grows (f a) s start) :
    Grows (m >>= f) s start := by
  intro t
  rw [StateT.run_bind]
  exact (first t).bind fun r _ => rest r.1 r.2

theorem ofLoad (m : Load α) : Grows (liftM (Homeward.ofLoad m)) s start :=
  fun _ => .after fun _ => .pure True.intro

theorem lift {r : Except ConfigFault α} (rest : ∀ a, r = .ok a → Grows (f a) s start) :
    Grows (liftM (Homeward.ofLoad (liftM r)) >>= f) s start := by
  intro t
  rw [StateT.run_bind]
  change ((Homeward.ofLoad (liftM r) >>= fun a => Pure.pure (a, t)) >>= _).Gives s start _
  rw [bind_assoc]
  refine .lift fun a read => ?_
  rw [pure_bind]
  exact rest a read t

theorem locate (t : PropertyTable) {raw : String} (base : Option Path)
    (stands : Stands s start home raw) : Grows (liftM (locate t raw base home)) s start :=
  fun _ => .locate t base stands fun _ => .pure True.intro

theorem get {f : PropertyTable → Growing β} (rest : ∀ t, Grows (f t) s start) :
    Grows (MonadState.get >>= f) s start :=
  fun t => rest t t

theorem change {f : Unit → Growing β} (h : PropertyTable → PropertyTable)
    (rest : Grows (f ()) s start) : Grows (modify h >>= f) s start :=
  fun t => rest (h t)

theorem settle : Grows settle s start :=
  fun _ _ => .ok True.intro

theorem mapM {g : β → Growing α} {items : List β} (each : ∀ b ∈ items, Grows (g b) s start) :
    Grows (items.mapM g) s start := by
  induction items with
  | nil => exact pure []
  | cons b items ih =>
    rw [List.mapM_cons]
    obtain ⟨first, others⟩ := List.forall_mem_cons.mp each
    exact first.bind fun a => (ih others).bind fun as => pure (a :: as)

end Grows

theorem addInclude_grows (own : List String) (base : Option Path) (key : String) {value : Value}
    (tells : (Source.whole home).Tells s start value) :
    Grows (addInclude own base home key value) s start := by
  unfold addInclude
  refine .lift fun paths read => (Grows.mapM fun path listed => ?_).bind fun files => .pure _
  refine .get fun t => (Grows.locate t base (tells.paths read path listed)).bind fun p => ?_
  exact (Grows.ofLoad _).bind fun _ => .change _ (.pure _)

theorem grow_grows {block : Entries} (base : Option Path) {homes : Homes}
    (tell : homes.Tell s start block) : Grows (grow block base homes) s start := by
  unfold grow
  refine (Grows.ofLoad _).bind fun _ => .change _ (Grows.settle.bind fun _ => ?_)
  split
  · exact .pure []
  · next entries _ =>
    refine (Grows.mapM fun e found => ?_).bind fun files => Grows.settle.bind fun _ => .pure _
    obtain ⟨entry, inside, value, home⟩ := mem_includes found
    have told := (tell entry inside).tells
    rw [← value, ← home] at told
    exact addInclude_grows _ base e.1.1 told

end Properties

section Sections

theorem finish_tells (context : String) (parent : PropertyTable) (left : Nat) {es : Entries}
    (base : Option Path) {o : Source} (distinct : (Value.mapping es).distinct = true)
    (tells : o.Tells s start (.mapping es)) :
    (build.finish context parent left es base o).Gives s start (Sourced.Tells s start) := by
  unfold build.finish
  refine (mergeWith_tells (included_tells parent left) parent base
    (tells.document distinct)).bind ?_
  rintro ⟨merged, sources⟩ tell
  dsimp only
  have told := tell.lookup Merge.propertiesKey
  split
  · exact .pure tell
  · exact .pure tell
  · next block found =>
    rw [found, Sources.inside_properties] at told
    exact (grow_grows base told parent).bind fun _ _ => .after fun _ => .pure tell
  · exact .throw _

theorem build_tells (context : String) (parent : PropertyTable) (left : Nat) {v : Value}
    (base : Option Path) {o : Source} (distinct : v.distinct = true) (tells : o.Tells s start v) :
    (build context parent left v base o).Gives s start (Sourced.Tells s start) := by
  induction left generalizing v base o with
  | zero =>
    cases v with
    | null => exact finish_tells context parent 0 base rfl nofun
    | mapping es => exact finish_tells context parent 0 base distinct tells
    | string text => exact .locate parent base ⟨_, tells, rfl⟩ fun p => .throw _
    | _ => exact .throw _
  | succ left ih =>
    cases v with
    | null => exact finish_tells context parent (left + 1) base rfl nofun
    | mapping es => exact finish_tells context parent (left + 1) base distinct tells
    | string text =>
      refine .locate parent base ⟨_, tells, rfl⟩ fun p => .after fun _ => ?_
      refine .readYaml p fun loaded written => .after fun _ => .directoryOf p ?_
      exact ih _ written.distinct written.tells
    | _ => exact .throw _

theorem homeward_tells (s : Surroundings) (start : Start) :
    start.homeward.Gives s start (Sourced.Tells s start) := by
  cases start with
  | file p =>
    refine .look (.readYaml (s.absolute p) fun v written => .after fun _ => ?_)
    refine .directoryOf (s.absolute p) ?_
    exact build_tells "" .empty includeLimit _ written.distinct written.tells
  | value context v distinct =>
    have written : Written s (.value context v distinct) none v := .given rfl
    exact build_tells context .empty includeLimit none distinct written.tells

theorem getSection_tells {src : Sourced} (tells : src.Tells s start) (key : String) :
    (getSection src key).Gives s start (Sourced.Tells s start) :=
  build_tells _ src.sec.table includeLimit src.sec.base (tells.lookup_distinct key)
    (tells.lookup key)

end Sections

section Listings

theorem listEntries_written {p : Path} {v : Value} {vs : List Value}
    (written : Written s start home v) (entries : Listing.listEntries p v = .ok vs) :
    ∀ w ∈ vs, Written s start home w := by
  unfold Listing.listEntries at entries
  split at entries
  · cases entries
    exact nofun
  · cases entries
    exact fun w member => written.item member
  · cases entries
    intro w member
    cases List.mem_singleton.mp member
    exact written
  · cases entries

theorem loneInclude?_written {v value : Value} {key : String}
    (written : Written s start home v) (lone : Listing.loneInclude? v = some (key, value)) :
    Written s start home value := by
  unfold Listing.loneInclude? at lone
  split at lone
  · next e inside =>
    obtain ⟨_, -, same⟩ := Option.map_eq_some_iff.mp lone
    cases same
    have around := written.untagged
    rw [inside] at around
    exact around.entry (List.mem_singleton_self e)
  · cases lone

theorem spliceWith_tells {file : Path → Homeward (List ((Value × Option Path) × Source))}
    (each : ∀ p, (file p).Gives s start (ItemsTell s start)) (t : PropertyTable) {vs : List Value}
    (base : Option Path) (written : ∀ v ∈ vs, Written s start home v) :
    (spliceWith file t vs base home).Gives s start (ItemsTell s start) := by
  have flat {parts : List (List ((Value × Option Path) × Source))}
      (tell : ∀ items ∈ parts, ItemsTell s start items) : ItemsTell s start parts.flatten := by
    intro item member
    obtain ⟨items, inside, member⟩ := List.mem_flatten.mp member
    exact tell items inside item member
  unfold spliceWith
  refine Gives.bind (.mapM fun v member => ?_) fun parts tell => .pure (flat tell)
  split
  · refine .pure fun item found => ?_
    cases List.mem_singleton.mp found
    exact ⟨(written v member).distinct, (written v member).tells⟩
  · next lone =>
    have told := (loneInclude?_written (written v member) lone).tells
    refine .lift fun paths read => Gives.bind (.mapM fun path listed => ?_) fun parts tell =>
      .pure (flat tell)
    exact .locate t base (told.paths read path listed) each

theorem spliceFile_tells (context : String) (t : PropertyTable) (left : Nat) (p : Path) :
    (spliceFile context t left p).Gives s start (ItemsTell s start) := by
  induction left generalizing p with
  | zero => exact .throw _
  | succ left ih =>
    unfold spliceFile
    refine .readYaml p fun v written => .after fun _ => .after fun _ => ?_
    refine .lift fun vs entries => .directoryOf p ?_
    exact spliceWith_tells ih t _ (listEntries_written written entries)

theorem getList_tells {src : Sourced} (tells : src.Tells s start) (key : String) :
    (getList src key).Gives s start (SourcedListing.Tells s start) := by
  have told := tells.lookup key
  have file (p : Path) : Gives _ s start (ItemsTell s start) :=
    spliceFile_tells (src.sec.placeOf key) src.sec.table includeLimit p
  unfold getList buildList Section.raw?
  generalize (src.sec.document.lookup key).getD .null = v at told ⊢
  cases v with
  | null => exact .pure nofun
  | sequence vs =>
    exact (spliceWith_tells file _ _ fun v member => told.item member).bind fun items tell =>
      .pure tell
  | string text =>
    exact .locate _ _ ⟨_, told, rfl⟩ fun p => (file p).bind fun items tell => .pure tell
  | _ => exact .throw _

theorem get_tells {l : SourcedListing} (tells : l.Tells s start) (index : Nat) :
    (get l index).Gives s start (Sourced.Tells s start) := by
  unfold get
  dsimp only
  split
  · exact .throw _
  · next found =>
    obtain ⟨distinct, told⟩ := tells _ (List.mem_of_getElem? found)
    exact build_tells _ l.table includeLimit _ distinct told

end Listings

theorem go_tells {src : Sourced} (tells : src.Tells s start) (way : Way) :
    (go src way).Gives s start (Sourced.Tells s start) := by
  cases way with
  | field key => exact getSection_tells tells key
  | item key index => exact (getList_tells tells key).bind fun l told => get_tells told index

theorem homewardWalk_tells (s : Surroundings) (start : Start) (ways : List Way) :
    (start.homewardWalk ways).Gives s start (Sourced.Tells s start) :=
  (homeward_tells s start).bind fun _ tells =>
    .foldlM tells fun way _ _ told => go_tells told way

theorem homewardListAt_tells (s : Surroundings) (start : Start) (ways : List Way)
    (key : String) :
    (start.homewardListAt ways key).Gives s start (SourcedListing.Tells s start) :=
  (homewardWalk_tells s start ways).bind fun _ tells => getList_tells tells key

end Homeward

end Steward
