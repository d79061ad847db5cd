import Steward.Proofs.Document.Fairness

set_option autoImplicit false

namespace Steward

namespace Homeward

variable {α β γ δ : Type}

/-- A load ends as the load at home does, with what `g` makes of its result. About a load that has
met a stray path nothing is said. -/
inductive Match (g : β → α) : Except ConfigFault α × Loading → Except Halt β × Loading → Prop
  | ok (b : β) (l : Loading) : Match g (.ok (g b), l) (.ok b, l)
  | fault (cause : ConfigFault) (l : Loading) :
      Match g (.error cause, l) (.error (.fault cause), l)
  | stray {raw : String} {base home : Option Path} (apart : base ≠ home)
      (ended : Except ConfigFault α × Loading) (l : Loading) :
      Match g ended (.error (.stray raw base home), l)

theorem Match.of_ok {g : β → α} {ended : Except ConfigFault α × Loading} {b : β} {l : Loading}
    (same : Match g ended (.ok b, l)) : ended = (.ok (g b), l) := by
  cases same
  rfl

def Follows (g : β → α) (m : Load α) (m' : Homeward β) : Prop :=
  ∀ s l, Match g (m.runOn s l) (m'.runOn s l)

namespace Follows

variable {g : β → α} {k : δ → γ} {m : Load α} {m' : Homeward β}

theorem pure (b : β) : Follows g (Pure.pure (g b)) (Pure.pure b) :=
  fun _ l => .ok b l

theorem throw (cause : ConfigFault) :
    Follows g (MonadExcept.throw cause) (MonadExcept.throw (Halt.fault cause)) :=
  fun _ l => .fault cause l

theorem ofLoad (m : Load α) : Follows id m (ofLoad m) := by
  intro s l
  change Match id (m.runOn s l) ((m.runOn s l).1.mapError Halt.fault, (m.runOn s l).2)
  rcases m.runOn s l with ⟨r, l'⟩
  cases r with
  | ok a => exact .ok a l'
  | error cause => exact .fault cause l'

theorem bind {f : α → Load γ} {f' : β → Homeward δ} (first : Follows g m m')
    (rest : ∀ b, Follows k (f (g b)) (f' b)) : Follows k (m >>= f) (m' >>= f') := by
  intro s l
  have ended := first s l
  change Match k (LoadOr.runOn (m >>= f) s l) _
  rw [LoadOr.runOn_bind, LoadOr.runOn_bind]
  change Match g (LoadOr.runOn m s l) _ at ended
  generalize LoadOr.runOn m s l = r at ended
  generalize LoadOr.runOn m' s l = r' at ended
  cases ended with
  | ok b l => exact rest b s l
  | fault cause l => exact .fault cause l
  | stray apart ended l => exact .stray apart _ l

theorem after {f : α → Load γ} {f' : α → Homeward δ} (m : Load α)
    (rest : ∀ a, Follows k (f a) (f' a)) : Follows k (m >>= f) (Homeward.ofLoad m >>= f') :=
  (ofLoad m).bind rest

theorem look {f : Surroundings → Load α} {f' : Surroundings → Homeward β}
    (rest : ∀ s, Follows g (f s) (f' s)) : Follows g (read >>= f) (read >>= f') :=
  fun s l => rest s s l

theorem look_home {f' : Surroundings → Homeward β}
    (rest : ∀ s l, Match g (m.runOn s l) ((f' s).runOn s l)) : Follows g m (read >>= f') :=
  rest

theorem locate (t : PropertyTable) (raw : String) (base home : Option Path) :
    Follows id (Load.resolve t raw base) (locate t raw base home) := by
  refine .look_home fun s l => ?_
  split
  · next lost =>
    have apart : base ≠ home := by
      simp only [isLost, Bool.and_eq_true, decide_eq_true_eq] at lost
      exact lost.1
    exact .stray apart _ l
  · next found =>
    have same : s.resolve (t.expand s.env raw) base = s.resolve (t.expand s.env raw) home := by
      simp only [isLost, Bool.and_eq_true, decide_eq_true_eq, Bool.not_eq_true', not_and,
        Bool.not_eq_false] at found
      by_cases apart : base = home
      · rw [apart]
      · simp [Surroundings.resolve, found apart]
    have moved : (Load.resolve t raw base).runOn s l = (Load.resolve t raw home).runOn s l := by
      rw [Load.runOn, Load.runOn, (Load.resolve_leaves t raw base).run l,
        (Load.resolve_leaves t raw home).run l, same]
    rw [moved]
    exact Follows.ofLoad (Load.resolve t raw home) s l

theorem mapM {f : γ → Load α} {f' : γ → Homeward β} (each : ∀ c, Follows g (f c) (f' c))
    (items : List γ) : Follows (List.map g) (items.mapM f) (items.mapM f') := by
  induction items with
  | nil => exact pure []
  | cons c items ih =>
    rw [List.mapM_cons, List.mapM_cons]
    exact (each c).bind fun b => ih.bind fun bs => pure (b :: bs)

theorem foldlM {f : α → γ → Load α} {f' : β → γ → Homeward β}
    (each : ∀ b c, Follows g (f (g b) c) (f' b c)) (items : List γ) (b : β) :
    Follows g (items.foldlM f (g b)) (items.foldlM f' b) := by
  induction items generalizing b with
  | nil => exact pure b
  | cons c items ih =>
    rw [List.foldlM_cons, List.foldlM_cons]
    exact (each b c).bind ih

end Follows

section Merge

open Merge

theorem fst_adoptEntry (own : Own) (source : Sources) (d : Entries × Sources)
    (e : Value × Value) : (adoptEntry own source d e).1 = Merge.adoptEntry own d.1 e :=
  rfl

theorem fst_adopt (own : Own) (d included : Entries × Sources) :
    (adopt own d included).1 = Merge.adopt own d.1 included.1 :=
  (List.foldl_hom Prod.fst (fun d e => (fst_adoptEntry own included.2 d e).symm)).symm

theorem fst_includes (es : Entries) (homes : Homes) :
    (includes es homes).map Prod.fst = Include.ofEntries es := by
  have found : (es.filterMap fun e => (Include.ofEntry? e).map (·, homes e.1)).map Prod.fst =
      es.filterMap Include.ofEntry? := by
    rw [List.map_filterMap]
    refine List.filterMap_congr fun e _ => ?_
    cases Include.ofEntry? e <;> rfl
  unfold includes Include.ofEntries
  rw [← found]
  exact List.map_mergeSort fun _ _ _ _ => rfl

theorem mergeWith_follows {file : Path → Load Entries}
    {file' : Path → Homeward (Entries × Sources)}
    (each : ∀ p, Follows Prod.fst (file p) (file' p)) (t : PropertyTable) (es : Entries)
    (base : Option Path) (o : Sources) :
    Follows Prod.fst (Merge.mergeWith file t es base) (mergeWith file' t es base o) := by
  unfold Merge.mergeWith mergeWith
  rw [← fst_includes es o.entries, List.foldlM_map]
  refine .foldlM (fun d ⟨⟨key, value⟩, home⟩ => ?_) _ (withoutIncludes es, o)
  refine .after _ fun paths => .foldlM (fun d path => ?_) paths d
  refine (Follows.locate t path base home).bind fun p => (each p).bind fun found => ?_
  have adopted : Follows Prod.fst _ _ := .pure (adopt (Own.of (withoutIncludes es)) d found)
  rw [fst_adopt] at adopted
  exact .after _ fun _ => adopted

theorem included_follows (t : PropertyTable) (left : Nat) (p : Path) :
    Follows Prod.fst (Merge.included t left p) (included t left p) := by
  induction left generalizing p with
  | zero => exact .throw _
  | succ left ih =>
    unfold Merge.included included
    refine .after _ fun loaded => .after _ fun es => .after _ fun _ => .after _ fun _ => ?_
    exact .after _ fun dir => mergeWith_follows ih t es dir _

end Merge

section Properties

open PropertyBlock

def whole (m : Grow α) (t : PropertyTable) : Load (α × PropertyTable) := do
  match ← m.runFrom t with
  | (.ok a, t) => return (a, t)
  | (.error cause, _) => throw cause

theorem whole_bind (m : Grow α) (f : α → Grow β) (t : PropertyTable) :
    whole (m >>= f) t = whole m t >>= fun r => whole (f r.1) r.2 := by
  unfold whole
  rw [Grow.runFrom_bind, bind_assoc, bind_assoc]
  congr 1
  funext r
  obtain ⟨r, t⟩ := r
  cases r with
  | ok a => rfl
  | error cause => rfl

theorem whole_ofLoad (m : Load α) (t : PropertyTable) :
    whole (Grow.ofLoad m) t = m >>= fun a => pure (a, t) := by
  funext s l
  change LoadOr.runOn _ s l = LoadOr.runOn _ s l
  have ran : LoadOr.runOn ((Grow.ofLoad m).runFrom t) s l =
      (.ok ((m.runOn s l).1, t), (m.runOn s l).2) := rfl
  rw [LoadOr.runOn_bind, LoadOr.runOn_bind, ran]
  change LoadOr.runOn _ s (LoadOr.runOn m s l).2 = _
  simp only [Load.runOn]
  rcases LoadOr.runOn m s l with ⟨r, l'⟩
  cases r <;> rfl

theorem whole_lift (r : Except ConfigFault α) (t : PropertyTable) :
    whole (liftM r) t = liftM r >>= fun a => pure (a, t) := by
  cases r <;> rfl

def Tends (g : β → α) (m : Grow α) (m' : Growing β) : Prop :=
  ∀ t, Follows (Prod.map g id) (whole m t) (m'.run t)

namespace Tends

variable {g : β → α} {k : δ → γ} {m : Grow α} {m' : Growing β}

theorem pure (b : β) : Tends g (Pure.pure (g b)) (Pure.pure b) :=
  fun t => .pure (g := Prod.map g id) (b, t)

theorem bind {f : α → Grow γ} {f' : β → Growing δ} (first : Tends g m m')
    (rest : ∀ b, Tends k (f (g b)) (f' b)) : Tends k (m >>= f) (m' >>= f') := by
  intro t
  rw [whole_bind, StateT.run_bind]
  exact (first t).bind fun r => rest r.1 r.2

theorem ofLoad {m : Load α} {m' : Homeward β} (follows : Follows g m m') :
    Tends g (Grow.ofLoad m) (liftM m') := by
  intro t
  rw [whole_ofLoad]
  exact Follows.bind follows fun b => .pure (g := Prod.map g id) (b, t)

theorem lift (r : Except ConfigFault α) :
    Tends id (liftM r) (liftM (Homeward.ofLoad (liftM r))) := by
  intro t
  rw [whole_lift]
  exact Follows.bind (.ofLoad (liftM r)) fun a => .pure (g := Prod.map id id) (a, t)

theorem get {f : PropertyTable → Grow α} {f' : PropertyTable → Growing β}
    (rest : ∀ t, Tends g (f t) (f' t)) : Tends g (MonadState.get >>= f) (MonadState.get >>= f') :=
  fun t => rest t t

theorem change {f : Unit → Grow α} {f' : Unit → Growing β} (h : PropertyTable → PropertyTable)
    (rest : Tends g (f ()) (f' ())) : Tends g (modify h >>= f) (modify h >>= f') :=
  fun t => rest (h t)

theorem settle : Tends id Grow.settle settle := by
  intro t s l
  exact .ok ((), t.settle s.env) { l with notes := l.notes ++ t.settleNotes s.env }

theorem mapM {f : γ → Grow α} {f' : γ → Growing β} (each : ∀ c, Tends g (f c) (f' c))
    (items : List γ) : Tends (List.map g) (items.mapM f) (items.mapM f') := by
  induction items with
  | nil => exact pure []
  | cons c items ih =>
    rw [List.mapM_cons, List.mapM_cons]
    exact (each c).bind fun b => ih.bind fun bs => pure (b :: bs)

end Tends

theorem addInclude_tends (own : List String) (base home : Option Path) (key : String)
    (value : Value) : Tends id (PropertyBlock.addInclude own base key value)
      (addInclude own base home key value) := by
  unfold PropertyBlock.addInclude addInclude
  refine (Tends.lift _).bind fun paths => ?_
  refine Tends.bind (g := List.map id) (.mapM (fun path => ?_) paths) fun files => ?_
  · refine .get fun t => (Tends.ofLoad (.locate t path base home)).bind fun p => ?_
    refine (Tends.ofLoad (.ofLoad (readFile includeLimit p))).bind fun read => ?_
    exact .change _ (.pure read.2)
  · rw [List.map_id]
    exact .pure files.flatten

theorem grow_tends (block : Entries) (base : Option Path) (homes : Homes) :
    Tends id (PropertyBlock.grow block base) (grow block base homes) := by
  unfold PropertyBlock.grow grow
  refine (Tends.ofLoad (.ofLoad _)).bind fun _ => .change _ (Tends.settle.bind fun _ => ?_)
  rw [← fst_includes block homes]
  generalize includes block homes = found
  cases found with
  | nil => exact .pure []
  | cons first others =>
    have each (e : (String × Value) × Option Path) :
        Tends id (PropertyBlock.addInclude ((definitions block).map (·.1)) base e.1.1 e.1.2)
          (addInclude ((definitions block).map (·.1)) base e.2 e.1.1 e.1.2) :=
      addInclude_tends _ base e.2 e.1.1 e.1.2
    rw [List.map_cons]
    dsimp only
    rw [← List.map_cons, List.mapM_map]
    refine (Tends.mapM each (first :: others)).bind fun files => Tends.settle.bind fun _ => ?_
    rw [List.map_id]
    exact .pure files.flatten

theorem add_eq (t : PropertyTable) (block : Entries) (base : Option Path) :
    PropertyBlock.add t block base =
      whole (PropertyBlock.grow block base) t >>= fun r => pure r.swap := by
  unfold PropertyBlock.add whole
  rw [bind_assoc]
  congr 1
  funext r
  obtain ⟨r, t'⟩ := r
  cases r <;> rfl

theorem add_follows (t : PropertyTable) (block : Entries) (base : Option Path) (homes : Homes) :
    Follows Prod.swap (PropertyBlock.add t block base) ((grow block base homes).run t) := by
  rw [add_eq, ← bind_pure ((grow block base homes).run t)]
  exact (grow_tends block base homes t).bind fun r => .pure r

end Properties

section Sections

open Section

theorem finish_follows (context : String) (parent : PropertyTable) (left : Nat) (es : Entries)
    (base : Option Path) (o : Source) :
    Follows Sourced.sec (Section.build.finish context parent left es base)
      (build.finish context parent left es base o) := by
  unfold Section.build.finish build.finish Merge.mergeIncludes
  refine Follows.bind (mergeWith_follows (included_follows parent left) parent es base _) ?_
  rintro ⟨merged, sources⟩
  dsimp only
  cases merged.lookup Merge.propertiesKey with
  | none => exact .pure (⟨⟨context, parent, merged, base⟩, sources⟩ : Sourced)
  | some block =>
    cases block with
    | null => exact .pure (⟨⟨context, parent, merged, base⟩, sources⟩ : Sourced)
    | mapping block =>
      refine (add_follows parent block base sources.properties).bind ?_
      rintro ⟨files, table⟩
      exact .after _ fun _ => .pure (⟨⟨context, table, merged, base⟩, sources⟩ : Sourced)
    | _ => exact .throw _

theorem build_follows (context : String) (parent : PropertyTable) (left : Nat) (v : Value)
    (base : Option Path) (o : Source) :
    Follows Sourced.sec (Section.build context parent left v base)
      (build context parent left v base o) := by
  induction left generalizing v base o with
  | zero =>
    cases v with
    | null => exact finish_follows context parent 0 [] base o
    | mapping es => exact finish_follows context parent 0 es base o
    | string text => exact (Follows.locate parent text base o.home).bind fun p => .throw _
    | _ => exact .throw _
  | succ left ih =>
    cases v with
    | null => exact finish_follows context parent (left + 1) [] base o
    | mapping es => exact finish_follows context parent (left + 1) es base o
    | string text =>
      refine (Follows.locate parent text base o.home).bind fun p => .after _ fun _ => ?_
      exact .after _ fun loaded => .after _ fun _ => .after _ fun dir => ih loaded dir (.whole dir)
    | _ => exact .throw _

theorem ofValue_follows (context : String) (v : Value) :
    Follows Sourced.sec (Section.ofValue context v) (ofValue context v) :=
  build_follows context .empty includeLimit v none (.whole none)

theorem ofFile_follows (p : Path) : Follows Sourced.sec (Section.ofFile p) (ofFile p) := by
  unfold Section.ofFile ofFile
  refine .look fun s => .after _ fun v => .after _ fun _ => .after _ fun dir => ?_
  exact build_follows "" .empty includeLimit v dir (.whole dir)

theorem getSection_follows (src : Sourced) (key : String) :
    Follows Sourced.sec (src.sec.getSection key) (getSection src key) :=
  build_follows _ src.sec.table includeLimit _ src.sec.base _

end Sections

section Listings

theorem spliceWith_follows {file : Path → Load (List (Value × Option Path))}
    {file' : Path → Homeward (List ((Value × Option Path) × Source))}
    (each : ∀ p, Follows (List.map Prod.fst) (file p) (file' p)) (t : PropertyTable)
    (vs : List Value) (base home : Option Path) :
    Follows (List.map Prod.fst) (Listing.spliceWith file t vs base)
      (spliceWith file' t vs base home) := by
  have flat (parts : List (List ((Value × Option Path) × Source))) :
      Follows (List.map Prod.fst) (pure (parts.map (List.map Prod.fst)).flatten : Load _)
        (pure parts.flatten) := by
    rw [← List.map_flatten]
    exact .pure parts.flatten
  unfold Listing.spliceWith spliceWith
  refine Follows.bind (.mapM (fun v => ?_) vs) flat
  cases Listing.loneInclude? v with
  | none => exact .pure [((v, base), Source.whole home)]
  | some e =>
    refine .after _ fun paths => Follows.bind (.mapM (fun path => ?_) paths) flat
    exact (Follows.locate t path base home).bind each

theorem spliceFile_follows (context : String) (t : PropertyTable) (left : Nat) (p : Path) :
    Follows (List.map Prod.fst) (Listing.spliceFile context t left p)
      (spliceFile context t left p) := by
  induction left generalizing p with
  | zero => exact .throw _
  | succ left ih =>
    unfold Listing.spliceFile spliceFile
    refine .after _ fun loaded => .after _ fun _ => .after _ fun _ => .after _ fun vs => ?_
    exact .after _ fun dir => spliceWith_follows ih t vs dir dir

theorem buildList_follows (context : String) (t : PropertyTable) (v : Value)
    (base home : Option Path) :
    Follows SourcedListing.listing (Listing.build context t v base)
      (buildList context t v base home) := by
  have listed (items : List ((Value × Option Path) × Source)) :
      Follows SourcedListing.listing (pure ⟨context, t, items.map Prod.fst⟩ : Load Listing)
        (pure ⟨context, t, items⟩) :=
    .pure (⟨context, t, items⟩ : SourcedListing)
  have file := spliceFile_follows context t includeLimit
  cases v with
  | null => exact listed []
  | sequence vs => exact (spliceWith_follows file t vs base home).bind listed
  | string text =>
    unfold Listing.build buildList
    refine (Follows.locate t text base home).bind fun p => ?_
    exact (file p).bind listed
  | _ => exact .throw _

theorem getList_follows (src : Sourced) (key : String) :
    Follows SourcedListing.listing (src.sec.getList key) (getList src key) :=
  buildList_follows _ src.sec.table _ src.sec.base _

theorem get_follows (l : SourcedListing) (index : Nat) :
    Follows Sourced.sec (l.listing.get index) (get l index) := by
  unfold Listing.get get
  simp only [SourcedListing.listing, List.getElem?_map]
  cases l.items[index]? with
  | none => exact .throw _
  | some item => exact build_follows _ l.table includeLimit item.1.1 item.1.2 item.2

end Listings

theorem go_follows (src : Sourced) (way : Way) :
    Follows Sourced.sec (src.sec.go way) (go src way) := by
  cases way with
  | field key => exact getSection_follows src key
  | item key index => exact (getList_follows src key).bind fun l => get_follows l index

theorem walk_follows (start : Start) (ways : List Way) :
    Follows Sourced.sec (start.walk ways) (start.homewardWalk ways) := by
  have begun : Follows Sourced.sec start.load start.homeward := by
    cases start with
    | file p => exact ofFile_follows p
    | value context v _ => exact ofValue_follows context v
  exact begun.bind fun src => .foldlM go_follows ways src

theorem listAt_follows (start : Start) (ways : List Way) (key : String) :
    Follows SourcedListing.listing (start.listAt ways key) (start.homewardListAt ways key) :=
  (walk_follows start ways).bind fun src => getList_follows src key

end Homeward

theorem Start.reads_at_home (start : Start) (ways : List Way) (key : String) (s : Surroundings)
    (l : Loading) :
    let walked := (start.homewardWalk ways).runOn s l
    let listed := (start.homewardListAt ways key).runOn s l
    Homeward.Match Sourced.sec ((start.walk ways).runOn s l) walked ∧
    Homeward.Match SourcedListing.listing ((start.listAt ways key).runOn s l) listed ∧
    Homeward.Fair s start (Sourced.Tells s start) walked.1 ∧
    Homeward.Fair s start (SourcedListing.Tells s start) listed.1 :=
  ⟨Homeward.walk_follows start ways s l, Homeward.listAt_follows start ways key s l,
    Homeward.homewardWalk_tells s start ways l, Homeward.homewardListAt_tells s start ways key l⟩

def nestedFiles : List (String × String) :=
  [("/etc/main.yaml", "include_: a/inc.yaml\nlist: b/items.yaml\n"),
    ("/etc/a/inc.yaml", "x: 1\n"), ("/etc/b/items.yaml", "- include_: c/rest.yaml\n"),
    ("/etc/b/c/rest.yaml", "- db: db.yaml\n"),
    ("/etc/b/c/db.yaml", "properties:\n  include_: d/p.yaml\n"), ("/etc/b/c/d/p.yaml", "y: 2\n")]

theorem Start.sample_reads_at_home :
    let s := Surroundings.ofFiles nestedFiles
    let start := Start.file ⟨"main.yaml"⟩
    let ways := [Way.item "list" 0, .field "db"]
    ∃ src l, (start.homewardWalk ways).runOn s {} = (.ok src, l) ∧
      (start.walk ways).runOn s {} = (.ok src.sec, l) ∧ src.Tells s start := by
  intro s start ways
  obtain ⟨ended, -, fair, -⟩ := reads_at_home start ways "" s {}
  have fine : ((start.homewardWalk ways).runOn s {}).1.isOk = true := by decide +kernel
  rcases ran : (start.homewardWalk ways).runOn s {} with ⟨r, l⟩
  rw [ran] at ended fair fine
  cases fair with
  | ok tells => exact ⟨_, l, rfl, ended.of_ok, tells⟩
  | fault cause => cases fine
  | stray stands base => cases fine

def carriedFiles : List (String × String) :=
  [("/etc/main.yaml", "include_: sub/inc.yaml\n"), ("/etc/sub/inc.yaml", "db: db.yaml\n"),
    ("/etc/sub/db.yaml", "port: 99\n")]

-- Once it has been included, the path is looked for beside the document that includes it.
theorem Start.sample_carried_away :
    let s := Surroundings.ofFiles carriedFiles
    let ended (start : Start) := ((start.walk [.field "db"]).runOn s {}).1.map fun _ => ()
    (((Start.file ⟨"main.yaml"⟩).homewardWalk [.field "db"]).runOn s {}).1.map (fun _ => ()) =
      .error (.stray "db.yaml" (some ⟨"/etc"⟩) (some ⟨"/etc/sub"⟩)) ∧
    ended (.file ⟨"main.yaml"⟩) = .error (.noFile "/etc/db.yaml") ∧
    ended (.file ⟨"sub/inc.yaml"⟩) = .ok () := by
  decide +kernel

end Steward
