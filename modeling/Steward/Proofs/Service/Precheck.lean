import Steward.Proofs.Service.Admission

set_option autoImplicit false

namespace Steward

namespace LoadOr

variable {ε α β : Type} {s : Surroundings}

theorem outcome_foldlM {f : β → α → LoadOr ε β} {items : List α}
    (steady : ∀ a ∈ items, ∀ b, (f b a).Steady s) (b : β) :
    (items.foldlM f b).Steady s ∧
      (items.foldlM f b).outcome s = items.foldlM (fun b a => (f b a).outcome s) b := by
  induction items generalizing b with
  | nil => exact ⟨.of_eq fun _ => rfl, rfl⟩
  | cons a items ih =>
    have first := steady a (by simp) b
    have rest (b : β) := ih (fun a member => steady a (by simp [member])) b
    simp only [List.foldlM_cons]
    refine ⟨first.bind fun b => (rest b).1, ?_⟩
    rw [first.outcome_bind fun b => (rest b).1]
    exact congrArg _ (funext fun b => (rest b).2)

theorem outcome_forM {f : α → LoadOr ε Unit} (steady : ∀ a, (f a).Steady s) (items : List α) :
    (items.forM f).Steady s ∧
      (items.forM f).outcome s = items.forM fun a => (f a).outcome s := by
  induction items with
  | nil => exact ⟨.of_eq fun _ => rfl, rfl⟩
  | cons a items ih =>
    have parts := (steady a).outcome_bind (f := fun _ => items.forM f) fun _ => ih.1
    rw [ih.2] at parts
    exact ⟨(steady a).bind fun _ => ih.1, parts⟩

end LoadOr

theorem forM_ok_iff {ε α : Type} {f : α → Except ε Unit} {items : List α} :
    items.forM f = .ok () ↔ ∀ a ∈ items, f a = .ok () := by
  induction items with
  | nil => simp [List.forM, pure, Except.pure]
  | cons a items ih =>
    change (f a >>= fun _ => items.forM f) = _ ↔ _
    rw [List.forall_mem_cons, ← ih]
    cases f a with
    | error fault => simp [bind, Except.bind]
    | ok _ => simp [bind, Except.bind]

theorem forM_error_iff {ε α : Type} {f : α → Except ε Unit} {items : List α} {fault : ε} :
    items.forM f = .error fault ↔ ∃ before bad after, items = before ++ bad :: after ∧
      (∀ a ∈ before, f a = .ok ()) ∧ f bad = .error fault := by
  induction items with
  | nil => simp [List.forM, pure, Except.pure]
  | cons a items ih =>
    change (f a >>= fun _ => items.forM f) = _ ↔ _
    rw [bind_eq_error_iff]
    constructor
    · rintro (first | ⟨_, first, failed⟩)
      · exact ⟨[], a, items, rfl, by simp, first⟩
      · obtain ⟨before, bad, after, rfl, fine, refused⟩ := ih.mp failed
        exact ⟨a :: before, bad, after, rfl, List.forall_mem_cons.mpr ⟨first, fine⟩, refused⟩
    · rintro ⟨before, bad, after, parts, fine, refused⟩
      cases before with
      | nil =>
        cases parts
        exact .inl refused
      | cons b before =>
        cases parts
        obtain ⟨first, fine⟩ := List.forall_mem_cons.mp fine
        exact .inr ⟨(), first, ih.mpr ⟨before, bad, after, rfl, fine, refused⟩⟩

namespace Step

variable {τ α : Type} [Typed α] {sec : Section} {s : Surroundings} {key : String} {t : τ}

theorem required_outcome (checks : List (Check α)) :
    (required α key checks sec t).outcome s = (sec.require s key checks).map fun _ => t := by
  unfold required LoadOr.outcome
  rw [LoadOr.runOn_bind, Section.fetch_run]
  cases sec.require s key checks <;> rfl

theorem optional_outcome :
    (optional α key sec t).outcome s = (sec.get (α := α) s key).map fun _ => t := by
  unfold optional LoadOr.outcome
  rw [LoadOr.runOn_bind, Section.fetch_run]
  cases sec.get (α := α) s key <;> rfl

theorem readRequired_outcome (set : α → τ → τ) (checks : List (Check α)) :
    (readRequired key set checks sec t).outcome s =
      (sec.require s key checks).map fun a => set a t := by
  unfold readRequired LoadOr.outcome
  rw [LoadOr.runOn_bind, Section.fetch_run]
  cases sec.require s key checks <;> rfl

theorem readField_outcome (set : α → τ → τ) :
    (readField key set [] sec t).outcome s =
      (sec.get s key).map fun found => found.elim t fun a => set a t := by
  unfold readField LoadOr.outcome
  rw [LoadOr.runOn_bind, Section.fetch_run, Section.getChecked_nil]
  rcases sec.get s key with fault | _ | a <;> rfl

end Step

namespace Document

variable {entry : Section} {s : Surroundings} {fault : ConfigFault}

inductive FieldFault (entry : Section) (s : Surroundings) : ConfigFault → Prop
  | name {fault : ConfigFault}
      (refused : entry.require s "name" [Check.nonEmpty] = .error fault) : FieldFault entry s fault
  | kind {name : String} {fault : ConfigFault}
      (named : entry.require s "name" [Check.nonEmpty] = .ok name)
      (refused : entry.require s "type" [Check.nonEmpty] = .error fault) : FieldFault entry s fault
  | disabled {name kind : String} {fault : ConfigFault}
      (named : entry.require s "name" [Check.nonEmpty] = .ok name)
      (typed : entry.require s "type" [Check.nonEmpty] = .ok kind)
      (refused : entry.get (α := Bool) s "disabled" = .error fault) : FieldFault entry s fault
  | hosts {name kind : String} {off : Option Bool} {fault : ConfigFault}
      (named : entry.require s "name" [Check.nonEmpty] = .ok name)
      (typed : entry.require s "type" [Check.nonEmpty] = .ok kind)
      (read : entry.get (α := Bool) s "disabled" = .ok off)
      (refused : entry.get (α := List String) s "hosts" = .error fault) : FieldFault entry s fault

def readFields (entry : Section) (s : Surroundings) : Except ConfigFault ComponentSpec := do
  let name ← entry.require s "name" [Check.nonEmpty]
  let kind ← entry.require s "type" [Check.nonEmpty]
  let off : Option Bool ← entry.get s "disabled"
  let hosts : Option (List String) ← entry.get s "hosts"
  return { name, kind, disabled := off.getD false, hosts := hosts.getD [] }

theorem readFields_error_iff : readFields entry s = .error fault ↔ FieldFault entry s fault := by
  unfold readFields
  simp only [bind_eq_error_iff]
  constructor
  · rintro (refused | ⟨name, named, refused | ⟨kind, typed, refused | ⟨off, read, rest⟩⟩⟩)
    · exact .name refused
    · exact .kind named refused
    · exact .disabled named typed refused
    · rcases rest with refused | ⟨hosts, -, ended⟩
      · exact .hosts named typed read refused
      · cases ended
  · intro fails
    cases fails with
    | name refused => exact .inl refused
    | kind named refused => exact .inr ⟨_, named, .inl refused⟩
    | disabled named typed refused => exact .inr ⟨_, named, .inr ⟨_, typed, .inl refused⟩⟩
    | hosts named typed read refused =>
      exact .inr ⟨_, named, .inr ⟨_, typed, .inr ⟨_, read, .inl refused⟩⟩⟩

theorem entrySteps_steady (entry : Section) (s : Surroundings) :
    ∀ step ∈ entrySteps, ∀ t, LoadOr.Steady (step entry t) s := by
  have name (t : Unit) := required_accounts (α := String) (fun _ _ _ => rfl) "name"
    [Check.nonEmpty] entry t
  have kind (t : Unit) := required_accounts (α := String) (fun _ _ _ => rfl) "type"
    [Check.nonEmpty] entry t
  have disabled (t : Unit) := optional_accounts (α := Bool) (fun _ _ _ => rfl) "disabled" entry t
  have hosts (t : Unit) :=
    optional_accounts (α := List String) (fun _ _ _ => rfl) "hosts" entry t
  intro step member t
  simp only [entrySteps, List.mem_cons, List.not_mem_nil, or_false] at member
  rcases member with rfl | rfl | rfl | rfl
  · exact (name t).steady s
  · exact (kind t).steady s
  · exact (disabled t).steady s
  · exact (hosts t).steady s

theorem validateEntry_outcome (entry : Section) (s : Surroundings) :
    (validateEntry entry).outcome s = (readFields entry s).map fun _ => () := by
  unfold validateEntry
  rw [Reading.run_eq_foldlM, (LoadOr.outcome_foldlM (entrySteps_steady entry s) ()).2]
  simp only [entrySteps, List.foldlM_cons, List.foldlM_nil, Step.required_outcome,
    Step.optional_outcome, readFields]
  rcases entry.require (α := String) s "name" [Check.nonEmpty] with fault | name
  · rfl
  rcases entry.require (α := String) s "type" [Check.nonEmpty] with fault | kind
  · rfl
  rcases entry.get (α := Bool) s "disabled" with fault | off
  · rfl
  rcases entry.get (α := List String) s "hosts" with fault | hosts
  · rfl
  rfl

theorem validateEntry_error_iff :
    (validateEntry entry).outcome s = .error fault ↔ FieldFault entry s fault := by
  rw [validateEntry_outcome, ← readFields_error_iff]
  cases readFields entry s <;> simp [Except.map]

theorem validateEntry_ok (fine : ∀ other, ¬FieldFault entry s other) :
    (validateEntry entry).outcome s = .ok () := by
  cases done : (validateEntry entry).outcome s with
  | ok _ => rfl
  | error other => exact absurd (validateEntry_error_iff.mp done) (fine other)

theorem ofSection_outcome (entry : Section) (s : Surroundings) :
    (ComponentSpec.ofSection entry).outcome s = (do
      let fields ← readFields entry s
      let config ← (entry.getSection "config").outcome s
      return ComponentSpec.trimNames { fields with config }) := by
  have steady (step : Step ComponentSpec) (member : step ∈ ComponentSpec.steps)
      (t : ComponentSpec) : LoadOr.Steady (step entry t) s :=
    ((ComponentSpec.placeless_steps step member).accounts entry t).steady s
  obtain ⟨whole, parts⟩ := LoadOr.outcome_foldlM steady {}
  have config (t : ComponentSpec) :
      (Step.subsection "config" (fun config t => { t with config }) entry t).outcome s =
        ((entry.getSection "config").outcome s).map fun config => { t with config } := by
    unfold Step.subsection LoadOr.outcome
    rw [LoadOr.runOn_bind]
    rcases LoadOr.runOn (entry.getSection "config") s {} with ⟨fault | part, l⟩ <;> rfl
  unfold ComponentSpec.ofSection
  rw [Reading.run_eq_foldlM, whole.outcome_bind fun _ => .of_eq fun _ => rfl, parts]
  simp only [ComponentSpec.steps, ComponentSpec.fieldSteps, List.cons_append, List.nil_append,
    List.foldlM_cons, List.foldlM_nil, Step.readRequired_outcome, Step.readField_outcome, config,
    readFields]
  rcases entry.require (α := String) s "name" [Check.nonEmpty] with fault | name
  · rfl
  rcases entry.require (α := String) s "type" [Check.nonEmpty] with fault | kind
  · rfl
  rcases entry.get (α := Bool) s "disabled" with fault | off
  · rfl
  rcases entry.get (α := List String) s "hosts" with fault | hosts
  · rfl
  rcases (entry.getSection "config").outcome s with fault | part
  · rfl
  cases off <;> cases hosts <;> rfl

theorem ofSection_error_iff :
    (ComponentSpec.ofSection entry).outcome s = .error fault ↔ FieldFault entry s fault ∨
      (∀ other, ¬FieldFault entry s other) ∧
        (entry.getSection "config").outcome s = .error fault := by
  simp only [ofSection_outcome, ← readFields_error_iff]
  cases readFields entry s with
  | error cause => simp [bind, Except.bind]
  | ok fields =>
    cases (entry.getSection "config").outcome s with
    | error cause => simp [bind, Except.bind]
    | ok part => simp [bind, Except.bind, pure, Except.pure]

variable {list : Listing} {place : Nat} {knows : String → Bool} {taken : List String}

def checkAt (list : Listing) (s : Surroundings) (place : Nat) : Except ConfigFault Unit :=
  LoadOr.outcome (do validateEntry (← list.get place)) s

theorem checkAt_steady (list : Listing) (s : Surroundings) (place : Nat) :
    LoadOr.Steady (do validateEntry (← list.get place)) s :=
  Load.Accounts.steady (.bind (Roll.get_accounts list place) validateEntry_accounts) s

theorem checkAt_eq (list : Listing) (s : Surroundings) (place : Nat) :
    checkAt list s place =
      (list.get place).outcome s >>= fun entry => (validateEntry entry).outcome s :=
  ((Roll.get_accounts list place).steady s).outcome_bind fun entry =>
    (validateEntry_accounts entry).steady s

theorem entryAt_eq (list : Listing) (s : Surroundings) (place : Nat) :
    Roll.entryAt list s place =
      (list.get place).outcome s >>= fun entry => (ComponentSpec.ofSection entry).outcome s :=
  ((Roll.get_accounts list place).steady s).outcome_bind fun entry =>
    (ComponentSpec.ofSection_accounts entry).steady s

theorem checkAt_of_entryAt {spec : ComponentSpec} (read : Roll.entryAt list s place = .ok spec) :
    checkAt list s place = .ok () := by
  rw [entryAt_eq] at read
  obtain ⟨entry, found, done⟩ := ok_of_bind read
  rw [ofSection_outcome] at done
  obtain ⟨fields, fine, -⟩ := ok_of_bind done
  rw [checkAt_eq, found]
  change (validateEntry entry).outcome s = _
  rw [validateEntry_outcome, fine]
  rfl

theorem validate_outcome (listKey : String) (root : Section) (s : Surroundings) (l : Loading) :
    (validate listKey root).outcome s =
      ((root.getList listKey).runOn s l).1 >>= fun list =>
        (List.range list.size).forM (checkAt list s) := by
  have listed := (getList_accounts root listKey).steady s
  have loop (list : Listing) :=
    LoadOr.outcome_forM (checkAt_steady list s) (List.range list.size)
  have parts := listed.outcome_bind fun list => (loop list).1
  have checks := funext fun list => (loop list).2
  rw [← listed l] at parts
  exact parts.trans (congrArg _ checks)

/-- What the check leaves to the reading: an entry with its four fields in order has a
configuration that cannot be read, a name in `taken` or an unknown type. -/
inductive Deeper (knows : String → Bool) (list : Listing) (s : Surroundings) (taken : List String)
    (place : Nat) : Fault → Prop
  | config {entry : Section} {cause : ConfigFault} (found : (list.get place).outcome s = .ok entry)
      (fields : (validateEntry entry).outcome s = .ok ())
      (unread : (entry.getSection "config").outcome s = .error cause) :
      Deeper knows list s taken place (.config cause)
  | again {spec : ComponentSpec} (read : Roll.entryAt list s place = .ok spec)
      (used : spec.name ∈ taken) :
      Deeper knows list s taken place (.component (.duplicateName spec.name))
  | unknown {spec : ComponentSpec} (read : Roll.entryAt list s place = .ok spec)
      (foreign : knows spec.kind = false) :
      Deeper knows list s taken place (.component (.unknownType spec.name spec.kind))

/-- The entries in front of one of those have been read. -/
def FirstDeeper (knows : String → Bool) (list : Listing) (s : Surroundings) (fault : Fault) :
    Prop :=
  ∃ (earlier later : List Nat) (place : Nat) (before : List ComponentSpec),
    List.range list.size = earlier ++ place :: later ∧
    earlier.map (Roll.entryAt list s) = before.map Except.ok ∧
    Deeper knows list s (before.map (·.name)) place fault

theorem checkAt_or_deeper (bad : Except ConfigFault ComponentSpec) {offence : Fault}
    (read : Roll.entryAt list s place = bad) (offends : Roll.Offends knows taken bad offence) :
    (∃ cause, offence = .config cause ∧ checkAt list s place = .error cause) ∨
      Deeper knows list s taken place offence := by
  cases offends with
  | again used => exact .inr (.again read used)
  | unknown new foreign => exact .inr (.unknown read foreign)
  | unread cause =>
    rw [entryAt_eq] at read
    rw [checkAt_eq]
    rcases bind_eq_error_iff.mp read with found | ⟨entry, found, read⟩
    · exact .inl ⟨cause, rfl, bind_eq_error_iff.mpr (.inl found)⟩
    · rcases ofSection_error_iff.mp read with fails | ⟨fine, unread⟩
      · have refused := validateEntry_error_iff.mpr fails
        exact .inl ⟨cause, rfl, bind_eq_error_iff.mpr (.inr ⟨entry, found, refused⟩)⟩
      · exact .inr (.config found (validateEntry_ok fine) unread)

theorem checkAll_of_entries {specs : List ComponentSpec}
    (read : Roll.entries list s = specs.map Except.ok) :
    (List.range list.size).forM (checkAt list s) = .ok () := by
  refine forM_ok_iff.mpr fun place member => ?_
  have entry : Roll.entryAt list s place ∈ specs.map Except.ok :=
    read ▸ List.mem_map_of_mem member
  obtain ⟨spec, -, read⟩ := List.mem_map.mp entry
  exact checkAt_of_entryAt read.symm

theorem checkAll_or_deeper {fault : Fault}
    (offence : Roll.FirstOffence knows [] (Roll.entries list s) fault) :
    (∃ cause, fault = .config cause ∧
        (List.range list.size).forM (checkAt list s) = .error cause) ∨
      FirstDeeper knows list s fault := by
  obtain ⟨before, bad, after, parts, -, offends⟩ := offence
  rw [List.append_nil] at offends
  obtain ⟨earlier, rest, whole, front, back⟩ := List.map_eq_append_iff.mp parts
  obtain ⟨place, later, rfl, read, -⟩ := List.map_eq_cons_iff.mp back
  rcases checkAt_or_deeper bad read offends with ⟨cause, rfl, refused⟩ | deeper
  · refine .inl ⟨cause, rfl, forM_error_iff.mpr ⟨earlier, place, later, whole, ?_, refused⟩⟩
    intro other member
    have entry : Roll.entryAt list s other ∈ before.map Except.ok :=
      front ▸ List.mem_map_of_mem member
    obtain ⟨spec, -, read⟩ := List.mem_map.mp entry
    exact checkAt_of_entryAt read.symm
  · exact .inr ⟨earlier, later, place, before, whole, front, deeper⟩

theorem validate_within_reading {ι ω : Type} (crew : Crew ι ω) (listKey : String) (root : Section)
    (h : House ι ω) :
    let s := crew.look h.stage.world
    let loaded := (validate listKey root).outcome s
    (∀ l, ((validate listKey root).runOn s l).1 = loaded) ∧
    (∀ entry l fault,
      (((validateEntry entry).runOn s l).1 = .error fault ↔ FieldFault entry s fault) ∧
      (((ComponentSpec.ofSection entry).runOn s l).1 = .error fault ↔
        FieldFault entry s fault ∨ (∀ other, ¬FieldFault entry s other) ∧
          (entry.getSection "config").outcome s = .error fault)) ∧
    (∀ l fault, ((root.getList listKey).runOn s l).1 = .error fault → loaded = .error fault) ∧
    ∀ l list, ((root.getList listKey).runOn s l).1 = .ok list →
      let checked := ((Supervisor.validate crew list).run h).1
      (∀ specs, checked = .ok specs → loaded = .ok ()) ∧
      (∀ fault, loaded = .error fault → ∃ other, checked = .error other) ∧
      ∀ fault, checked = .error fault →
        (∃ cause, fault = .config cause ∧ loaded = .error cause) ∨
          FirstDeeper (Supervisor.knows crew) list s fault := by
  intro s loaded
  refine ⟨(validate_accounts listKey root).steady s, fun entry l fault => ⟨?_, ?_⟩, ?_, ?_⟩
  · have run : ((validateEntry entry).runOn s l).1 = _ := (validateEntry_accounts entry).steady s l
    rw [run]
    exact validateEntry_error_iff
  · have run : ((ComponentSpec.ofSection entry).runOn s l).1 = _ :=
      (ComponentSpec.ofSection_accounts entry).steady s l
    rw [run]
    exact ofSection_error_iff
  · intro l fault failed
    exact (validate_outcome listKey root s l).trans (bind_eq_error_iff.mpr (.inl failed))
  · intro l list found checked
    have parts : loaded = (List.range list.size).forM (checkAt list s) := by
      have parts := validate_outcome listKey root s l
      rw [found] at parts
      exact parts
    have sifted : checked = Roll.sift (Supervisor.knows crew) [] (Roll.entries list s) :=
      Supervisor.validate_run crew list h
    have accepted (specs : List ComponentSpec) (done : checked = .ok specs) : loaded = .ok () :=
      parts.trans (checkAll_of_entries (Roll.sift_ok (sifted.symm.trans done)).1)
    refine ⟨accepted, fun fault failed => ?_, fun fault failed => ?_⟩
    · cases done : checked with
      | ok specs =>
        rw [accepted specs done] at failed
        cases failed
      | error other => exact ⟨other, rfl⟩
    · rw [parts]
      exact checkAll_or_deeper (Roll.sift_error_iff.mp (sifted.symm.trans failed))

-- The second entry has no type. The reading does not even come to it, since the first one has a
-- truth value for its configuration.
theorem untyped_entry_refused :
    let entries : List Value := [
      .mapping [(.string "name", .string "a"), (.string "type", .string "rec"),
        (.string "config", .bool true)],
      .mapping [(.string "name", .string "b")]]
    let root : Section := { document := [(.string "components", .sequence entries)] }
    let h : House Actor Theatre := { stage := { world := {} } }
    let s := Theatre.crew.look h.stage.world
    (validate "components" root).outcome s = .error (.missing "components.1.type") ∧
      ∃ list, ((root.getList "components").runOn s {}).1 = .ok list ∧
        ∃ fault, ((Supervisor.validate Theatre.crew list).run h).1 = .error fault := by
  intro entries root h s
  have refused : (validate "components" root).outcome s =
      .error (.missing "components.1.type") := by decide +kernel
  obtain ⟨list, found⟩ :=
    Load.ok_of_isOk (m := root.getList "components") (s := s) (l := {}) (by decide +kernel)
  have listed : ((root.getList "components").runOn s {}).1 = .ok list := congrArg Prod.fst found
  obtain ⟨-, -, -, laws⟩ := validate_within_reading Theatre.crew "components" root h
  exact ⟨refused, list, listed, (laws {} list listed).2.1 _ refused⟩

end Document

end Steward
