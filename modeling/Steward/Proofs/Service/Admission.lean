import Steward.Command.Validate
import Steward.Proofs.Supervision.Idempotence
import Steward.Proofs.Supervision.Refusal
import Steward.Service.Life

set_option autoImplicit false

namespace Steward

open LoadOr (Steady)

namespace Document

open Load (Accounts)

theorem required_accounts {α τ : Type} [Typed α]
    (blind : ∀ s s' v, Typed.ofValue (α := α) s v = Typed.ofValue s' v) (key : String)
    (checks : List (Check α)) (sec : Section) (t : τ) :
    (Step.required α key checks sec t).Accounts :=
  .bind (Section.fetch_accounts fun _ _ env => Section.require_env blind env checks) fun _ =>
    .pure _

theorem optional_accounts {α τ : Type} [Typed α]
    (blind : ∀ s s' v, Typed.ofValue (α := α) s v = Typed.ofValue s' v) (key : String)
    (sec : Section) (t : τ) : (Step.optional α key sec t).Accounts := by
  refine .bind (Section.fetch_accounts fun s s' env => ?_) fun _ => .pure _
  simp only [Section.get, Section.resolve, env, blind s' s]

theorem validateEntry_accounts (entry : Section) : (validateEntry entry).Accounts := by
  unfold validateEntry
  rw [Reading.run_eq_foldlM]
  refine .foldlM (fun step member t => ?_) ()
  simp only [entrySteps, List.mem_cons, List.not_mem_nil, or_false] at member
  rcases member with rfl | rfl | rfl | rfl
  · exact required_accounts (fun _ _ _ => rfl) _ _ entry t
  · exact required_accounts (fun _ _ _ => rfl) _ _ entry t
  · exact optional_accounts (fun _ _ _ => rfl) _ entry t
  · exact optional_accounts (fun _ _ _ => rfl) _ entry t

theorem getList_accounts (sec : Section) (key : String) : (sec.getList key).Accounts :=
  Listing.build_accounts _ sec.table _ sec.base

theorem validate_accounts (listKey : String) (root : Section) :
    (validate listKey root).Accounts := by
  have each (list : Listing) (places : List Nat) :
      Accounts (places.forM fun i => do validateEntry (← list.get i)) := by
    induction places with
    | nil => exact .pure ()
    | cons place places ih =>
      exact .bind (.bind (Roll.get_accounts list place) validateEntry_accounts) fun _ => ih
  unfold validate
  exact .bind (getList_accounts root listKey) fun list => each list _

theorem ofFile_accounts (listKey : String) (p : Path) : (ofFile listKey p).Accounts := by
  unfold ofFile
  exact .bind (Section.ofFile_accounts p) fun root => .bind (validate_accounts listKey root)
    fun _ => .bind (.note _) fun _ => .pure root

end Document

namespace Command

theorem listOf_steady (listKey : String) (p : Path) (s : Surroundings) :
    Steady (listOf listKey p) s :=
  Load.Accounts.steady (.bind (Document.ofFile_accounts listKey p) fun root =>
    Document.getList_accounts root listKey) s

theorem read_steady (knows : String → Bool) (list : Listing) (s : Surroundings) :
    Steady (Roll.read knows list) s :=
  .of_eq (Roll.read_run knows list s)

theorem entriesOf_steady (knows : String → Bool) (listKey : String) (p : Path)
    (s : Surroundings) : Steady (entriesOf knows listKey p) s :=
  .bind ((listOf_steady listKey p s).mapFault _) fun list => read_steady knows list s

theorem entriesOf_outcome (knows : String → Bool) (listKey : String) (p : Path)
    (s : Surroundings) :
    (entriesOf knows listKey p).outcome s = (do
      let root ← ((Document.ofFile listKey p).outcome s).mapError Fault.config
      let list ← ((root.getList listKey).outcome s).mapError Fault.config
      Roll.sift knows [] (Roll.entries list s)) := by
  have list : (listOf listKey p).outcome s =
      (Document.ofFile listKey p).outcome s >>= fun root => (root.getList listKey).outcome s :=
    Steady.outcome_bind ((Document.ofFile_accounts listKey p).steady s) fun root =>
      (Document.getList_accounts root listKey).steady s
  unfold entriesOf
  rw [Steady.outcome_bind ((listOf_steady listKey p s).mapFault _) fun list =>
    read_steady knows list s, LoadOr.outcome_mapFault, list]
  cases (Document.ofFile listKey p).outcome s with
  | error cause => rfl
  | ok root =>
    cases found : (root.getList listKey).outcome s with
    | error cause => simp [bind, Except.bind, Except.mapError, found]
    | ok list =>
      simp only [bind, Except.bind, Except.mapError, found]
      exact Roll.read_run knows list s {}

end Command

namespace Service

open Run (Ends Spares Judged)

variable {ι ω : Type} (crew : Crew ι ω) (p : Policy) (o : ServicePlan)

def bringUp : Life ι ω Section := do
  let root ← readDocument crew o (Document.ofFile o.listKey o.path)
  let list ← readDocument crew o (root.getList o.listKey)
  Supervisor.reconcile (Duty.crewOf crew o) p list true
  return root

def standBy (today : Moment) (root : Section) : Life ι ω Bool := do
  let automatic ← isAutomatic crew o root
  if automatic then
    let _ ← Run.onStage (Vigil.start o.period today)
  Run.log [.info .service (readyMessage (← get).roster.size automatic)]
  return automatic

theorem load_eq (today : Moment) :
    load crew p o today = bringUp crew p o >>= standBy crew o today := by
  unfold load bringUp standBy
  simp only [bind_assoc, pure_bind]

theorem knows_crewOf : Supervisor.knows (Duty.crewOf crew o) = Supervisor.knows crew := by
  funext kind
  have found : (Duty.crewOf crew o).makers.get? kind = _ := crew.makers_within _ _ _ kind
  unfold Supervisor.knows Table.has
  rw [found, Option.isSome_map]

def sight (h : House ι (Post ω)) : Surroundings := crew.look h.stage.world.world.world

theorem readDocument_ends {α : Type} {m : Load α} (accounts : m.Accounts)
    (h : House ι (Post ω)) :
    Ends (readDocument crew o m) h fun r h' =>
      r = (LoadOr.outcome m (sight crew h)).mapError Fault.config ∧ h.Rests h' :=
  ⟨congrArg (Except.mapError Fault.config) (accounts.steady (sight crew h) h.stage.loading),
    rfl, rfl, rfl⟩

theorem isRefusal_of_mapError {α : Type} {read : Except ConfigFault α} {fault : Fault}
    (failed : read.mapError Fault.config = .error fault) : fault.isRefusal = true := by
  cases read with
  | ok a => cases failed
  | error cause =>
    cases failed
    rfl

theorem bringUp_judged (h : House ι (Post ω)) :
    Ends (bringUp crew p o) h
      (Judged h ((Command.entriesOf (Supervisor.knows crew) o.listKey o.path).outcome
        (sight crew h))) := by
  rw [Command.entriesOf_outcome]
  unfold bringUp
  refine .of_read (readDocument_ends crew o (Document.ofFile_accounts o.listKey o.path) h)
    (fun _ => isRefusal_of_mapError) fun root h₁ rests => ?_
  have sees : sight crew h₁ = sight crew h := by unfold sight; rw [rests.world]
  rw [← sees]
  refine .of_read (readDocument_ends crew o (Document.getList_accounts root o.listKey) h₁)
    (fun _ => isRefusal_of_mapError) fun list h₂ rests => ?_
  have sees : sight crew h₂ = sight crew h₁ := by unfold sight; rw [rests.world]
  rw [← sees, ← knows_crewOf crew o]
  exact Judged.bind (Supervisor.reconcile_judged (Duty.crewOf crew o) p list true h₂) fun _ =>
    .pure True.intro

theorem bringUp_gives (h : House ι (Post ω)) :
    Ends (bringUp crew p o) h fun r _ => ∀ root, r = .ok root →
      (Document.ofFile o.listKey o.path).outcome (sight crew h) = .ok root := by
  unfold bringUp
  refine (readDocument_ends crew o (Document.ofFile_accounts o.listKey o.path) h).bind ?_
    fun _ _ _ => nofun
  rintro root h₁ ⟨read, -⟩
  refine Ends.bind (P := fun _ _ => True) True.intro (fun list h₂ _ => ?_) fun _ _ _ => nofun
  refine Ends.bind (P := fun _ _ => True) True.intro (fun _ h₃ _ => ?_) fun _ _ _ => nofun
  rintro _ ⟨⟩
  cases found : (Document.ofFile o.listKey o.path).outcome (sight crew h) with
  | ok document =>
    rw [found] at read
    cases read
    rfl
  | error cause =>
    rw [found] at read
    cases read

theorem standBy_ends (today : Moment) (root : Section) (h : House ι (Post ω)) :
    Ends (standBy crew o today root) h fun r _ => ∀ fault, r = .error fault ↔
      o.autoreload = none ∧ ∃ cause,
        root.get (α := Bool) (sight crew h) autoreloadKey = .error cause ∧
        fault = .config cause := by
  -- Once it is known whether to watch, nothing fails any more.
  have rest (automatic : Bool) (h' : House ι (Post ω)) : Ends (do
      if automatic then
        let _ ← Run.onStage (Vigil.start o.period today)
      Run.log [.info .service (readyMessage (← get).roster.size automatic)]
      return automatic : Life ι ω Bool) h' fun r _ => r = .ok automatic := by
    cases automatic <;> rfl
  unfold standBy isAutomatic
  cases wish : o.autoreload with
  | some automatic =>
    refine (rest automatic h).mono ?_
    rintro r h' rfl
    simp
  | none =>
    simp only [bind_assoc, pure_bind]
    have read : Ends (readDocument crew o (root.fetch autoreloadKey fun sec s key =>
        sec.get (α := Bool) s key)) h fun r _ =>
        r = (root.get (α := Bool) (sight crew h) autoreloadKey).mapError Fault.config := rfl
    refine read.bind ?_ ?_
    · intro found h' got
      refine (rest (found.getD false) h').mono ?_
      rintro r h'' rfl fault
      cases understood : root.get (α := Bool) (sight crew h) autoreloadKey with
      | ok wish => simp
      | error cause =>
        rw [understood] at got
        cases got
    · intro fault h' got other
      cases understood : root.get (α := Bool) (sight crew h) autoreloadKey with
      | ok wish =>
        rw [understood] at got
        cases got
      | error cause =>
        rw [understood] at got
        cases got
        simp [eq_comm]

/-- All has been done that the document asks for, and only then its wish about automatic reloads
cannot be read. -/
inductive Misread (h : House ι (Post ω)) : Fault → Prop
  | late {root : Section} {up : House ι (Post ω)} {cause : ConfigFault}
      (undecided : o.autoreload = none)
      (document : (Document.ofFile o.listKey o.path).outcome (sight crew h) = .ok root)
      (begun : (bringUp crew p o).run h = (.ok root, up))
      (unread : root.get (α := Bool) (sight crew up) autoreloadKey = .error cause) :
      Misread h (.config cause)

theorem load_error_iff (today : Moment) (h : House ι (Post ω)) (fault : Fault) :
    (((load crew p o today).run h).1 = .error fault ∧ fault.isRefusal = true) ↔
      (Command.entriesOf (Supervisor.knows crew) o.listKey o.path).outcome (sight crew h) =
        .error fault ∨ Misread crew p o h fault := by
  have judged := bringUp_judged crew p o h
  have gives := bringUp_gives crew p o h
  unfold Ends at judged gives
  rw [← judged.error_iff, load_eq, Run.run_bind]
  rcases ran : (bringUp crew p o).run h with ⟨r, up⟩
  rw [ran] at gives
  constructor
  · rintro ⟨failed, refusal⟩
    cases r with
    | error cause =>
      cases failed
      exact .inl ⟨rfl, refusal⟩
    | ok root =>
      obtain ⟨undecided, cause, unread, rfl⟩ := (standBy_ends crew o today root up fault).mp failed
      exact .inr (.late undecided (gives root rfl) ran unread)
  · rintro (⟨failed, refusal⟩ | misread)
    · cases failed
      exact ⟨rfl, refusal⟩
    · cases misread with
      | @late root up cause undecided document begun unread =>
        cases ran.symm.trans begun
        exact ⟨(standBy_ends crew o today root up _).mpr ⟨undecided, cause, unread, rfl⟩, rfl⟩

theorem load_rests (h : House ι (Post ω)) (fault : Fault) (today : Moment)
    (refused : (Command.entriesOf (Supervisor.knows crew) o.listKey o.path).outcome
      (sight crew h) = .error fault) :
    h.Rests ((load crew p o today).run h).2 := by
  have judged := bringUp_judged crew p o h
  unfold Ends at judged
  rw [refused] at judged
  rw [load_eq, Run.run_bind]
  generalize (bringUp crew p o).run h = ended at judged
  obtain ⟨r, up⟩ := ended
  generalize checked : Except.error fault = e at judged
  cases judged with
  | refused refusal rests => exact rests
  | accepted spared => cases checked

theorem load_admission (crew : Crew ι ω) (p : Policy) (o : ServicePlan) (today : Moment)
    (h : House ι (Post (Chronicle ι ω))) :
    let s := crew.look h.stage.world.world.world.world
    let checked := (Command.entriesOf crew.makers.has o.listKey o.path).outcome s
    let loaded := (load crew.chronicled p o today).run h
    (∀ l, ((Command.entriesOf crew.makers.has o.listKey o.path).runOn s l).1 = checked) ∧
    (∀ fault, (loaded.1 = .error fault ∧ fault.isRefusal = true) ↔
      checked = .error fault ∨ Misread crew.chronicled p o h fault) ∧
    (∀ fault, checked = .error fault → h.Rests loaded.2) ∧
    ((o.autoreload ≠ none ∨ ∀ root, (Document.ofFile o.listKey o.path).outcome s = .ok root →
        ∀ later, (root.get (α := Bool) later autoreloadKey).isOk = true) →
      ∀ fault, loaded.1 = .error fault → fault.isRefusal = true →
        checked = .error fault ∧ h.Rests loaded.2) := by
  intro s checked loaded
  have refused := load_error_iff crew.chronicled p o today h
  have rests (fault : Fault) := load_rests crew.chronicled p o h fault today
  rw [Supervisor.knows_chronicled] at refused rests
  refine ⟨Command.entriesOf_steady crew.makers.has o.listKey o.path s, refused, rests, ?_⟩
  intro readable fault failed refusal
  rcases (refused fault).mp ⟨failed, refusal⟩ with invalid | misread
  · exact ⟨invalid, rests fault invalid⟩
  · cases misread with
    | @late root up cause undecided document begun unread =>
      rcases readable with decided | readable
      · exact absurd undecided decided
      · have understood := readable root document (sight crew.chronicled up)
        rw [unread] at understood
        cases understood

theorem rehearsed_admission :
    let crew := Theatre.crewBefore
      [("/etc/main.yaml", "components:\n- name: a\n  type: rec\n- name: a\n  type: direct\n")]
    let h : House Actor (Post (Chronicle Actor Theatre)) :=
      { stage := { world := Duty.ofWorld ⟨{}, []⟩ } }
    let loaded := (load crew.chronicled {} { path := ⟨"/etc/main.yaml"⟩ } 0).run h
    loaded.1 = .error (.component (.duplicateName "a")) ∧ h.Rests loaded.2 := by
  intro crew h loaded
  have failed : loaded.1 = .error (.component (.duplicateName "a")) := by decide +kernel
  obtain ⟨-, refused, rests, -⟩ := load_admission crew {} { path := ⟨"/etc/main.yaml"⟩ } 0 h
  rcases (refused _).mp ⟨failed, rfl⟩ with invalid | misread
  · exact ⟨failed, rests _ invalid⟩
  · cases misread

def unreadFiles : List (String × String) :=
  [("/etc/main.yaml", "autoreload: maybe\ncomponents:\n- name: a\n  type: rec\n")]

-- The list is fine and its component runs, and still the load is refused.
theorem rehearsed_misread :
    let crew := Theatre.crewBefore unreadFiles
    let o : ServicePlan := { path := ⟨"/etc/main.yaml"⟩ }
    let h : House Actor (Post (Chronicle Actor Theatre)) :=
      { stage := { world := Duty.ofWorld ⟨{}, []⟩ } }
    let loaded := (load crew.chronicled {} o 0).run h
    ((Command.entriesOf crew.makers.has o.listKey o.path).outcome
      (.ofFiles unreadFiles)).isOk = true ∧
    loaded.1 = .error (.config (.mistyped "autoreload" "bool" (.notBool "maybe"))) ∧
    loaded.2.order = ["a"] ∧ loaded.2.stage.world.world.world.calls.length = 3 := by
  decide +kernel

end Service

end Steward
