import Steward.Proofs.Supervision.Offence
import Steward.Proofs.Supervision.Request

set_option autoImplicit false

namespace Steward

namespace Run

variable {ι ω α β : Type}

def Spared (P : α → Prop) : Except Fault α → Prop
  | .ok a => P a
  | .error fault => fault.isRefusal = false

def Spares (m : Run ι ω α) (P : α → Prop) : Prop := ∀ h, Ends m h fun r _ => Spared P r

namespace Spares

variable {m : Run ι ω α} {P : α → Prop}

theorem pure {a : α} (holds : P a) : Spares (Pure.pure a : Run ι ω α) P :=
  fun _ => .pure holds

theorem throw {fault : Fault} (plain : fault.isRefusal = false) :
    Spares (MonadExcept.throw fault : Run ι ω α) P :=
  fun _ => plain

theorem bind {f : α → Run ι ω β} {Q : β → Prop} (first : m.Spares P)
    (rest : ∀ a, P a → (f a).Spares Q) : (m >>= f).Spares Q :=
  fun h => (first h).bind (fun a h' holds => rest a holds h') fun _ _ plain => plain

theorem mono {Q : α → Prop} (spares : m.Spares P) (weaker : ∀ a, P a → Q a) : m.Spares Q := by
  refine fun h => (spares h).mono fun r _ holds => ?_
  cases r with
  | ok a => exact weaker a holds
  | error fault => exact holds

theorem get {f : House ι ω → Run ι ω α} (rest : ∀ h, (f h).Spares P) :
    ((get : Run ι ω (House ι ω)) >>= f).Spares P :=
  fun h => .get (rest h h)

theorem modify (change : House ι ω → House ι ω) :
    Spares (modify change : Run ι ω Unit) fun _ => True :=
  fun _ => True.intro

theorem onStage (m : StateM (Stage ω) α) : (onStage m : Run ι ω α).Spares fun _ => True :=
  fun _ => True.intro

theorem log (records : List Record) : (log records : Run ι ω Unit).Spares fun _ => True :=
  .onStage _

theorem event {level : Level} {event name kind message : String} :
    (Run.event level event name kind message : Run ι ω Unit).Spares fun _ => True :=
  .log _

theorem act {name action : String} {m : Act ω α} :
    (act name action m : Run ι ω α).Spares fun _ => True := by
  intro h
  change Spared _ ((m.run h.stage).1.mapError _)
  cases (m.run h.stage).1 with
  | ok a => exact True.intro
  | error cause => rfl

theorem attempt {m : Run ι ω Unit} {Q : Unit → Prop} (spares : m.Spares Q) :
    (attempt m).Spares fun fault? => ∀ fault ∈ fault?, fault.isRefusal = false := by
  intro h
  have ends := spares h
  unfold Ends at ends
  unfold Run.attempt Ends
  rw [ExceptT.run_mk]
  revert ends
  rcases m.run h with ⟨r, h'⟩
  cases r with
  | ok _ => exact fun _ => nofun
  | error fault =>
    rintro plain _ ⟨⟩
    exact plain

theorem mapM {g : α → Run ι ω β} {Q : β → Prop} (each : ∀ a, (g a).Spares Q) (items : List α) :
    (items.mapM g).Spares fun bs => ∀ b ∈ bs, Q b := by
  induction items with
  | nil => exact pure (by simp)
  | cons a items ih =>
    rw [List.mapM_cons]
    exact (each a).bind fun b first => ih.bind fun bs rest =>
      pure (List.forall_mem_cons.mpr ⟨first, rest⟩)

theorem foldlM {g : β → α → Run ι ω β} (each : ∀ b a, (g b a).Spares fun _ => True)
    (items : List α) (b : β) : (items.foldlM g b).Spares fun _ => True := by
  induction items generalizing b with
  | nil => exact pure True.intro
  | cons a items ih =>
    rw [List.foldlM_cons]
    exact (each b a).bind fun b _ => ih b

end Spares

end Run

structure House.Rests {ι ω : Type} (h h' : House ι ω) : Prop where
  world : h'.stage.world = h.stage.world
  roster : h'.roster = h.roster
  order : h'.order = h.order

theorem House.Rests.trans {ι ω : Type} {h h' h'' : House ι ω} (first : h.Rests h')
    (later : h'.Rests h'') : h.Rests h'' :=
  ⟨later.world.trans first.world, later.roster.trans first.roster, later.order.trans first.order⟩

/-- How a run ends that needs a list to be accepted: nothing has been done about a list that is
refused, and beyond that no list is refused. -/
inductive Run.Judged {ι ω α : Type} (h : House ι ω) :
    Except Fault (List ComponentSpec) → Except Fault α → House ι ω → Prop
  | refused {fault : Fault} {h' : House ι ω} (refusal : fault.isRefusal = true)
      (rests : h.Rests h') : Judged h (.error fault) (.error fault) h'
  | accepted {specs : List ComponentSpec} {r : Except Fault α} {h' : House ι ω}
      (spared : Spared (fun _ => True) r) : Judged h (.ok specs) r h'

namespace Run.Judged

variable {ι ω α : Type} {h h' : House ι ω} {checked : Except Fault (List ComponentSpec)}
  {r : Except Fault α}

theorem error_iff (judged : Judged h checked r h') (fault : Fault) :
    (r = .error fault ∧ fault.isRefusal = true) ↔ checked = .error fault := by
  cases judged with
  | refused refusal rests =>
    constructor
    · rintro ⟨⟨⟩, -⟩
      rfl
    · rintro ⟨⟩
      exact ⟨rfl, refusal⟩
  | accepted spared =>
    refine ⟨?_, nofun⟩
    rintro ⟨rfl, refusal⟩
    cases refusal.symm.trans spared

theorem rests (judged : Judged h checked r h') {fault : Fault} (refused : checked = .error fault) :
    h.Rests h' := by
  cases judged with
  | refused refusal rests => exact rests
  | accepted spared => cases refused

theorem of_rests {h₁ : House ι ω} (rests : h.Rests h₁) (judged : Judged h₁ checked r h') :
    Judged h checked r h' := by
  cases judged with
  | refused refusal later => exact .refused refusal (rests.trans later)
  | accepted spared => exact .accepted spared

variable {β : Type} {m : Run ι ω α} {f : α → Run ι ω β}

theorem of_read {read : Except Fault α} {check : α → Except Fault (List ComponentSpec)}
    (first : Ends m h fun r h' => r = read ∧ h.Rests h')
    (refusals : ∀ fault, read = .error fault → fault.isRefusal = true)
    (rest : ∀ a h', h.Rests h' → Ends (f a) h' (Judged h' (check a))) :
    Ends (m >>= f) h (Judged h (read >>= check)) := by
  refine first.bind ?_ ?_
  · rintro a h' ⟨rfl, rests⟩
    exact (rest a h' rests).mono fun _ _ judged => judged.of_rests rests
  · rintro fault h' ⟨rfl, rests⟩
    exact .refused (refusals fault rfl) rests

theorem bind (first : Ends m h (Judged h checked)) (rest : ∀ a, (f a).Spares fun _ => True) :
    Ends (m >>= f) h (Judged h checked) := by
  refine Ends.bind first ?_ ?_
  · intro a h' judged
    cases judged with
    | accepted => exact (rest a h').mono fun _ _ spared => .accepted spared
  · intro fault h' judged
    cases judged with
    | refused refusal rests => exact .refused refusal rests
    | accepted spared => exact .accepted spared

end Run.Judged

namespace Supervisor

open Run (Ends Spares Judged)

variable {ι ω : Type} (crew : Crew ι ω) (p : Policy)

theorem stopMember_spares (m : Member ι) : (stopMember crew m).Spares fun _ => True := by
  unfold stopMember
  split
  · exact .bind .event fun _ _ => .bind (.modify _) fun _ _ => .act
  · exact .pure True.intro

theorem stopOld_spares (old : Option (Member ι)) : (stopOld crew old).Spares fun _ => True := by
  cases old with
  | none => exact .pure True.intro
  | some m => exact stopMember_spares crew m

theorem create_spares {spec : ComponentSpec} (known : knows crew spec.kind = true)
    (old : Option (Member ι)) : (create crew spec old).Spares fun _ => True := by
  obtain ⟨maker, found⟩ := (Table.has_iff _ _).mp known
  unfold create
  rw [found]
  exact .bind (stopOld_spares crew old) fun _ _ => .bind .event fun _ _ =>
    .bind .act fun _ _ => .modify _

theorem replace_spares (spec : ComponentSpec) (old : Member ι) (i instead : ι) :
    (replace crew spec old i instead).Spares fun _ => True := by
  unfold replace
  split
  · exact .bind .event fun _ _ => .bind .act fun _ _ => .bind (.modify _) fun _ _ =>
      .modify _
  · exact .modify _

theorem reload_spares (spec : ComponentSpec) (old : Member ι) (i : ι) :
    (reload crew spec old i).Spares fun _ => True := by
  unfold reload
  refine .bind .event fun _ _ => .bind .act fun answer _ => ?_
  cases answer with
  | inPlace => exact .bind (.modify _) fun _ _ => .pure True.intro
  | replace instead =>
    exact .bind (replace_spares crew spec old i instead) fun _ _ => .pure True.intro

theorem settle_spares {spec : ComponentSpec} (known : knows crew spec.kind = true) :
    (settle crew p spec).Spares fun _ => True := by
  have made (old : Option (Member ι)) : Spares (do
      create crew spec old
      return true) fun _ => True :=
    .bind (create_spares crew known old) fun _ _ => .pure True.intro
  unfold settle Run.member?
  refine .bind (P := fun _ => True) (.get fun h => .pure True.intro) fun old _ => ?_
  split
  · unfold disable
    exact .bind (.bind (stopOld_spares crew old) fun _ _ => .bind .event fun _ _ =>
      .modify _) fun _ _ => .pure True.intro
  · split
    · split
      · split
        · refine .get fun h => .bind (.log _) fun _ _ => ?_
          split
          · exact reload_spares crew spec _ _
          · exact .bind .event fun _ _ => .pure True.intro
        · exact made _
      · exact made _
    · exact made _

theorem settleAll_spares {specs : List ComponentSpec}
    (known : ∀ spec ∈ specs, knows crew spec.kind = true) :
    (settleAll crew p specs).Spares fun _ => True := by
  induction specs with
  | nil => exact .pure True.intro
  | cons spec specs ih =>
    obtain ⟨first, rest⟩ := List.forall_mem_cons.mp known
    unfold settleAll
    exact .bind (settle_spares crew p first) fun _ _ => .bind (ih rest) fun _ _ =>
      .pure True.intro

theorem remove_spares (what : String → String) (m : Member ι) :
    (remove crew what m).Spares fun fault? => ∀ fault ∈ fault?, fault.isRefusal = false := by
  unfold remove
  exact .bind (.modify _) fun _ _ => .bind (.attempt (stopMember_spares crew m)) fun _ plain =>
    .bind (.log _) fun _ _ => .pure plain

theorem removeAbsent_spares (present : List String) :
    (removeAbsent crew present).Spares fun _ => True := by
  unfold removeAbsent
  refine .get fun h => .bind (.mapM (Q := fun fault? => ∀ fault ∈ fault?, fault.isRefusal = false)
    (fun row => ?_) _) fun faults plain => ?_
  · exact .bind (remove_spares crew _ row.2) fun _ plain => .bind .event fun _ _ =>
      .pure plain
  · split
    · next fault found =>
      obtain ⟨fault?, member, same⟩ := List.exists_of_findSome?_eq_some found
      exact .throw (plain fault? member fault same)
    · exact .pure True.intro

theorem launch_spares (i : ι) (name : String) (budget : Span) (left : Nat) :
    (Start.launch crew i name budget left).Spares fun _ => True := by
  have late : (Start.giveUp name budget : Run ι ω Nat).Spares fun _ => True :=
    .bind (.log _) fun _ _ => .throw rfl
  unfold Start.launch
  split
  · exact late
  · refine .bind (.onStage _) fun took _ => ?_
    split
    · exact .bind (.onStage _) fun _ _ => .bind .act fun _ _ => .pure True.intro
    · exact .bind (.onStage _) fun _ _ => .bind (.onStage _) fun _ _ => late

theorem one_spares (budget : Span) (left : Nat) (name : String) :
    (Start.one crew budget left name).Spares fun _ => True := by
  unfold Start.one Run.member?
  refine .bind (P := fun _ => True) (.get fun h => .pure True.intro) fun found _ => ?_
  split
  · refine .bind (P := fun _ => True) ?_ fun _ _ => .bind .event fun _ _ =>
      .bind (launch_spares crew _ name budget left) fun _ _ => .bind (.modify _) fun _ _ =>
        .bind (.modify _) fun _ _ => .pure True.intro
    unfold Start.callHook
    split
    · exact .act
    · exact .pure True.intro
  · exact .pure True.intro

theorem batch_spares (queue : List String) :
    (Start.batch crew p queue).Spares fun _ => True := by
  unfold Start.batch
  split
  · exact .pure True.intro
  · exact .bind (.log _) fun _ _ => .bind (.foldlM (one_spares crew _) queue _) fun _ _ =>
      .pure True.intro

theorem reconcileSpecs_spares {specs : List ComponentSpec}
    (known : ∀ spec ∈ specs, knows crew spec.kind = true) :
    (reconcileSpecs crew p specs).Spares fun _ => True := by
  unfold reconcileSpecs
  exact .bind (settleAll_spares crew p known) fun queue _ => .bind (removeAbsent_spares crew _)
    fun _ _ => batch_spares crew p queue

theorem validate_run (list : Listing) (h : House ι ω) :
    ((validate crew list).run h).1 =
      Roll.sift (knows crew) [] (Roll.entries list (crew.look h.stage.world)) :=
  Roll.read_run (knows crew) list (crew.look h.stage.world) h.stage.loading

theorem validate_ends (list : Listing) (h : House ι ω) :
    Ends (validate crew list) h fun r h' =>
      r = Roll.sift (knows crew) [] (Roll.entries list (crew.look h.stage.world)) ∧ h.Rests h' :=
  ⟨validate_run crew list h, rfl, rfl, rfl⟩

theorem reconcile_judged (list : Listing) (initial : Bool) (h : House ι ω) :
    Ends (reconcile crew p list initial) h
      (Judged h (Roll.sift (knows crew) [] (Roll.entries list (crew.look h.stage.world)))) := by
  unfold reconcile openPass
  simp only [bind_assoc, pure_bind]
  refine (validate_ends crew list h).bind ?_ ?_
  · rintro specs h' ⟨read, -⟩
    rw [← read]
    refine .log ((reconcileSpecs_spares crew p (Roll.sift_ok read.symm).2.known _).mono ?_)
    exact fun r h' spared => .accepted spared
  · rintro fault h' ⟨read, rests⟩
    rw [← read]
    exact .refused (Roll.sift_error_iff.mp read.symm).isRefusal rests

end Supervisor

variable {ι ω : Type}

theorem House.refuses_as_validated (crew : Crew ι ω) (p : Policy) (list : Listing) (initial : Bool)
    (h : House ι (Chronicle ι ω)) :
    let entries := Roll.entries list (crew.look h.stage.world.world)
    let checked := ((Supervisor.validate crew.chronicled list).run h).1
    let passed := (Supervisor.reconcile crew.chronicled p list initial).run h
    (∀ fault, (passed.1 = .error fault ∧ fault.isRefusal = true) ↔ checked = .error fault) ∧
    (∀ fault, checked = .error fault ↔ Roll.FirstOffence crew.makers.has [] entries fault) ∧
    (∀ fault, checked = .error fault → passed.2.ledger = h.ledger) ∧
    ∀ specs, checked = .ok specs → entries = specs.map Except.ok ∧
      (specs.map (·.name)).Nodup ∧
      ∀ spec ∈ specs, spec.name ≠ "" ∧ Text.trimmed spec.name = spec.name ∧
        crew.makers.has spec.kind = true := by
  intro entries checked passed
  have sifted : checked = Roll.sift crew.makers.has [] entries := by
    have run := Supervisor.validate_run crew.chronicled list h
    rw [Supervisor.knows_chronicled] at run
    exact run
  have judged : Run.Judged h checked passed.1 passed.2 := by
    have judged := Supervisor.reconcile_judged crew.chronicled p list initial h
    rw [Supervisor.knows_chronicled] at judged
    rw [sifted]
    exact judged
  refine ⟨judged.error_iff, fun fault => ?_, fun fault refused => ?_, fun specs accepted => ?_⟩
  · rw [sifted]
    exact Roll.sift_error_iff
  · obtain ⟨world, roster, order⟩ := judged.rests refused
    simp only [House.ledger, world, roster, order]
  · obtain ⟨read, orderly⟩ := Roll.sift_ok (sifted.symm.trans accepted)
    refine ⟨read, orderly.nodup, fun spec member => ?_⟩
    have neat := Roll.neat_of_entries read spec member
    exact ⟨neat.named, neat.trimmed, orderly.known spec member⟩

theorem House.rehearsed_refusal :
    let h := Theatre.rehearsal [.asked (.reconcile { items := [Theatre.entry "a" "rec" []] } true)]
    let list : Listing := { items := [Theatre.entry "b" "rec" [], Theatre.entry " b" "rec" [],
      Theatre.entry "c" "ghost" []] }
    let passed := (Supervisor.reconcile Theatre.crew.chronicled {} list false).run h
    h.order = ["a"] ∧ passed.1 = .error (.component (.duplicateName "b")) ∧
      ((Supervisor.validate Theatre.crew.chronicled list).run h).1 =
        .error (.component (.duplicateName "b")) ∧
      passed.2.ledger = h.ledger := by
  intro h list passed
  have laws := House.refuses_as_validated Theatre.crew {} list false h
  have failed : passed.1 = .error (.component (.duplicateName "b")) := by decide +kernel
  have refused := (laws.1 _).mp ⟨failed, rfl⟩
  exact ⟨by decide +kernel, failed, refused, laws.2.2.1 _ refused⟩

end Steward
