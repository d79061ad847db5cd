import Steward.Proofs.Supervision.Offence
import Steward.Proofs.Supervision.Turn
import Steward.Supervision.Request

set_option autoImplicit false

namespace Steward

variable {ι ω α β : Type}

def LoadOr.Trails {ε : Type} (m : LoadOr ε α) : Prop :=
  ∀ s l, ∃ trail, (m.runOn s l).2 = l.after trail

namespace LoadOr.Trails

variable {ε δ : Type} {m : LoadOr ε α} {f : α → LoadOr ε β}

theorem of_accounts {m : Load α} (accounts : m.Accounts) : LoadOr.Trails m := by
  intro s l
  obtain ⟨r, trail, obstacle, settles, -⟩ := accounts s
  exact ⟨trail, congrArg Prod.snd (settles s (.refl _ s) (fun _ _ _ => rfl) l)⟩

theorem mapFault (trails : m.Trails) (g : ε → δ) : (LoadOr.mapFault g m).Trails := trails

theorem pure (a : α) : Trails (Pure.pure a : LoadOr ε α) := fun _ _ => ⟨[], rfl⟩

theorem throw (fault : ε) : Trails (MonadExcept.throw fault : LoadOr ε α) := fun _ _ => ⟨[], rfl⟩

theorem fetch (sec : Section) (key : String)
    (f : Section → Surroundings → String → Except ConfigFault α) : Trails (sec.fetch key f) :=
  fun s _ => ⟨[.noted (sec.getNotes s key)], rfl⟩

theorem bind (first : m.Trails) (rest : ∀ a, (f a).Trails) : (m >>= f).Trails := by
  intro s l
  rw [runOn_bind]
  obtain ⟨front, left⟩ := first s l
  revert left
  rcases m.runOn s l with ⟨r, l₁⟩
  rintro rfl
  cases r with
  | error fault => exact ⟨front, rfl⟩
  | ok a =>
    obtain ⟨back, left⟩ := rest a s (l.after front)
    exact ⟨front ++ back, by rw [Loading.after_append]; exact left⟩

end LoadOr.Trails

theorem Roll.read_trails (knows : String → Bool) (list : Listing) :
    LoadOr.Trails (Roll.read knows list) := by
  have from_ (places : List Nat) (seen : List String) :
      LoadOr.Trails (Roll.readFrom knows list seen places) := by
    induction places generalizing seen with
    | nil => exact .pure []
    | cons place places ih =>
      have entry : LoadOr.Trails (do ComponentSpec.ofSection (← list.get place)) :=
        .of_accounts (.bind (Roll.get_accounts list place) ComponentSpec.ofSection_accounts)
      unfold Roll.readFrom
      refine .bind (entry.mapFault Fault.config) fun spec => ?_
      split
      · exact .throw _
      · split
        · exact .throw _
        · exact .bind (ih _) fun rest => .pure _
  exact from_ _ _

namespace Stage

def Keeps (S : Stage ω → Prop) (m : StateM (Stage ω) α) : Prop := ∀ s, S s → S (m s).2

def mark (s : Stage ω) (m : Mark) : Stage ω := s.withLoading (s.loading.mark m)

theorem of_trail {S : Stage ω → Prop} (marks : ∀ s m, S s → S (s.mark m)) {s : Stage ω}
    (holds : S s) (trail : List Mark) : S (s.withLoading (s.loading.after trail)) := by
  induction trail generalizing s with
  | nil => exact holds
  | cons m trail ih => exact ih (marks s m holds)

end Stage

structure Crew.Upholds (crew : Crew ι ω) (S : Stage ω → Prop) : Prop where
  mark : ∀ s m, S s → S (s.mark m)
  create : ∀ kind maker, crew.makers.get? kind = some maker → ∀ name config,
    Stage.Keeps S (maker.create name config).run
  begin_ : ∀ i name, Stage.Keeps S (crew.begin_ i name)
  finish : ∀ i name, Stage.Keeps S (crew.finish i name).run
  cancel : ∀ i name elapsed, Stage.Keeps S (crew.cancel i name elapsed)
  stop : ∀ i name, Stage.Keeps S (crew.stop i name).run
  reload : ∀ i name config, Stage.Keeps S (crew.reload i name config).run
  hook : ∀ hook, crew.hook = some hook → ∀ name config, Stage.Keeps S (hook name config).run
  wait : ∀ n, Stage.Keeps S (crew.wait n)

namespace Run

def Upholds (S : Stage ω → Prop) (m : Run ι ω α) : Prop := ∀ h, S h.stage → S (m.run h).2.stage

namespace Upholds

variable {S : Stage ω → Prop} {m : Run ι ω α}

theorem pure (a : α) : Upholds S (Pure.pure a : Run ι ω α) := fun _ holds => holds

theorem throw (fault : Fault) : Upholds S (MonadExcept.throw fault : Run ι ω α) :=
  fun _ holds => holds

theorem bind {f : α → Run ι ω β} (first : Upholds S m) (rest : ∀ a, Upholds S (f a)) :
    Upholds S (m >>= f) := by
  intro h holds
  have next := first h holds
  rw [run_bind]
  revert next
  rcases m.run h with ⟨r, h'⟩
  intro next
  cases r with
  | ok a => exact rest a h' next
  | error fault => exact next

theorem get {f : House ι ω → Run ι ω α} (rest : ∀ h, Upholds S (f h)) :
    Upholds S ((get : Run ι ω (House ι ω)) >>= f) :=
  fun h => rest h h

theorem modify {change : House ι ω → House ι ω} (apart : ∀ h, (change h).stage = h.stage) :
    Upholds S (modify change : Run ι ω Unit) :=
  fun h holds => (apart h).symm ▸ holds

theorem onStage {m : StateM (Stage ω) α} (keeps : Stage.Keeps S m) :
    Upholds S (onStage m : Run ι ω α) :=
  fun h => keeps h.stage

theorem act {name action : String} {m : Act ω α} (keeps : Stage.Keeps S m.run) :
    Upholds S (act name action m : Run ι ω α) :=
  fun h => keeps h.stage

theorem load {look : ω → Surroundings} {m : LoadOr Fault α} (marks : ∀ s m, S s → S (s.mark m))
    (trails : m.Trails) : Upholds S (load look m : Run ι ω α) := by
  intro h holds
  obtain ⟨trail, left⟩ := trails (look h.stage.world) h.stage.loading
  have kept := Stage.of_trail marks holds trail
  rw [← left] at kept
  exact kept

theorem log (marks : ∀ s m, S s → S (s.mark m)) (records : List Record) :
    Upholds S (log records : Run ι ω Unit) :=
  fun h => marks h.stage (.noted records)

theorem event (marks : ∀ s m, S s → S (s.mark m)) {level : Level}
    {event name kind message : String} :
    Upholds S (Run.event level event name kind message : Run ι ω Unit) :=
  .log marks _

theorem attempt {m : Run ι ω Unit} (upholds : Upholds S m) : Upholds S (attempt m) := by
  intro h holds
  have next := upholds h holds
  unfold Run.attempt
  rw [ExceptT.run_mk]
  revert next
  rcases m.run h with ⟨r, h'⟩
  cases r <;> exact id

theorem mapM {g : α → Run ι ω β} (each : ∀ a, Upholds S (g a)) (items : List α) :
    Upholds S (items.mapM g) := by
  induction items with
  | nil => exact pure []
  | cons a items ih =>
    rw [List.mapM_cons]
    exact (each a).bind fun b => ih.bind fun bs => pure (b :: bs)

theorem foldlM {g : β → α → Run ι ω β} (each : ∀ b a, Upholds S (g b a)) (items : List α)
    (b : β) : Upholds S (items.foldlM g b) := by
  induction items generalizing b with
  | nil => exact pure b
  | cons a items ih =>
    rw [List.foldlM_cons]
    exact (each b a).bind ih

theorem member? {f : Option (Member ι) → Run ι ω α} (name : String)
    (rest : ∀ found, Upholds S (f found)) : Upholds S (Run.member? name >>= f) :=
  fun h => rest (h.roster.get? name) h

end Upholds

end Run

namespace Supervisor

open Run (Upholds)

variable {crew : Crew ι ω} {S : Stage ω → Prop} (keeps : crew.Upholds S) (p : Policy)

include keeps

theorem stopMember_upholds (m : Member ι) : Upholds S (stopMember crew m) := by
  unfold stopMember
  split
  · refine .bind (.event keeps.mark) fun _ => .bind (.modify fun _ => rfl) fun _ => ?_
    exact .act (keeps.stop _ _)
  · exact .pure ()

theorem stopOld_upholds (old : Option (Member ι)) : Upholds S (stopOld crew old) := by
  cases old with
  | none => exact .pure ()
  | some m => exact stopMember_upholds keeps m

theorem disable_upholds (spec : ComponentSpec) (old : Option (Member ι)) :
    Upholds S (disable crew spec old) :=
  .bind (stopOld_upholds keeps old) fun _ => .bind (.event keeps.mark) fun _ =>
    .modify fun _ => rfl

theorem create_upholds (spec : ComponentSpec) (old : Option (Member ι)) :
    Upholds S (create crew spec old) := by
  unfold create
  refine .bind (stopOld_upholds keeps old) fun _ => .bind (.event keeps.mark) fun _ => ?_
  split
  · next maker found =>
    exact .bind (.act (keeps.create _ maker found _ _)) fun i => .modify fun _ => rfl
  · exact .throw _

theorem replace_upholds (spec : ComponentSpec) (old : Member ι) (i instead : ι) :
    Upholds S (replace crew spec old i instead) := by
  unfold replace
  split
  · refine .bind (.event keeps.mark) fun _ => .bind (.act (keeps.stop _ _)) fun _ => ?_
    exact .bind (.modify fun _ => rfl) fun _ => .modify fun _ => rfl
  · exact .modify fun _ => rfl

theorem reload_upholds (spec : ComponentSpec) (old : Member ι) (i : ι) :
    Upholds S (reload crew spec old i) := by
  unfold reload
  refine .bind (.event keeps.mark) fun _ => .bind (.act (keeps.reload _ _ _)) fun answer => ?_
  cases answer with
  | inPlace => exact .bind (.modify fun _ => rfl) fun _ => .pure _
  | replace instead => exact .bind (replace_upholds keeps spec old i instead) fun _ => .pure _

theorem settle_upholds (spec : ComponentSpec) : Upholds S (settle crew p spec) := by
  have made (old : Option (Member ι)) : Upholds S (do create crew spec old; return true) :=
    .bind (create_upholds keeps spec old) fun _ => .pure true
  unfold settle
  refine .member? spec.name fun old => ?_
  split
  · exact .bind (disable_upholds keeps spec old) fun _ => .pure false
  · split
    · split
      · split
        · refine .get fun h => .bind (.log keeps.mark _) fun _ => ?_
          split
          · exact reload_upholds keeps spec _ _
          · exact .bind (.event keeps.mark) fun _ => .pure false
        · exact made _
      · exact made _
    · exact made _

theorem settleAll_upholds (specs : List ComponentSpec) : Upholds S (settleAll crew p specs) := by
  induction specs with
  | nil => exact .pure []
  | cons spec specs ih =>
    exact .bind (settle_upholds keeps p spec) fun _ => .bind ih fun _ => .pure _

theorem remove_upholds (what : String → String) (m : Member ι) :
    Upholds S (remove crew what m) :=
  .bind (.modify fun _ => rfl) fun _ => .bind (.attempt (stopMember_upholds keeps m)) fun _ =>
    .bind (.log keeps.mark _) fun _ => .pure _

omit keeps in
theorem firstFault_upholds (faults : List (Option Fault)) :
    Upholds S (match faults.findSome? id with
      | some fault => throw fault
      | none => return () : Run ι ω Unit) := by
  split
  · exact .throw _
  · exact .pure ()

theorem removeAbsent_upholds (present : List String) :
    Upholds S (removeAbsent crew present) := by
  unfold removeAbsent
  refine .get fun h => .bind (.mapM (fun row => ?_) _) fun faults => firstFault_upholds faults
  exact .bind (remove_upholds keeps _ row.2) fun _ => .bind (.event keeps.mark) fun _ =>
    .pure _

theorem launch_upholds (i : ι) (name : String) (budget : Span) (left : Nat) :
    Upholds S (Start.launch crew i name budget left) := by
  have late : Upholds S (Start.giveUp name budget : Run ι ω Nat) :=
    .bind (.log keeps.mark _) fun _ => .throw _
  unfold Start.launch
  split
  · exact late
  · refine .bind (.onStage (keeps.begin_ _ _)) fun took => ?_
    split
    · exact .bind (.onStage (keeps.wait _)) fun _ => .bind (.act (keeps.finish _ _)) fun _ =>
        .pure _
    · exact .bind (.onStage (keeps.wait _)) fun _ =>
        .bind (.onStage (keeps.cancel _ _ _)) fun _ => late

theorem one_upholds (budget : Span) (left : Nat) (name : String) :
    Upholds S (Start.one crew budget left name) := by
  have hooked (name : String) (config : Section) : Upholds S (Start.callHook crew name config) := by
    unfold Start.callHook
    split
    · next hook found => exact .act (keeps.hook hook found _ _)
    · exact .pure ()
  unfold Start.one
  refine .member? name fun found => ?_
  split
  · exact .bind (hooked name _) fun _ => .bind (.event keeps.mark) fun _ =>
      .bind (launch_upholds keeps _ name budget left) fun _ => .bind (.modify fun _ => rfl)
        fun _ => .bind (.modify fun _ => rfl) fun _ => .pure _
  · exact .pure left

theorem batch_upholds (queue : List String) : Upholds S (Start.batch crew p queue) := by
  unfold Start.batch
  split
  · exact .pure ()
  · exact .bind (.log keeps.mark _) fun _ => .bind (.foldlM (one_upholds keeps _) queue _) fun _ =>
      .pure ()

theorem reconcile_upholds (list : Listing) (initial : Bool) :
    Upholds S (reconcile crew p list initial) := by
  have opened : Upholds S (openPass crew list initial) :=
    .bind (.load keeps.mark (Roll.read_trails _ list)) fun _ => .bind (.log keeps.mark _) fun _ =>
      .pure _
  refine .bind opened fun specs => .bind (settleAll_upholds keeps p specs) fun queue => ?_
  exact .bind (removeAbsent_upholds keeps _) fun _ => batch_upholds keeps p queue

theorem unload_upholds (name : String) : Upholds S (unload crew name) := by
  unfold unload
  refine .member? name fun found => ?_
  cases found with
  | none => exact .pure false
  | some m =>
    exact .bind (.modify fun _ => rfl) fun _ => .bind (stopMember_upholds keeps m) fun _ =>
      .bind (.event keeps.mark) fun _ => .pure true

theorem unloadAll_upholds : Upholds S (unloadAll crew) := by
  have named (name : String) : Upholds S (unloadNamed crew name) := by
    unfold unloadNamed
    refine .member? name fun found => ?_
    cases found with
    | none => exact .pure none
    | some m => exact remove_upholds keeps _ m
  unfold unloadAll
  refine .get fun h => .bind (.mapM named _) fun faults => .bind (.modify fun _ => rfl) fun _ => ?_
  exact .bind (.log keeps.mark _) fun _ => firstFault_upholds faults

theorem perform_upholds (request : Request) : Upholds S (request.perform crew p) := by
  cases request with
  | reconcile list initial => exact reconcile_upholds keeps p list initial
  | unload name => exact .bind (unload_upholds keeps name) fun _ => .pure ()
  | unloadAll => exact unloadAll_upholds keeps

end Supervisor

end Steward
