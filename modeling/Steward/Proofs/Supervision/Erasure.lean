import Steward.Proofs.Supervision.Turn

set_option autoImplicit false

namespace Steward

variable {ι ω α β : Type}

def Stage.erased (s : Stage (Chronicle ι ω)) : Stage ω := ⟨s.world.world, s.watch, s.log⟩

def House.erased (h : House ι (Chronicle ι ω)) : House ι ω := ⟨h.stage.erased, h.roster, h.order⟩

def Run.Erases (m : Run ι (Chronicle ι ω) α) (m' : Run ι ω α) : Prop :=
  ∀ h, m'.run h.erased = ((m.run h).1, (m.run h).2.erased)

namespace Run.Erases

theorem bind {m : Run ι (Chronicle ι ω) α} {m' : Run ι ω α} {f : α → Run ι (Chronicle ι ω) β}
    {f' : α → Run ι ω β} (first : Erases m m') (rest : ∀ a, Erases (f a) (f' a)) :
    Erases (m >>= f) (m' >>= f') := by
  intro h
  rw [run_bind, run_bind, first h]
  rcases m.run h with ⟨r, h'⟩
  cases r with
  | ok a => exact rest a h'
  | error fault => rfl

theorem get {f : House ι (Chronicle ι ω) → Run ι (Chronicle ι ω) α} {f' : House ι ω → Run ι ω α}
    (rest : ∀ h, Erases (f h) (f' h.erased)) :
    Erases (MonadState.get >>= f) (MonadState.get >>= f') :=
  fun h => rest h h

theorem pure (a : α) : Erases (Pure.pure a : Run ι (Chronicle ι ω) α) (Pure.pure a) :=
  fun _ => rfl

theorem throw (fault : Fault) :
    Erases (throwThe Fault fault : Run ι (Chronicle ι ω) α) (throwThe Fault fault) :=
  fun _ => rfl

theorem act (name action : String) (call : Except String α → Call ι) (m : Act ω α) :
    Erases (Run.act name action (Chronicle.act call m)) (Run.act name action m) :=
  fun _ => rfl

theorem log (records : List Record) :
    Erases (Run.log records : Run ι (Chronicle ι ω) Unit) (Run.log records) :=
  fun _ => rfl

theorem attempt {m : Run ι (Chronicle ι ω) Unit} {m' : Run ι ω Unit} (erases : Erases m m') :
    Erases (Run.attempt m) (Run.attempt m') := by
  intro h
  unfold Run.attempt
  rw [ExceptT.run_mk, ExceptT.run_mk, erases h]
  rcases m.run h with ⟨r, h'⟩
  cases r <;> rfl

theorem mapM {g : α → Run ι (Chronicle ι ω) β} {g' : α → Run ι ω β}
    (each : ∀ a, Erases (g a) (g' a)) (items : List α) :
    Erases (items.mapM g) (items.mapM g') := by
  induction items with
  | nil => exact pure []
  | cons a items ih =>
    rw [List.mapM_cons, List.mapM_cons]
    exact (each a).bind fun b => ih.bind fun bs => pure (b :: bs)

theorem foldlM {g : β → α → Run ι (Chronicle ι ω) β} {g' : β → α → Run ι ω β}
    (each : ∀ b a, Erases (g b a) (g' b a)) (b : β) (items : List α) :
    Erases (items.foldlM g b) (items.foldlM g' b) := by
  induction items generalizing b with
  | nil => exact pure b
  | cons a items ih =>
    rw [List.foldlM_cons, List.foldlM_cons]
    exact (each b a).bind fun b => ih b

theorem onStage_within (m : StateM (Stage ω) α) :
    Erases (Run.onStage (Chronicle.within m) : Run ι (Chronicle ι ω) α) (Run.onStage m) :=
  fun _ => rfl

end Run.Erases

open Run (Erases)

variable (crew : Crew ι ω) (p : Policy)

theorem stopMember_erases (m : Member ι) :
    Erases (Supervisor.stopMember crew.chronicled m) (Supervisor.stopMember crew m) := by
  unfold Supervisor.stopMember
  cases m.active? with
  | none => exact .pure ()
  | some i => exact .bind (.log _) fun _ => .bind (fun _ => rfl) fun _ => .act _ _ _ _

theorem stopOld_erases (old : Option (Member ι)) :
    Erases (Supervisor.stopOld crew.chronicled old) (Supervisor.stopOld crew old) := by
  cases old with
  | none => exact .pure ()
  | some m => exact stopMember_erases crew m

theorem disable_erases (spec : ComponentSpec) (old : Option (Member ι)) :
    Erases (Supervisor.disable crew.chronicled spec old) (Supervisor.disable crew spec old) :=
  .bind (stopOld_erases crew old) fun _ => .bind (.log _) fun _ _ => rfl

theorem create_erases (spec : ComponentSpec) (old : Option (Member ι)) :
    Erases (Supervisor.create crew.chronicled spec old) (Supervisor.create crew spec old) := by
  unfold Supervisor.create
  refine .bind (stopOld_erases crew old) fun _ => .bind (.log _) fun _ => ?_
  have makers : crew.chronicled.makers.get? spec.kind =
      (crew.makers.get? spec.kind).map (Maker.chronicled spec.kind) :=
    Table.get?_mapNamed ..
  rw [makers]
  cases crew.makers.get? spec.kind with
  | none => exact .throw _
  | some maker => exact .bind (.act _ _ _ _) fun _ _ => rfl

theorem replace_erases (spec : ComponentSpec) (old : Member ι) (i instead : ι) :
    Erases (Supervisor.replace crew.chronicled spec old i instead)
      (Supervisor.replace crew spec old i instead) := by
  unfold Supervisor.replace
  cases old.isRunning with
  | false => exact fun _ => rfl
  | true =>
    exact .bind (.log _) fun _ => .bind (.act _ _ _ _) fun _ => .bind (fun _ => rfl) fun _ _ => rfl

theorem reload_erases (spec : ComponentSpec) (old : Member ι) (i : ι) :
    Erases (Supervisor.reload crew.chronicled spec old i) (Supervisor.reload crew spec old i) := by
  unfold Supervisor.reload
  refine .bind (.log _) fun _ => .bind (.act _ _ _ _) fun answer => ?_
  cases answer with
  | inPlace => exact .bind (fun _ => rfl) fun _ => .pure _
  | replace instead => exact .bind (replace_erases crew spec old i instead) fun _ => .pure _

theorem settle_erases (spec : ComponentSpec) :
    Erases (Supervisor.settle crew.chronicled p spec) (Supervisor.settle crew p spec) := by
  unfold Supervisor.settle
  have created (old : Option (Member ι)) :
      Erases (do Supervisor.create crew.chronicled spec old; return true)
        (do Supervisor.create crew spec old; return true) :=
    .bind (create_erases crew spec old) fun _ => .pure true
  refine .bind (fun _ => rfl) fun old => ?_
  cases spec.disabledOn p.hostname with
  | true => exact .bind (disable_erases crew spec old) fun _ => .pure _
  | false =>
    cases old with
    | none => exact created none
    | some m =>
      obtain ⟨own, kind, disabled, config, live, state⟩ := m
      cases live with
      | none => exact created _
      | some i =>
        by_cases same : kind = spec.kind
        · simp only [Bool.false_eq_true, if_false, if_pos same]
          refine .get fun h => .bind (.log _) fun _ => ?_
          change Erases (if config.differs spec.config (crew.look h.stage.world.world) then _ else _)
            (if config.differs spec.config (crew.look h.stage.world.world) then _ else _)
          split
          · exact reload_erases crew spec _ i
          · exact .bind (.log _) fun _ => .pure _
        · simp only [Bool.false_eq_true, if_false, if_neg same]
          exact created _

theorem settleAll_erases (specs : List ComponentSpec) :
    Erases (Supervisor.settleAll crew.chronicled p specs) (Supervisor.settleAll crew p specs) := by
  induction specs with
  | nil => exact .pure []
  | cons spec specs ih =>
    exact .bind (settle_erases crew p spec) fun _ => .bind ih fun _ => .pure _

theorem remove_erases (what : String → String) (m : Member ι) :
    Erases (Supervisor.remove crew.chronicled what m) (Supervisor.remove crew what m) :=
  .bind (fun _ => rfl) fun _ => .bind (.attempt (stopMember_erases crew m)) fun _ =>
    .bind (.log _) fun _ => .pure _

theorem firstFault_erases (faults : List (Option Fault)) :
    Erases (match faults.findSome? id with
      | some fault => throw fault
      | none => return () : Run ι (Chronicle ι ω) Unit) (match faults.findSome? id with
      | some fault => throw fault
      | none => return ()) := by
  cases faults.findSome? id with
  | none => exact .pure ()
  | some fault => exact .throw fault

theorem removeAbsent_erases (present : List String) :
    Erases (Supervisor.removeAbsent crew.chronicled present)
      (Supervisor.removeAbsent crew present) := by
  unfold Supervisor.removeAbsent
  refine .get fun h => .bind (.mapM (fun row => ?_) _) fun faults => firstFault_erases faults
  exact .bind (remove_erases crew _ row.2) fun _ => .bind (.log _) fun _ => .pure _

theorem callHook_erases (name : String) (config : Section) :
    Erases (Start.callHook crew.chronicled name config) (Start.callHook crew name config) := by
  unfold Start.callHook
  cases hook : crew.hook with
  | none =>
    simp only [Crew.chronicled, hook, Option.map_none]
    exact .pure ()
  | some call =>
    simp only [Crew.chronicled, hook, Option.map_some]
    exact .act _ _ _ _

theorem launch_erases (i : ι) (name : String) (budget : Span) (left : Nat) :
    Erases (Start.launch crew.chronicled i name budget left)
      (Start.launch crew i name budget left) := by
  have late : Erases (Start.giveUp name budget : Run ι (Chronicle ι ω) Nat)
      (Start.giveUp name budget) := .bind (.log _) fun _ => .throw _
  unfold Start.launch
  split
  · exact late
  · refine .bind (fun _ => rfl) fun took => ?_
    cases took.filter (· < left) with
    | some n => exact .bind (.onStage_within _) fun _ => .bind (.act _ _ _ _) fun _ => .pure n
    | none => exact .bind (.onStage_within _) fun _ => .bind (fun _ => rfl) fun _ => late

theorem one_erases (budget : Span) (left : Nat) (name : String) :
    Erases (Start.one crew.chronicled budget left name) (Start.one crew budget left name) := by
  unfold Start.one
  refine .bind (fun _ => rfl) fun member => ?_
  cases member with
  | none => exact .pure left
  | some m =>
    obtain ⟨own, kind, disabled, config, live, state⟩ := m
    cases live with
    | none => exact .pure left
    | some i =>
      exact .bind (callHook_erases crew name config) fun _ => .bind (.log _) fun _ =>
        .bind (launch_erases crew i name budget left) fun _ => .bind (fun _ => rfl) fun _ =>
          .bind (fun _ => rfl) fun _ => .pure _

theorem batch_erases (queue : List String) :
    Erases (Start.batch crew.chronicled p queue) (Start.batch crew p queue) := by
  unfold Start.batch
  cases queue.isEmpty with
  | true => exact .pure ()
  | false =>
    exact .bind (.log _) fun _ => .bind (.foldlM (one_erases crew _) _ queue) fun _ => .pure ()

theorem openPass_erases (list : Listing) (initial : Bool) :
    Erases (Supervisor.openPass crew.chronicled list initial)
      (Supervisor.openPass crew list initial) := by
  unfold Supervisor.openPass Supervisor.readRoll
  rw [Supervisor.knows_chronicled]
  exact .bind (fun _ => rfl) fun _ => .bind (.log _) fun _ => .pure _

theorem reconcile_erases (list : Listing) (initial : Bool) :
    Erases (Supervisor.reconcile crew.chronicled p list initial)
      (Supervisor.reconcile crew p list initial) :=
  .bind (openPass_erases crew list initial) fun specs =>
    .bind (settleAll_erases crew p specs) fun queue =>
      .bind (removeAbsent_erases crew _) fun _ => batch_erases crew p queue

theorem unload_erases (name : String) :
    Erases (Supervisor.unload crew.chronicled name) (Supervisor.unload crew name) := by
  unfold Supervisor.unload
  refine .bind (fun _ => rfl) fun member => ?_
  cases member with
  | none => exact .pure false
  | some m =>
    exact .bind (fun _ => rfl) fun _ => .bind (stopMember_erases crew m) fun _ =>
      .bind (.log _) fun _ => .pure true

theorem unloadNamed_erases (name : String) :
    Erases (Supervisor.unloadNamed crew.chronicled name) (Supervisor.unloadNamed crew name) := by
  unfold Supervisor.unloadNamed
  refine .bind (fun _ => rfl) fun member => ?_
  cases member with
  | none => exact .pure none
  | some m => exact remove_erases crew _ m

theorem unloadAll_erases :
    Erases (Supervisor.unloadAll crew.chronicled) (Supervisor.unloadAll crew) := by
  unfold Supervisor.unloadAll
  exact .get fun h => .bind (.mapM (unloadNamed_erases crew) _) fun faults =>
    .bind (fun _ => rfl) fun _ => .bind (.log _) fun _ => firstFault_erases faults

theorem perform_erases (request : Request) :
    Erases (request.perform crew.chronicled p) (request.perform crew p) := by
  cases request with
  | reconcile list initial => exact reconcile_erases crew p list initial
  | unload name => exact .bind (unload_erases crew name) fun _ => .pure ()
  | unloadAll => exact unloadAll_erases crew

theorem House.after_erased (h : House ι (Chronicle ι ω)) (events : List (Event ω)) :
    (House.after crew.chronicled p h (events.map .chronicled)).erased =
      House.after crew p h.erased events := by
  induction events generalizing h with
  | nil => rfl
  | cons event events ih =>
    have step : (event.chronicled.take crew.chronicled p h).erased =
        event.take crew p h.erased := by
      cases event with
      | passed change => rfl
      | asked request => exact (congrArg Prod.snd (perform_erases crew p request h)).symm
    have rest := ih (event.chronicled.take crew.chronicled p h)
    rw [step] at rest
    exact rest

theorem House.recorded_erased (stage : Stage ω) (events : List (Event ω)) :
    (House.recorded crew p stage events).erased = House.after crew p { stage } events :=
  House.after_erased crew p _ events

end Steward
