import Steward.Proofs.Component.Acts
import Steward.Proofs.Service.Admission
import Steward.Proofs.Watch.Ending

set_option autoImplicit false

namespace Steward

variable {ι ω : Type}

theorem ServicePlan.readList_accounts (o : ServicePlan) : o.readList.Accounts :=
  .bind (Document.ofFile_accounts o.listKey o.path) fun root =>
    Document.getList_accounts root o.listKey

namespace Duty

open Stage (HasStopped Keeps)

theorem listener_orderly (crew : Crew ι ω) (o : ServicePlan) : (listener crew o).Orderly where
  onChange file s := by
    let opened := s.write [.info .service ("配置文件 " ++ file.text ++ " 已变更，重新加载")]
    have handled : s.watch.Handled
        (Load.runOn o.readList (look crew opened.world) opened.loading).2.watch := by
      obtain ⟨trail, left⟩ := LoadOr.Trails.of_accounts o.readList_accounts
        (look crew opened.world) opened.loading
      rw [Load.runOn, left]
      exact Loading.handled_after opened.loading trail
    have noted : (log [.info .service ("配置文件 " ++ file.text ++ " 已变更，重新加载")] s).2 =
        opened := rfl
    change s.watch.Handled (onChange crew o file s).2.watch
    rw [onChange, Stage.bind_run, noted, Stage.bind_run, Stage.get_run]
    dsimp only
    revert handled
    rcases Load.runOn o.readList (look crew opened.world) opened.loading with ⟨_ | list, l⟩ <;>
      exact id
  onError file fault s := .idle s.watch

theorem listener_leaves (crew : Crew ι ω) (o : ServicePlan) : (listener crew o).Leaves where
  onChange file s := ((listener_orderly crew o).onChange file s).stopped_phase
  onError file fault s := ((listener_orderly crew o).onError file fault s).stopped_phase

theorem crewOf_upholds {crew : Crew ι ω} (keeps : crew.Upholds HasStopped) (o : ServicePlan) :
    (crewOf crew o).Upholds HasStopped :=
  keeps.within _ _ (Vigil.wait_keeps _ (listener_leaves crew o) fun n =>
    Stage.within_keeps (keeps.wait n) _ _)

end Duty

namespace Service

open Run (Ends Judged Upholds)
open Stage (HasStopped Keeps)

variable (crew : Crew ι ω) (p : Policy) (o : ServicePlan)

section Upkeep

variable {crew} (keeps : crew.Upholds HasStopped)

include keeps

theorem follow_upholds (list : Listing) : Upholds HasStopped (follow crew p o list) :=
  Supervisor.reconcile_upholds (Duty.crewOf_upholds keeps o) p list false

theorem attend_upholds : Upholds HasStopped (attend crew p o) := by
  have marks := Stage.hasStopped_mark (ω := Post ω)
  unfold attend
  refine .get fun h => ?_
  split
  · exact .pure ()
  · exact .bind (.attempt (follow_upholds p o keeps _)) fun _ => .bind (.log marks _) fun _ =>
      .onStage fun _ ended => ended

theorem waitOpen_upholds (n : Nat) : Upholds HasStopped (Run.onStage (Vigil.waitOpen
    (Duty.look crew) (Duty.listener crew o) (Duty.pass crew) n) : Life ι ω Nat) :=
  .onStage (Vigil.waitOpen_keeps _ (Duty.listener_leaves crew o) (fun n =>
    Stage.within_keeps (keeps.wait n) _ _) n)

theorem passIn_upholds (rounds n : Nat) : Upholds HasStopped (passIn crew p o rounds n) := by
  induction rounds generalizing n with
  | zero => exact .pure ()
  | succ rounds ih =>
    unfold passIn
    refine .bind (attend_upholds p o keeps) fun _ => .get fun h =>
      .bind (waitOpen_upholds o keeps n) fun left => .get fun h' => ?_
    split
    · exact .bind (attend_upholds p o keeps) fun _ => .get fun h'' => ih _
    · split
      · exact ih left
      · exact .pure ()

theorem shutdown_stopped (h : House ι (Post ω)) :
    HasStopped ((shutdown crew p o).run h).2.stage := by
  have marks := Stage.hasStopped_mark (ω := Post ω)
  have rest : Upholds HasStopped (do
      pass crew p o 0
      Run.log [.info .service "卸载全部组件"]
      Supervisor.unloadAll (Duty.crewOf crew o) : Life ι ω Unit) :=
    .bind (passIn_upholds p o keeps _ 0) fun _ => .bind (.log marks _) fun _ =>
      Supervisor.unloadAll_upholds (Duty.crewOf_upholds keeps o)
  exact rest { h with stage := { h.stage with watch := h.stage.watch.stop } } rfl

end Upkeep

end Service

namespace Run

variable {α β : Type}

def Sure (m : Run ι ω α) : Prop := ∀ h, Ends m h fun r _ => ∃ a, r = .ok a

namespace Sure

theorem pure (a : α) : Sure (Pure.pure a : Run ι ω α) := fun _ => ⟨a, rfl⟩

theorem bind {m : Run ι ω α} {f : α → Run ι ω β} (first : m.Sure) (rest : ∀ a, (f a).Sure) :
    (m >>= f).Sure := by
  intro h
  apply (first h).bind
  · intro a h' _
    exact rest a h'
  · rintro fault h' ⟨_, result⟩
    cases result

theorem get {f : House ι ω → Run ι ω α} (rest : ∀ h, (f h).Sure) :
    ((get : Run ι ω (House ι ω)) >>= f).Sure :=
  fun h => rest h h

theorem onStage (m : StateM (Stage ω) α) : (onStage m : Run ι ω α).Sure := fun _ => ⟨_, rfl⟩

theorem attempt (m : Run ι ω Unit) : (attempt m).Sure := by
  intro h
  unfold Ends Run.attempt
  rw [ExceptT.run_mk]
  rcases m.run h with ⟨_ | _, h'⟩ <;> exact ⟨_, rfl⟩

theorem mapM {g : α → Run ι ω β} (each : ∀ a, (g a).Sure) (items : List α) :
    (items.mapM g).Sure := by
  induction items with
  | nil => exact pure []
  | cons a items ih =>
    rw [List.mapM_cons]
    exact (each a).bind fun b => ih.bind fun bs => pure (b :: bs)

end Sure

end Run

theorem Supervisor.unloadAll_empties (crew : Crew ι ω) (h : House ι ω) :
    Run.Ends (unloadAll crew) h fun _ h' => h'.roster = .empty ∧ h'.order = [] := by
  have named (name : String) : Run.Sure (unloadNamed crew name) := by
    intro h
    unfold unloadNamed
    apply Run.Ends.member?
    cases h.roster.get? name with
    | none => exact ⟨none, rfl⟩
    | some m =>
      have rest : Run.Sure (do
          let fault ← Run.attempt (stopMember crew m)
          Run.log (fault.toList.map fun f =>
            .warn .supervision ("停止组件 " ++ m.name ++ " 失败: " ++ f.message))
          return fault : Run ι ω (Option Fault)) :=
        .bind (.attempt _) fun fault => .bind (.onStage _) fun _ => .pure fault
      exact rest { h with roster := h.roster.erase m.name }
  unfold unloadAll
  apply Run.Ends.get
  apply (Run.Sure.mapM named h.order.reverse h).bind
  · intro faults h' _
    apply Run.Ends.change
    apply Run.Ends.log
    cases faults.findSome? id <;> exact ⟨rfl, rfl⟩
  · rintro fault h' ⟨_, result⟩
    cases result

namespace Service

open Run (Ends Judged)

variable (crew : Crew ι ω) (p : Policy) (o : ServicePlan)

theorem attend_sure : (attend crew p o).Sure := by
  unfold attend
  apply Run.Sure.get
  intro h
  cases h.stage.world.world.reload? with
  | none => exact .pure ()
  | some list => exact .bind (.attempt _) fun _ => .bind (.onStage _) fun _ => .onStage _

theorem passIn_sure (rounds n : Nat) : (passIn crew p o rounds n).Sure := by
  induction rounds generalizing n with
  | zero => exact .pure ()
  | succ rounds ih =>
    unfold passIn
    refine .bind (attend_sure crew p o) fun _ => .get fun h => .bind (.onStage _) fun left =>
      .get fun h' => ?_
    split
    · exact .bind (attend_sure crew p o) fun _ => .get fun h'' => ih _
    · split
      · exact ih left
      · exact .pure ()

theorem shutdown_empties (h : House ι (Post ω)) :
    Run.Ends (shutdown crew p o) h fun _ h' => h'.roster = .empty ∧ h'.order = [] := by
  have quiet : Run.Sure (do
      Run.onStage Vigil.stop
      pass crew p o 0
      Run.log [.info .service "卸载全部组件"] : Life ι ω Unit) :=
    .bind (.onStage _) fun _ => .bind (passIn_sure crew p o _ 0) fun _ => .onStage _
  have split : shutdown crew p o = (do
      Run.onStage Vigil.stop
      pass crew p o 0
      Run.log [.info .service "卸载全部组件"] : Life ι ω Unit) >>= fun _ =>
        Supervisor.unloadAll (Duty.crewOf crew o) := by
    simp only [shutdown, bind_assoc]
  rw [split]
  apply (quiet h).bind
  · intro _ h' _
    exact Supervisor.unloadAll_empties _ h'
  · rintro fault h' ⟨_, result⟩
    cases result

theorem entriesOf_listed (knows : String → Bool) (s : Surroundings) :
    (Command.entriesOf knows o.listKey o.path).outcome s =
      (o.readList.outcome s).mapError Fault.config >>= fun list =>
        Roll.sift knows [] (Roll.entries list s) := by
  have list := (Command.listOf_steady o.listKey o.path s).mapFault Fault.config
  unfold Command.entriesOf
  rw [LoadOr.Steady.outcome_bind list fun list => Command.read_steady knows list s,
    LoadOr.outcome_mapFault]
  change ((o.readList.outcome s).mapError _ >>= _) = _
  cases o.readList.outcome s with
  | error cause => rfl
  | ok list => exact Roll.read_run knows list s {}

theorem followed_judged (h : House ι (Post ω)) :
    Ends (readDocument crew o o.readList >>= follow crew p o) h
      (Judged h ((Command.entriesOf (Supervisor.knows crew) o.listKey o.path).outcome
        (sight crew h))) := by
  rw [entriesOf_listed]
  apply Judged.of_read (readDocument_ends crew o o.readList_accounts h)
  · exact fun _ => isRefusal_of_mapError
  · intro list h₁ rests
    have sees : sight crew h₁ = sight crew h := by unfold sight; rw [rests.world]
    rw [← sees, ← knows_crewOf crew o]
    exact Supervisor.reconcile_judged (Duty.crewOf crew o) p list false h₁

theorem reload_judged (h : House ι (Post ω)) :
    Ends (reload crew p o) h
      (Judged h ((Command.entriesOf (Supervisor.knows crew) o.listKey o.path).outcome
        (sight crew h))) := by
  unfold reload
  apply (followed_judged crew p o h).attempt
  intro r h' judged
  apply Ends.log
  revert judged
  generalize (Command.entriesOf (Supervisor.knows crew) o.listKey o.path).outcome _ = checked
  intro judged
  cases judged with
  | refused refusal rests => exact .refused refusal ⟨rests.world, rests.roster, rests.order⟩
  | accepted spared => cases r <;> exact .accepted spared

theorem tryReload_rests (h : House ι (Post ω)) :
    ((reload crew p o).run h).2.Rests ((tryReload crew p o).run h).2 := by
  have tried : Ends (reload crew p o) h fun _ h' => ((reload crew p o).run h).2.Rests h' :=
    ⟨rfl, rfl, rfl⟩
  change Ends (tryReload crew p o) h fun _ h' => ((reload crew p o).run h).2.Rests h'
  apply tried.attempt
  exact fun r h' rests => ⟨rests.world, rests.roster, rests.order⟩

/-- Control events with anything that happens in between: files are written, time passes, changed
files are reloaded. `meanwhile k` happens behind `k` reloads. -/
def serveAmid (meanwhile : Nat → House ι (Post ω) → House ι (Post ω)) :
    Nat → List ControlEvent → Life ι ω Unit
  | k, .reload :: events => do
    modify (meanwhile k)
    tryReload crew p o
    serveAmid meanwhile (k + 1) events
  | k, _ => do
    modify (meanwhile k)
    shutdown crew p o

def reloaded (meanwhile : Nat → House ι (Post ω) → House ι (Post ω)) (h : House ι (Post ω)) :
    Nat → House ι (Post ω)
  | 0 => h
  | k + 1 => ((tryReload crew p o).run (meanwhile k (reloaded meanwhile h k))).2

theorem tryReload_sure : (tryReload crew p o).Sure :=
  .bind (.attempt _) fun _ => .onStage _

theorem run_bind_sure {α β : Type} {m : Life ι ω α} (sure : m.Sure) (f : Life ι ω β)
    (h : House ι (Post ω)) : (m >>= fun _ => f).run h = f.run (m.run h).2 := by
  obtain ⟨a, result⟩ := sure h
  rw [Run.run_bind]
  revert result
  rcases m.run h with ⟨r, h'⟩
  rintro ⟨⟩
  rfl

section Amid

variable (meanwhile : Nat → House ι (Post ω) → House ι (Post ω)) (h : House ι (Post ω))

def reloadsIn (events : List ControlEvent) : Nat := (events.takeWhile (· = .reload)).length

theorem serveAmid_run (k : Nat) (events : List ControlEvent) :
    (serveAmid crew p o meanwhile k events).run (reloaded crew p o meanwhile h k) =
      (shutdown crew p o).run (meanwhile (k + reloadsIn events)
        (reloaded crew p o meanwhile h (k + reloadsIn events))) := by
  induction events generalizing k with
  | nil => rfl
  | cons event events ih =>
    cases event with
    | shutdown => rfl
    | reload =>
      have later : k + reloadsIn (.reload :: events) = k + 1 + reloadsIn events := by
        simp [reloadsIn]
        omega
      rw [later, ← ih (k + 1)]
      exact run_bind_sure (tryReload_sure crew p o) _ _

theorem serveAmid_still (still : ∀ k h, meanwhile k h = h) (k : Nat)
    (events : List ControlEvent) :
    (serveAmid crew p o meanwhile k events).run h = (serve crew p o events).run h := by
  induction events generalizing k h with
  | nil => exact congrArg (shutdown crew p o).run (still k h)
  | cons event events ih =>
    cases event with
    | shutdown => exact congrArg (shutdown crew p o).run (still k h)
    | reload =>
      have sure := tryReload_sure crew p o
      calc (serveAmid crew p o meanwhile k (.reload :: events)).run h
        _ = (serveAmid crew p o meanwhile (k + 1) events).run
              ((tryReload crew p o).run (meanwhile k h)).2 := run_bind_sure sure _ _
        _ = (serve crew p o events).run ((tryReload crew p o).run h).2 := by rw [still, ih]
        _ = (serve crew p o (.reload :: events)).run h := (run_bind_sure sure _ h).symm

end Amid

def singleFile (content : String) : FileTree :=
  { nodes := [(["service.yaml"], .file content.toUTF8 0)] }

def editions (k : Nat) (h : House Instance (Post (Chronicle Instance Machine))) :
    House Instance (Post (Chronicle Instance Machine)) :=
  let twice := if k = 0 then "" else ", \x7bname: a, type: pidfile\x7d"
  { h with stage.world.world.world.world.files :=
      singleFile ("components: [\x7bname: a, type: heartbeat\x7d" ++ twice ++ "]") }

end Service

end Steward
