import Mathlib.Data.Set.Operations
import Mathlib.Logic.Function.Basic
import Steward.Proofs.Component.Beating

set_option autoImplicit false

namespace Steward

open Heartbeat (Settings)

variable {ι ω α : Type}

def Reload.map {κ : Type} (f : ι → κ) : Reload ι → Reload κ
  | .inPlace => .inPlace
  | .replace i => .replace (f i)

namespace Act

theorem run_map {β : Type} (f : α → β) (m : Act ω α) (s : Stage ω) :
    (f <$> m).run s = ((m.run s).1.map f, (m.run s).2) := by
  rw [map_eq_pure_bind, run_bind]
  rcases m.run s with ⟨r, t⟩
  cases r <;> rfl

theorem within_run {ν : Type} (part : ν → ω) (put : ω → ν → ν) (m : Act ω α) (s : Stage ν) :
    (Act.within part put m).run s =
      ((m.run ⟨part s.world, s.watch, s.log⟩).1,
        ⟨put (m.run ⟨part s.world, s.watch, s.log⟩).2.world s.world,
          (m.run ⟨part s.world, s.watch, s.log⟩).2.watch,
          (m.run ⟨part s.world, s.watch, s.log⟩).2.log⟩) :=
  rfl

end Act

def Stage.Calms (machine : ω → Machine) (m : StateM (Stage ω) α) : Prop :=
  ∀ s, (machine s.world).Calm (machine (m s).2.world)

/-- The components of the type `heartbeat` are the heartbeats of a machine in the world, and no
other component lays hands on those. -/
structure Crew.Hosts (crew : Crew ι ω) (machine : ω → Machine) (put : Machine → ω → ω)
    (beat : Nat → ι) : Prop where
  machine_put : ∀ m w, machine (put m w) = m
  injective : Function.Injective beat
  create : ∀ maker, crew.makers.get? Heartbeat.kindName = some maker → ∀ name config,
    maker.create name config =
      beat <$> Act.within machine put (Heartbeat.prototype.maker.create name config)
  finish : ∀ id name, crew.finish (beat id) name = Act.within machine put (Heartbeat.start id name)
  stop : ∀ id name, crew.stop (beat id) name = Act.within machine put (Heartbeat.stop id name)
  reload : ∀ id name config, crew.reload (beat id) name config =
    Reload.map beat <$> Act.within machine put (Heartbeat.reload id name config)
  createOther : ∀ kind maker, kind ≠ Heartbeat.kindName → crew.makers.get? kind = some maker →
    ∀ name config, Stage.Calms machine (maker.create name config).run ∧
      ∀ s i, ((maker.create name config).run s).1 = .ok i → i ∉ Set.range beat
  finishOther : ∀ i ∉ Set.range beat, ∀ name, Stage.Calms machine (crew.finish i name).run
  stopOther : ∀ i ∉ Set.range beat, ∀ name, Stage.Calms machine (crew.stop i name).run
  reloadOther : ∀ i ∉ Set.range beat, ∀ name config,
    Stage.Calms machine (crew.reload i name config).run ∧
      ∀ s j, ((crew.reload i name config).run s).1 = .ok (.replace j) → j ∉ Set.range beat
  begin_ : ∀ i name, Stage.Calms machine (crew.begin_ i name)
  cancel : ∀ i name elapsed, Stage.Calms machine (crew.cancel i name elapsed)
  hook : ∀ hook, crew.hook = some hook → ∀ name config,
    Stage.Calms machine (hook name config).run
  wait : ∀ n, Stage.Calms machine (crew.wait n)

namespace Instance

theorem calms_of_keeps {m : Act Machine α}
    (keeps : ∀ from_ : Machine, Act.Keeps (fun s => from_.Calm s.world) m) :
    Stage.Calms id m.run :=
  fun s => keeps s.world s (.refl _)

theorem within_self (m : Act Machine α) : Act.within id (fun w _ => w) m = m := rfl

theorem answer_of_last {m : Act Machine Unit} {last : Act Machine α} {s : Stage Machine} {a : α}
    (done : ((m >>= fun _ => last).run s).1 = .ok a) : ∃ t, (last.run t).1 = .ok a := by
  rw [Act.run_bind] at done
  revert done
  rcases m.run s with ⟨_ | _, t⟩
  · nofun
  · exact fun done => ⟨t, done⟩

theorem crew_hosts : crew.Hosts id (fun m _ => m) .heartbeat where
  machine_put _ _ := rfl
  injective _ _ := Instance.heartbeat.inj
  create maker found name config := by
    rw [crew, makers, Table.get?_insert_of_ne, Table.get?_insert_self] at found
    · cases found
      rw [within_self, map_eq_pure_bind]
    · decide
  finish _ _ := rfl
  stop _ _ := rfl
  reload id name config := by
    rw [within_self, map_eq_pure_bind]
    refine bind_congr fun answer => ?_
    cases answer <;> rfl
  createOther kind maker other found name config := by
    rw [crew, makers, Table.get?_insert, Table.get?_insert, if_neg other] at found
    split at found
    · cases found
      refine ⟨calms_of_keeps fun from_ => ?_, ?_⟩
      · have apart := PidFile.apart_calm from_
        exact .bind (PidFile.create_keeps apart name config) fun _ =>
          .bind (.world fun _ => .bind (.change apart.fresh) fun _ => .pure _) fun _ => .pure _
      · rintro s _ answer ⟨id, rfl⟩
        obtain ⟨t, made⟩ := answer_of_last answer
        cases made
    · cases found
  finishOther i foreign name := by
    cases i with
    | heartbeat id => exact absurd ⟨id, rfl⟩ foreign
    | pidFile id =>
      exact calms_of_keeps fun from_ => PidFile.start_keeps (PidFile.apart_calm from_) name
  stopOther i foreign name := by
    cases i with
    | heartbeat id => exact absurd ⟨id, rfl⟩ foreign
    | pidFile id =>
      exact calms_of_keeps fun from_ => PidFile.stop_keeps (PidFile.apart_calm from_) name
  reloadOther i foreign name config := by
    cases i with
    | heartbeat id => exact absurd ⟨id, rfl⟩ foreign
    | pidFile id =>
      refine ⟨calms_of_keeps fun from_ => ?_, ?_⟩
      · exact .bind (PidFile.reload_keeps (PidFile.apart_calm from_) name config) fun _ => .pure _
      · rintro s j answer
        obtain ⟨t, made⟩ := answer_of_last answer
        cases made
  begin_ _ _ _ := .refl _
  cancel _ _ _ _ := .refl _
  hook _ := nofun
  wait n s := Machine.pass_calm n s

end Instance

def Call.Foreign (beat : Nat → ι) : Call ι → Prop
  | .create kind _ _ (.ok i) => kind ≠ Heartbeat.kindName ∧ i ∉ Set.range beat
  | .reload i _ _ (.ok .inPlace) => i ∉ Set.range beat
  | .reload i _ _ (.ok (.replace j)) => i ∉ Set.range beat ∧ j ∉ Set.range beat
  | _ => True

abbrev Tuning := Nat → Option Settings

namespace Tuning

variable (here : Surroundings) (beat : Nat → ι)

/-- What a call and its answer do to the settings. A reload in place keeps the interval; a new
instance comes where the interval changes. -/
inductive Heard (v : Tuning) : Call ι → Tuning → Prop
  | foreign {c : Call ι} (foreign : c.Foreign beat) : Heard v c v
  | created {id : Nat} {name : String} {config : Section} {t : Settings} (new : v id = none)
      (reads : (Settings.ofSection config).outcome here = .ok t) :
      Heard v (.create Heartbeat.kindName name config (.ok (beat id)))
        (Function.update v id (some t))
  | inPlace {id : Nat} {name : String} {config : Section} {t : Settings}
      (reads : (Settings.ofSection config).outcome here = .ok t)
      (same : ∀ old, v id = some old → t.interval = old.interval) :
      Heard v (.reload (beat id) name config (.ok .inPlace))
        (Function.update v id ((v id).map fun _ => t))
  | replaced {id instead : Nat} {name : String} {config : Section} {t : Settings}
      (new : v instead = none) (reads : (Settings.ofSection config).outcome here = .ok t)
      (changed : ∀ old, v id = some old → t.interval ≠ old.interval) :
      Heard v (.reload (beat id) name config (.ok (.replace (beat instead))))
        (Function.update v instead (some t))

theorem Heard.of_replace {here : Surroundings} {beat : Nat → ι} {v v' : Tuning} {name : String}
    {config : Section} {i instead : ι}
    (heard : Heard here beat v (.reload i name config (.ok (.replace instead))) v') :
    (i ∉ Set.range beat ∧ instead ∉ Set.range beat ∧ v' = v) ∨
      ∃ id other t, i = beat id ∧ instead = beat other ∧ v other = none ∧
        (Settings.ofSection config).outcome here = .ok t ∧
        (∀ old, v id = some old → t.interval ≠ old.interval) ∧
        v' = Function.update v other (some t) := by
  generalize call : Call.reload i name config (.ok (.replace instead)) = c at heard
  cases heard with
  | foreign foreign =>
    rw [← call] at foreign
    exact .inl ⟨foreign.1, foreign.2, rfl⟩
  | created new reads => cases call
  | inPlace reads same => cases call
  | replaced new reads changed =>
    cases call
    exact .inr ⟨_, _, _, rfl, rfl, new, reads, changed, rfl⟩

inductive Follows : List (Call ι) → Tuning → Prop
  | none : Follows [] fun _ => none
  | call {calls : List (Call ι)} {v v' : Tuning} {c : Call ι} (before : Follows calls v)
      (heard : Heard here beat v c v') : Follows (calls ++ [c]) v'

structure Fits (v : Tuning) (m : Machine) : Prop where
  env : m.look.env = here.env
  tidy : m.Tidy
  settings : ∀ id t, v id = some t → m.tuning id = some t
  sound : ∀ id t, v id = some t → t.interval.isZero = false

theorem follows_concat {here : Surroundings} {beat : Nat → ι} {calls : List (Call ι)}
    {c : Call ι} {v' : Tuning} (follows : Follows here beat (calls ++ [c]) v') :
    ∃ v, Follows here beat calls v ∧ Heard here beat v c v' := by
  generalize total : calls ++ [c] = all at follows
  cases follows with
  | none => simp at total
  | call before heard =>
    obtain ⟨rfl, same⟩ := List.append_inj' total rfl
    cases same
    exact ⟨_, before, heard⟩

theorem follows_append {here : Surroundings} {beat : Nat → ι} {calls new : List (Call ι)}
    {v' : Tuning} (follows : Follows here beat (calls ++ new) v') :
    ∃ v, Follows here beat calls v := by
  induction new using List.reverseRecOn generalizing v' with
  | nil => exact ⟨v', by simpa using follows⟩
  | append_singleton new c ih =>
    rw [← List.append_assoc] at follows
    obtain ⟨v, before, -⟩ := follows_concat follows
    exact ih before

namespace Fits

variable {here : Surroundings} {beat : Nat → ι} {v : Tuning} {m m' : Machine}

theorem empty (env : m.look.env = here.env) (tidy : m.Tidy) :
    Fits here (fun _ => none) m :=
  ⟨env, tidy, nofun, nofun⟩

theorem calm (fits : Fits here v m) (calm : m.Calm m') : Fits here v m' where
  env := by
    rw [← fits.env]
    simp [Machine.look, FileTree.surroundings, calm.vars]
  tidy := calm.tidy fits.tidy
  settings id t known := calm.tuning id t (fits.settings id t known)
  sound := fits.sound

theorem unknown (fits : Fits here v m) {id : Nat} (new : m.fresh ≤ id) : v id = none := by
  cases known : v id with
  | none => rfl
  | some t =>
    have found := fits.settings id t known
    rw [Machine.tuning, fits.tidy id new] at found
    cases found

theorem outcome (fits : Fits here v m) (config : Section) :
    (Settings.ofSection config).outcome m.look = (Settings.ofSection config).outcome here :=
  Settings.outcome_env config fits.env

theorem made (fits : Fits here v m) {config : Section} {t : Settings}
    (reads : (Settings.ofSection config).outcome here = .ok t) :
    Fits here (Function.update v m.fresh (some t)) (m.made (Heartbeat.ofSettings t)) := by
  have later := fits.calm (Machine.calm_made m (Heartbeat.ofSettings t))
  refine ⟨later.env, later.tidy, fun id u known => ?_, fun id u known => ?_⟩
  all_goals
    rw [Function.update_apply] at known
    split at known
  · next own =>
    cases known
    rw [own]
    exact Machine.tuning_made fits.tidy _
  · exact later.settings id u known
  · cases known
    exact Settings.isZero_of_outcome reads
  · exact fits.sound id u known

theorem retuned (fits : Fits here v m) {id : Nat} {h : Heartbeat} {config : Section}
    {t : Settings} (lives : m.heartbeat? id = some h) (kept : t.interval = h.interval)
    (reads : (Settings.ofSection config).outcome here = .ok t) :
    Fits here (Function.update v id ((v id).map fun _ => t))
      (m.setHeartbeat id { h with message := t.message }) := by
  refine ⟨fits.env, Machine.tidy_setHeartbeat fits.tidy _ _, fun other u known => ?_,
    fun other u known => ?_⟩
  all_goals
    rw [Function.update_apply] at known
    split at known
  · next own =>
    obtain ⟨old, -, rfl⟩ := Option.map_eq_some_iff.mp known
    rw [Machine.tuning_setHeartbeat, if_pos own, Machine.tuning, lives]
    simp [Heartbeat.settings, ← kept]
  · next other =>
    rw [Machine.tuning_setHeartbeat, if_neg other]
    exact fits.settings _ u known
  · obtain ⟨old, -, rfl⟩ := Option.map_eq_some_iff.mp known
    exact Settings.isZero_of_outcome reads
  · exact fits.sound other u known

theorem reloaded (fits : Fits here v m) {id : Nat} {config : Section}
    {r : Except String (Reload Nat)} (reloaded : Heartbeat.Reloaded id config m r m')
    (name : String) :
    ∃ v', Heard here beat v (.reload (beat id) name config (r.map (Reload.map beat))) v' ∧
      Fits here v' m' := by
  cases reloaded with
  | refused cause => exact ⟨v, .foreign trivial, fits⟩
  | @inPlace t h reads lives keeps =>
    have kept : h.interval = t.interval := by
      simp only [Heartbeat.keeps, Bool.and_eq_true, beq_iff_eq] at keeps
      exact keeps.2
    have tuning : m.tuning id = some h.settings := by rw [Machine.tuning, lives]; rfl
    rw [fits.outcome] at reads
    refine ⟨_, .inPlace reads fun old known => ?_, ?_⟩
    · cases tuning.symm.trans (fits.settings id old known)
      exact kept.symm
    · exact fits.retuned lives kept.symm reads
  | @replaced t reads changes =>
    rw [fits.outcome] at reads
    refine ⟨_, .replaced (fits.unknown le_rfl) reads fun old known same => ?_, fits.made reads⟩
    obtain ⟨h, lives, rfl⟩ := Option.map_eq_some_iff.mp (fits.settings id old known)
    -- A heartbeat that has been set up keeps its interval.
    have sound : h.interval.isZero = false := fits.sound id _ known
    rw [lives, Option.getD_some, Heartbeat.keeps, sound, same] at changes
    simp [Heartbeat.settings] at changes

theorem created (fits : Fits here v m) {config : Section} {r : Except String Nat}
    (created : Heartbeat.Created config m r m') (name : String) :
    ∃ v', Heard here beat v (.create Heartbeat.kindName name config (r.map beat)) v' ∧
      Fits here v' m' := by
  have blank := fits.calm (Machine.calm_made m {})
  cases created with
  | refused cause => exact ⟨v, .foreign trivial, blank⟩
  | @made t reads =>
    rw [fits.outcome] at reads
    exact ⟨_, .created (blank.unknown le_rfl) reads, blank.made reads⟩

end Fits

end Tuning

section Tuned

variable (here : Surroundings) (machine : ω → Machine) (beat : Nat → ι)

def Stage.Tuned (s : Stage (Chronicle ι ω)) : Prop :=
  ∃ v, Tuning.Follows here beat s.world.calls v ∧ Tuning.Fits here v (machine s.world.world)

open Stage (Calms Keeps Tuned)
open Tuning (Fits Heard)

variable {here machine beat}

theorem Chronicle.act_tuned {call : Except String α → Call ι} {m : Act ω α}
    (heard : ∀ s v, Fits here v (machine s.world) → ∃ v',
      Heard here beat v (call (m.run s).1) v' ∧ Fits here v' (machine (m.run s).2.world)) :
    Keeps (Tuned here machine beat) (Chronicle.act call m).run := by
  rintro s ⟨v, follows, fits⟩
  obtain ⟨v', heard, fits⟩ := heard ⟨s.world.world, s.watch, s.log⟩ v fits
  exact ⟨v', follows.call heard, fits⟩

theorem Chronicle.act_calm {call : Except String α → Call ι} {m : Act ω α}
    (calms : Calms machine m.run) (foreign : ∀ s, (call (m.run s).1).Foreign beat) :
    Keeps (Tuned here machine beat) (Chronicle.act call m).run :=
  act_tuned fun s v fits => ⟨v, .foreign (foreign s), fits.calm (calms s)⟩

theorem Chronicle.within_calm {m : StateM (Stage ω) α} (calms : Calms machine m) :
    Keeps (Tuned here machine beat) (Chronicle.within m) := by
  rintro s ⟨v, follows, fits⟩
  exact ⟨v, follows, fits.calm (calms ⟨s.world.world, s.watch, s.log⟩)⟩

theorem Chronicle.write_tuned {c : Call ι} (foreign : c.Foreign beat) :
    Keeps (Tuned here machine beat) (Chronicle.write c : StateM (Stage (Chronicle ι ω)) Unit) := by
  rintro s ⟨v, follows, fits⟩
  exact ⟨v, follows.call (.foreign foreign), fits⟩

namespace Crew.Hosts

variable {crew : Crew ι ω} {put : Machine → ω → ω} (hosts : crew.Hosts machine put beat)

include hosts

theorem within_machine (m : Act Machine α) (s : Stage ω) :
    machine ((Act.within machine put m).run s).2.world =
      (m.run ⟨machine s.world, s.watch, s.log⟩).2.world := by
  rw [Act.within_run]
  exact hosts.machine_put _ _

theorem calms_within {m : Act Machine α}
    (calm : ∀ s : Stage Machine, s.world.Calm (m.run s).2.world) :
    Calms machine (Act.within machine put m).run := by
  intro s
  have same := hosts.within_machine m s
  unfold ExceptT.run at same ⊢
  rw [same]
  exact calm ⟨machine s.world, s.watch, s.log⟩

theorem finish_calm (i : ι) (name : String) : Calms machine (crew.finish i name).run := by
  by_cases own : i ∈ Set.range beat
  · obtain ⟨id, rfl⟩ := own
    rw [hosts.finish]
    exact hosts.calms_within (Heartbeat.start_calm id name)
  · exact hosts.finishOther i own name

theorem stop_calm (i : ι) (name : String) : Calms machine (crew.stop i name).run := by
  by_cases own : i ∈ Set.range beat
  · obtain ⟨id, rfl⟩ := own
    rw [hosts.stop]
    exact hosts.calms_within (Heartbeat.stop_calm id name)
  · exact hosts.stopOther i own name

theorem create_tuned {kind : String} {maker : Maker ι ω}
    (found : crew.makers.get? kind = some maker) (name : String) (config : Section) :
    Keeps (Tuned here machine beat) ((maker.chronicled kind).create name config).run := by
  by_cases own : kind = Heartbeat.kindName
  · subst own
    apply Chronicle.act_tuned
    intro s v fits
    rw [hosts.create maker found, Act.run_map]
    have created := Heartbeat.create_ends name config (s := ⟨machine s.world, s.watch, s.log⟩)
      fits.tidy
    obtain ⟨v', heard, fits⟩ := fits.created created name
    refine ⟨v', heard, ?_⟩
    rw [hosts.within_machine]
    exact fits
  · obtain ⟨calms, other⟩ := hosts.createOther kind maker own found name config
    refine Chronicle.act_calm calms fun s => ?_
    cases answer : ((maker.create name config).run s).1 with
    | error cause => trivial
    | ok i => exact ⟨own, other s i answer⟩

theorem reload_tuned (i : ι) (name : String) (config : Section) :
    Keeps (Tuned here machine beat) (crew.chronicled.reload i name config).run := by
  by_cases own : i ∈ Set.range beat
  · obtain ⟨id, rfl⟩ := own
    apply Chronicle.act_tuned
    intro s v fits
    rw [hosts.reload, Act.run_map]
    have reloaded := Heartbeat.reload_ends id name config ⟨machine s.world, s.watch, s.log⟩
    obtain ⟨v', heard, fits⟩ : ∃ v', Heard here beat v _ v' ∧ _ := fits.reloaded reloaded name
    refine ⟨v', heard, ?_⟩
    rw [hosts.within_machine]
    exact fits
  · obtain ⟨calms, other⟩ := hosts.reloadOther i own name config
    refine Chronicle.act_calm calms fun s => ?_
    cases answer : ((crew.reload i name config).run s).1 with
    | error cause => trivial
    | ok answer' =>
      cases answer' with
      | inPlace => exact own
      | replace j => exact ⟨own, other s j answer⟩

theorem upholds : crew.chronicled.Upholds (Tuned here machine beat) where
  mark _ _ := id
  create kind maker found := by
    rw [Crew.makers_chronicled] at found
    obtain ⟨m, known, rfl⟩ := Option.map_eq_some_iff.mp found
    exact hosts.create_tuned known
  begin_ i name s tuned :=
    Chronicle.within_calm (hosts.begin_ i name) _
      (Chronicle.write_tuned (c := .begin_ i name) trivial s tuned)
  finish i name := Chronicle.act_calm (hosts.finish_calm i name) fun _ => trivial
  cancel i name elapsed s tuned :=
    Chronicle.within_calm (hosts.cancel i name elapsed) _
      (Chronicle.write_tuned (c := .cancel i name) trivial s tuned)
  stop i name := Chronicle.act_calm (hosts.stop_calm i name) fun _ => trivial
  reload := hosts.reload_tuned
  hook hook found := by
    obtain ⟨call, known, rfl⟩ := Option.map_eq_some_iff.mp found
    exact fun name config => Chronicle.act_calm (hosts.hook call known name config) fun _ => trivial
  wait n := Chronicle.within_calm (hosts.wait n)

end Crew.Hosts

end Tuned

end Steward
