import Steward.Proofs.Component.Acts

set_option autoImplicit false

namespace Steward

namespace Heartbeat

def settings (h : Heartbeat) : Settings := ⟨h.interval, h.message⟩

namespace Settings

def readIn (config : Section) (s : Surroundings) : Except ConfigFault Settings := do
  let interval ← config.getChecked s "interval" [Check.notZero]
  let message ← config.getChecked s "message" []
  return ⟨interval.getD (.ofSeconds 10), message.getD "alive"⟩

variable {config : Section} {s s' : Surroundings} {t : Settings}

theorem ofSection_run (config : Section) (s : Surroundings) (l : Loading) :
    ((ofSection config).runOn s l).1 = readIn config s := by
  unfold ofSection readIn Load.runOn
  rw [Reading.run_eq_foldlM]
  simp only [settingSteps, List.foldlM_cons, List.foldlM_nil, Step.readField, LoadOr.runOn_bind,
    Section.fetch_run]
  cases config.getChecked s "interval" [Check.notZero] with
  | error fault => rfl
  | ok interval =>
    cases config.getChecked (α := String) s "message" [] with
    | error fault => cases interval <;> rfl
    | ok message => cases interval <;> cases message <;> rfl

theorem outcome_eq (config : Section) (s : Surroundings) :
    (ofSection config).outcome s = readIn config s :=
  ofSection_run config s {}

theorem outcome_env (config : Section) (env : s'.env = s.env) :
    (ofSection config).outcome s' = (ofSection config).outcome s := by
  rw [outcome_eq, outcome_eq]
  unfold readIn
  rw [Section.getChecked_env (fun _ _ _ => rfl) env, Section.getChecked_env (fun _ _ _ => rfl) env]

theorem isZero_of_outcome (read : (ofSection config).outcome s = .ok t) :
    t.interval.isZero = false := by
  rw [outcome_eq] at read
  obtain ⟨interval, found, read⟩ := ok_of_bind read
  obtain ⟨message, -, read⟩ := ok_of_bind read
  cases read
  cases interval with
  | none => rfl
  | some interval =>
    have fine := Section.getChecked_checked found
    cases zero : interval.isZero with
    | false => exact zero
    | true =>
      rw [Check.run_cons_error _ _ _ .zeroSpan (by simp [Check.notZero, zero])] at fine
      cases fine

theorem interval_of_absent (read : (ofSection config).outcome s = .ok t)
    (absent : config.field? "interval" = none) : t.interval = .ofSeconds 10 := by
  rw [outcome_eq] at read
  obtain ⟨interval, found, read⟩ := ok_of_bind read
  obtain ⟨message, -, read⟩ := ok_of_bind read
  rw [Section.getChecked, Section.get_of_field?_none absent] at found
  cases found
  cases read
  rfl

theorem message_of_absent (read : (ofSection config).outcome s = .ok t)
    (absent : config.field? "message" = none) : t.message = "alive" := by
  rw [outcome_eq] at read
  obtain ⟨interval, -, read⟩ := ok_of_bind read
  obtain ⟨message, found, read⟩ := ok_of_bind read
  rw [Section.getChecked, Section.get_of_field?_none absent] at found
  cases found
  cases read
  rfl

end Settings

end Heartbeat

namespace Machine

def tuning (m : Machine) (id : Nat) : Option Heartbeat.Settings :=
  (m.heartbeat? id).map Heartbeat.settings

def Tidy (m : Machine) : Prop := ∀ id, m.fresh ≤ id → m.heartbeat? id = none

structure Calm (m m' : Machine) : Prop where
  vars : m'.vars = m.vars
  tidy : m.Tidy → m'.Tidy
  tuning : ∀ id t, m.tuning id = some t → m'.tuning id = some t

namespace Calm

variable {m m' m'' : Machine}

theorem refl (m : Machine) : m.Calm m := ⟨rfl, id, fun _ _ => id⟩

theorem trans (first : m.Calm m') (later : m'.Calm m'') : m.Calm m'' :=
  ⟨later.vars.trans first.vars, later.tidy ∘ first.tidy,
    fun id t found => later.tuning id t (first.tuning id t found)⟩

theorem of_apart (vars : m'.vars = m.vars) (heartbeats : m'.heartbeats = m.heartbeats)
    (fresh : m.fresh ≤ m'.fresh) : m.Calm m' := by
  have same (id : Nat) : m'.heartbeat? id = m.heartbeat? id := by
    rw [heartbeat?, heartbeats, heartbeat?]
  refine ⟨vars, fun tidy id new => ?_, fun id t found => ?_⟩
  · rw [same]
    exact tidy id (fresh.trans new)
  · rw [Machine.tuning, same]
    exact found

end Calm

def made (m : Machine) (h : Heartbeat) : Machine :=
  { m with heartbeats := m.heartbeats ++ [(m.fresh, h)], fresh := m.fresh + 1 }

theorem lookup_cons {α : Type} (id : Nat) (e : Nat × α) (rest : List (Nat × α)) :
    (e :: rest).lookup id = if id = e.1 then some e.2 else rest.lookup id := by
  rw [List.lookup_cons]
  by_cases own : id = e.1
  · simp [own]
  · rw [beq_false_of_ne own, if_neg own]

theorem heartbeat?_made (m : Machine) (h : Heartbeat) (id : Nat) :
    (m.made h).heartbeat? id = (m.heartbeat? id).or (if id = m.fresh then some h else none) := by
  unfold heartbeat? made
  rw [List.lookup_append, lookup_cons]
  rfl

theorem heartbeat?_setHeartbeat (m : Machine) (id other : Nat) (h : Heartbeat) :
    (m.setHeartbeat id h).heartbeat? other =
      if other = id then (m.heartbeat? id).map fun _ => h else m.heartbeat? other := by
  unfold heartbeat? setHeartbeat
  dsimp only
  induction m.heartbeats with
  | nil => simp
  | cons e rest ih =>
    rw [List.map_cons, lookup_cons, lookup_cons, lookup_cons, ih]
    grind

theorem calm_made (m : Machine) (h : Heartbeat) : m.Calm (m.made h) where
  vars := rfl
  tidy tidy id new := by
    have behind : m.fresh + 1 ≤ id := new
    have apart : id ≠ m.fresh := by omega
    rw [heartbeat?_made, tidy id (by omega), if_neg apart]
    rfl
  tuning id t found := by
    obtain ⟨old, known, rfl⟩ := Option.map_eq_some_iff.mp found
    rw [tuning, heartbeat?_made, known]
    rfl

theorem tuning_made {m : Machine} (tidy : m.Tidy) (h : Heartbeat) :
    (m.made h).tuning m.fresh = some h.settings := by
  rw [tuning, heartbeat?_made, tidy m.fresh le_rfl, if_pos rfl]
  rfl

theorem tidy_setHeartbeat {m : Machine} (tidy : m.Tidy) (id : Nat) (h : Heartbeat) :
    (m.setHeartbeat id h).Tidy := by
  intro other new
  have none := tidy other new
  rw [heartbeat?_setHeartbeat]
  split
  · next own =>
    rw [← own, none]
    rfl
  · exact none

theorem tuning_setHeartbeat (m : Machine) (id other : Nat) (h : Heartbeat) :
    (m.setHeartbeat id h).tuning other =
      if other = id then (m.tuning id).map fun _ => h.settings else m.tuning other := by
  unfold tuning
  rw [heartbeat?_setHeartbeat]
  split
  · rw [Option.map_map, Option.map_map]
    rfl
  · rfl

theorem calm_setHeartbeat {m : Machine} {id : Nat} {h : Heartbeat}
    (same : ∀ old, m.heartbeat? id = some old → h.settings = old.settings) :
    m.Calm (m.setHeartbeat id h) where
  vars := rfl
  tidy tidy := tidy_setHeartbeat tidy id h
  tuning other t found := by
    rw [tuning_setHeartbeat]
    split
    · next own =>
      subst own
      obtain ⟨old, lives, rfl⟩ := Option.map_eq_some_iff.mp found
      rw [found, Option.map_some, same old lives]
    · exact found

end Machine

namespace Heartbeat

inductive Reloaded (id : Nat) (config : Section) (m : Machine) :
    Except String (Reload Nat) → Machine → Prop
  | refused (cause : String) : Reloaded id config m (.error cause) m
  | inPlace {t : Settings} {h : Heartbeat}
      (reads : (Settings.ofSection config).outcome m.look = .ok t)
      (lives : m.heartbeat? id = some h) (keeps : h.keeps t = true) :
      Reloaded id config m (.ok .inPlace) (m.setHeartbeat id { h with message := t.message })
  | replaced {t : Settings} (reads : (Settings.ofSection config).outcome m.look = .ok t)
      (changes : ((m.heartbeat? id).getD {}).keeps t = false) :
      Reloaded id config m (.ok (.replace m.fresh)) (m.made (ofSettings t))

theorem reload_ends (id : Nat) (name : String) (config : Section) (s : Stage Machine) :
    Reloaded id config s.world ((reload id name config).run s).1
      ((reload id name config).run s).2.world := by
  have reads := Settings.ofSection_run config s.world.look s.loading
  rw [← Settings.outcome_eq] at reads
  have loaded : (Act.load' (Settings.ofSection config)).run s =
      (((Settings.ofSection config).runOn s.world.look s.loading).1.mapError ConfigFault.message,
        s.withLoading ((Settings.ofSection config).runOn s.world.look s.loading).2) := rfl
  unfold reload
  rw [Act.run_bind, loaded]
  revert reads
  rcases (Settings.ofSection config).runOn s.world.look s.loading with ⟨fault | t, l⟩
  · exact fun _ => .refused fault.message
  · intro reads
    dsimp only [Except.mapError]
    rw [Act.run_bind]
    have got : (get id).run (s.withLoading l) =
        (.ok ((s.world.heartbeat? id).getD {}), s.withLoading l) := rfl
    rw [got]
    dsimp only
    split
    · next keeps =>
      cases lives : s.world.heartbeat? id with
      | none =>
        rw [lives, Option.getD_none, keeps_of_blank] at keeps
        cases keeps
      | some h =>
        rw [lives] at keeps
        exact .inPlace reads.symm lives keeps
    · next changes => exact .replaced reads.symm (by simpa using changes)

inductive Created (config : Section) (m : Machine) : Except String Nat → Machine → Prop
  | refused (cause : String) : Created config m (.error cause) (m.made {})
  | made {t : Settings} (reads : (Settings.ofSection config).outcome m.look = .ok t) :
      Created config m (.ok (m.made {}).fresh) ((m.made {}).made (ofSettings t))

theorem create_ends (name : String) (config : Section) {s : Stage Machine}
    (tidy : s.world.Tidy) :
    Created config s.world ((prototype.maker.create name config).run s).1
      ((prototype.maker.create name config).run s).2.world := by
  let s₁ : Stage Machine := { s with world := s.world.made {} }
  have blank : (make {}).run s = (.ok s.world.fresh, s₁) := rfl
  have lives : s₁.world.heartbeat? s.world.fresh = some {} := by
    rw [Machine.heartbeat?_made, tidy _ le_rfl, if_pos rfl]
    rfl
  have reloaded : Reloaded s.world.fresh config s₁.world
      ((prototype.reload s.world.fresh name config).run s₁).1
      ((prototype.reload s.world.fresh name config).run s₁).2.world := reload_ends ..
  change Created config s.world ((make {} >>= fun blank => _).run s).1
    ((make {} >>= fun blank => _).run s).2.world
  rw [Act.run_bind, blank]
  dsimp only
  rw [Act.run_bind]
  revert reloaded
  rcases (prototype.reload s.world.fresh name config).run s₁ with ⟨r, w, watch, log⟩
  intro reloaded
  cases reloaded with
  | refused cause => exact .refused cause
  | replaced reads changes => exact .made reads
  | inPlace reads lives' keeps =>
    -- A blank keeps nothing.
    cases lives.symm.trans lives'
    rw [keeps_of_blank] at keeps
    cases keeps

theorem start_calm (id : Nat) (name : String) (s : Stage Machine) :
    s.world.Calm ((start id name).run s).2.world := by
  have ran : ((start id name).run s).2.world = s.world.setHeartbeat id
      (((s.world.heartbeat? id).getD {}).begin_ name s.world.nanos) := rfl
  rw [ran]
  apply Machine.calm_setHeartbeat
  intro old lives
  rw [lives, Option.getD_some, begin_]
  cases old.due <;> rfl

theorem stop_calm (id : Nat) (name : String) (s : Stage Machine) :
    s.world.Calm ((stop id name).run s).2.world := by
  let h := (s.world.heartbeat? id).getD {}
  have got : (get id).run s = (.ok h, s) := rfl
  unfold stop
  rw [Act.run_bind, got]
  dsimp only
  split
  · apply Machine.calm_setHeartbeat
    intro old lives
    simp [h, lives, settings]
  · exact .refl _

end Heartbeat

namespace Machine

theorem lookup_map {α β : Type} (f : α → β) (id : Nat) (l : List (Nat × α)) :
    (l.map fun e => (e.1, f e.2)).lookup id = (l.lookup id).map f := by
  induction l with
  | nil => rfl
  | cons e rest ih =>
    rw [List.map_cons, lookup_cons, lookup_cons, ih]
    by_cases own : id = e.1 <;> simp [own]

theorem pass_calm (n : Nat) (s : Stage Machine) : s.world.Calm (pass n s).world := by
  let now := ({ s.world with now := s.world.now + n } : Machine).nanos
  have passed (id : Nat) : (pass n s).world.heartbeat? id =
      (s.world.heartbeat? id).map fun h => h.advance now :=
    lookup_map (fun h : Heartbeat => h.advance now) id s.world.heartbeats
  refine ⟨rfl, fun tidy id new => ?_, fun id t found => ?_⟩
  · rw [passed, tidy id new]
    rfl
  · obtain ⟨h, lives, rfl⟩ := Option.map_eq_some_iff.mp found
    rw [tuning, passed, lives]
    rfl

end Machine

namespace PidFile

theorem apart_calm (m : Machine) : Apart fun s => m.Calm s.world where
  mark _ _ := id
  files _ _ calm := calm.trans (.of_apart rfl rfl le_rfl)
  pidFiles _ _ calm := calm.trans (.of_apart rfl rfl le_rfl)
  fresh _ calm := calm.trans (.of_apart rfl rfl (Nat.le_succ _))

end PidFile

end Steward
