import Steward.Proofs.Supervision.Dismissal
import Steward.Proofs.Supervision.Hosting

set_option autoImplicit false

namespace Steward

open Heartbeat (Settings)

variable {ι ω : Type}

namespace Call

def isOffer : Call ι → Bool
  | .create _ _ _ (.ok _) => true
  | .reload _ _ _ (.ok _) => true
  | _ => false

end Call

structure Ledger.Sheds (l l' : Ledger ι) : Prop where
  calls : ∃ new, l'.calls = l.calls ++ new ∧ ∀ c ∈ new, c.isOffer = false
  roster : ∀ name m' i, l'.roster.get? name = some m' → m'.instance? = some i →
    ∃ m, l.roster.get? name = some m ∧ m.instance? = some i ∧ m.kind = m'.kind ∧
      m.config = m'.config

namespace Ledger.Sheds

variable {l l' l'' : Ledger ι}

theorem of_roster {new : List (Call ι)} (calls : l'.calls = l.calls ++ new)
    (quiet : ∀ c ∈ new, c.isOffer = false) (roster : l'.roster = l.roster) : l.Sheds l' :=
  ⟨⟨new, calls, quiet⟩, fun _ m _ found live => ⟨m, roster ▸ found, live, rfl, rfl⟩⟩

theorem refl (l : Ledger ι) : l.Sheds l :=
  ⟨⟨[], by simp, nofun⟩, fun _ m _ found live => ⟨m, found, live, rfl, rfl⟩⟩

theorem trans (first : l.Sheds l') (later : l'.Sheds l'') : l.Sheds l'' := by
  obtain ⟨front, begins, quiet⟩ := first.calls
  obtain ⟨back, ends, still⟩ := later.calls
  refine ⟨⟨front ++ back, by rw [ends, begins, List.append_assoc], ?_⟩, ?_⟩
  · exact List.forall_mem_append.mpr ⟨quiet, still⟩
  · intro name m'' i found live
    obtain ⟨m', found, live, kind', config'⟩ := later.roster name m'' i found live
    obtain ⟨m, found, live, kind, config⟩ := first.roster name m' i found live
    exact ⟨m, found, live, kind.trans kind', config.trans config'⟩

theorem strike (l : Ledger ι) (name : String) : l.Sheds (l.strike name) := by
  refine ⟨⟨[], by simp, nofun⟩, fun other m i found live => ⟨m, ?_, live, rfl, rfl⟩⟩
  rw [Ledger.roster_strike, Table.get?_erase] at found
  split at found
  · cases found
  · exact found

theorem clear (l : Ledger ι) : l.Sheds l.clear :=
  ⟨⟨[], by simp [Ledger.clear], nofun⟩, nofun⟩

theorem placeholder (l : Ledger ι) (spec : ComponentSpec) :
    l.Sheds (l.enroll (.placeholder spec)) := by
  refine ⟨⟨[], by simp, nofun⟩, fun name m i found live => ⟨m, ?_, live, rfl, rfl⟩⟩
  rw [Ledger.roster_enroll, Table.get?_insert] at found
  split at found
  · cases found
    cases live
  · exact found

theorem start (l : Ledger ι) (name : String) :
    l.Sheds ((l.alter name fun m => { m with state := .running }).join name) := by
  refine ⟨⟨[], by simp, nofun⟩, fun other m i found live => ?_⟩
  rw [Ledger.roster_join, Ledger.roster_alter, Table.get?_update] at found
  split at found
  · next own =>
    subst own
    obtain ⟨m, known, rfl⟩ := Option.map_eq_some_iff.mp found
    exact ⟨m, known, live, rfl, rfl⟩
  · exact ⟨m, found, live, rfl, rfl⟩

end Ledger.Sheds

open Ledger (Sheds)

theorem Stopped.sheds {name : String} {l l' : Ledger ι} {active : Option ι}
    {r : Except Fault Unit} (stop : Stopped name l active r l') : l.Sheds l' := by
  cases stop with
  | idle => exact .refl l
  | stopped i => exact .of_roster rfl (by simp [Call.isOffer]) rfl
  | failed i cause => exact .of_roster rfl (by simp [Call.isOffer]) rfl

theorem RemovedAll.sheds {names : List String} {l l' : Ledger ι} {faults : List (Option Fault)}
    (removed : RemovedAll names l faults l') : l.Sheds l' := by
  induction removed with
  | nil => exact .refl _
  | cons stop rest ih => exact ((Sheds.strike _ _).trans stop.sheds).trans ih

theorem Tried.sheds {crew : Crew ι ω} {name : String} {l l' : Ledger ι} {r : Except Fault Nat}
    (tried : Tried crew name l r l') : l.Sheds l' := by
  have called (calls : List (Call ι)) (quiet : ∀ c ∈ calls, c.isOffer = false) :
      l.Sheds (l.callAll calls) := .of_roster rfl quiet rfl
  have hooks (config : Section) : ∀ c ∈ crew.hookCalls name config, c.isOffer = false := by
    intro c member
    obtain ⟨_, -, rfl⟩ := List.mem_map.mp member
    rfl
  cases tried with
  | absent left none => exact .refl l
  | refused member live cause => exact called _ (by simp [Call.isOffer])
  | late member live budget => exact called _ (hooks _)
  | cancelled member live budget =>
    exact called _ (List.forall_mem_append.mpr ⟨hooks _, by simp [Call.isOffer]⟩)
  | failed member live cause =>
    exact called _ (List.forall_mem_append.mpr ⟨hooks _, by simp [Call.isOffer]⟩)
  | started member live left =>
    exact (called _ (List.forall_mem_append.mpr ⟨hooks _, by simp [Call.isOffer]⟩)).trans
      (.start _ _)

theorem TriedAll.sheds {crew : Crew ι ω} {queue : List String} {l l' : Ledger ι}
    {r : Except Fault Nat} (tried : TriedAll crew queue l r l') : l.Sheds l' := by
  induction tried with
  | nil left => exact .refl _
  | failed first => exact first.sheds
  | cons first later ih => exact first.sheds.trans ih

inductive Tuning.Offered (here : Surroundings) (beat : Nat → ι) (v : Tuning) (kind : String)
    (config : Section) : ι → Tuning → Prop
  | other {i : ι} (other : kind ≠ Heartbeat.kindName) (foreign : i ∉ Set.range beat) :
      Offered here beat v kind config i v
  | heartbeat {id : Nat} {t : Settings} (own : kind = Heartbeat.kindName) (new : v id = none)
      (reads : (Settings.ofSection config).outcome here = .ok t) :
      Offered here beat v kind config (beat id) (Function.update v id (some t))

/-- What holds of the instances on a roster: each heartbeat is set as its configuration says, other
components have no heartbeat, and no two have the same one. -/
structure Tuning.Serves (here : Surroundings) (beat : Nat → ι) (v : Tuning)
    (roster : Table (Member ι)) : Prop where
  heartbeat : ∀ name m i, roster.get? name = some m → m.instance? = some i →
    m.kind = Heartbeat.kindName → ∃ id t, i = beat id ∧ v id = some t ∧
      (Settings.ofSection m.config).outcome here = .ok t
  other : ∀ name m i, roster.get? name = some m → m.instance? = some i →
    m.kind ≠ Heartbeat.kindName → i ∉ Set.range beat
  single : ∀ name other m n id, roster.get? name = some m → roster.get? other = some n →
    m.instance? = some (beat id) → n.instance? = some (beat id) → name = other

def Ledger.Tends (here : Surroundings) (beat : Nat → ι) (l : Ledger ι) : Prop :=
  ∀ v, Tuning.Follows here beat l.calls v → Tuning.Serves here beat v l.roster

section Tends

open Tuning (Follows Heard Offered Serves)

variable {here : Surroundings} {beat : Nat → ι} {v v' : Tuning} {roster : Table (Member ι)}
  {l l' : Ledger ι}

theorem Tuning.Heard.of_quiet {c : Call ι} (heard : Heard here beat v c v')
    (quiet : c.isOffer = false) : v' = v := by
  cases heard with
  | foreign foreign => rfl
  | created new reads => cases quiet
  | inPlace reads same => cases quiet
  | replaced new reads changed => cases quiet

theorem Tuning.follows_quiet {calls new : List (Call ι)}
    (follows : Follows here beat (calls ++ new) v) (quiet : ∀ c ∈ new, c.isOffer = false) :
    Follows here beat calls v := by
  induction new using List.reverseRecOn generalizing v with
  | nil => simpa using follows
  | append_singleton new c ih =>
    rw [← List.append_assoc] at follows
    obtain ⟨w, before, heard⟩ := follows_concat follows
    rw [heard.of_quiet (quiet c (by simp))]
    exact ih before fun c member => quiet c (by simp [member])

namespace Tuning.Serves

theorem empty : Serves here beat v .empty := by
  constructor <;> simp [Table.get?_empty]

theorem known (serves : Serves here beat v roster) {name : String} {m : Member ι} {id : Nat}
    (found : roster.get? name = some m) (live : m.instance? = some (beat id))
    (injective : Function.Injective beat) : ∃ t, v id = some t := by
  by_cases own : m.kind = Heartbeat.kindName
  · obtain ⟨id', t, same, known, -⟩ := serves.heartbeat name m _ found live own
    cases injective same
    exact ⟨t, known⟩
  · exact absurd ⟨id, rfl⟩ (serves.other name m _ found live own)

theorem offered (serves : Serves here beat v roster) {kind : String} {config : Section} {i : ι}
    (offered : Offered here beat v kind config i v') : Serves here beat v' roster := by
  cases offered with
  | other other foreign => exact serves
  | @heartbeat id t own new reads =>
    refine ⟨fun name m i found live own => ?_, serves.other, serves.single⟩
    obtain ⟨id', u, rfl, known, reads⟩ := serves.heartbeat name m i found live own
    refine ⟨id', u, rfl, ?_, reads⟩
    rw [Function.update_apply]
    split
    · next same =>
      subst same
      cases new.symm.trans known
    · exact known

theorem enroll (serves : Serves here beat v roster) (injective : Function.Injective beat)
    {spec : ComponentSpec} {i : ι}
    (offered : Offered here beat v spec.kind spec.config i v') :
    Serves here beat v' (roster.insert spec.name (.created spec i)) := by
  have still := serves.offered offered
  refine ⟨fun name m j found live own => ?_, fun name m j found live other => ?_,
    fun name other m n id found known live lives => ?_⟩
  · rw [Table.get?_insert] at found
    split at found
    · cases found
      cases live
      cases offered with
      | other other foreign => exact absurd own other
      | @heartbeat id t own new reads => exact ⟨id, t, rfl, Function.update_self .., reads⟩
    · exact still.heartbeat name m j found live own
  · rw [Table.get?_insert] at found
    split at found
    · cases found
      cases live
      cases offered with
      | other other foreign => exact foreign
      | heartbeat own new reads => exact absurd own other
    · exact still.other name m j found live other
  · -- The new instance is not that of another name.
    have unused (name : String) (m : Member ι) (held : roster.get? name = some m)
        (its : m.instance? = some (beat id)) : i ≠ beat id := by
      intro same
      obtain ⟨t, told⟩ := serves.known held its injective
      cases offered with
      | other other foreign => exact foreign ⟨id, same.symm⟩
      | heartbeat own new reads =>
        cases injective same
        cases new.symm.trans told
    rw [Table.get?_insert] at found known
    split at found <;> split at known
    · next own same => exact own.trans same.symm
    · cases found
      cases live
      exact absurd rfl (unused other n known lives)
    · cases known
      cases lives
      exact absurd rfl (unused name m found live)
    · exact serves.single name other m n id found known live lives

end Tuning.Serves

theorem Ledger.Tends.sheds (tends : l.Tends here beat) (sheds : l.Sheds l') :
    l'.Tends here beat := by
  intro v follows
  obtain ⟨new, calls, quiet⟩ := sheds.calls
  rw [calls] at follows
  have serves := tends v (Tuning.follows_quiet follows quiet)
  refine ⟨fun name m' i found live own => ?_, fun name m' i found live other => ?_,
    fun name other m' n' id found known live lives => ?_⟩
  · obtain ⟨m, found, live, kind, config⟩ := sheds.roster name m' i found live
    rw [← config]
    exact serves.heartbeat name m i found live (kind.trans own)
  · obtain ⟨m, found, live, kind, -⟩ := sheds.roster name m' i found live
    exact serves.other name m i found live (kind ▸ other)
  · obtain ⟨m, found, live, -⟩ := sheds.roster name m' _ found live
    obtain ⟨n, known, lives, -⟩ := sheds.roster other n' _ known lives
    exact serves.single name other m n id found known live lives

theorem Tuning.Heard.created_offered {kind name : String} {config : Section} {i : ι}
    (heard : Heard here beat v (.create kind name config (.ok i)) v') :
    Offered here beat v kind config i v' := by
  generalize call : Call.create kind name config (.ok i) = c at heard
  cases heard with
  | foreign foreign =>
    rw [← call] at foreign
    exact .other foreign.1 foreign.2
  | created new reads =>
    cases call
    exact .heartbeat rfl new reads
  | inPlace reads same => cases call
  | replaced new reads changed => cases call

theorem Tuning.Heard.replaced_offered {name : String} {config : Section} {m : Member ι}
    {i instead : ι} (heard : Heard here beat v (.reload i name config (.ok (.replace instead))) v')
    (serves : Serves here beat v roster) (found : roster.get? name = some m)
    (live : m.instance? = some i) : Offered here beat v m.kind config instead v' := by
  rcases heard.of_replace with ⟨foreign, new, rfl⟩ | ⟨id, other, t, rfl, rfl, new, reads, -, rfl⟩
  · refine .other (fun own => ?_) new
    obtain ⟨id, t, rfl, -⟩ := serves.heartbeat name m i found live own
    exact foreign ⟨id, rfl⟩
  · refine .heartbeat ?_ new reads
    by_contra apart
    exact serves.other name m _ found live apart ⟨id, rfl⟩

theorem Tuning.Heard.inPlace_set {name : String} {config : Section} {m : Member ι} {i : ι}
    (heard : Heard here beat v (.reload i name config (.ok .inPlace)) v')
    (injective : Function.Injective beat) (serves : Serves here beat v roster)
    (found : roster.get? name = some m) (live : m.instance? = some i) :
    (∀ id, beat id ≠ i → v' id = v id) ∧ ∀ id, beat id = i →
      ∃ t, v' id = some t ∧ (Settings.ofSection config).outcome here = .ok t := by
  generalize call : Call.reload i name config (.ok .inPlace) = c at heard
  cases heard with
  | foreign foreign =>
    rw [← call] at foreign
    exact ⟨fun _ _ => rfl, fun id same => absurd ⟨id, same⟩ foreign⟩
  | created new reads => cases call
  | replaced new reads changed => cases call
  | @inPlace id _ _ t reads same =>
    cases call
    obtain ⟨old, known⟩ := serves.known found live injective
    refine ⟨fun other apart => ?_, fun other own => ⟨t, ?_, reads⟩⟩
    · have apart : other ≠ id := fun same => apart (same ▸ rfl)
      rw [Function.update_of_ne apart]
    · cases injective own
      rw [Function.update_self, known]
      rfl

theorem Tuning.Serves.reconfigured {name : String} {config : Section} {m : Member ι} {i : ι}
    (serves : Serves here beat v roster) (injective : Function.Injective beat)
    (found : roster.get? name = some m) (live : m.instance? = some i)
    (heard : Heard here beat v (.reload i name config (.ok .inPlace)) v') :
    Serves here beat v' (roster.update name fun m => { m with config }) := by
  obtain ⟨others, reread⟩ := heard.inPlace_set injective serves found live
  -- The records are as before, but for the configuration of this one.
  have before {other : String} {n' : Member ι}
      (found : (roster.update name fun m => { m with config }).get? other = some n') :
      ∃ n, roster.get? other = some n ∧ n.instance? = n'.instance? ∧ n.kind = n'.kind ∧
        n'.config = if other = name then config else n.config := by
    rw [Table.get?_update] at found
    split at found
    · next own =>
      obtain ⟨n, known, rfl⟩ := Option.map_eq_some_iff.mp found
      exact ⟨n, own ▸ known, rfl, rfl, (if_pos own).symm⟩
    · next apart => exact ⟨n', found, rfl, rfl, (if_neg apart).symm⟩
  refine ⟨fun other n' j registered lives own => ?_, fun other n' j registered lives apart => ?_,
    fun one other m' n' id registered known lives its => ?_⟩
  · obtain ⟨n, known, same, kind, stored⟩ := before registered
    obtain ⟨id, t, rfl, told, reads⟩ :=
      serves.heartbeat other n j known (same.trans lives) (kind.trans own)
    rw [stored]
    by_cases reloaded : other = name
    · subst reloaded
      cases found.symm.trans known
      cases live.symm.trans (same.trans lives)
      obtain ⟨t, told, reads⟩ := reread id rfl
      rw [if_pos rfl]
      exact ⟨id, t, rfl, told, reads⟩
    · have apart : beat id ≠ i := by
        rintro rfl
        exact reloaded (serves.single other name n m id known found (same.trans lives) live)
      rw [if_neg reloaded]
      exact ⟨id, t, rfl, (others id apart).trans told, reads⟩
  · obtain ⟨n, known, same, kind, -⟩ := before registered
    exact serves.other other n j known (same.trans lives) (kind ▸ apart)
  · obtain ⟨m, registered, same, -⟩ := before registered
    obtain ⟨n, known, alike, -⟩ := before known
    exact serves.single one other m n id registered known (same.trans lives) (alike.trans its)

namespace Settled

variable {p : Policy} {s : Surroundings} {spec : ComponentSpec} {r : Except Fault Bool}

theorem tends (settled : Settled p s spec l r l') (injective : Function.Injective beat)
    (tends : l.Tends here beat) : l'.Tends here beat := by
  cases settled with
  | disableFailed off stop => exact tends.sheds stop.sheds
  | disabled off stop => exact tends.sheds (stop.sheds.trans (.placeholder _ spec))
  | createStopFailed on fresh stop => exact tends.sheds stop.sheds
  | createFailed on fresh stop cause =>
    exact tends.sheds (stop.sheds.trans (.of_roster rfl (by simp [Call.isOffer]) rfl))
  | @created l₁ on fresh stop i =>
    intro v' follows
    obtain ⟨v, before, heard⟩ := Tuning.follows_concat follows
    exact (tends.sheds stop.sheds v before).enroll injective heard.created_offered
  | unchanged on held same => exact tends
  | reloadFailed on held changed cause =>
    exact tends.sheds (.of_roster rfl (by simp [Call.isOffer]) rfl)
  | inPlace on held changed =>
    intro v' follows
    obtain ⟨v, before, heard⟩ := Tuning.follows_concat follows
    exact (tends v before).reconfigured injective held.member held.live heard
  | @replaceFailed m i on held changed instead runs cause =>
    intro v' follows
    obtain ⟨v₁, follows, quiet⟩ := Tuning.follows_concat follows
    obtain ⟨v, before, heard⟩ := Tuning.follows_concat follows
    rw [quiet.of_quiet rfl]
    have serves := tends v before
    exact serves.offered (heard.replaced_offered serves held.member held.live)
  | @replaced m i l₁ on held changed instead stop =>
    intro v' follows
    obtain ⟨new, calls, quiet⟩ := stop.sheds.calls
    rw [Ledger.calls_enroll, calls] at follows
    obtain ⟨v, before, heard⟩ := Tuning.follows_concat (Tuning.follows_quiet follows quiet)
    have serves := tends v before
    have offered := heard.replaced_offered serves held.member held.live
    rw [held.kind] at offered
    have enrolled := serves.enroll injective offered
    rw [Ledger.roster_enroll, stop.roster]
    exact enrolled

end Settled

theorem SettledAll.tends {p : Policy} {turns : List (ComponentSpec × Surroundings)}
    {r : Except Fault (List String)} (settled : SettledAll p turns l r l')
    (injective : Function.Injective beat) (tends : l.Tends here beat) : l'.Tends here beat := by
  induction settled with
  | nil => exact tends
  | failed first => exact first.tends injective tends
  | failedLater first later ih => exact ih (first.tends injective tends)
  | cons first later ih => exact ih (first.tends injective tends)

theorem Reconciled.tends {crew : Crew ι ω} {p : Policy}
    {turns : List (ComponentSpec × Surroundings)} {r : Except Fault Unit}
    (reconciled : Reconciled crew p turns l r l') (injective : Function.Injective beat)
    (tends : l.Tends here beat) : l'.Tends here beat := by
  cases reconciled with
  | unsettled settled => exact settled.tends injective tends
  | unremoved settled removed failed => exact (settled.tends injective tends).sheds removed.sheds
  | tried settled removed gone tried =>
    exact (settled.tends injective tends).sheds (removed.sheds.trans tried.sheds)

theorem perform_tends (crew : Crew ι ω) (p : Policy) (request : Request)
    (h : House ι (Chronicle ι ω)) (sound : h.ledger.Sound) (injective : Function.Injective beat)
    (tends : h.ledger.Tends here beat) :
    Run.Ends (request.perform crew.chronicled p) h fun _ h' => h'.ledger.Tends here beat := by
  cases request with
  | reconcile list initial =>
    refine (reconcile_ends crew p list initial h sound.named).mono ?_
    rintro r h' (⟨fault, -, ledger⟩ | ⟨specs, begun, -, orderly, reconciled⟩)
    · rw [ledger]
      exact tends
    · exact reconciled.tends injective tends
  | unload name =>
    refine (unload_ends crew name h sound.named).bind ?_ ?_
    · rintro found h' (⟨-, -, ledger⟩ | ⟨stop, -, stopped⟩)
      · apply Run.Ends.pure
        rw [ledger]
        exact tends
      · exact .pure (tends.sheds ((Sheds.strike _ _).trans stopped.sheds))
    · rintro fault h' (⟨-, result, -⟩ | ⟨stop, -, stopped⟩)
      · cases result
      · exact tends.sheds ((Sheds.strike _ _).trans stopped.sheds)
  | unloadAll =>
    refine (unloadAll_ends crew h sound.named sound.nodup sound.active).mono ?_
    rintro r h' ⟨faults, l, -, removed, ledger⟩
    rw [ledger]
    exact tends.sheds (removed.sheds.trans (.clear l))

end Tends

structure House.InTune (here : Surroundings) (machine : ω → Machine) (beat : Nat → ι)
    (h : House ι (Chronicle ι ω)) : Prop where
  sound : h.ledger.Sound
  tends : h.ledger.Tends here beat
  tuned : h.stage.Tuned here machine beat

section InTune

variable {crew : Crew ι ω} {machine : ω → Machine} {put : Machine → ω → ω} {beat : Nat → ι}
  {here : Surroundings}

theorem House.inTune_empty (stage : Stage ω) (env : (machine stage.world).look.env = here.env)
    (tidy : (machine stage.world).Tidy) :
    ({ stage := ⟨⟨stage.world, []⟩, stage.watch, stage.log⟩ } :
      House ι (Chronicle ι ω)).InTune here machine beat :=
  ⟨.clear {}, fun _ _ => .empty, ⟨_, .none, .empty env tidy⟩⟩

variable (hosts : crew.Hosts machine put beat) (p : Policy)

include hosts

theorem House.InTune.take {h : House ι (Chronicle ι ω)} (inTune : h.InTune here machine beat)
    (event : Event ω)
    (calm : ∀ change, event = .passed change →
      ∀ s, (machine s.world).Calm (machine (change s).world)) :
    (event.chronicled.take crew.chronicled p h).InTune here machine beat := by
  cases event with
  | asked request =>
    refine ⟨?_, ?_, ?_⟩
    · obtain ⟨l, moved, same | ⟨-, cleared⟩⟩ := perform_moves crew p request h inTune.sound
      · exact same ▸ Moves.sound moved inTune.sound
      · exact cleared ▸ .clear l
    · exact perform_tends crew p request h inTune.sound hosts.injective inTune.tends
    · exact Supervisor.perform_upholds hosts.upholds p request h inTune.tuned
  | passed change =>
    refine ⟨inTune.sound, inTune.tends, ?_⟩
    obtain ⟨v, follows, fits⟩ := inTune.tuned
    exact ⟨v, follows,
      fits.calm (calm change rfl ⟨h.stage.world.world, h.stage.watch, h.stage.log⟩)⟩

theorem House.InTune.after {h : House ι (Chronicle ι ω)} (inTune : h.InTune here machine beat)
    (events : List (Event ω))
    (calm : ∀ change, .passed change ∈ events →
      ∀ s, (machine s.world).Calm (machine (change s).world)) :
    (House.after crew.chronicled p h (events.map .chronicled)).InTune here machine beat := by
  induction events generalizing h with
  | nil => exact inTune
  | cons event events ih =>
    have first := inTune.take hosts p event fun change passed => calm change (by simp [passed])
    exact ih first fun change member => calm change (by simp [member])

end InTune

end Steward
