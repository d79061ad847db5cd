import Steward.Proofs.Supervision.Heartbeats
import Steward.Proofs.Supervision.Isolation

set_option autoImplicit false

namespace Steward

open Heartbeat (Settings)
open Tuning (Follows)

variable {ι ω : Type}

structure KeepsInterval (here : Surroundings) (p : Policy) (spec : ComponentSpec) (m : Member ι) :
    Prop where
  on : spec.disabledOn p.hostname = false
  wanted : spec.kind = Heartbeat.kindName
  kind : m.kind = Heartbeat.kindName
  runs : m.state = .running
  interval : ∀ t old, (Settings.ofSection spec.config).outcome here = .ok t →
    (Settings.ofSection m.config).outcome here = .ok old → t.interval = old.interval

theorem KeepsInterval.of_env {here now : Surroundings} {p : Policy} {spec : ComponentSpec}
    {m : Member ι} (keeps : KeepsInterval now p spec m) (env : now.env = here.env) :
    KeepsInterval here p spec m := by
  refine ⟨keeps.on, keeps.wanted, keeps.kind, keeps.runs, fun t old reads stored => ?_⟩
  rw [← Settings.outcome_env _ env] at reads stored
  exact keeps.interval t old reads stored

structure Ledger.Steady (name : String) (m : Member ι) (l l' : Ledger ι) : Prop where
  calls : ∃ new, Call.on name l'.calls = Call.on name l.calls ++ new ∧ ∀ c ∈ new, c.isTurn = false
  member : ∃ config, l'.roster.get? name = some { m with config }

section Steady

variable {name : String} {m : Member ι} {l l' l'' : Ledger ι} {here : Surroundings}
  {beat : Nat → ι} {p : Policy} {s : Surroundings} {spec : ComponentSpec}

namespace Ledger.Steady

theorem of_sameOn (same : l.SameOn name l') (found : l.roster.get? name = some m) :
    l.Steady name m l' :=
  ⟨⟨[], by rw [same.calls, List.append_nil], nofun⟩, ⟨m.config, same.member.trans found⟩⟩

theorem sameOn (steady : Steady name m l l') (same : l'.SameOn name l'') :
    Steady name m l l'' := by
  obtain ⟨new, calls, quiet⟩ := steady.calls
  obtain ⟨config, member⟩ := steady.member
  exact ⟨⟨new, same.calls.trans calls, quiet⟩, ⟨config, same.member.trans member⟩⟩

theorem retained (steady : Steady name m l l') {new : List (Call ι)}
    (total : l'.calls = l.calls ++ new) : Retained m name (l'.roster.get? name) new := by
  obtain ⟨own, calls, quiet⟩ := steady.calls
  rw [total, Call.on_append, List.append_cancel_left_eq] at calls
  exact ⟨steady.member, calls ▸ quiet⟩

end Ledger.Steady

theorem Ledger.SameOn.steady (same : l.SameOn name l') (steady : l'.Steady name m l'') :
    l.Steady name m l'' := by
  obtain ⟨new, calls, quiet⟩ := steady.calls
  exact ⟨⟨new, by rw [calls, same.calls], quiet⟩, steady.member⟩

theorem Ledger.Tends.not_replaced (tends : l.Tends here beat)
    (injective : Function.Injective beat) (found : l.roster.get? spec.name = some m)
    {i instead : ι} (live : m.instance? = some i) (keeps : KeepsInterval here p spec m)
    {v : Tuning} :
    ¬ Follows here beat
      (l.calls ++ [.reload i spec.name spec.config (.ok (.replace instead))]) v := by
  intro follows
  obtain ⟨w, before, heard⟩ := Tuning.follows_concat follows
  obtain ⟨id, old, own, known, stored⟩ :=
    (tends w before).heartbeat spec.name m i found live keeps.kind
  rcases heard.of_replace with ⟨foreign, -⟩ | ⟨id', -, t, own', -, -, reads, changed, -⟩
  · exact foreign ⟨id, own.symm⟩
  · cases injective (own.symm.trans own')
    exact changed old known (keeps.interval t old reads stored)

theorem Settled.steady {r : Except Fault Bool} (settled : Settled p s spec l r l')
    (injective : Function.Injective beat) (tends : l.Tends here beat)
    (found : l.roster.get? spec.name = some m) {i : ι} (live : m.instance? = some i)
    (keeps : KeepsInterval here p spec m) {v : Tuning} (follows : Follows here beat l'.calls v) :
    l.Steady spec.name m l' ∧ r ≠ .ok true := by
  have runs : m.isRunning = true := by simp [Member.isRunning, keeps.runs]
  have stale (fresh : Fresh spec (l.roster.get? spec.name)) : False := by
    rcases fresh m found with none | other
    · cases none.symm.trans live
    · exact other (keeps.kind.trans keeps.wanted.symm)
  have held {m' : Member ι} {i' : ι} (held : Held spec (l.roster.get? spec.name) m' i') :
      m' = m ∧ i' = i := by
    cases found.symm.trans held.member
    cases live.symm.trans held.live
    exact ⟨rfl, rfl⟩
  cases settled with
  | disableFailed off stop => cases off.symm.trans keeps.on
  | disabled off stop => cases off.symm.trans keeps.on
  | createStopFailed on fresh stop => exact (stale fresh).elim
  | createFailed on fresh stop cause => exact (stale fresh).elim
  | created on fresh stop i => exact (stale fresh).elim
  | unchanged on held same => exact ⟨.of_sameOn (.refl _ l) found, by simp⟩
  | @reloadFailed m' i' on held' changed cause =>
    refine ⟨⟨⟨[.reload i' spec.name spec.config (.error cause)], ?_, by simp [Call.isTurn]⟩,
      ⟨m.config, found⟩⟩, by simp⟩
    simp [Call.on, Call.name]
  | @inPlace m' i' on held' changed =>
    obtain ⟨rfl, rfl⟩ := held held'
    refine ⟨⟨⟨[.reload i' spec.name spec.config (.ok .inPlace)], ?_, by simp [Call.isTurn]⟩,
      ⟨spec.config, ?_⟩⟩, by simp [runs]⟩
    · simp [Call.on, Call.name]
    · rw [Ledger.roster_alter, Table.get?_update, if_pos rfl, Ledger.roster_call, found]
      rfl
  | @replaceFailed m' i' on held' changed instead runs' cause =>
    obtain ⟨rfl, rfl⟩ := held held'
    obtain ⟨w, before, -⟩ := Tuning.follows_concat follows
    exact (tends.not_replaced injective found live keeps before).elim
  | @replaced m' i' l₁ on held' changed instead stop =>
    obtain ⟨rfl, rfl⟩ := held held'
    obtain ⟨new, calls, -⟩ := stop.calls
    rw [Ledger.calls_enroll, calls] at follows
    obtain ⟨w, before⟩ := Tuning.follows_append follows
    exact (tends.not_replaced injective found live keeps before).elim

theorem Settled.steady_before {r : Except Fault Bool} (settled : Settled p s spec l r l')
    (injective : Function.Injective beat) (tends : l.Tends here beat)
    (found : l.roster.get? spec.name = some m) {i : ι} (live : m.instance? = some i)
    (keeps : KeepsInterval here p spec m) (later : Moves l' l'') {v : Tuning}
    (follows : Follows here beat l''.calls v) : l.Steady spec.name m l' ∧ r ≠ .ok true := by
  obtain ⟨new, calls⟩ := Moves.calls later
  rw [calls] at follows
  obtain ⟨w, before⟩ := Tuning.follows_append follows
  exact settled.steady injective tends found live keeps before

theorem SettledAll.steady {turns : List (ComponentSpec × Surroundings)}
    {r : Except Fault (List String)} (settled : SettledAll p turns l r l')
    (injective : Function.Injective beat) (nodup : (turns.map (·.1.name)).Nodup)
    (turn : (spec, s) ∈ turns) (tends : l.Tends here beat)
    (found : l.roster.get? spec.name = some m) {i : ι} (live : m.instance? = some i)
    (keeps : KeepsInterval here p spec m) {v : Tuning} (follows : Follows here beat l'.calls v) :
    l.Steady spec.name m l' ∧ ∀ queue, r = .ok queue → spec.name ∉ queue := by
  induction settled with
  | nil => cases turn
  | @failed head s' rest l l' fault first =>
    refine ⟨?_, nofun⟩
    rcases List.mem_cons.mp turn with same | turn
    · cases same
      exact (first.steady injective tends found live keeps follows).1
    · exact .of_sameOn (first.sameOn (name_ne_of_mem nodup turn)) found
  | @failedLater head s' rest l l₁ l₂ starts fault first later ih =>
    obtain ⟨new, others⟩ := List.nodup_cons.mp nodup
    refine ⟨?_, nofun⟩
    rcases List.mem_cons.mp turn with same | turn
    · cases same
      exact (first.steady_before injective tends found live keeps later.moves follows).1.sameOn
        (later.sameOn new)
    · have before := first.sameOn (name_ne_of_mem nodup turn)
      have rest := ih others turn (first.tends injective tends) (before.member.trans found) follows
      exact before.steady rest.1
  | @cons head s' rest l l₁ l₂ starts names first later ih =>
    obtain ⟨new, others⟩ := List.nodup_cons.mp nodup
    rcases List.mem_cons.mp turn with same | turn
    · cases same
      obtain ⟨steady, rests⟩ :=
        first.steady_before injective tends found live keeps later.moves follows
      refine ⟨steady.sameOn (later.sameOn new), ?_⟩
      rintro _ ⟨⟩ member
      cases starts with
      | true => exact rests rfl
      | false => exact new ((later.queue others).1.subset member)
    · have apart := name_ne_of_mem nodup turn
      have before := first.sameOn apart
      obtain ⟨after, unqueued⟩ :=
        ih others turn (first.tends injective tends) (before.member.trans found) follows
      refine ⟨before.steady after, ?_⟩
      rintro _ ⟨⟩
      cases starts with
      | false => exact unqueued names rfl
      | true => exact List.not_mem_cons_of_ne_of_not_mem apart (unqueued names rfl)

theorem Reconciled.steady {crew : Crew ι ω} {turns : List (ComponentSpec × Surroundings)}
    {r : Except Fault Unit} (reconciled : Reconciled crew p turns l r l')
    (injective : Function.Injective beat) (nodup : (turns.map (·.1.name)).Nodup)
    (turn : (spec, s) ∈ turns) (tends : l.Tends here beat)
    (found : l.roster.get? spec.name = some m) {i : ι} (live : m.instance? = some i)
    (keeps : KeepsInterval here p spec m) {v : Tuning} (follows : Follows here beat l'.calls v) :
    l.Steady spec.name m l' := by
  have present (l₁ : Ledger ι) : spec.name ∉ l₁.absent (turns.map (·.1.name)) := fun absent =>
    ((l₁.mem_absent_iff _ _).mp absent).2 (List.mem_map.mpr ⟨_, turn, rfl⟩)
  -- What has been called up to the end of the turns.
  have settledBy {l₁ : Ledger ι} {r : Except Fault (List String)}
      (settled : SettledAll p turns l r l₁) (later : l₁.Sheds l') :
      l.Steady spec.name m l₁ ∧ ∀ queue, r = .ok queue → spec.name ∉ queue := by
    obtain ⟨new, calls, quiet⟩ := later.calls
    rw [calls] at follows
    exact settled.steady injective nodup turn tends found live keeps
      (Tuning.follows_quiet follows quiet)
  cases reconciled with
  | unsettled settled => exact (settledBy settled (.refl _)).1
  | unremoved settled removed failed =>
    exact (settledBy settled removed.sheds).1.sameOn (removed.sameOn (present _))
  | tried settled removed gone tried =>
    obtain ⟨before, unqueued⟩ := settledBy settled (removed.sheds.trans tried.sheds)
    exact (before.sameOn (removed.sameOn (present _))).sameOn (tried.sameOn (unqueued _ rfl))

end Steady

theorem House.recorded_heartbeats (crew : Crew ι ω) (machine : ω → Machine)
    (put : Machine → ω → ω) (beat : Nat → ι) (hosts : crew.Hosts machine put beat) (p : Policy)
    (stage : Stage ω) (tidy : (machine stage.world).Tidy) (events : List (Event ω))
    (calm : ∀ change, .passed change ∈ events →
      ∀ s, (machine s.world).Calm (machine (change s).world)) :
    let h := House.recorded crew p stage events
    let now := machine h.stage.world.world
    (∀ name m i, h.roster.get? name = some m → m.kind = Heartbeat.kindName →
      m.instance? = some i → ∃ id t, i = beat id ∧ now.tuning id = some t ∧
        (Settings.ofSection m.config).outcome now.look = .ok t ∧ t.interval.isZero = false ∧
        (m.config.field? "interval" = none → t.interval = .ofSeconds 10) ∧
        (m.config.field? "message" = none → t.message = "alive")) ∧
    ∀ list initial,
      let opened := (Supervisor.openPass crew.chronicled list initial).run h
      let h' := ((Supervisor.reconcile crew.chronicled p list initial).run h).2
      (∀ fault, opened.1 = .error fault → h'.ledger = h.ledger) ∧
      ∀ specs, opened.1 = .ok specs → ∀ spec ∈ specs, ∀ m, h.roster.get? spec.name = some m →
        KeepsInterval now.look p spec m → ∃ new,
          h'.stage.world.calls = h.stage.world.calls ++ new ∧
            Retained m spec.name (h'.roster.get? spec.name) new := by
  intro h now
  have inTune : h.InTune (machine stage.world).look machine beat :=
    (House.inTune_empty stage rfl tidy).after hosts p events calm
  obtain ⟨v, follows, fits⟩ := inTune.tuned
  refine ⟨fun name m i found own live => ?_, fun list initial => ?_⟩
  · obtain ⟨id, t, rfl, known, reads⟩ :=
      (inTune.tends v follows).heartbeat name m i found live own
    refine ⟨id, t, rfl, fits.settings id t known, ?_, fits.sound id t known,
      Settings.interval_of_absent reads, Settings.message_of_absent reads⟩
    rw [fits.outcome]
    exact reads
  · intro opened h'
    have inTune' : h'.InTune (machine stage.world).look machine beat :=
      inTune.take hosts p (.asked (.reconcile list initial)) nofun
    obtain ⟨v', follows', -⟩ := inTune'.tuned
    rcases reconcile_ends crew p list initial h inTune.sound.named with
      ⟨fault, -, ledger⟩ | ⟨specs, begun, ran, orderly, reconciled⟩
    · refine ⟨fun _ _ => ledger, fun specs _ spec _ m found _ => ⟨[], ?_, ?_⟩⟩
      · exact (congrArg Ledger.calls ledger).trans (List.append_nil _).symm
      · have still : h.ledger.SameOn spec.name h'.ledger := ledger ▸ .refl _ _
        exact ⟨⟨m.config, still.member.trans found⟩, nofun⟩
    · have opening : opened = (.ok specs, begun) := ran
      rw [opening]
      refine ⟨nofun, ?_⟩
      rintro _ ⟨⟩ spec member m found keeps
      have nodup := orderly.nodup
      rw [← Supervisor.turns_names crew.chronicled p specs begun] at nodup
      rw [← Supervisor.turns_specs crew.chronicled p specs begun] at member
      obtain ⟨⟨_, s⟩, turn, rfl⟩ := List.mem_map.mp member
      obtain ⟨i, live, -⟩ := inTune.sound.running found keeps.runs
      obtain ⟨new, calls⟩ := Moves.calls (reconciled.moves nodup)
      have steady := reconciled.steady hosts.injective nodup turn inTune.tends found live
        (keeps.of_env fits.env) follows'
      exact ⟨new, calls, steady.retained calls⟩

def heartbeatWith (fields : List (Value × Value)) : Value × Option Path :=
  Theatre.entry "a" Heartbeat.kindName [(.string "config", .mapping fields)]

def heartbeatEvents : List (Event Machine) :=
  [.asked (.reconcile { items := [heartbeatWith []] } true), .passed (Machine.pass 5),
    .asked (.reconcile { items := [heartbeatWith [(.string "interval", .string "0s")]] } false)]

theorem House.rehearsed_heartbeats :
    let h := House.recorded Instance.crew {} { world := {} } heartbeatEvents
    let list : Listing := { items := [heartbeatWith [(.string "message", .string "still here")]] }
    let h' := ((Supervisor.reconcile Instance.crew.chronicled {} list false).run h).2
    h.stage.world.calls.length = 4 ∧ h'.stage.world.calls.length = 5 ∧
      ∃ m id t new, h.roster.get? "a" = some m ∧ m.instance? = some (.heartbeat id) ∧
        h.stage.world.world.tuning id = some t ∧ t.interval = .ofSeconds 10 ∧
        t.message = "alive" ∧ h'.stage.world.calls = h.stage.world.calls ++ new ∧
        Retained m "a" (h'.roster.get? "a") new := by
  intro h list h'
  have calm (change : Stage Machine → Stage Machine) (passed : .passed change ∈ heartbeatEvents)
      (s : Stage Machine) : s.world.Calm (change s).world := by
    simp only [heartbeatEvents, List.mem_cons, List.not_mem_nil, Event.passed.injEq, reduceCtorEq,
      false_or, or_false] at passed
    rw [passed]
    exact Machine.pass_calm 5 s
  obtain ⟨set_, passes⟩ := House.recorded_heartbeats Instance.crew id (fun m _ => m) .heartbeat
    Instance.crew_hosts {} { world := {} } (fun _ _ => rfl) _ calm
  obtain ⟨-, steady⟩ := passes list false
  let opened := (Supervisor.openPass Instance.crew.chronicled list false).run h
  have read : opened.1 = .ok (opened.1.toOption.getD []) := by
    have fine : opened.1.isOk = true := by decide +kernel
    generalize opened.1 = r at fine ⊢
    cases r with
    | ok specs => rfl
    | error fault => cases fine
  have wanted : ∃ spec ∈ opened.1.toOption.getD [], spec.name = "a" ∧
      spec.disabledOn "" = false ∧ spec.kind = Heartbeat.kindName ∧
        (spec.config.field? "interval").isNone = true := by
    decide +kernel
  have stands : ∃ m ∈ h.roster.get? "a", m.kind = Heartbeat.kindName ∧ m.state = .running ∧
      m.instance?.isSome = true ∧ (m.config.field? "interval").isNone = true ∧
        (m.config.field? "message").isNone = true := by
    decide +kernel
  obtain ⟨spec, member, name, on, own, plain⟩ := wanted
  obtain ⟨m, found, kind, runs, live, interval, message⟩ := stands
  obtain ⟨i, live⟩ := Option.isSome_iff_exists.mp live
  obtain ⟨id, t, rfl, known, stored, -, ten, alive⟩ := set_ "a" m i found kind live
  have keeps : KeepsInterval h.stage.world.world.look {} spec m := by
    refine ⟨on, own, kind, runs, fun t old reads stored => ?_⟩
    rw [Heartbeat.Settings.interval_of_absent reads (Option.isNone_iff_eq_none.mp plain),
      Heartbeat.Settings.interval_of_absent stored (Option.isNone_iff_eq_none.mp interval)]
  obtain ⟨new, calls, retained⟩ := steady _ read spec member m (name ▸ found) keeps
  rw [name] at retained
  exact ⟨by decide +kernel, by decide +kernel, m, id, t, new, found, live, known,
    ten (Option.isNone_iff_eq_none.mp interval), alive (Option.isNone_iff_eq_none.mp message),
    calls, retained⟩

end Steward
