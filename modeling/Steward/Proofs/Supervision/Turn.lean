import Steward.Proofs.Supervision.Ledger

set_option autoImplicit false

namespace Steward

namespace Run

variable {ι ω α β : Type} {h : House ι ω}

def Ends (m : Run ι ω α) (h : House ι ω) (Q : Except Fault α → House ι ω → Prop) : Prop :=
  Q (m.run h).1 (m.run h).2

theorem run_bind (m : Run ι ω α) (f : α → Run ι ω β) (h : House ι ω) :
    (m >>= f).run h =
      match m.run h with
      | (.ok a, h) => (f a).run h
      | (.error fault, h) => (.error fault, h) := by
  change (match m.run h with | (r, h) => ExceptT.bindCont f r h) = _
  rcases m.run h with ⟨r, h⟩
  cases r <;> rfl

theorem Ends.bind {m : Run ι ω α} {f : α → Run ι ω β} {P : Except Fault α → House ι ω → Prop}
    {Q : Except Fault β → House ι ω → Prop} (first : Ends m h P)
    (ok : ∀ a h', P (.ok a) h' → Ends (f a) h' Q)
    (error : ∀ fault h', P (.error fault) h' → Q (.error fault) h') : Ends (m >>= f) h Q := by
  unfold Ends at first ⊢
  rw [run_bind]
  revert first
  rcases m.run h with ⟨r, h'⟩
  intro first
  cases r with
  | ok a => exact ok a h' first
  | error fault => exact error fault h' first

theorem Ends.bind_ok {m : Run ι ω α} {f : α → Run ι ω β} {a : α} {P : House ι ω → Prop}
    {Q : Except Fault β → House ι ω → Prop} (first : Ends m h fun r h' => r = .ok a ∧ P h')
    (rest : ∀ h', P h' → Ends (f a) h' Q) : Ends (m >>= f) h Q := by
  refine first.bind ?_ ?_
  · rintro _ h' ⟨result, holds⟩
    cases result
    exact rest h' holds
  · rintro fault h' ⟨result, -⟩
    cases result

theorem Ends.mono {m : Run ι ω α} {P Q : Except Fault α → House ι ω → Prop} (ends : Ends m h P)
    (weaker : ∀ r h', P r h' → Q r h') : Ends m h Q :=
  weaker _ _ ends

theorem Ends.pure {Q : Except Fault α → House ι ω → Prop} {a : α} (holds : Q (.ok a) h) :
    Ends (Pure.pure a) h Q :=
  holds

theorem Ends.get {Q : Except Fault α → House ι ω → Prop} {f : House ι ω → Run ι ω α}
    (rest : Ends (f h) h Q) : Ends ((get : Run ι ω (House ι ω)) >>= f) h Q :=
  rest

theorem Ends.member? {Q : Except Fault α → House ι ω → Prop} {name : String}
    {f : Option (Member ι) → Run ι ω α} (rest : Ends (f (h.roster.get? name)) h Q) :
    Ends (Run.member? name >>= f) h Q :=
  rest

theorem Ends.change {Q : Except Fault α → House ι ω → Prop} {g : House ι ω → House ι ω}
    {f : Unit → Run ι ω α} (rest : Ends (f ()) (g h) Q) :
    Ends ((modify g : Run ι ω Unit) >>= f) h Q :=
  rest

theorem Ends.event {Q : Except Fault α → House ι ω → Prop} {level : Level}
    {event name kind message : String} {f : Unit → Run ι ω α}
    (rest : ∀ records, Ends (f ()) { h with stage := h.stage.write records } Q) :
    Ends (Run.event level event name kind message >>= f) h Q :=
  rest _

theorem Ends.log {Q : Except Fault α → House ι ω → Prop} {records : List Record}
    {f : Unit → Run ι ω α}
    (rest : Ends (f ()) { h with stage := h.stage.write records } Q) :
    Ends (Run.log records >>= f) h Q :=
  rest

end Run

open Run

variable {ι ω α : Type}

def lifecycleFault (name action cause : String) : Fault :=
  .component (.lifecycle name action cause)

theorem Chronicle.act_ends (name action : String) (call : Except String α → Call ι) (m : Act ω α)
    (h : House ι (Chronicle ι ω)) :
    Ends (Run.act name action (Chronicle.act call m)) h fun r h' => ∃ answer,
      r = answer.mapError (lifecycleFault name action) ∧
        h'.ledger = h.ledger.call (call answer) :=
  ⟨_, rfl, rfl⟩

theorem Run.Ends.act {β : Type} {name action : String} {call : Except String α → Call ι}
    {m : Act ω α} {f : α → Run ι (Chronicle ι ω) β} {h : House ι (Chronicle ι ω)} {l : Ledger ι}
    {Q : Except Fault β → House ι (Chronicle ι ω) → Prop} (before : h.ledger = l)
    (ok : ∀ a h', h'.ledger = l.call (call (.ok a)) → Ends (f a) h' Q)
    (error : ∀ cause h', h'.ledger = l.call (call (.error cause)) →
      Q (.error (lifecycleFault name action cause)) h') :
    Ends (Run.act name action (Chronicle.act call m) >>= f) h Q := by
  refine (Chronicle.act_ends name action call m h).bind ?_ ?_
  · rintro a h' ⟨answer, result, ledger⟩
    cases answer with
    | error cause => cases result
    | ok b =>
      cases result
      exact ok a h' (before ▸ ledger)
  · rintro fault h' ⟨answer, result, ledger⟩
    cases answer with
    | ok b => cases result
    | error cause =>
      cases result
      exact error cause h' (before ▸ ledger)

inductive Stopped (name : String) (l : Ledger ι) :
    Option ι → Except Fault Unit → Ledger ι → Prop
  | idle : Stopped name l none (.ok ()) l
  | stopped (i : ι) :
      Stopped name l (some i) (.ok ()) ((l.leave name).call (.stop i name (.ok ())))
  | failed (i : ι) (cause : String) :
      Stopped name l (some i) (.error (lifecycleFault name "stop" cause))
        ((l.leave name).call (.stop i name (.error cause)))

theorem stopMember_ends (crew : Crew ι ω) (m : Member ι) (h : House ι (Chronicle ι ω)) :
    Ends (Supervisor.stopMember crew.chronicled m) h fun r h' =>
      Stopped m.name h.ledger m.active? r h'.ledger := by
  unfold Supervisor.stopMember
  cases m.active? with
  | none => exact .idle
  | some i =>
    refine .event fun _ => .change ?_
    refine (Chronicle.act_ends m.name "stop" (.stop i m.name) (crew.stop i m.name) _).mono ?_
    rintro r h' ⟨answer, rfl, ledger⟩
    rw [ledger]
    cases answer with
    | ok => exact .stopped i
    | error cause => exact .failed i cause

def Fresh (spec : ComponentSpec) (old : Option (Member ι)) : Prop :=
  ∀ m, old = some m → m.instance? = none ∨ m.kind ≠ spec.kind

structure Held (spec : ComponentSpec) (old : Option (Member ι)) (m : Member ι) (i : ι) :
    Prop where
  member : old = some m
  live : m.instance? = some i
  kind : m.kind = spec.kind

inductive Settled (p : Policy) (s : Surroundings) (spec : ComponentSpec) (l : Ledger ι) :
    Except Fault Bool → Ledger ι → Prop
  | disableFailed {fault : Fault} {l' : Ledger ι} (off : spec.disabledOn p.hostname = true)
      (stop : Stopped spec.name l (l.active? spec.name) (.error fault) l') :
      Settled p s spec l (.error fault) l'
  | disabled {l' : Ledger ι} (off : spec.disabledOn p.hostname = true)
      (stop : Stopped spec.name l (l.active? spec.name) (.ok ()) l') :
      Settled p s spec l (.ok false) (l'.enroll (.placeholder spec))
  | createStopFailed {fault : Fault} {l' : Ledger ι} (on : spec.disabledOn p.hostname = false)
      (fresh : Fresh spec (l.roster.get? spec.name))
      (stop : Stopped spec.name l (l.active? spec.name) (.error fault) l') :
      Settled p s spec l (.error fault) l'
  | createFailed {l' : Ledger ι} (on : spec.disabledOn p.hostname = false)
      (fresh : Fresh spec (l.roster.get? spec.name))
      (stop : Stopped spec.name l (l.active? spec.name) (.ok ()) l') (cause : String) :
      Settled p s spec l (.error (lifecycleFault spec.name "create" cause))
        (l'.call (.create spec.kind spec.name spec.config (.error cause)))
  | created {l' : Ledger ι} (on : spec.disabledOn p.hostname = false)
      (fresh : Fresh spec (l.roster.get? spec.name))
      (stop : Stopped spec.name l (l.active? spec.name) (.ok ()) l') (i : ι) :
      Settled p s spec l (.ok true)
        ((l'.call (.create spec.kind spec.name spec.config (.ok i))).enroll (.created spec i))
  | unchanged {m : Member ι} {i : ι} (on : spec.disabledOn p.hostname = false)
      (held : Held spec (l.roster.get? spec.name) m i)
      (same : m.config.differs spec.config s = false) :
      Settled p s spec l (.ok false) l
  | reloadFailed {m : Member ι} {i : ι} (on : spec.disabledOn p.hostname = false)
      (held : Held spec (l.roster.get? spec.name) m i)
      (changed : m.config.differs spec.config s = true) (cause : String) :
      Settled p s spec l (.error (lifecycleFault spec.name "reload" cause))
        (l.call (.reload i spec.name spec.config (.error cause)))
  | inPlace {m : Member ι} {i : ι} (on : spec.disabledOn p.hostname = false)
      (held : Held spec (l.roster.get? spec.name) m i)
      (changed : m.config.differs spec.config s = true) :
      Settled p s spec l (.ok (!m.isRunning))
        ((l.call (.reload i spec.name spec.config (.ok .inPlace))).alter spec.name
          fun m => { m with config := spec.config })
  | replaceFailed {m : Member ι} {i : ι} (on : spec.disabledOn p.hostname = false)
      (held : Held spec (l.roster.get? spec.name) m i)
      (changed : m.config.differs spec.config s = true) (instead : ι)
      (runs : m.isRunning = true) (cause : String) :
      Settled p s spec l (.error (lifecycleFault spec.name "stop" cause))
        ((l.call (.reload i spec.name spec.config (.ok (.replace instead)))).call
          (.stop i spec.name (.error cause)))
  | replaced {m : Member ι} {i : ι} {l' : Ledger ι} (on : spec.disabledOn p.hostname = false)
      (held : Held spec (l.roster.get? spec.name) m i)
      (changed : m.config.differs spec.config s = true) (instead : ι)
      (stop : Stopped spec.name
        (l.call (.reload i spec.name spec.config (.ok (.replace instead)))) m.active? (.ok ()) l') :
      Settled p s spec l (.ok true) (l'.enroll (.created spec instead))

def Ledger.Named (l : Ledger ι) : Prop :=
  ∀ name m, l.roster.get? name = some m → m.name = name

theorem stopOld_ends (crew : Crew ι ω) (name : String) (h : House ι (Chronicle ι ω))
    (named : h.ledger.Named) :
    Ends (Supervisor.stopOld crew.chronicled (h.roster.get? name)) h fun r h' =>
      Stopped name h.ledger (h.ledger.active? name) r h'.ledger := by
  unfold Supervisor.stopOld
  cases found : h.roster.get? name with
  | none =>
    have none : h.ledger.active? name = none := by simp [Ledger.active?, House.ledger, found]
    rw [none]
    exact .idle
  | some m =>
    have active : h.ledger.active? name = m.active? := by
      simp [Ledger.active?, House.ledger, found]
    have ends := stopMember_ends crew m h
    rw [named name m found] at ends
    rw [active]
    exact ends

theorem disable_ends (crew : Crew ι ω) (p : Policy) (s : Surroundings) (spec : ComponentSpec)
    (h : House ι (Chronicle ι ω)) (named : h.ledger.Named)
    (off : spec.disabledOn p.hostname = true) :
    Ends (do
        Supervisor.disable crew.chronicled spec (h.roster.get? spec.name)
        return false) h fun r h' =>
      Settled p s spec h.ledger r h'.ledger := by
  unfold Supervisor.disable
  simp only [bind_assoc]
  refine (stopOld_ends crew spec.name h named).bind ?_ ?_
  · intro _ h' stop
    exact .event fun _ => .change (.disabled off stop)
  · intro fault h' stop
    exact .disableFailed off stop

theorem create_ends (crew : Crew ι ω) (p : Policy) (s : Surroundings) (spec : ComponentSpec)
    (h : House ι (Chronicle ι ω)) (named : h.ledger.Named)
    (known : crew.makers.has spec.kind = true) (on : spec.disabledOn p.hostname = false)
    (fresh : Fresh spec (h.roster.get? spec.name)) :
    Ends (do
        Supervisor.create crew.chronicled spec (h.roster.get? spec.name)
        return true) h fun r h' =>
      Settled p s spec h.ledger r h'.ledger := by
  obtain ⟨maker, found⟩ := (Table.has_iff _ _).mp known
  have chronicled : crew.chronicled.makers.get? spec.kind =
      some (Maker.chronicled spec.kind maker) := by
    simp [Crew.chronicled, Table.get?_mapNamed, found]
  unfold Supervisor.create
  simp only [bind_assoc, chronicled]
  refine (stopOld_ends crew spec.name h named).bind ?_ ?_
  · intro _ h' stop
    refine .event fun _ => ?_
    refine .act (l := h'.ledger) rfl ?_ ?_
    · intro i made ledger
      have done := Settled.created (s := s) on fresh stop i
      rw [← ledger] at done
      exact .change done
    · intro cause tried ledger
      rw [ledger]
      exact .createFailed on fresh stop cause
  · intro fault h' stop
    exact .createStopFailed on fresh stop

theorem replace_ends (crew : Crew ι ω) (p : Policy) (s : Surroundings) (spec : ComponentSpec)
    (l : Ledger ι) (m : Member ι) (i instead : ι) (h : House ι (Chronicle ι ω))
    (on : spec.disabledOn p.hostname = false) (held : Held spec (l.roster.get? spec.name) m i)
    (changed : m.config.differs spec.config s = true)
    (reloaded : h.ledger =
      l.call (.reload i spec.name spec.config (.ok (.replace instead)))) :
    Ends (do
        Supervisor.replace crew.chronicled spec m i instead
        return true) h fun r h' =>
      Settled p s spec l r h'.ledger := by
  unfold Supervisor.replace
  cases runs : m.isRunning with
  | false =>
    have idle : m.active? = none := by simp [Member.active?, runs]
    have stop : Stopped spec.name h.ledger m.active? (.ok ()) h.ledger := by
      rw [idle]
      exact .idle
    rw [reloaded] at stop
    have done := Settled.replaced (s := s) on held changed instead stop
    rw [← reloaded] at done
    exact .change done
  | true =>
    have active : m.active? = some i := by simp [Member.active?, runs, held.live]
    simp only [if_true, bind_assoc]
    refine .event fun _ => .act reloaded ?_ ?_
    · intro _ stopped ledger
      refine .change (.change ?_)
      have left : House.ledger { stopped with order := stopped.order.filter (· ≠ spec.name) } =
          stopped.ledger.leave spec.name := rfl
      have stop : Stopped spec.name
          (l.call (.reload i spec.name spec.config (.ok (.replace instead)))) m.active? (.ok ())
          (stopped.ledger.leave spec.name) := by
        rw [active, ledger]
        exact .stopped i
      exact .replaced on held changed instead stop
    · intro cause tried ledger
      rw [ledger]
      exact .replaceFailed on held changed instead runs cause

theorem reload_ends (crew : Crew ι ω) (p : Policy) (s : Surroundings) (spec : ComponentSpec)
    (m : Member ι) (i : ι) (h : House ι (Chronicle ι ω))
    (on : spec.disabledOn p.hostname = false) (held : Held spec (h.roster.get? spec.name) m i)
    (changed : m.config.differs spec.config s = true) :
    Ends (Supervisor.reload crew.chronicled spec m i) h fun r h' =>
      Settled p s spec h.ledger r h'.ledger := by
  unfold Supervisor.reload
  refine .event fun _ => .act (l := h.ledger) rfl ?_ ?_
  · intro answer h' ledger
    cases answer with
    | inPlace =>
      have done := Settled.inPlace (l := h.ledger) on held changed
      rw [← ledger] at done
      exact .change done
    | replace instead =>
      exact replace_ends crew p s spec h.ledger m i instead h' on held changed ledger
  · intro cause tried ledger
    rw [ledger]
    exact .reloadFailed on held changed cause

theorem settle_ends (crew : Crew ι ω) (p : Policy) (spec : ComponentSpec)
    (h : House ι (Chronicle ι ω)) (named : h.ledger.Named)
    (known : crew.makers.has spec.kind = true) :
    Ends (Supervisor.settle crew.chronicled p spec) h fun r h' =>
      Settled p (crew.look h.stage.world.world) spec h.ledger r h'.ledger := by
  unfold Supervisor.settle
  refine .member? ?_
  cases on : spec.disabledOn p.hostname with
  | true => exact disable_ends crew p _ spec h named on
  | false =>
    -- Every entry without an instance of its type ends in a creation.
    have made := create_ends crew p (crew.look h.stage.world.world) spec h named known on
    cases found : h.roster.get? spec.name with
    | none =>
      rw [found] at made
      exact made nofun
    | some m =>
      rw [found] at made
      cases live : m.instance? with
      | none =>
        simp only [Bool.false_eq_true, if_false, live]
        refine made fun m' member => ?_
        cases member
        exact .inl live
      | some i =>
        simp only [Bool.false_eq_true, if_false, live]
        by_cases kind : m.kind = spec.kind
        · have held : Held spec (h.roster.get? spec.name) m i := ⟨found, live, kind⟩
          rw [if_pos kind]
          refine .get (.log ?_)
          cases changed : m.config.differs spec.config (crew.look h.stage.world.world) with
          | false =>
            simp only [Crew.chronicled, changed, Bool.false_eq_true, if_false]
            exact .event fun _ => .pure (.unchanged on held changed)
          | true =>
            simp only [Crew.chronicled, changed, if_true]
            exact reload_ends crew p _ spec m i _ on held changed
        · rw [if_neg kind]
          refine made fun m' member => ?_
          cases member
          exact .inr kind

end Steward
