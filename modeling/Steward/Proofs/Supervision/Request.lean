import Mathlib.Data.List.Nodup
import Steward.Proofs.Supervision.Move
import Steward.Proofs.Supervision.Roll

set_option autoImplicit false

namespace Steward

open Run

variable {ι ω : Type}

inductive Reconciled (crew : Crew ι ω) (p : Policy) (turns : List (ComponentSpec × Surroundings))
    (l : Ledger ι) : Except Fault Unit → Ledger ι → Prop
  | unsettled {fault : Fault} {l' : Ledger ι} (settled : SettledAll p turns l (.error fault) l') :
      Reconciled crew p turns l (.error fault) l'
  | unremoved {queue : List String} {faults : List (Option Fault)} {fault : Fault}
      {l₁ l' : Ledger ι} (settled : SettledAll p turns l (.ok queue) l₁)
      (removed : RemovedAll (l₁.absent (turns.map (·.1.name))) l₁ faults l')
      (failed : firstFault faults = .error fault) :
      Reconciled crew p turns l (.error fault) l'
  | tried {queue : List String} {faults : List (Option Fault)} {r : Except Fault Nat}
      {l₁ l₂ l' : Ledger ι} (settled : SettledAll p turns l (.ok queue) l₁)
      (removed : RemovedAll (l₁.absent (turns.map (·.1.name))) l₁ faults l₂)
      (gone : firstFault faults = .ok ()) (tried : TriedAll crew queue l₂ r l') :
      Reconciled crew p turns l (r.map fun _ => ()) l'

theorem Supervisor.turns_specs (crew : Crew ι ω) (p : Policy) (specs : List ComponentSpec)
    (h : House ι ω) : (turns crew p specs h).map (·.1) = specs := by
  induction specs generalizing h with
  | nil => rfl
  | cons spec specs ih => rw [turns, List.map_cons, ih]

theorem Supervisor.turns_names (crew : Crew ι ω) (p : Policy) (specs : List ComponentSpec)
    (h : House ι ω) : (turns crew p specs h).map (·.1.name) = specs.map (·.name) := by
  have names := congrArg (List.map (·.name)) (turns_specs crew p specs h)
  rwa [List.map_map] at names

theorem SettledAll.named {p : Policy} {turns : List (ComponentSpec × Surroundings)}
    {l l' : Ledger ι} {r : Except Fault (List String)} (settled : SettledAll p turns l r l')
    (named : l.Named) : l'.Named := by
  induction settled with
  | nil => exact named
  | failed first => exact named.settled first
  | failedLater first later ih => exact ih (named.settled first)
  | cons first later ih => exact ih (named.settled first)

theorem reconcileSpecs_ends (crew : Crew ι ω) (p : Policy) (specs : List ComponentSpec)
    (h : House ι (Chronicle ι ω)) (named : h.ledger.Named)
    (known : ∀ spec ∈ specs, crew.makers.has spec.kind = true) :
    Ends (Supervisor.reconcileSpecs crew.chronicled p specs) h fun r h' =>
      Reconciled crew p (Supervisor.turns crew.chronicled p specs h) h.ledger r h'.ledger := by
  unfold Supervisor.reconcileSpecs
  refine (settleAll_ends crew p specs h named known).bind ?_ ?_
  · intro queue h₁ settled
    refine (removeAbsent_ends crew _ h₁ (settled.named named)).bind ?_ ?_
    · rintro _ h₂ ⟨faults, gone, removed⟩
      rw [← Supervisor.turns_names crew.chronicled p specs h] at removed
      refine (batch_ends crew p queue h₂).mono ?_
      rintro _ h₃ ⟨tried, rfl, batch⟩
      exact .tried settled removed gone.symm batch
    · rintro fault h₂ ⟨faults, failed, removed⟩
      rw [← Supervisor.turns_names crew.chronicled p specs h] at removed
      exact .unremoved settled removed failed.symm
  · intro fault h₁ settled
    exact .unsettled settled

theorem Reconciled.moves {crew : Crew ι ω} {p : Policy}
    {turns : List (ComponentSpec × Surroundings)} {l l' : Ledger ι} {r : Except Fault Unit}
    (reconciled : Reconciled crew p turns l r l') (nodup : (turns.map (·.1.name)).Nodup) :
    Moves l l' := by
  cases reconciled with
  | unsettled settled => exact settled.moves
  | unremoved settled removed failed => exact settled.moves.trans removed.moves
  | @tried queue faults r l₁ l₂ l' settled removed gone tried =>
    obtain ⟨sublist, idle⟩ := settled.queue nodup
    refine (settled.moves.trans removed.moves).trans (tried.moves (sublist.nodup nodup) ?_)
    intro name member
    -- The queue is from the list, so its components have not been removed.
    have present : name ∉ l₁.absent (turns.map (·.1.name)) :=
      fun gone => ((l₁.mem_absent_iff _ name).mp gone).2 (sublist.subset member)
    exact (removed.sameOn present).active?.trans (idle name member)

theorem openPass_ends (crew : Crew ι ω) (list : Listing) (initial : Bool)
    (h : House ι (Chronicle ι ω)) :
    Ends (Supervisor.openPass crew.chronicled list initial) h fun r h' =>
      h'.ledger = h.ledger ∧
        ∀ specs, r = .ok specs → Roll.Orderly crew.makers.has [] specs := by
  unfold Supervisor.openPass Supervisor.readRoll Run.load
  have read : Ends (ExceptT.mk fun h : House ι (Chronicle ι ω) =>
      let (r, l) := (Roll.read (Supervisor.knows crew.chronicled) list).runOn
        (crew.chronicled.look h.stage.world) h.stage.loading
      (r, { h with stage := h.stage.withLoading l })) h fun r h' =>
      h'.ledger = h.ledger ∧
        ∀ specs, r = .ok specs → Roll.Orderly crew.makers.has [] specs := by
    refine ⟨rfl, fun specs done => ?_⟩
    rw [Supervisor.knows_chronicled] at done
    exact Roll.read_orderly (Prod.ext done rfl)
  refine read.bind ?_ ?_
  · rintro specs h' ⟨ledger, orderly⟩
    refine .log (.pure ⟨ledger, ?_⟩)
    intro specs' result
    exact orderly specs' result
  · rintro fault h' ⟨ledger, -⟩
    exact ⟨ledger, nofun⟩

theorem reconcile_ends (crew : Crew ι ω) (p : Policy) (list : Listing) (initial : Bool)
    (h : House ι (Chronicle ι ω)) (named : h.ledger.Named) :
    Ends (Supervisor.reconcile crew.chronicled p list initial) h fun r h' =>
      (∃ fault, r = .error fault ∧ h'.ledger = h.ledger) ∨
        ∃ specs begun,
          (Supervisor.openPass crew.chronicled list initial).run h = (.ok specs, begun) ∧
          Roll.Orderly crew.makers.has [] specs ∧
          Reconciled crew p (Supervisor.turns crew.chronicled p specs begun) h.ledger r
            h'.ledger := by
  have opened : Ends (Supervisor.openPass crew.chronicled list initial) h fun r h' =>
      (Supervisor.openPass crew.chronicled list initial).run h = (r, h') ∧
      h'.ledger = h.ledger ∧
        ∀ specs, r = .ok specs → Roll.Orderly crew.makers.has [] specs :=
    ⟨rfl, openPass_ends crew list initial h⟩
  unfold Supervisor.reconcile
  refine opened.bind ?_ ?_
  · rintro specs begun ⟨run, ledger, orderly⟩
    have known := (orderly specs rfl).known
    refine (reconcileSpecs_ends crew p specs begun (ledger ▸ named) known).mono ?_
    intro r h' reconciled
    rw [ledger] at reconciled
    exact .inr ⟨specs, begun, run, orderly specs rfl, reconciled⟩
  · rintro fault h' ⟨-, ledger, -⟩
    exact .inl ⟨fault, rfl, ledger⟩

theorem unload_ends (crew : Crew ι ω) (name : String) (h : House ι (Chronicle ι ω))
    (named : h.ledger.Named) :
    Ends (Supervisor.unload crew.chronicled name) h fun r h' =>
      (h.ledger.roster.get? name = none ∧ r = .ok false ∧ h'.ledger = h.ledger) ∨
        ∃ stop, r = stop.map (fun _ => true) ∧
          Stopped name (h.ledger.strike name) (h.ledger.active? name) stop h'.ledger := by
  unfold Supervisor.unload
  refine .member? ?_
  cases found : h.roster.get? name with
  | none => exact .pure (.inl ⟨found, rfl, rfl⟩)
  | some m =>
    have same : m.name = name := named name m found
    subst same
    have active : h.ledger.active? m.name = m.active? := Ledger.active?_of_get? found
    rw [active]
    refine .change ((stopMember_ends crew m _).bind ?_ ?_)
    · intro _ h' stop
      exact .event fun _ => .pure (.inr ⟨.ok (), rfl, stop⟩)
    · intro fault h' stop
      exact .inr ⟨.error fault, rfl, stop⟩

theorem unloadAll_ends (crew : Crew ι ω) (h : House ι (Chronicle ι ω)) (named : h.ledger.Named)
    (nodup : h.order.Nodup)
    (registered : ∀ name ∈ h.order, (h.ledger.active? name).isSome = true) :
    Ends (Supervisor.unloadAll crew.chronicled) h fun r h' => ∃ faults l,
      r = firstFault faults ∧ RemovedAll h.order.reverse h.ledger faults l ∧
        h'.ledger = l.clear := by
  unfold Supervisor.unloadAll
  refine .get ?_
  have removed : Ends (h.order.reverse.mapM (Supervisor.unloadNamed crew.chronicled)) h
      fun r h' => ∃ faults, r = .ok faults ∧
        RemovedAll (h.order.reverse.map id) h.ledger faults h'.ledger := by
    refine mapM_removed (P := fun name member => ∃ m, member = some m ∧ m.name = name) ?_
      (by simpa using nodup) ?_
    · rintro name h ⟨m, member, same⟩
      unfold Supervisor.unloadNamed
      refine .member? ?_
      simp only [id_eq] at member
      rw [member]
      exact remove_ends crew _ member same
    · intro name member
      obtain ⟨i, active⟩ := Option.isSome_iff_exists.mp
        (registered name (List.mem_reverse.mp member))
      obtain ⟨m, found, -⟩ := Ledger.get?_of_active? active
      exact ⟨m, found, named name m found⟩
  rw [List.map_id] at removed
  refine removed.bind ?_ ?_
  · rintro faults h₁ ⟨_, result, removed⟩
    cases result
    exact .change (.log (firstFault_ends ⟨faults, h₁.ledger, rfl, removed, rfl⟩))
  · rintro fault h₁ ⟨_, result, -⟩
    cases result

end Steward
