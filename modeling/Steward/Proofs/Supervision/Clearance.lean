import Steward.Proofs.Supervision.Soundness

set_option autoImplicit false

namespace Steward

open Run

variable {ι ω : Type}

structure Farewell (ι : Type) where
  name : String
  instance_ : ι
  answer : Except String Unit

namespace Farewell

def call (s : Farewell ι) : Call ι := .stop s.instance_ s.name s.answer

def fault? (s : Farewell ι) : Option Fault :=
  faultOf (s.answer.mapError (lifecycleFault s.name "stop"))

theorem fault?_eq_none_iff {s : Farewell ι} : s.fault? = none ↔ s.answer = .ok () := by
  unfold fault?
  cases s.answer <;> simp [Except.mapError, faultOf]

theorem fault?_eq_some {s : Farewell ι} {fault : Fault} (failed : s.fault? = some fault) :
    ∃ cause, s.answer = .error cause ∧ fault = lifecycleFault s.name "stop" cause := by
  unfold fault? at failed
  cases answer : s.answer with
  | ok => simp [answer, Except.mapError, faultOf] at failed
  | error cause =>
    rw [answer] at failed
    cases failed
    exact ⟨cause, rfl, rfl⟩

end Farewell

theorem RemovedAll.farewells {names : List String} {l l' : Ledger ι}
    {faults : List (Option Fault)} (removed : RemovedAll names l faults l') (nodup : names.Nodup)
    (active : ∀ name ∈ names, (l.active? name).isSome = true) :
    ∃ stops : List (Farewell ι), stops.map (·.name) = names ∧
      (∀ s ∈ stops, l.active? s.name = some s.instance_) ∧
      l'.calls = l.calls ++ stops.map Farewell.call ∧ faults = stops.map Farewell.fault? := by
  induction removed with
  | nil => exact ⟨[], rfl, nofun, by simp, rfl⟩
  | @cons name names l l₁ l₂ r faults stop rest ih =>
    obtain ⟨new, nodup⟩ := List.nodup_cons.mp nodup
    rw [List.forall_mem_cons] at active
    -- The others run as before.
    have others : ∀ other ∈ names, l₁.active? other = l.active? other := by
      intro other member
      have apart : other ≠ name := fun same => new (same ▸ member)
      exact ((Ledger.SameOn.strike apart).trans (stop.sameOn apart)).active?
    obtain ⟨stops, named, live, calls, failed⟩ := ih nodup fun other member => by
      rw [others other member]
      exact active.2 other member
    obtain ⟨i, runs⟩ := Option.isSome_iff_exists.mp active.1
    have here : ∃ answer, l₁.calls = l.calls ++ [.stop i name answer] ∧
        r = answer.mapError (lifecycleFault name "stop") := by
      rw [runs] at stop
      cases stop with
      | stopped => exact ⟨.ok (), rfl, rfl⟩
      | failed _ cause => exact ⟨.error cause, rfl, rfl⟩
    obtain ⟨answer, called, result⟩ := here
    refine ⟨⟨name, i, answer⟩ :: stops, by simp [named], ?_, ?_, ?_⟩
    · refine List.forall_mem_cons.mpr ⟨runs, fun s member => ?_⟩
      rw [← live s member]
      exact (others s.name (named ▸ List.mem_map_of_mem member)).symm
    · rw [calls, called, List.append_assoc]
      rfl
    · rw [failed, result]
      rfl

theorem firstFault_farewells (stops : List (Farewell ι)) :
    (firstFault (stops.map Farewell.fault?) = .ok () ∧ ∀ s ∈ stops, s.answer = .ok ()) ∨
      ∃ front s back cause, stops = front ++ s :: back ∧ (∀ s ∈ front, s.answer = .ok ()) ∧
        s.answer = .error cause ∧
        firstFault (stops.map Farewell.fault?) = .error (lifecycleFault s.name "stop" cause) := by
  unfold firstFault
  induction stops with
  | nil => exact .inl ⟨rfl, nofun⟩
  | cons s stops ih =>
    rw [List.map_cons, List.findSome?_cons]
    cases failed : s.fault? with
    | some fault =>
      obtain ⟨cause, answer, rfl⟩ := Farewell.fault?_eq_some failed
      exact .inr ⟨[], s, stops, cause, rfl, nofun, answer, rfl⟩
    | none =>
      have fine := Farewell.fault?_eq_none_iff.mp failed
      rcases ih with ⟨result, all⟩ | ⟨front, s', back, cause, rfl, before, answer, result⟩
      · exact .inl ⟨result, List.forall_mem_cons.mpr ⟨fine, all⟩⟩
      · exact .inr ⟨s :: front, s', back, cause, rfl,
          List.forall_mem_cons.mpr ⟨fine, before⟩, answer, result⟩

theorem House.recorded_clearance (crew : Crew ι ω) (p : Policy) (stage : Stage ω)
    (events : List (Event ω)) :
    let h := House.recorded crew p stage events
    let r := ((Supervisor.unloadAll crew.chronicled).run h).1
    let h' := ((Supervisor.unloadAll crew.chronicled).run h).2
    h.order.Nodup ∧ h'.roster = .empty ∧ h'.order = [] ∧ ∃ stops : List (Farewell ι),
      stops.map (·.name) = h.order.reverse ∧
      (∀ s ∈ stops, ∃ m, h.roster.get? s.name = some m ∧ m.state = .running ∧
        m.instance? = some s.instance_) ∧
      h'.stage.world.calls = h.stage.world.calls ++ stops.map Farewell.call ∧
      ((r = .ok () ∧ ∀ s ∈ stops, s.answer = .ok ()) ∨
        ∃ front s back cause, stops = front ++ s :: back ∧ (∀ s ∈ front, s.answer = .ok ()) ∧
          s.answer = .error cause ∧ r = .error (lifecycleFault s.name "stop" cause)) := by
  intro h r h'
  have sound := House.recorded_sound crew p stage events
  obtain ⟨faults, l, result, removed, cleared⟩ :=
    unloadAll_ends crew h sound.named sound.nodup sound.active
  obtain ⟨stops, named, live, calls, rfl⟩ :=
    removed.farewells (List.nodup_reverse.mpr sound.nodup) fun name member =>
      sound.active name (List.mem_reverse.mp member)
  refine ⟨sound.nodup, congrArg Ledger.roster cleared, congrArg Ledger.order cleared, stops, named,
    fun s member => ?_, (congrArg Ledger.calls cleared).trans calls, ?_⟩
  · obtain ⟨m, found, runs, here⟩ := Ledger.get?_of_active? (live s member)
    exact ⟨m, found, by simpa [Member.isRunning] using runs, here⟩
  · have same : r = firstFault (stops.map Farewell.fault?) := result
    rw [same]
    exact firstFault_farewells stops

end Steward
