import Steward.Proofs.Supervision.Change

set_option autoImplicit false

namespace Steward

open Run

variable {ι ω : Type}

def Dismissed (i : ι) (name : String) (new : List (Call ι)) : Prop :=
  ∃ answer, Call.stop i name answer ∈ new

/-- The record of a name has at most a new configuration, and its instance has not been touched. -/
structure Retained (m : Member ι) (name : String) (now : Option (Member ι))
    (new : List (Call ι)) : Prop where
  member : ∃ config, now = some { m with config }
  quiet : ∀ c ∈ Call.on name new, c.isTurn = false

theorem Change.dismissed_or_retained {name : String} {m : Member ι} {now : Option (Member ι)}
    {new : List (Call ι)} (change : Change name (some m) (Call.on name new) now) {i : ι}
    (active : m.active? = some i) : Dismissed i name new ∨ Retained m name now new := by
  generalize before : some m = old at change
  generalize seen : Call.on name new = calls at change
  have mem {c : Call ι} (member : c ∈ calls) : c ∈ new := by
    rw [← seen] at member
    exact (List.mem_filter.mp member).1
  have runs : old.bind Member.active? = some i := by
    rw [← before]
    exact active
  cases change with
  | untouched => exact .inr ⟨⟨m.config, before.symm⟩, by simp [seen]⟩
  | asked c quiet =>
    rcases quiet with quiet | idle
    · exact .inr ⟨⟨m.config, before.symm⟩, by simp [seen, quiet]⟩
    · cases idle.symm.trans runs
  | unstopped runs' cause =>
    cases runs.symm.trans runs'
    exact .inl ⟨_, mem (List.mem_singleton_self _)⟩
  | lost runs' kind config cause =>
    cases runs.symm.trans runs'
    exact .inl ⟨_, mem List.mem_cons_self⟩
  | quit idle stopped =>
    obtain ⟨answer, member⟩ := stopped i runs
    exact .inl ⟨answer, mem member⟩
  | reconfigured config =>
    rw [← before]
    exact .inr ⟨⟨config, rfl⟩, by simp [seen]⟩
  | started member live idle =>
    cases before.trans member
    cases idle.symm.trans active

theorem Moves.dismissed_or_retained {l l' : Ledger ι} (moves : Moves l l') {name : String}
    {m : Member ι} (found : l.roster.get? name = some m) {i : ι} (active : m.active? = some i) :
    ∃ new, l'.calls = l.calls ++ new ∧
      (Dismissed i name new ∨ Retained m name (l'.roster.get? name) new) := by
  induction moves with
  | refl => exact ⟨[], by simp, .inr ⟨⟨m.config, found⟩, nofun⟩⟩
  | tail _ move ih =>
    -- What has been stopped stays so; what has been retained takes the next move with its record.
    obtain ⟨front, total, so_far⟩ := ih
    obtain ⟨back, calls, change⟩ := move.changed name
    refine ⟨front ++ back, by rw [calls, total, List.append_assoc], ?_⟩
    rcases so_far with ⟨answer, stopped⟩ | ⟨⟨config, kept⟩, quiet⟩
    · exact .inl ⟨answer, List.mem_append_left back stopped⟩
    · rw [kept] at change
      rcases change.dismissed_or_retained (m := { m with config }) active with
        ⟨answer, stopped⟩ | ⟨⟨config, now⟩, still⟩
      · exact .inl ⟨answer, List.mem_append_right front stopped⟩
      · refine .inr ⟨⟨config, now⟩, ?_⟩
        rw [Call.on_append]
        exact List.forall_mem_append.mpr ⟨quiet, still⟩

theorem RemovedAll.dismissed {names : List String} {l l' : Ledger ι}
    {faults : List (Option Fault)} (removed : RemovedAll names l faults l') (nodup : names.Nodup) :
    ∃ new, l'.calls = l.calls ++ new ∧
      ∀ name ∈ names, ∀ i, l.active? name = some i → Dismissed i name new := by
  induction removed with
  | nil => exact ⟨[], by simp, nofun⟩
  | @cons name names l l₁ l₂ r faults stop rest ih =>
    obtain ⟨new, nodup⟩ := List.nodup_cons.mp nodup
    obtain ⟨front, calls, -, stopped⟩ := stop.calls
    obtain ⟨back, later, others⟩ := ih nodup
    refine ⟨front ++ back, ?_, fun other member i active => ?_⟩
    · rw [later, calls, Ledger.calls_strike, List.append_assoc]
    · rcases List.mem_cons.mp member with rfl | member
      · obtain ⟨answer, here⟩ := stopped i active
        exact ⟨answer, List.mem_append_left back here⟩
      · have apart : other ≠ name := fun same => new (same ▸ member)
        have same := (Ledger.SameOn.strike apart).trans (stop.sameOn apart)
        rw [← same.active?] at active
        obtain ⟨answer, here⟩ := others other member i active
        exact ⟨answer, List.mem_append_right front here⟩

theorem unloadAll_dismissed (crew : Crew ι ω) {h : House ι (Chronicle ι ω)}
    (sound : h.ledger.Sound) {name : String} (m : Member ι) {i : ι}
    (active : h.ledger.active? name = some i) :
    Ends (Supervisor.unloadAll crew.chronicled) h fun _ h' =>
      ∃ new, h'.ledger.calls = h.ledger.calls ++ new ∧ ¬ Retained m name (h'.roster.get? name) new ∧
        (Dismissed i name new ↔ name ∈ h.order) := by
  refine (unloadAll_ends crew h sound.named sound.nodup sound.active).mono ?_
  rintro r h' ⟨faults, l, -, removed, ledger⟩
  obtain ⟨new, calls, stopped⟩ := removed.dismissed (List.nodup_reverse.mpr sound.nodup)
  have gone : h'.roster.get? name = none := by
    change h'.ledger.roster.get? name = none
    rw [ledger]
    rfl
  refine ⟨new, by rw [ledger]; exact calls, ?_, fun dismissed => ?_, fun ordered => ?_⟩
  · rintro ⟨⟨config, kept⟩, -⟩
    cases gone.symm.trans kept
  · -- Outside of the order nothing is called.
    by_contra outside
    obtain ⟨answer, member⟩ := dismissed
    have same := (removed.sameOn fun ordered => outside (List.mem_reverse.mp ordered)).calls
    rw [calls, Call.on_append, List.append_right_eq_self] at same
    have here : Call.stop i name answer ∈ Call.on name new :=
      List.mem_filter.mpr ⟨member, by simp [Call.name]⟩
    rw [same] at here
    cases here
  · exact stopped name (List.mem_reverse.mpr ordered) i active

theorem House.recorded_dismissal (crew : Crew ι ω) (p : Policy) (stage : Stage ω)
    (events : List (Event ω)) (request : Request) (status : Status)
    (reported : status ∈ (House.recorded crew p stage events).status)
    (runs : status.state = .running) :
    let h := House.recorded crew p stage events
    let h' := ((request.perform crew.chronicled p).run h).2
    ∃ m i new, h.roster.get? status.name = some m ∧ m.instance? = some i ∧
      h'.stage.world.calls = h.stage.world.calls ++ new ∧
      (Dismissed i status.name new ∨ Retained m status.name (h'.roster.get? status.name) new ↔
        ¬ (request = .unloadAll ∧ status.name ∉ h.order)) ∧
      (request = .unloadAll → (Dismissed i status.name new ↔ status.name ∈ h.order)) := by
  intro h h'
  have sound := House.recorded_sound crew p stage events
  obtain ⟨m, found, state⟩ := sound.reported reported
  obtain ⟨i, live, active⟩ := sound.running found (state.trans runs)
  by_cases all : request = .unloadAll
  · subst all
    obtain ⟨new, calls, dropped, dismissed⟩ := unloadAll_dismissed crew sound m active
    refine ⟨m, i, new, found, live, calls, ?_, fun _ => dismissed⟩
    exact (or_iff_left dropped).trans (dismissed.trans (by simp [h]))
  · obtain ⟨l, moved, same | ⟨unloads, -⟩⟩ := perform_moves crew p request h sound
    · have runs := (Ledger.active?_of_get? found).symm.trans active
      obtain ⟨new, calls, fate⟩ := Moves.dismissed_or_retained moved found runs
      rw [← same] at calls fate
      exact ⟨m, i, new, found, live, calls, iff_of_true fate fun ⟨unloads, _⟩ => all unloads,
        fun unloads => absurd unloads all⟩
    · exact absurd unloads all

theorem House.rehearsed_dismissal :
    let h := Theatre.rehearsal
      [.asked (.reconcile { items := [Theatre.entry "a" "rec" []] } true)]
    let h' := ((Request.unloadAll.perform Theatre.crew.chronicled {}).run h).2
    (⟨"a", "rec", .running⟩ : Status) ∈ h.status ∧
      ∃ m i new, h.roster.get? "a" = some m ∧ m.instance? = some i ∧
        h'.stage.world.calls = h.stage.world.calls ++ new ∧
        (Dismissed i "a" new ∨ Retained m "a" (h'.roster.get? "a") new ↔
          ¬ (Request.unloadAll = .unloadAll ∧ "a" ∉ h.order)) ∧
        (Request.unloadAll = .unloadAll → (Dismissed i "a" new ↔ "a" ∈ h.order)) := by
  intro h h'
  have reported : (⟨"a", "rec", .running⟩ : Status) ∈ h.status := by decide +kernel
  exact ⟨reported,
    House.recorded_dismissal Theatre.crew {} { world := {} } _ .unloadAll _ reported rfl⟩

-- A recorder is to be disabled and fails to stop; then it is dropped without a call.
theorem House.rehearsed_dropped :
    let h := Theatre.rehearsal
      [.asked (.reconcile
          { items := [Theatre.entry "a" "rec" [Theatre.switches ["fail_stop"]]] } true),
        .asked (.reconcile { items :=
          [Theatre.entry "a" "rec" [(.string "disabled", .bool true)]] } false)]
    let h' := ((Request.unloadAll.perform Theatre.crew.chronicled {}).run h).2
    (⟨"a", "rec", .running⟩ : Status) ∈ h.status ∧ h'.status = [] ∧
      h'.stage.world.calls = h.stage.world.calls := by
  intro h h'
  refine ⟨by decide +kernel, by decide +kernel, ?_⟩
  obtain ⟨new, calls⟩ :=
    perform_calls Theatre.crew {} .unloadAll h (House.recorded_sound Theatre.crew {} _ _)
  have still : h'.stage.world.calls.length = h.stage.world.calls.length := by decide +kernel
  have none : new = [] := by
    have lengths : h'.stage.world.calls.length = h.stage.world.calls.length + new.length :=
      (congrArg List.length calls).trans List.length_append
    exact List.length_eq_zero_iff.mp (by omega)
  rw [none, List.append_nil] at calls
  exact calls

end Steward
