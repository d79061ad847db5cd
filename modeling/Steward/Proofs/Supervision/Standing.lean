import Steward.Proofs.Supervision.Change

set_option autoImplicit false

namespace Steward

open Call (lastTurn lastSwitch)

variable {ι ω : Type}

/-- How the calls on a name can end if its record runs with the instance. -/
inductive Standing (i : ι) (name : String) (calls : List (Call ι)) : Prop
  | started (turn : lastTurn calls = some (.finish i name (.ok ())))
      (switch : lastSwitch calls = some (.finish i name (.ok ())))
  | unstopped (cause : String) (turn : lastTurn calls = some (.stop i name (.error cause)))
      (switch : lastSwitch calls = some (.stop i name (.error cause)))
  | lost (kind : String) (config : Section) (cause : String)
      (turn : lastTurn calls = some (.create kind name config (.error cause)))
      (switch : lastSwitch calls = some (.stop i name (.ok ())))

theorem Standing.quiet {i : ι} {name : String} {calls : List (Call ι)}
    (standing : Standing i name calls) {c : Call ι} (quiet : c.isTurn = false) :
    Standing i name (calls ++ [c]) := by
  have still : c.isSwitch = false :=
    Bool.eq_false_iff.mpr fun switches => by simp [Call.isTurn_of_isSwitch switches] at quiet
  cases standing with
  | started turn switch =>
    exact .started ((Call.lastTurn_quiet quiet calls).trans turn)
      ((Call.lastSwitch_quiet still calls).trans switch)
  | unstopped cause turn switch =>
    exact .unstopped cause ((Call.lastTurn_quiet quiet calls).trans turn)
      ((Call.lastSwitch_quiet still calls).trans switch)
  | lost kind config cause turn switch =>
    exact .lost kind config cause ((Call.lastTurn_quiet quiet calls).trans turn)
      ((Call.lastSwitch_quiet still calls).trans switch)

theorem active?_reconfigured (old : Option (Member ι)) (config : Section) :
    (old.map fun m => { m with config }).bind Member.active? = old.bind Member.active? := by
  cases old <;> rfl

theorem Change.standing {name : String} {old now : Option (Member ι)}
    {calls new : List (Call ι)} (change : Change name old new now)
    (before : ∀ i, old.bind Member.active? = some i → Standing i name calls) :
    ∀ i, now.bind Member.active? = some i → Standing i name (calls ++ new) := by
  intro i active
  cases change with
  | untouched =>
    rw [List.append_nil]
    exact before i active
  | asked c quiet =>
    rcases quiet with quiet | idle
    · exact (before i active).quiet quiet
    · cases idle.symm.trans active
  | unstopped runs cause =>
    cases runs.symm.trans active
    exact .unstopped cause (Call.lastTurn_concat rfl calls) (Call.lastSwitch_concat rfl calls)
  | lost runs kind config cause =>
    cases runs.symm.trans active
    -- The failed creation is a turn and no switch, so the stop stays the last switch.
    refine .lost kind config cause ?_ ?_
    · rw [List.append_cons]
      exact Call.lastTurn_concat rfl _
    · rw [List.append_cons, Call.lastSwitch_quiet rfl]
      exact Call.lastSwitch_concat rfl calls
  | quit idle stopped => cases idle.symm.trans active
  | reconfigured config =>
    rw [active?_reconfigured] at active
    rw [List.append_nil]
    exact before i active
  | @started m i' member live idle =>
    have here : some i' = some i := by
      simpa [Member.active?, Member.isRunning, live] using active
    cases here
    exact .started (Call.lastTurn_concat rfl calls) (Call.lastSwitch_concat rfl calls)

def Ledger.Stands (l : Ledger ι) : Prop :=
  ∀ name i, l.active? name = some i → Standing i name (Call.on name l.calls)

theorem Ledger.Stands.kept : Ledger.Kept (Ledger.Stands (ι := ι)) := by
  refine ⟨fun l l' _ move stands name => ?_, fun _ _ _ _ active => by cases active⟩
  obtain ⟨new, calls, change⟩ := move.changed name
  rw [calls, Call.on_append]
  exact change.standing (stands name)

theorem Standing.started_iff {i : ι} {name : String} {calls : List (Call ι)}
    (standing : Standing i name calls) :
    lastSwitch calls = some (.finish i name (.ok ())) ↔
      ∀ c, lastTurn calls = some c → c.failsTurn = false := by
  cases standing with
  | started turn switch => simp [turn, switch, Call.failsTurn]
  | unstopped cause turn switch => simp [turn, switch, Call.failsTurn]
  | lost kind config cause turn switch => simp [turn, switch, Call.failsTurn]

theorem Standing.lost_iff {i : ι} {name : String} {calls : List (Call ι)}
    (standing : Standing i name calls) :
    lastSwitch calls = some (.stop i name (.ok ())) ↔
      ∃ kind config cause, lastTurn calls = some (.create kind name config (.error cause)) := by
  cases standing with
  | started turn switch => simp [turn, switch]
  | unstopped cause turn switch => simp [turn, switch]
  | lost kind config cause turn switch => simp [turn, switch]

theorem House.recorded_standing (crew : Crew ι ω) (p : Policy) (stage : Stage ω)
    (events : List (Event ω)) (status : Status)
    (reported : status ∈ (House.recorded crew p stage events).status)
    (runs : status.state = .running) :
    let h := House.recorded crew p stage events
    let calls := Call.on status.name h.stage.world.calls
    ∃ m i, h.roster.get? status.name = some m ∧ m.instance? = some i ∧ Standing i status.name calls ∧
      (lastSwitch calls = some (.finish i status.name (.ok ())) ↔
        ∀ c, lastTurn calls = some c → c.failsTurn = false) ∧
      (lastSwitch calls = some (.stop i status.name (.ok ())) ↔
        ∃ kind config cause,
          lastTurn calls = some (.create kind status.name config (.error cause))) := by
  intro h calls
  obtain ⟨sound, stands⟩ :=
    Ledger.Stands.kept.recorded (fun _ _ active => by cases active) crew p stage events
  obtain ⟨m, found, state⟩ := sound.reported reported
  obtain ⟨i, live, active⟩ := sound.running found (state.trans runs)
  have standing := stands status.name i active
  exact ⟨m, i, found, live, standing, standing.started_iff, standing.lost_iff⟩

theorem House.rehearsed_standing :
    let h := Theatre.rehearsal
      [.asked (.reconcile { items := [Theatre.entry "a" "rec" []] } true)]
    let calls := Call.on "a" h.stage.world.calls
    (⟨"a", "rec", .running⟩ : Status) ∈ h.status ∧
      ∃ m i, h.roster.get? "a" = some m ∧ m.instance? = some i ∧ Standing i "a" calls ∧
        (lastSwitch calls = some (.finish i "a" (.ok ())) ↔
          ∀ c, lastTurn calls = some c → c.failsTurn = false) ∧
        (lastSwitch calls = some (.stop i "a" (.ok ())) ↔
          ∃ kind config cause,
            lastTurn calls = some (.create kind "a" config (.error cause))) := by
  intro h calls
  have reported : (⟨"a", "rec", .running⟩ : Status) ∈ h.status := by decide +kernel
  exact ⟨reported, House.recorded_standing Theatre.crew {} { world := {} } _ _ reported rfl⟩

-- A direct component is stopped for one of another type, which cannot be created.
theorem House.rehearsed_lost :
    let h := Theatre.rehearsal
      [.asked (.reconcile { items := [Theatre.entry "a" "direct" []] } true),
        .asked (.reconcile
          { items := [Theatre.entry "a" "rec" [Theatre.switches ["fail_create"]]] } false)]
    let calls := Call.on "a" h.stage.world.calls
    (⟨"a", "direct", .running⟩ : Status) ∈ h.status ∧
      (lastSwitch calls).any (fun c => c.isStop && !c.failsTurn) = true ∧
      ¬ ∃ i, lastSwitch calls = some (.finish i "a" (.ok ())) := by
  intro h calls
  have stopped : (lastSwitch calls).any (fun c => c.isStop && !c.failsTurn) = true := by
    decide +kernel
  refine ⟨by decide +kernel, stopped, ?_⟩
  rintro ⟨i, last⟩
  rw [last] at stopped
  cases stopped

end Steward
