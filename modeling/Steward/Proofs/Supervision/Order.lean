import Steward.Proofs.Supervision.Soundness

set_option autoImplicit false

namespace Steward

variable {ι ω : Type}

def Ledger.Complete (l : Ledger ι) : Prop :=
  (∀ c ∈ l.calls, c.failsTurn = false) →
    ∀ name, (l.active? name).isSome = true → name ∈ l.order

theorem Ledger.Complete.quiet {l l' : Ledger ι} (complete : l.Complete) (name : String)
    {new : List (Call ι)} (calls : l'.calls = l.calls ++ new) (idle : l'.active? name = none)
    (others : ∀ other, other ≠ name →
      l'.active? other = l.active? other ∧ (other ∈ l.order → other ∈ l'.order)) :
    l'.Complete := by
  intro fine other active
  have apart : other ≠ name := by
    rintro rfl
    rw [idle] at active
    cases active
  obtain ⟨same, ordered⟩ := others other apart
  rw [same] at active
  exact ordered (complete (fun c member => fine c (by simp [calls, member])) other active)

theorem Stopped.mem_order {name other : String} {l l' : Ledger ι} {active : Option ι}
    {r : Except Fault Unit} (stop : Stopped name l active r l') (apart : other ≠ name)
    (ordered : other ∈ l.order) : other ∈ l'.order := by
  cases stop with
  | idle => exact ordered
  | stopped i => exact List.mem_filter.mpr ⟨ordered, by simpa using apart⟩
  | failed i cause => exact List.mem_filter.mpr ⟨ordered, by simpa using apart⟩

theorem Move.complete {l l' : Ledger ι} (move : Move l l') (complete : l.Complete) :
    l'.Complete := by
  -- A failed call that has been written down refutes the assumption on the calls.
  have failed {l' : Ledger ι} {c : Call ι} (member : c ∈ l'.calls)
      (fails : c.failsTurn = true) : l'.Complete := by
    intro fine
    rw [fine c member] at fails
    cases fails
  cases move with
  | asked c quiet =>
    exact fun fine name active => complete (fun c member => fine c (by simp [member])) name active
  | @kept name i runs cause => exact failed (c := .stop i name (.error cause)) (by simp) rfl
  | @left name i runs cause => exact failed (c := .stop i name (.error cause)) (by simp) rfl
  | @lost name i runs kind config cause =>
    exact failed (c := .create kind name config (.error cause)) (by simp) rfl
  | @renewed m l₁ sound idle stop made own =>
    obtain ⟨rest, calls, -⟩ := stop.calls
    have total : ((l₁.callAll made).enroll m).calls = l.calls ++ (rest ++ made) := by
      rw [Ledger.calls_enroll, Ledger.calls_callAll, calls, List.append_assoc]
    refine complete.quiet m.name total ?_ fun other apart => ⟨?_, ?_⟩
    · exact (Ledger.active?_enroll_self _ m).trans idle
    · exact ((stop.sameOn apart).trans
        ((Ledger.SameOn.callAll fun c member => own c member ▸ apart.symm).trans
          (.enroll apart))).active?
    · exact stop.mem_order apart
  | reconfigured name config =>
    intro fine other active
    rw [Ledger.active?_alter] at active
    split at active
    · next same =>
      subst same
      refine complete fine other ?_
      unfold Ledger.active?
      cases found : l.roster.get? other with
      | none => simp [found] at active
      | some m => simpa [found, Member.active?, Member.isRunning] using active
    · exact complete fine other active
  | @removed name r l' stop =>
    obtain ⟨rest, calls, -⟩ := stop.calls
    refine complete.quiet name calls ?_ fun other apart => ⟨?_, stop.mem_order apart⟩
    · rw [Ledger.active?, stop.roster, Ledger.roster_strike, Table.get?_erase, if_pos rfl]
      rfl
    · exact ((Ledger.SameOn.strike apart).trans (stop.sameOn apart)).active?
  | @started name m i member live idle =>
    intro fine other active
    rw [Ledger.active?_start (l := l.call (.finish i name (.ok ()))) member live] at active
    split at active
    · next same => simp [same]
    · have ordered := complete (fun c member => fine c (by simp [member])) other active
      simp [ordered]

theorem Ledger.Complete.kept : Ledger.Kept (Ledger.Complete (ι := ι)) :=
  ⟨fun _ _ _ move complete => move.complete complete, fun _ _ _ _ active => by cases active⟩

theorem House.recorded_order (crew : Crew ι ω) (p : Policy) (stage : Stage ω)
    (events : List (Event ω)) :
    let h := House.recorded crew p stage events
    h.order.Nodup ∧
      (∀ name ∈ h.order, ∃ m i,
        h.roster.get? name = some m ∧ m.instance? = some i ∧ m.state = .running) ∧
      (∀ name m, h.roster.get? name = some m →
        m.name = name ∧ (m.state = .disabled ↔ m.instance? = none) ∧
          (m.state = .disabled ↔ m.disabled = true)) ∧
      ((∀ c ∈ h.stage.world.calls, c.failsTurn = false) →
        ∀ name, name ∈ h.order ↔ ∃ m, h.roster.get? name = some m ∧ m.state = .running) := by
  intro h
  obtain ⟨sound, complete⟩ :=
    Ledger.Complete.kept.recorded (fun _ _ active => by cases active) crew p stage events
  have ordered : ∀ name ∈ h.order, ∃ m i,
      h.roster.get? name = some m ∧ m.instance? = some i ∧ m.state = .running := by
    intro name member
    obtain ⟨i, active⟩ := Option.isSome_iff_exists.mp (sound.active name member)
    obtain ⟨m, found, runs, live⟩ := Ledger.get?_of_active? active
    exact ⟨m, i, found, live, by simpa [Member.isRunning] using runs⟩
  refine ⟨sound.nodup, ordered, fun name m found => ?_, fun fine name => ⟨fun member => ?_, ?_⟩⟩
  · have member := sound.members name m found
    exact ⟨sound.named name m found, member.instance_, member.flag⟩
  · obtain ⟨m, i, found, -, runs⟩ := ordered name member
    exact ⟨m, found, runs⟩
  · rintro ⟨m, found, runs⟩
    obtain ⟨i, -, active⟩ := sound.running found runs
    exact complete fine name (by rw [active]; rfl)

end Steward
