import Steward.Proofs.Supervision.Soundness

set_option autoImplicit false

namespace Steward

variable {ι ω : Type}

inductive Change (name : String) (old : Option (Member ι)) :
    List (Call ι) → Option (Member ι) → Prop
  | untouched : Change name old [] old
  | asked (c : Call ι) (quiet : c.isTurn = false ∨ old.bind Member.active? = none) :
      Change name old [c] old
  | unstopped {i : ι} (runs : old.bind Member.active? = some i) (cause : String) :
      Change name old [.stop i name (.error cause)] old
  | lost {i : ι} (runs : old.bind Member.active? = some i) (kind : String) (config : Section)
      (cause : String) :
      Change name old [.stop i name (.ok ()), .create kind name config (.error cause)] old
  | quit {new : List (Call ι)} {now : Option (Member ι)} (idle : now.bind Member.active? = none)
      (stopped : ∀ i, old.bind Member.active? = some i →
        ∃ answer, Call.stop i name answer ∈ new) :
      Change name old new now
  | reconfigured (config : Section) : Change name old [] (old.map fun m => { m with config })
  | started {m : Member ι} {i : ι} (member : old = some m) (live : m.instance? = some i)
      (idle : m.active? = none) :
      Change name old [.finish i name (.ok ())] (some { m with state := .running })

def Ledger.Changed (name : String) (l l' : Ledger ι) : Prop :=
  ∃ new, l'.calls = l.calls ++ new ∧
    Change name (l.roster.get? name) (Call.on name new) (l'.roster.get? name)

theorem Ledger.SameOn.changed {name : String} {l l' : Ledger ι} {new : List (Call ι)}
    (same : l.SameOn name l') (calls : l'.calls = l.calls ++ new) : l.Changed name l' := by
  refine ⟨new, calls, ?_⟩
  have quiet := same.calls
  rw [calls, Call.on_append, List.append_right_eq_self] at quiet
  rw [quiet, same.member]
  exact .untouched

theorem Move.changed {l l' : Ledger ι} (move : Move l l') (name : String) :
    l.Changed name l' := by
  -- From any name but its own, a move is not seen.
  cases move with
  | asked c quiet =>
    by_cases own : c.name = name
    · refine ⟨[c], rfl, ?_⟩
      rw [Call.on_own (by simpa using own)]
      exact .asked c (own ▸ quiet)
    · exact (Ledger.SameOn.call own).changed rfl
  | @kept touched i runs cause =>
    by_cases own : touched = name
    · subst own
      refine ⟨[.stop i touched (.error cause)], rfl, ?_⟩
      rw [Call.on_own (by simp [Call.name])]
      exact .unstopped runs cause
    · have other : (Call.stop i touched (.error cause)).name ≠ name := own
      exact (Ledger.SameOn.call other).changed rfl
  | @left touched i runs cause =>
    by_cases own : touched = name
    · subst own
      refine ⟨[.stop i touched (.error cause)], rfl, ?_⟩
      rw [Call.on_own (by simp [Call.name])]
      exact .unstopped runs cause
    · have other : (Call.stop i touched (.error cause)).name ≠ name := own
      exact ((Ledger.SameOn.leave touched).trans (.call other)).changed rfl
  | @lost touched i runs kind config cause =>
    let calls : List (Call ι) :=
      [.stop i touched (.ok ()), .create kind touched config (.error cause)]
    rw [Ledger.call_call]
    by_cases own : touched = name
    · subst own
      refine ⟨calls, rfl, ?_⟩
      rw [Call.on_own (by simp [calls, Call.name])]
      exact .lost runs kind config cause
    · have others : ∀ c ∈ calls, c.name ≠ name := by simp [calls, Call.name, own]
      exact ((Ledger.SameOn.leave touched).trans (.callAll others)).changed rfl
  | @renewed m l₁ sound idle stop made own =>
    obtain ⟨rest, calls, names, stopped⟩ := stop.calls
    have new : ((l₁.callAll made).enroll m).calls = l.calls ++ (rest ++ made) := by
      rw [Ledger.calls_enroll, Ledger.calls_callAll, calls, List.append_assoc]
    by_cases same : m.name = name
    · subst same
      refine ⟨rest ++ made, new, ?_⟩
      rw [Call.on_own (List.forall_mem_append.mpr ⟨names, own⟩), Ledger.roster_enroll,
        Table.get?_insert_self]
      refine .quit idle fun i active => ?_
      obtain ⟨answer, member⟩ := stopped i active
      exact ⟨answer, List.mem_append_left made member⟩
    · have apart : name ≠ m.name := fun eq => same eq.symm
      have others : ∀ c ∈ made, c.name ≠ name := fun c member => own c member ▸ same
      exact (((stop.sameOn apart).trans (.callAll others)).trans (.enroll apart)).changed new
  | reconfigured touched config =>
    by_cases own : name = touched
    · subst own
      refine ⟨[], by simp, ?_⟩
      rw [Ledger.roster_alter, Table.get?_update, if_pos rfl]
      exact .reconfigured config
    · have calls : (l.alter touched fun m => { m with config }).calls = l.calls ++ [] := by simp
      exact (Ledger.SameOn.alter own).changed calls
  | @removed touched r _ stop =>
    obtain ⟨rest, calls, names, stopped⟩ := stop.calls
    by_cases own : name = touched
    · subst own
      refine ⟨rest, calls, ?_⟩
      rw [Call.on_own names, stop.roster, Ledger.roster_strike, Table.get?_erase, if_pos rfl]
      exact .quit rfl stopped
    · exact ((Ledger.SameOn.strike own).trans (stop.sameOn own)).changed calls
  | @started touched m i member live idle =>
    by_cases own : name = touched
    · subst own
      refine ⟨[.finish i name (.ok ())], rfl, ?_⟩
      rw [Call.on_own (by simp [Call.name]), Ledger.roster_join, Ledger.roster_alter,
        Table.get?_update, if_pos rfl, Ledger.roster_call, member]
      rw [Ledger.active?_of_get? member] at idle
      exact .started rfl live idle
    · have called : l.SameOn name (l.call (.finish i touched (.ok ()))) :=
        .call fun eq => own eq.symm
      exact ((called.trans (.alter own)).trans (.join touched)).changed rfl

theorem Moves.calls {l l' : Ledger ι} (moves : Moves l l') : ∃ new, l'.calls = l.calls ++ new := by
  induction moves with
  | refl => exact ⟨[], by simp⟩
  | tail _ move ih =>
    obtain ⟨front, total⟩ := ih
    obtain ⟨back, calls, -⟩ := move.changed ""
    exact ⟨front ++ back, by rw [calls, total, List.append_assoc]⟩

theorem perform_calls (crew : Crew ι ω) (p : Policy) (request : Request)
    (h : House ι (Chronicle ι ω)) (sound : h.ledger.Sound) :
    Run.Ends (request.perform crew.chronicled p) h fun _ h' =>
      ∃ new, h'.ledger.calls = h.ledger.calls ++ new := by
  refine (perform_moves crew p request h sound).mono ?_
  rintro _ h' ⟨l, moved, same | ⟨-, cleared⟩⟩
  · rw [same]
    exact Moves.calls moved
  · obtain ⟨new, calls⟩ := Moves.calls moved
    rw [cleared]
    exact ⟨new, calls⟩

end Steward
