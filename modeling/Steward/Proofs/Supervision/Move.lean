import Mathlib.Logic.Relation
import Steward.Proofs.Supervision.Frame

set_option autoImplicit false

namespace Steward

open Run

variable {ι ω : Type}

structure Member.Sound (m : Member ι) : Prop where
  instance_ : m.state = .disabled ↔ m.instance? = none
  flag : m.state = .disabled ↔ m.disabled = true

theorem Member.sound_created (spec : ComponentSpec) (i : ι) : (Member.created spec i).Sound :=
  ⟨by simp [Member.created], by simp [Member.created]⟩

theorem Member.sound_placeholder (spec : ComponentSpec) :
    (Member.placeholder spec : Member ι).Sound :=
  ⟨by simp [Member.placeholder], by simp [Member.placeholder]⟩

theorem Member.Sound.started {m : Member ι} (sound : m.Sound) {i : ι}
    (live : m.instance? = some i) : ({ m with state := .running } : Member ι).Sound := by
  have on : m.state ≠ .disabled := fun off => by simp [sound.instance_.mp off] at live
  have enabled : m.disabled ≠ true := fun flag => on (sound.flag.mpr flag)
  exact ⟨by simp [live], by simpa using enabled⟩

inductive Move (l : Ledger ι) : Ledger ι → Prop
  | asked (c : Call ι) (quiet : c.isTurn = false ∨ l.active? c.name = none) : Move l (l.call c)
  -- A replacement leaves the order only after its stop, all other stops before it.
  | kept {name : String} {i : ι} (runs : l.active? name = some i) (cause : String) :
      Move l (l.call (.stop i name (.error cause)))
  | left {name : String} {i : ι} (runs : l.active? name = some i) (cause : String) :
      Move l ((l.leave name).call (.stop i name (.error cause)))
  -- The record stays although its instance has been stopped.
  | lost {name : String} {i : ι} (runs : l.active? name = some i) (kind : String)
      (config : Section) (cause : String) :
      Move l (((l.leave name).call (.stop i name (.ok ()))).call
        (.create kind name config (.error cause)))
  | renewed {m : Member ι} {l' : Ledger ι} (sound : m.Sound) (idle : m.active? = none)
      (stop : Stopped m.name l (l.active? m.name) (.ok ()) l') (made : List (Call ι))
      (own : ∀ c ∈ made, c.name = m.name) : Move l ((l'.callAll made).enroll m)
  | reconfigured (name : String) (config : Section) :
      Move l (l.alter name fun m => { m with config })
  | removed {name : String} {r : Except Fault Unit} {l' : Ledger ι}
      (stop : Stopped name (l.strike name) (l.active? name) r l') : Move l l'
  | started {name : String} {m : Member ι} {i : ι} (member : l.roster.get? name = some m)
      (live : m.instance? = some i) (idle : l.active? name = none) :
      Move l (((l.call (.finish i name (.ok ()))).alter name
        fun m => { m with state := .running }).join name)

abbrev Moves (l l' : Ledger ι) : Prop := Relation.ReflTransGen Move l l'

theorem Stopped.move_of_error {name : String} {l l' : Ledger ι} {fault : Fault}
    (stop : Stopped name l (l.active? name) (.error fault) l') : Move l l' := by
  generalize active : l.active? name = a at stop
  cases stop with
  | failed i cause => exact .left active cause

theorem Settled.moves {p : Policy} {s : Surroundings} {spec : ComponentSpec} {l l' : Ledger ι}
    {r : Except Fault Bool} (settled : Settled p s spec l r l') : Moves l l' := by
  cases settled with
  | disableFailed off stop => exact .single stop.move_of_error
  | disabled off stop =>
    have renewed := Move.renewed (Member.sound_placeholder spec) rfl stop [] (by simp)
    rw [Ledger.callAll_nil] at renewed
    exact .single renewed
  | createStopFailed on fresh stop => exact .single stop.move_of_error
  | createFailed on fresh stop cause =>
    generalize active : l.active? spec.name = a at stop
    -- Without a stop before it, a failed creation is a call and nothing else.
    cases stop with
    | idle => exact .single (.asked _ (.inr active))
    | stopped i => exact .single (.lost active _ _ cause)
  | created on fresh stop i =>
    exact .single (.renewed (Member.sound_created spec i) rfl stop
      [.create spec.kind spec.name spec.config (.ok i)] (by simp [Call.name, Member.created]))
  | unchanged on held same => exact .refl
  | reloadFailed on held changed cause => exact .single (.asked _ (.inl rfl))
  | inPlace on held changed =>
    exact .tail (.single (.asked _ (.inl rfl))) (.reconfigured spec.name spec.config)
  | @replaceFailed m i on held changed instead runs cause =>
    have active : l.active? spec.name = some i := by
      simp [Ledger.active?_of_get? held.member, Member.active?, runs, held.live]
    have reloaded : Move l (l.call (.reload i spec.name spec.config (.ok (.replace instead)))) :=
      .asked _ (.inl rfl)
    rw [← Ledger.active?_call] at active
    exact .tail (.single reloaded) (.kept active cause)
  | @replaced m i l' on held changed instead stop =>
    have reloaded : Move l (l.call (.reload i spec.name spec.config (.ok (.replace instead)))) :=
      .asked _ (.inl rfl)
    rw [← Ledger.active?_of_get? held.member, ← Ledger.active?_call] at stop
    have renewed := Move.renewed (Member.sound_created spec instead) rfl stop [] (by simp)
    rw [Ledger.callAll_nil] at renewed
    exact .tail (.single reloaded) renewed

theorem SettledAll.moves {p : Policy} {turns : List (ComponentSpec × Surroundings)}
    {l l' : Ledger ι} {r : Except Fault (List String)} (settled : SettledAll p turns l r l') :
    Moves l l' := by
  induction settled with
  | nil => exact .refl
  | failed first => exact first.moves
  | failedLater first later ih => exact first.moves.trans ih
  | cons first later ih => exact first.moves.trans ih

theorem RemovedAll.moves {names : List String} {l l' : Ledger ι} {faults : List (Option Fault)}
    (removed : RemovedAll names l faults l') : Moves l l' := by
  induction removed with
  | nil => exact .refl
  | cons stop rest ih => exact .head (.removed stop) ih

theorem callAll_moves {l : Ledger ι} {calls : List (Call ι)}
    (quiet : ∀ c ∈ calls, c.isTurn = false ∨ l.active? c.name = none) :
    Moves l (l.callAll calls) := by
  induction calls generalizing l with
  | nil =>
    rw [Ledger.callAll_nil]
  | cons c calls ih =>
    have rest := ih (l := l.call c) fun c member => quiet c (by simp [member])
    rw [Ledger.call, Ledger.callAll_callAll] at rest
    exact .head (.asked c (quiet c (by simp))) rest

theorem Tried.moves {crew : Crew ι ω} {name : String} {l l' : Ledger ι} {r : Except Fault Nat}
    (tried : Tried crew name l r l') (idle : l.active? name = none) : Moves l l' := by
  -- Up to its end, a start is made of calls on a name that does not run.
  have quiet (config : Section) (calls : List (Call ι)) (own : ∀ c ∈ calls, c.name = name) :
      Moves l (l.callAll (crew.hookCalls name config ++ calls)) := by
    refine callAll_moves fun c member => .inr ?_
    rcases List.mem_append.mp member with hooked | called
    · exact crew.name_of_mem_hookCalls hooked ▸ idle
    · exact own c called ▸ idle
  cases tried with
  | absent left none => exact .refl
  | refused member live cause => exact .single (.asked _ (.inl rfl))
  | late member live budget =>
    rw [← List.append_nil (crew.hookCalls _ _)]
    exact quiet _ [] (by simp)
  | cancelled member live budget => exact quiet _ _ (by simp [Call.name])
  | failed member live cause => exact quiet _ _ (by simp [Call.name])
  | @started m i member live left =>
    have begun := quiet m.config [.begin_ i name] (by simp [Call.name])
    have starts : l.callAll (crew.startCalls name m.config i) =
        (l.callAll (crew.hookCalls name m.config ++ [.begin_ i name])).call
          (.finish i name (.ok ())) := by
      rw [Ledger.call, Ledger.callAll_callAll, List.append_assoc]
      rfl
    rw [starts]
    exact .tail begun (.started member live idle)

theorem TriedAll.moves {crew : Crew ι ω} {queue : List String} {l l' : Ledger ι}
    {r : Except Fault Nat} (tried : TriedAll crew queue l r l') (nodup : queue.Nodup)
    (idle : ∀ name ∈ queue, l.active? name = none) : Moves l l' := by
  induction tried with
  | nil left => exact .refl
  | failed first => exact first.moves (idle _ (by simp))
  | @cons name queue l l₁ l₂ left r first later ih =>
    obtain ⟨new, nodup⟩ := List.nodup_cons.mp nodup
    refine (first.moves (idle name (by simp))).trans (ih nodup fun other member => ?_)
    have apart : other ≠ name := fun same => new (same ▸ member)
    exact (first.sameOn apart).active?.trans (idle other (by simp [member]))

end Steward
