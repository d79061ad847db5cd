import Steward.Proofs.Supervision.Pass

set_option autoImplicit false

namespace Steward

variable {ι ω : Type} {name : String} {l l' l'' : Ledger ι}

structure Ledger.SameOn (name : String) (l l' : Ledger ι) : Prop where
  member : l'.roster.get? name = l.roster.get? name
  calls : Call.on name l'.calls = Call.on name l.calls

namespace Ledger.SameOn

theorem refl (name : String) (l : Ledger ι) : l.SameOn name l :=
  ⟨rfl, rfl⟩

theorem trans (first : l.SameOn name l') (later : l'.SameOn name l'') : l.SameOn name l'' :=
  ⟨later.member.trans first.member, later.calls.trans first.calls⟩

theorem active? (same : l.SameOn name l') : l'.active? name = l.active? name := by
  unfold Ledger.active?
  rw [same.member]

theorem callAll {calls : List (Call ι)} (others : ∀ c ∈ calls, c.name ≠ name) :
    l.SameOn name (l.callAll calls) := by
  refine ⟨rfl, ?_⟩
  rw [calls_callAll, Call.on_append, Call.on_others others, List.append_nil]

theorem call {c : Call ι} (other : c.name ≠ name) : l.SameOn name (l.call c) :=
  callAll (by simpa using other)

theorem leave (left : String) : l.SameOn name (l.leave left) :=
  ⟨rfl, rfl⟩

theorem join (joined : String) : l.SameOn name (l.join joined) :=
  ⟨rfl, rfl⟩

theorem enroll {m : Member ι} (other : name ≠ m.name) : l.SameOn name (l.enroll m) :=
  ⟨l.roster.get?_insert_of_ne other m, rfl⟩

theorem strike {struck : String} (other : name ≠ struck) : l.SameOn name (l.strike struck) := by
  refine ⟨?_, rfl⟩
  rw [roster_strike, Table.get?_erase, if_neg other]

theorem alter {altered : String} {f : Member ι → Member ι} (other : name ≠ altered) :
    l.SameOn name (l.alter altered f) := by
  refine ⟨?_, rfl⟩
  rw [roster_alter, Table.get?_update, if_neg other]

end Ledger.SameOn

open Ledger (SameOn)

theorem Stopped.sameOn {other : String} {active : Option ι} {r : Except Fault Unit}
    (stop : Stopped name l active r l') (apart : other ≠ name) : l.SameOn other l' := by
  cases stop with
  | idle => exact .refl other l
  | stopped i => exact (SameOn.leave name).trans (.call apart.symm)
  | failed i cause => exact (SameOn.leave name).trans (.call apart.symm)

theorem Stopped.calls {active : Option ι} {r : Except Fault Unit}
    (stop : Stopped name l active r l') :
    ∃ new, l'.calls = l.calls ++ new ∧ (∀ c ∈ new, c.name = name) ∧
      ∀ i, active = some i → ∃ answer, Call.stop i name answer ∈ new := by
  cases stop with
  | idle => exact ⟨[], by simp, nofun, nofun⟩
  | stopped i =>
    refine ⟨[.stop i name (.ok ())], rfl, by simp [Call.name], ?_⟩
    rintro _ ⟨⟩
    exact ⟨_, List.mem_singleton_self _⟩
  | failed i cause =>
    refine ⟨[.stop i name (.error cause)], rfl, by simp [Call.name], ?_⟩
    rintro _ ⟨⟩
    exact ⟨_, List.mem_singleton_self _⟩

theorem Settled.sameOn {p : Policy} {s : Surroundings} {spec : ComponentSpec}
    {r : Except Fault Bool} (settled : Settled p s spec l r l') (apart : name ≠ spec.name) :
    l.SameOn name l' := by
  have reloaded (i : ι) (answer : Except String (Reload ι)) :
      l.SameOn name (l.call (.reload i spec.name spec.config answer)) := .call apart.symm
  cases settled with
  | disableFailed off stop => exact stop.sameOn apart
  | disabled off stop => exact (stop.sameOn apart).trans (.enroll apart)
  | createStopFailed on fresh stop => exact stop.sameOn apart
  | createFailed on fresh stop cause => exact (stop.sameOn apart).trans (.call apart.symm)
  | created on fresh stop i =>
    refine (stop.sameOn apart).trans ?_
    exact .trans (.call (c := .create spec.kind spec.name spec.config (.ok i)) apart.symm)
      (.enroll apart)
  | unchanged on held same => exact .refl name l
  | reloadFailed on held changed cause => exact .call apart.symm
  | inPlace on held changed => exact (reloaded _ _).trans (.alter apart)
  | replaceFailed on held changed instead runs cause =>
    exact (reloaded _ _).trans (.call apart.symm)
  | replaced on held changed instead stop =>
    exact ((reloaded _ _).trans (stop.sameOn apart)).trans (.enroll apart)

theorem SettledAll.sameOn {p : Policy} {turns : List (ComponentSpec × Surroundings)}
    {r : Except Fault (List String)} (settled : SettledAll p turns l r l')
    (absent : name ∉ turns.map (·.1.name)) : l.SameOn name l' := by
  induction settled with
  | nil => exact .refl name _
  | failed first =>
    exact first.sameOn (List.ne_of_not_mem_cons absent)
  | failedLater first later ih =>
    have apart := List.ne_of_not_mem_cons absent
    exact (first.sameOn apart).trans (ih (List.not_mem_of_not_mem_cons absent))
  | cons first later ih =>
    have apart := List.ne_of_not_mem_cons absent
    exact (first.sameOn apart).trans (ih (List.not_mem_of_not_mem_cons absent))

theorem RemovedAll.sameOn {names : List String} {faults : List (Option Fault)}
    (removed : RemovedAll names l faults l') (absent : name ∉ names) : l.SameOn name l' := by
  induction removed with
  | nil => exact .refl name _
  | cons stop rest ih =>
    have apart := List.ne_of_not_mem_cons absent
    exact ((SameOn.strike apart).trans (stop.sameOn apart)).trans
      (ih (List.not_mem_of_not_mem_cons absent))

theorem Tried.sameOn {crew : Crew ι ω} {other : String} {r : Except Fault Nat}
    (tried : Tried crew name l r l') (apart : other ≠ name) : l.SameOn other l' := by
  have hooks (config : Section) : ∀ c ∈ crew.hookCalls name config, c.name ≠ other :=
    fun c member => crew.name_of_mem_hookCalls member ▸ apart.symm
  cases tried with
  | absent left none => exact .refl other l
  | refused member live cause => exact .call apart.symm
  | late member live budget => exact .callAll (hooks _)
  | cancelled member live budget =>
    exact .callAll (List.forall_mem_append.mpr ⟨hooks _, by simp [Call.name, apart.symm]⟩)
  | failed member live cause =>
    exact .callAll (List.forall_mem_append.mpr ⟨hooks _, by simp [Call.name, apart.symm]⟩)
  | @started m i member live left =>
    have calls : ∀ c ∈ crew.startCalls name m.config i, c.name ≠ other :=
      fun c member => crew.name_of_mem_startCalls member ▸ apart.symm
    exact ((SameOn.callAll calls).trans (.alter apart)).trans (.join name)

theorem TriedAll.sameOn {crew : Crew ι ω} {queue : List String} {r : Except Fault Nat}
    (tried : TriedAll crew queue l r l') (absent : name ∉ queue) : l.SameOn name l' := by
  induction tried with
  | nil left => exact .refl name _
  | failed first =>
    exact first.sameOn (List.ne_of_not_mem_cons absent)
  | cons first later ih =>
    have apart := List.ne_of_not_mem_cons absent
    exact (first.sameOn apart).trans (ih (List.not_mem_of_not_mem_cons absent))

theorem Settled.idle {p : Policy} {s : Surroundings} {spec : ComponentSpec}
    (settled : Settled p s spec l (.ok true) l') : l'.active? spec.name = none := by
  generalize starts : Except.ok true = r at settled
  cases settled with
  | disabled off stop => cases starts
  | created on fresh stop i => exact Ledger.active?_enroll_self _ (.created spec i)
  | inPlace on held changed =>
    have rests := (Except.ok.inj starts).symm
    rw [Ledger.active?_alter, if_pos rfl, Ledger.roster_call, held.member]
    exact if_neg (by simpa [Member.isRunning] using rests)
  | replaced on held changed instead stop =>
    exact Ledger.active?_enroll_self _ (.created spec instead)
  | _ => cases starts

theorem SettledAll.queue {p : Policy} {turns : List (ComponentSpec × Surroundings)}
    {names : List String} (settled : SettledAll p turns l (.ok names) l')
    (nodup : (turns.map (·.1.name)).Nodup) :
    names.Sublist (turns.map (·.1.name)) ∧ ∀ name ∈ names, l'.active? name = none := by
  generalize result : Except.ok names = r at settled
  induction settled generalizing names with
  | nil =>
    cases result
    exact ⟨.slnil, by simp⟩
  | failed first => cases result
  | failedLater first later ih => cases result
  | @cons spec s rest l l₁ l₂ starts queue first later ih =>
    obtain ⟨new, nodup⟩ := List.nodup_cons.mp nodup
    obtain ⟨sublist, idle⟩ := ih nodup rfl
    cases result
    cases starts with
    | false => exact ⟨sublist.cons _, idle⟩
    | true =>
      refine ⟨sublist.cons_cons _, fun name member => ?_⟩
      rcases List.mem_cons.mp member with rfl | member
      · exact (later.sameOn new).active?.trans first.idle
      · exact idle name member

end Steward
