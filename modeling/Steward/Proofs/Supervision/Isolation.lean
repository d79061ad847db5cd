import Steward.Proofs.Supervision.Soundness

set_option autoImplicit false

namespace Steward

variable {ι ω : Type}

structure Ledger.Rearranged (l l' : Ledger ι) (new : List (Call ι)) : Prop where
  calls : l'.calls = l.calls ++ new
  kept : l.order.filter (· ∉ Call.stopped new) <+: l'.order.filter (· ∉ Call.stopped new)
  joined : ∀ name ∈ l'.order, name ∈ l.order ∨ name ∈ Call.started new

namespace Ledger.Rearranged

variable {l l' l'' : Ledger ι} {new front back : List (Call ι)}

theorem of_same (calls : l'.calls = l.calls ++ new) (order : l'.order = l.order) :
    l.Rearranged l' new :=
  ⟨calls, order ▸ List.prefix_rfl, fun _ member => .inl (order ▸ member)⟩

theorem of_left {name : String} (calls : l'.calls = l.calls ++ new)
    (order : l'.order = l.order.filter (· ≠ name)) (stopped : name ∈ Call.stopped new) :
    l.Rearranged l' new := by
  refine ⟨calls, ?_, fun other member => .inl ?_⟩
  · rw [order, List.filter_filter]
    refine (List.filter_congr fun other _ => ?_).symm ▸ List.prefix_rfl
    by_cases same : other = name <;> simp [same, stopped]
  · rw [order] at member
    exact (List.mem_filter.mp member).1

theorem trans (first : l.Rearranged l' front) (later : l'.Rearranged l'' back) :
    l.Rearranged l'' (front ++ back) := by
  refine ⟨?_, ?_, fun name member => ?_⟩
  · rw [later.calls, first.calls, List.append_assoc]
  · -- What neither part has stopped is what the one has not stopped of the rest of the other.
    have both (order : List String) :
        order.filter (· ∉ Call.stopped (front ++ back)) =
          (order.filter (· ∉ Call.stopped front)).filter (· ∉ Call.stopped back) := by
      rw [List.filter_filter, Call.stopped_append]
      exact List.filter_congr fun name _ => by simp [Bool.and_comm]
    have swapped (order : List String) :
        order.filter (· ∉ Call.stopped (front ++ back)) =
          (order.filter (· ∉ Call.stopped back)).filter (· ∉ Call.stopped front) := by
      rw [both, List.filter_filter, List.filter_filter]
      exact List.filter_congr fun name _ => by rw [Bool.and_comm]
    have first : l.order.filter (· ∉ Call.stopped (front ++ back)) <+:
        l'.order.filter (· ∉ Call.stopped (front ++ back)) := by
      rw [both, both]
      exact first.kept.filter _
    have later : l'.order.filter (· ∉ Call.stopped (front ++ back)) <+:
        l''.order.filter (· ∉ Call.stopped (front ++ back)) := by
      rw [swapped, swapped]
      exact later.kept.filter _
    exact first.trans later
  · rw [Call.started_append, List.mem_append]
    rcases later.joined name member with before | started
    · exact (first.joined name before).imp_right .inl
    · exact .inr (.inr started)

end Ledger.Rearranged

open Ledger (Rearranged SameOn)

theorem Move.rearranged {l l' : Ledger ι} (move : Move l l') : ∃ new, l.Rearranged l' new := by
  cases move with
  | asked c quiet => exact ⟨[c], .of_same rfl rfl⟩
  | kept runs cause => exact ⟨_, .of_same rfl rfl⟩
  | left runs cause => exact ⟨_, .of_left rfl rfl (by simp [Call.stopped])⟩
  | @lost name i runs kind config cause =>
    have calls : (l.calls ++ [.stop i name (.ok ())]) ++ [.create kind name config (.error cause)] =
        l.calls ++ [.stop i name (.ok ()), .create kind name config (.error cause)] := by simp
    exact ⟨_, .of_left calls rfl (by simp [Call.stopped])⟩
  | @renewed m l₁ sound idle stop made own =>
    generalize l.active? m.name = active at stop
    cases stop with
    | idle => exact ⟨made, .of_same rfl rfl⟩
    | stopped i =>
      have calls : (l.calls ++ [.stop i m.name (.ok ())]) ++ made =
          l.calls ++ .stop i m.name (.ok ()) :: made := by simp
      exact ⟨_, .of_left calls rfl (by simp [Call.stopped])⟩
  | reconfigured name config => exact ⟨[], .of_same (by simp) rfl⟩
  | @removed name r _ stop =>
    generalize l.active? name = active at stop
    cases stop with
    | idle => exact ⟨[], .of_same (by simp) rfl⟩
    | stopped i => exact ⟨_, .of_left rfl rfl (by simp [Call.stopped])⟩
    | failed i cause => exact ⟨_, .of_left rfl rfl (by simp [Call.stopped])⟩
  | @started name m i member live idle =>
    refine ⟨[.finish i name (.ok ())], rfl, ?_, fun other ordered => ?_⟩
    · simp [Call.stopped]
    · simpa [Call.started] using ordered

theorem Moves.rearranged {l l' : Ledger ι} (moves : Moves l l') : ∃ new, l.Rearranged l' new := by
  induction moves with
  | refl => exact ⟨[], .of_same (by simp) rfl⟩
  | tail _ move ih =>
    obtain ⟨front, first⟩ := ih
    obtain ⟨back, later⟩ := move.rearranged
    exact ⟨front ++ back, first.trans later⟩

structure Content (p : Policy) (s : Surroundings) (spec : ComponentSpec)
    (old : Option (Member ι)) : Prop where
  on : spec.disabledOn p.hostname = false
  holds : ∃ m i, Held spec old m i ∧ m.config.differs spec.config s = false

instance (p : Policy) (s : Surroundings) (spec : ComponentSpec) (old : Option (Member ι)) :
    Decidable (Content p s spec old) :=
  decidable_of_iff (spec.disabledOn p.hostname = false ∧ ∃ m ∈ old, m.instance?.isSome = true ∧
      m.kind = spec.kind ∧ m.config.differs spec.config s = false) <| by
    constructor
    · rintro ⟨on, m, member, live, kind, same⟩
      obtain ⟨i, live⟩ := Option.isSome_iff_exists.mp live
      exact ⟨on, m, i, ⟨member, live, kind⟩, same⟩
    · rintro ⟨on, m, i, held, same⟩
      exact ⟨on, m, held.member, by simp [held.live], held.kind, same⟩

section Content

variable {p : Policy} {s : Surroundings} {spec : ComponentSpec} {l l' : Ledger ι}

theorem Settled.content {r : Except Fault Bool} (settled : Settled p s spec l r l')
    (content : Content p s spec (l.roster.get? spec.name)) : r = .ok false ∧ l' = l := by
  obtain ⟨on, m, i, held, same⟩ := content
  have unfresh (fresh : Fresh spec (l.roster.get? spec.name)) : False := by
    rcases fresh m held.member with none | other
    · cases none.symm.trans held.live
    · exact other held.kind
  have unchanged {m' : Member ι} {i' : ι} (held' : Held spec (l.roster.get? spec.name) m' i')
      (changed : m'.config.differs spec.config s = true) : False := by
    cases Option.some.inj (held.member.symm.trans held'.member)
    cases changed.symm.trans same
  cases settled with
  | disableFailed off stop => cases off.symm.trans on
  | disabled off stop => cases off.symm.trans on
  | createStopFailed _ fresh stop => exact (unfresh fresh).elim
  | createFailed _ fresh stop cause => exact (unfresh fresh).elim
  | created _ fresh stop i => exact (unfresh fresh).elim
  | unchanged _ held same => exact ⟨rfl, rfl⟩
  | reloadFailed _ held changed cause => exact (unchanged held changed).elim
  | inPlace _ held changed => exact (unchanged held changed).elim
  | replaceFailed _ held changed instead runs cause => exact (unchanged held changed).elim
  | replaced _ held changed instead stop => exact (unchanged held changed).elim

theorem name_ne_of_mem {head : ComponentSpec × Surroundings}
    {rest : List (ComponentSpec × Surroundings)}
    (nodup : ((head :: rest).map (·.1.name)).Nodup) (turn : (spec, s) ∈ rest) :
    spec.name ≠ head.1.name := by
  intro same
  have again : head.1.name ∈ rest.map (·.1.name) := List.mem_map.mpr ⟨_, turn, same⟩
  exact (List.nodup_cons.mp nodup).1 again

theorem SettledAll.content {turns : List (ComponentSpec × Surroundings)}
    {r : Except Fault (List String)} (settled : SettledAll p turns l r l')
    (nodup : (turns.map (·.1.name)).Nodup) (turn : (spec, s) ∈ turns)
    (content : Content p s spec (l.roster.get? spec.name)) :
    l.SameOn spec.name l' ∧ ∀ queue, r = .ok queue → spec.name ∉ queue := by
  induction settled with
  | nil => cases turn
  | @failed head s' rest l l' fault first =>
    refine ⟨?_, nofun⟩
    rcases List.mem_cons.mp turn with same | turn
    · cases same
      cases (first.content content).1
    · exact first.sameOn (name_ne_of_mem nodup turn)
  | @failedLater head s' rest l l₁ l₂ starts fault first later ih =>
    obtain ⟨new, others⟩ := List.nodup_cons.mp nodup
    refine ⟨?_, nofun⟩
    rcases List.mem_cons.mp turn with same | turn
    · cases same
      obtain ⟨-, rfl⟩ := first.content content
      exact later.sameOn new
    · have before := first.sameOn (name_ne_of_mem nodup turn)
      rw [← before.member] at content
      exact before.trans (ih others turn content).1
  | @cons head s' rest l l₁ l₂ starts names first later ih =>
    obtain ⟨new, others⟩ := List.nodup_cons.mp nodup
    rcases List.mem_cons.mp turn with same | turn
    · cases same
      obtain ⟨result, rfl⟩ := first.content content
      cases result
      refine ⟨later.sameOn new, ?_⟩
      rintro _ ⟨⟩ member
      exact new ((later.queue others).1.subset member)
    · have apart := name_ne_of_mem nodup turn
      have before := first.sameOn apart
      rw [← before.member] at content
      obtain ⟨after, unqueued⟩ := ih others turn content
      refine ⟨before.trans after, ?_⟩
      rintro _ ⟨⟩
      cases starts with
      | false => exact unqueued names rfl
      | true => exact List.not_mem_cons_of_ne_of_not_mem apart (unqueued names rfl)

theorem Reconciled.content {crew : Crew ι ω} {turns : List (ComponentSpec × Surroundings)}
    {r : Except Fault Unit} (reconciled : Reconciled crew p turns l r l')
    (nodup : (turns.map (·.1.name)).Nodup) (turn : (spec, s) ∈ turns)
    (content : Content p s spec (l.roster.get? spec.name)) : l.SameOn spec.name l' := by
  have present (l₁ : Ledger ι) : spec.name ∉ l₁.absent (turns.map (·.1.name)) := fun absent =>
    ((l₁.mem_absent_iff _ _).mp absent).2 (List.mem_map.mpr ⟨_, turn, rfl⟩)
  cases reconciled with
  | unsettled settled => exact (settled.content nodup turn content).1
  | unremoved settled removed failed =>
    exact (settled.content nodup turn content).1.trans (removed.sameOn (present _))
  | tried settled removed gone tried =>
    obtain ⟨before, unqueued⟩ := settled.content nodup turn content
    exact (before.trans (removed.sameOn (present _))).trans (tried.sameOn (unqueued _ rfl))

end Content

/-- While the calls in `new` were made, the component got none, its record stayed as it was, and in
the order it kept its place among the names that were not stopped. -/
structure Ledger.Untouched (name : String) (l l' : Ledger ι) (new : List (Call ι)) : Prop where
  calls : l'.calls = l.calls ++ new
  quiet : Call.on name new = []
  member : l'.roster.get? name = l.roster.get? name
  ordered : name ∈ l'.order ↔ name ∈ l.order
  place : l.order.filter (· ∉ Call.stopped new) <+: l'.order.filter (· ∉ Call.stopped new)

namespace Call

variable {name : String} {calls : List (Call ι)}

theorem on_of_mem_stopped (stopped : name ∈ stopped calls) : on name calls ≠ [] := by
  obtain ⟨c, member, stops⟩ := List.mem_filterMap.mp stopped
  cases c with
  | stop i other answer =>
    cases stops
    exact List.ne_nil_of_mem (List.mem_filter.mpr ⟨member, by simp [Call.name]⟩)
  | _ => cases stops

theorem on_of_mem_started (started : name ∈ started calls) : on name calls ≠ [] := by
  obtain ⟨c, member, starts⟩ := List.mem_filterMap.mp started
  cases c with
  | finish i other answer =>
    cases answer with
    | error cause => cases starts
    | ok =>
      cases starts
      exact List.ne_nil_of_mem (List.mem_filter.mpr ⟨member, by simp [Call.name]⟩)
  | _ => cases starts

end Call

theorem Ledger.Rearranged.untouched {l l' : Ledger ι} {new : List (Call ι)} {name : String}
    (rearranged : l.Rearranged l' new) (same : l.SameOn name l') : l.Untouched name l' new := by
  have quiet : Call.on name new = [] := by
    have calls := same.calls
    rw [rearranged.calls, Call.on_append] at calls
    exact List.append_right_eq_self.mp calls
  refine ⟨rearranged.calls, quiet, same.member, ⟨fun after => ?_, fun before => ?_⟩,
    rearranged.kept⟩
  · rcases rearranged.joined name after with before | started
    · exact before
    · exact absurd quiet (Call.on_of_mem_started started)
  · have running : name ∉ Call.stopped new := fun stopped => Call.on_of_mem_stopped stopped quiet
    have front : name ∈ l.order.filter (· ∉ Call.stopped new) :=
      List.mem_filter.mpr ⟨before, decide_eq_true running⟩
    exact (List.mem_filter.mp (rearranged.kept.subset front)).1

theorem House.recorded_isolated (crew : Crew ι ω) (p : Policy) (stage : Stage ω)
    (events : List (Event ω)) (list : Listing) (initial : Bool) :
    let h := House.recorded crew p stage events
    let opened := (Supervisor.openPass crew.chronicled list initial).run h
    let h' := ((Supervisor.reconcile crew.chronicled p list initial).run h).2
    (∀ fault, opened.1 = .error fault → h'.ledger = h.ledger) ∧
    ∀ specs, opened.1 = .ok specs →
      let turns := Supervisor.turns crew.chronicled p specs opened.2
      turns.map (·.1) = specs ∧
      ∃ new, ∀ turn ∈ turns, Content p turn.2 turn.1 (h.roster.get? turn.1.name) →
        h.ledger.Untouched turn.1.name h'.ledger new := by
  intro h opened h'
  have sound := House.recorded_sound crew p stage events
  rcases reconcile_ends crew p list initial h sound.named with
    ⟨fault, -, ledger⟩ | ⟨specs, begun, ran, orderly, reconciled⟩
  · refine ⟨fun _ _ => ledger, fun specs _ => ⟨Supervisor.turns_specs .., [], fun turn _ _ => ?_⟩⟩
    have still : h.ledger.Rearranged h'.ledger [] :=
      .of_same (by rw [ledger, List.append_nil]) (by rw [ledger])
    exact still.untouched (ledger ▸ .refl _ _)
  · have opening : opened = (.ok specs, begun) := ran
    rw [opening]
    refine ⟨nofun, ?_⟩
    rintro _ ⟨⟩
    have nodup := orderly.nodup
    rw [← Supervisor.turns_names crew.chronicled p specs begun] at nodup
    obtain ⟨new, rearranged⟩ := (reconciled.moves nodup).rearranged
    exact ⟨Supervisor.turns_specs .., new, fun turn member content =>
      rearranged.untouched (reconciled.content nodup member content)⟩

theorem House.rehearsed_isolated :
    let h := Theatre.rehearsal [.asked (.reconcile { items := [Theatre.entry "a" "rec" [],
      Theatre.entry "b" "rec" [], Theatre.entry "c" "rec" []] } true)]
    let list : Listing := { items := [Theatre.entry "b" "rec" [(.string "disabled", .bool true)],
      Theatre.entry "a" "rec" [], Theatre.entry "d" "rec" [Theatre.switches ["fail_create"]]] }
    let passed := (Supervisor.reconcile Theatre.crew.chronicled {} list false).run h
    h.order = ["a", "b", "c"] ∧ passed.2.order = ["a", "c"] ∧
      passed.1 = .error (lifecycleFault "d" "create" "create of d: boom") ∧
      ∃ new, h.ledger.Untouched "a" passed.2.ledger new := by
  intro h list passed
  let opened := (Supervisor.openPass Theatre.crew.chronicled list false).run h
  have read : opened.1 = .ok (opened.1.toOption.getD []) := by
    have fine : opened.1.isOk = true := by decide +kernel
    generalize opened.1 = r at fine ⊢
    cases r with
    | ok specs => rfl
    | error fault => cases fine
  have wanted : ∃ turn ∈ Supervisor.turns Theatre.crew.chronicled {}
      (opened.1.toOption.getD []) opened.2, turn.1.name = "a" ∧
        Content {} turn.2 turn.1 (h.roster.get? turn.1.name) := by
    decide +kernel
  obtain ⟨turn, member, name, content⟩ := wanted
  obtain ⟨-, new, untouched⟩ :=
    (House.recorded_isolated Theatre.crew {} { world := {} } _ list false).2 _ read
  exact ⟨by decide +kernel, by decide +kernel, by decide +kernel, new,
    name ▸ untouched turn member content⟩

end Steward
