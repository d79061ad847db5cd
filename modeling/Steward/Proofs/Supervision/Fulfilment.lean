import Steward.Proofs.Supervision.Soundness

set_option autoImplicit false

namespace Steward

open Run

variable {ι ω : Type}

inductive Rested (name : String) : Option (Member ι) → List (Call ι) → Prop
  | running {m : Member ι} {i : ι} (runs : m.state = .running) (live : m.instance? = some i) :
      Rested name (some m) [.stop i name (.ok ())]
  | idle {old : Option (Member ι)} (idle : ∀ m, old = some m → m.state ≠ .running) :
      Rested name old []

/-- What an entry asks for: from the record of its name, the calls on the name and the record that
it then has. -/
inductive Served (crew : Crew ι ω) (p : Policy) (s : Surroundings) (spec : ComponentSpec)
    (old : Option (Member ι)) : List (Call ι) → Member ι → Prop
  | disabled {rest : List (Call ι)} (off : spec.disabledOn p.hostname = true)
      (rested : Rested spec.name old rest) :
      Served crew p s spec old rest (.placeholder spec)
  | created {rest : List (Call ι)} {i : ι} (on : spec.disabledOn p.hostname = false)
      (fresh : Fresh spec old) (rested : Rested spec.name old rest) :
      Served crew p s spec old
        (rest ++ [.create spec.kind spec.name spec.config (.ok i)] ++
          crew.startCalls spec.name spec.config i)
        { Member.created spec i with state := .running }
  | unchanged {m : Member ι} {i : ι} (on : spec.disabledOn p.hostname = false)
      (held : Held spec old m i) (same : m.config.differs spec.config s = false) :
      Served crew p s spec old [] m
  | reconfigured {m : Member ι} {i : ι} (on : spec.disabledOn p.hostname = false)
      (held : Held spec old m i) (changed : m.config.differs spec.config s = true) :
      Served crew p s spec old
        ([.reload i spec.name spec.config (.ok .inPlace)] ++
          if m.state = .running then [] else crew.startCalls spec.name spec.config i)
        { m with config := spec.config, state := .running }
  | replaced {m : Member ι} {i instead : ι} {rest : List (Call ι)}
      (on : spec.disabledOn p.hostname = false) (held : Held spec old m i)
      (changed : m.config.differs spec.config s = true) (rested : Rested spec.name old rest) :
      Served crew p s spec old
        ([.reload i spec.name spec.config (.ok (.replace instead))] ++ rest ++
          crew.startCalls spec.name spec.config instead)
        { Member.created spec instead with state := .running }

structure Ledger.Stops (l l' : Ledger ι) (new : List (Call ι)) : Prop where
  calls : l'.calls = l.calls ++ new
  order : l'.order = l.order.filter (· ∉ Call.stopped new)
  quiet : Call.started new = []

structure Ledger.Starts (l l' : Ledger ι) (new : List (Call ι)) : Prop where
  calls : l'.calls = l.calls ++ new
  order : l'.order = l.order ++ Call.started new
  quiet : Call.stopped new = []

namespace Ledger

variable {l l₁ l₂ : Ledger ι} {front back : List (Call ι)}

theorem Stops.refl (l : Ledger ι) : l.Stops l [] :=
  ⟨by simp, by simp [Call.stopped], rfl⟩

theorem Stops.call {c : Call ι} (still : Call.stopped [c] = []) (quiet : Call.started [c] = []) :
    l.Stops (l.call c) [c] :=
  ⟨rfl, by simp [still], quiet⟩

theorem Stops.of_same (stops : l.Stops l₁ front) (calls : l₂.calls = l₁.calls)
    (order : l₂.order = l₁.order) : l.Stops l₂ front :=
  ⟨calls.trans stops.calls, order.trans stops.order, stops.quiet⟩

theorem Stops.trans (first : l.Stops l₁ front) (later : l₁.Stops l₂ back) :
    l.Stops l₂ (front ++ back) := by
  refine ⟨?_, ?_, ?_⟩
  · rw [later.calls, first.calls, List.append_assoc]
  · rw [later.order, first.order, List.filter_filter, Call.stopped_append]
    refine List.filter_congr fun name _ => ?_
    simp [Bool.and_comm]
  · rw [Call.started_append, first.quiet, later.quiet]
    rfl

theorem Starts.refl (l : Ledger ι) : l.Starts l [] :=
  ⟨by simp, by simp [Call.started], rfl⟩

theorem Starts.trans (first : l.Starts l₁ front) (later : l₁.Starts l₂ back) :
    l.Starts l₂ (front ++ back) := by
  refine ⟨?_, ?_, ?_⟩
  · rw [later.calls, first.calls, List.append_assoc]
  · rw [later.order, first.order, Call.started_append, List.append_assoc]
  · rw [Call.stopped_append, first.quiet, later.quiet]
    rfl

end Ledger

open Ledger (Stops Starts)

def stopCalls (name : String) (active : Option ι) : List (Call ι) :=
  active.toList.map fun i => .stop i name (.ok ())

theorem Stopped.stops {name : String} {l l' : Ledger ι} {active : Option ι}
    (stop : Stopped name l active (.ok ()) l') : l.Stops l' (stopCalls name active) := by
  cases stop with
  | idle => exact .refl l
  | stopped i => exact ⟨rfl, by simp [stopCalls, Call.stopped], rfl⟩

theorem rested_stopCalls (name : String) {old : Option (Member ι)}
    (sound : ∀ m, old = some m → m.Sound) :
    Rested name old (stopCalls name (old.bind Member.active?)) := by
  cases old with
  | none => exact .idle nofun
  | some m =>
    by_cases runs : m.state = .running
    · have live : m.instance? ≠ none := fun none => by
        simp [(sound m rfl).instance_.mpr none] at runs
      obtain ⟨i, live⟩ := Option.ne_none_iff_exists'.mp live
      have rested : Rested name (some m) [.stop i name (.ok ())] := .running runs live
      simpa [stopCalls, Member.active?, Member.isRunning, runs, live] using rested
    · have idle : Rested name (some m) [] := .idle fun _ same => by
        cases same
        exact runs
      simpa [stopCalls, Member.active?, Member.isRunning, runs] using idle

theorem name_of_mem_stopCalls {name : String} {active : Option ι} {c : Call ι}
    (member : c ∈ stopCalls name active) : c.name = name := by
  obtain ⟨i, -, rfl⟩ := List.mem_map.mp member
  rfl

def Readied (crew : Crew ι ω) (p : Policy) (s : Surroundings) (spec : ComponentSpec)
    (old : Option (Member ι)) (starts : Prop) (calls : List (Call ι)) (m : Member ι) : Prop :=
  (¬starts → Served crew p s spec old calls m) ∧
    (starts → ∃ i, m.instance? = some i ∧
      Served crew p s spec old (calls ++ crew.startCalls spec.name m.config i)
        { m with state := .running })

section Readied

variable {crew : Crew ι ω} {p : Policy} {s : Surroundings} {spec : ComponentSpec}
  {old : Option (Member ι)} {calls : List (Call ι)} {m : Member ι} {i : ι}

theorem Readied.served (served : Served crew p s spec old calls m) :
    Readied crew p s spec old (false = true) calls m :=
  ⟨fun _ => served, fun starts => absurd starts Bool.false_ne_true⟩

theorem Readied.starting (live : m.instance? = some i)
    (served : Served crew p s spec old (calls ++ crew.startCalls spec.name m.config i)
      { m with state := .running }) : Readied crew p s spec old (true = true) calls m :=
  ⟨fun rests => absurd rfl rests, fun _ => ⟨i, live, served⟩⟩

theorem Readied.reconfigured (on : spec.disabledOn p.hostname = false) (held : Held spec old m i)
    (changed : m.config.differs spec.config s = true) :
    Readied crew p s spec old ((!m.isRunning) = true)
      [.reload i spec.name spec.config (.ok .inPlace)] { m with config := spec.config } := by
  have served : Served crew p s spec old _ _ := .reconfigured on held changed
  by_cases runs : m.state = .running
  · have starts : (!m.isRunning) = false := by simp [Member.isRunning, runs]
    rw [if_pos runs, List.append_nil] at served
    rw [starts]
    obtain ⟨own, kind, disabled, config, live, state⟩ := m
    cases runs
    exact .served served
  · have starts : (!m.isRunning) = true := by simp [Member.isRunning, runs]
    rw [if_neg runs] at served
    rw [starts]
    exact .starting held.live served

end Readied

theorem Settled.readied (crew : Crew ι ω) {p : Policy} {s : Surroundings} {spec : ComponentSpec}
    {l l' : Ledger ι} {starts : Bool} (settled : Settled p s spec l (.ok starts) l')
    (sound : l.Sound) :
    ∃ new m, l.Stops l' new ∧ (∀ c ∈ new, c.name = spec.name) ∧
      l'.roster.get? spec.name = some m ∧
      Readied crew p s spec (l.roster.get? spec.name) (starts = true) new m := by
  have rested := rested_stopCalls spec.name (sound.members spec.name)
  have reloaded (i : ι) (answer : Except String (Reload ι)) :
      l.Stops (l.call (.reload i spec.name spec.config answer))
        [.reload i spec.name spec.config answer] := .call rfl rfl
  generalize result : Except.ok starts = r at settled
  cases settled with
  | @disabled l₁ off stop =>
    cases result
    have stops : l.Stops (l₁.enroll (.placeholder spec)) _ := stop.stops.of_same rfl rfl
    exact ⟨_, .placeholder spec, stops, fun _ => name_of_mem_stopCalls,
      Table.get?_insert_self .., .served (.disabled off rested)⟩
  | @created l₁ on fresh stop i =>
    cases result
    have made : l₁.Stops (l₁.call (.create spec.kind spec.name spec.config (.ok i))) _ :=
      .call rfl rfl
    have own : ∀ c ∈ stopCalls spec.name (l.active? spec.name) ++
        [.create spec.kind spec.name spec.config (.ok i)], c.name = spec.name :=
      List.forall_mem_append.mpr ⟨fun _ => name_of_mem_stopCalls, by simp [Call.name]⟩
    exact ⟨_, .created spec i, (stop.stops.trans made).of_same rfl rfl, own,
      Table.get?_insert_self .., .starting rfl (.created on fresh rested)⟩
  | unchanged on held same =>
    cases result
    exact ⟨[], _, .refl l, by simp, held.member, .served (.unchanged on held same)⟩
  | @inPlace m i on held changed =>
    cases result
    have member : (l.roster.update spec.name fun m => { m with config := spec.config }).get?
        spec.name = some { m with config := spec.config } := by
      rw [Table.get?_update, if_pos rfl, held.member]
      rfl
    exact ⟨_, _, (reloaded i _).of_same rfl rfl, by simp [Call.name], member,
      .reconfigured on held changed⟩
  | @replaced m i l₁ on held changed instead stop =>
    cases result
    rw [← Ledger.active?_of_get? held.member] at stop
    have own : ∀ c ∈ [.reload i spec.name spec.config (.ok (.replace instead))] ++
        stopCalls spec.name (l.active? spec.name), c.name = spec.name :=
      List.forall_mem_append.mpr ⟨by simp [Call.name], fun _ => name_of_mem_stopCalls⟩
    exact ⟨_, .created spec instead, ((reloaded i _).trans stop.stops).of_same rfl rfl, own,
      Table.get?_insert_self .., .starting rfl (.replaced on held changed rested)⟩
  | _ => cases result

theorem SettledAll.stops {p : Policy} {turns : List (ComponentSpec × Surroundings)}
    {l l' : Ledger ι} {queue : List String} (crew : Crew ι ω)
    (settled : SettledAll p turns l (.ok queue) l') (sound : l.Sound) :
    ∃ new, l.Stops l' new := by
  generalize result : Except.ok queue = r at settled
  induction settled generalizing queue with
  | nil => exact ⟨[], .refl _⟩
  | failed first => cases result
  | failedLater first later ih => cases result
  | cons first later ih =>
    obtain ⟨front, m, stops, -⟩ := first.readied crew sound
    obtain ⟨back, rest⟩ := ih (Moves.sound first.moves sound) rfl
    exact ⟨front ++ back, stops.trans rest⟩

theorem SettledAll.readied (crew : Crew ι ω) {p : Policy}
    {turns : List (ComponentSpec × Surroundings)} {l l' : Ledger ι} {queue : List String}
    (settled : SettledAll p turns l (.ok queue) l') (sound : l.Sound)
    (nodup : (turns.map (·.1.name)).Nodup) :
    ∀ turn ∈ turns, ∃ calls m,
      Call.on turn.1.name l'.calls = Call.on turn.1.name l.calls ++ calls ∧
      l'.roster.get? turn.1.name = some m ∧
      Readied crew p turn.2 turn.1 (l.roster.get? turn.1.name) (turn.1.name ∈ queue) calls m := by
  generalize result : Except.ok queue = r at settled
  induction settled generalizing queue with
  | nil => exact nofun
  | failed first => cases result
  | failedLater first later ih => cases result
  | @cons spec s rest l l₁ l₂ starts names first later ih =>
    cases result
    obtain ⟨new, nodup⟩ := List.nodup_cons.mp nodup
    have unqueued : spec.name ∉ names := fun member => new ((later.queue nodup).1.subset member)
    intro turn member
    -- Later turns do not touch the name of this one, nor this one theirs.
    rcases List.mem_cons.mp member with rfl | member
    · obtain ⟨calls, m, stops, own, found, readied⟩ := first.readied crew sound
      obtain ⟨kept, rest⟩ := later.sameOn new
      refine ⟨calls, m, ?_, kept.trans found, ?_⟩
      · rw [rest, stops.calls, Call.on_append, Call.on_own own]
      · cases starts with
        | false => simpa [Readied, unqueued] using readied
        | true => simpa [Readied] using readied
    · obtain ⟨calls, m, called, found, readied⟩ :=
        ih (Moves.sound first.moves sound) nodup rfl turn member
      have apart : turn.1.name ≠ spec.name :=
        fun same => new (List.mem_map.mpr ⟨turn, member, same⟩)
      obtain ⟨before, none⟩ := first.sameOn apart
      rw [before] at readied
      refine ⟨calls, m, called.trans (by rw [none]), found, ?_⟩
      cases starts with
      | false => exact readied
      | true => simpa [Readied, apart] using readied

theorem firstFault_cons {fault : Option Fault} {faults : List (Option Fault)}
    (fine : firstFault (fault :: faults) = .ok ()) :
    fault = none ∧ firstFault faults = .ok () := by
  cases fault with
  | none => exact ⟨rfl, fine⟩
  | some fault => cases fine

theorem RemovedAll.rested {names : List String} {l l' : Ledger ι} {faults : List (Option Fault)}
    (removed : RemovedAll names l faults l') (sound : l.Sound) (nodup : names.Nodup)
    (fine : firstFault faults = .ok ()) :
    (∃ new, l.Stops l' new) ∧ ∀ name ∈ names, l'.roster.get? name = none ∧
      ∃ calls, Call.on name l'.calls = Call.on name l.calls ++ calls ∧
        Rested name (l.roster.get? name) calls := by
  induction removed with
  | nil => exact ⟨⟨[], .refl _⟩, nofun⟩
  | @cons name names l l₁ l₂ r faults stop rest ih =>
    obtain ⟨new, nodup⟩ := List.nodup_cons.mp nodup
    obtain ⟨gone, fine⟩ := firstFault_cons fine
    cases r with
    | error fault => cases gone
    | ok =>
      obtain ⟨⟨back, later⟩, others⟩ := ih (stop.sound_removed sound) nodup fine
      have first : l.Stops l₁ (stopCalls name (l.active? name)) :=
        ⟨stop.stops.calls, stop.stops.order, stop.stops.quiet⟩
      refine ⟨⟨_, first.trans later⟩, fun other member => ?_⟩
      rcases List.mem_cons.mp member with rfl | member
      · obtain ⟨kept, none⟩ := rest.sameOn new
        refine ⟨?_, _, ?_, rested_stopCalls other (sound.members other)⟩
        · rw [kept, stop.roster, Ledger.roster_strike, Table.get?_erase, if_pos rfl]
        · rw [none, first.calls, Call.on_append, Call.on_own fun _ => name_of_mem_stopCalls]
          rfl
      · obtain ⟨gone, calls, called, rested⟩ := others other member
        have apart : other ≠ name := fun same => new (same ▸ member)
        obtain ⟨before, none⟩ := (Ledger.SameOn.strike apart).trans (stop.sameOn apart)
        rw [before] at rested
        exact ⟨gone, calls, called.trans (by rw [none]), rested⟩

theorem RemovedAll.outside {present : List String} {l l' : Ledger ι}
    {faults : List (Option Fault)} (removed : RemovedAll (l.absent present) l faults l')
    (sound : l.Sound) (fine : firstFault faults = .ok ()) {name : String}
    (outside : name ∉ present) :
    l'.roster.get? name = none ∧ ∃ calls,
      Call.on name l'.calls = Call.on name l.calls ++ calls ∧
        Rested name (l.roster.get? name) calls := by
  have names : (l.absent present).Nodup := l.roster.nodup_names.filter _
  by_cases registered : ∃ m, l.roster.get? name = some m
  · have absent := (l.mem_absent_iff present name).mpr ⟨registered, outside⟩
    exact (removed.rested sound names fine).2 name absent
  · have missing : l.roster.get? name = none :=
      Option.eq_none_iff_forall_not_mem.mpr fun m found => registered ⟨m, found⟩
    have absent : name ∉ l.absent present :=
      fun member => registered ((l.mem_absent_iff present name).mp member).1
    obtain ⟨kept, none⟩ := removed.sameOn absent
    refine ⟨kept.trans missing, [], by rw [none, List.append_nil], .idle fun m found => ?_⟩
    rw [missing] at found
    cases found

theorem started_startCalls (crew : Crew ι ω) (name : String) (config : Section) (i : ι) :
    Call.started (crew.startCalls name config i) = [name] := by
  cases crew.hook <;> simp [Crew.startCalls, Crew.hookCalls, Call.started, *]

theorem stopped_startCalls (crew : Crew ι ω) (name : String) (config : Section) (i : ι) :
    Call.stopped (crew.startCalls name config i) = [] := by
  cases crew.hook <;> simp [Crew.startCalls, Crew.hookCalls, Call.stopped, *]

section Tried

variable {crew : Crew ι ω} {name : String} {l l' : Ledger ι} {left : Nat} {m : Member ι} {i : ι}

theorem Tried.eq_started (tried : Tried crew name l (.ok left) l')
    (member : l.roster.get? name = some m) (live : m.instance? = some i) :
    l' = ((l.callAll (crew.startCalls name m.config i)).alter name
      fun m => { m with state := .running }).join name := by
  generalize result : Except.ok left = r at tried
  cases tried with
  | absent left none =>
    rw [none m member] at live
    cases live
  | started member' live' left =>
    cases member.symm.trans member'
    cases live.symm.trans live'
    rfl
  | _ => cases result

theorem Tried.started_ok (tried : Tried crew name l (.ok left) l')
    (member : l.roster.get? name = some m) (live : m.instance? = some i) :
    l.Starts l' (crew.startCalls name m.config i) ∧
      l'.roster.get? name = some { m with state := .running } := by
  obtain rfl := tried.eq_started member live
  refine ⟨⟨rfl, ?_, stopped_startCalls crew name m.config i⟩, ?_⟩
  · rw [started_startCalls]
    rfl
  · rw [Ledger.roster_join, Ledger.roster_alter, Table.get?_update, if_pos rfl,
      Ledger.roster_callAll, member]
    rfl

end Tried

theorem TriedAll.started {crew : Crew ι ω} {queue : List String} {l l' : Ledger ι} {left : Nat}
    (tried : TriedAll crew queue l (.ok left) l') (nodup : queue.Nodup)
    (live : ∀ name ∈ queue, ∃ m i, l.roster.get? name = some m ∧ m.instance? = some i) :
    (∃ new, l.Starts l' new ∧ Call.started new = queue) ∧
      ∀ name ∈ queue, ∀ m i, l.roster.get? name = some m → m.instance? = some i →
        Call.on name l'.calls = Call.on name l.calls ++ crew.startCalls name m.config i ∧
          l'.roster.get? name = some { m with state := .running } := by
  generalize result : Except.ok left = r at tried
  induction tried with
  | nil left => exact ⟨⟨[], .refl _, rfl⟩, nofun⟩
  | failed first => cases result
  | @cons name queue l l₁ l₂ left r first later ih =>
    subst result
    obtain ⟨new, nodup⟩ := List.nodup_cons.mp nodup
    have others (other : String) (member : other ∈ queue) : l.SameOn other l₁ :=
      first.sameOn fun same => new (same ▸ member)
    obtain ⟨m, i, found, here⟩ := live name (by simp)
    obtain ⟨starts, running⟩ := first.started_ok found here
    obtain ⟨⟨calls, later', names⟩, rest⟩ := ih nodup (fun other member => by
      rw [(others other member).member]
      exact live other (by simp [member])) rfl
    refine ⟨⟨_, starts.trans later', ?_⟩, fun other member m' i' found' here' => ?_⟩
    · rw [Call.started_append, started_startCalls, names]
      rfl
    · rcases List.mem_cons.mp member with rfl | member
      · cases found.symm.trans found'
        cases here.symm.trans here'
        obtain ⟨kept, none⟩ := later.sameOn new
        refine ⟨?_, kept.trans running⟩
        rw [none, starts.calls, Call.on_append, Call.on_own fun _ => crew.name_of_mem_startCalls]
      · obtain ⟨before, none⟩ := others other member
        rw [← before] at found'
        rw [← none]
        exact rest other member m' i' found' here'

structure Fulfilled (crew : Crew ι ω) (p : Policy) (turns : List (ComponentSpec × Surroundings))
    (l l' : Ledger ι) (new : List (Call ι)) : Prop where
  calls : l'.calls = l.calls ++ new
  names : ∀ name, (∃ m, l'.roster.get? name = some m) ↔ name ∈ turns.map (·.1.name)
  removed : ∀ name, name ∉ turns.map (·.1.name) →
    Rested name (l.roster.get? name) (Call.on name new)
  served : ∀ turn ∈ turns, ∃ m, l'.roster.get? turn.1.name = some m ∧
    Served crew p turn.2 turn.1 (l.roster.get? turn.1.name) (Call.on turn.1.name new) m
  order : l'.order = l.order.filter (· ∉ Call.stopped new) ++ Call.started new
  entries : (Call.started new).Sublist (turns.map (·.1.name))

theorem Call.on_new {name : String} {l l' : Ledger ι} {new calls : List (Call ι)}
    (total : l'.calls = l.calls ++ new)
    (here : Call.on name l'.calls = Call.on name l.calls ++ calls) : Call.on name new = calls := by
  rw [total, on_append] at here
  exact List.append_cancel_left here

structure Passed (crew : Crew ι ω) (p : Policy) (turns : List (ComponentSpec × Surroundings))
    (queue : List String) (l l₁ l₂ l' : Ledger ι) : Prop where
  nodup : (turns.map (·.1.name)).Nodup
  sound : l.Sound
  settled : SettledAll p turns l (.ok queue) l₁
  removed : ∃ faults, RemovedAll (l₁.absent (turns.map (·.1.name))) l₁ faults l₂ ∧
    firstFault faults = .ok ()
  tried : ∃ left, TriedAll crew queue l₂ (.ok left) l'

namespace Passed

variable {crew : Crew ι ω} {p : Policy} {turns : List (ComponentSpec × Surroundings)}
  {queue : List String} {l l₁ l₂ l' : Ledger ι} (passed : Passed crew p turns queue l l₁ l₂ l')

include passed

theorem sublist : queue.Sublist (turns.map (·.1.name)) :=
  (passed.settled.queue passed.nodup).1

theorem sound_settled : l₁.Sound :=
  Moves.sound passed.settled.moves passed.sound

theorem sameOn_removed {name : String} (entry : name ∈ turns.map (·.1.name)) :
    l₁.SameOn name l₂ := by
  obtain ⟨faults, removed, -⟩ := passed.removed
  exact removed.sameOn fun absent => ((l₁.mem_absent_iff _ name).mp absent).2 entry

theorem live : ∀ name ∈ queue, ∃ m i,
    l₂.roster.get? name = some m ∧ m.instance? = some i := by
  intro name member
  obtain ⟨turn, entry, rfl⟩ := List.mem_map.mp (passed.sublist.subset member)
  obtain ⟨calls, m, -, found, -, ready⟩ :=
    passed.settled.readied crew passed.sound passed.nodup turn entry
  obtain ⟨i, live, -⟩ := ready member
  exact ⟨m, i, (passed.sameOn_removed (List.mem_map_of_mem entry)).member.trans found, live⟩

theorem outside {name : String} (outside : name ∉ turns.map (·.1.name)) :
    l'.roster.get? name = none ∧ ∃ calls,
      Call.on name l'.calls = Call.on name l.calls ++ calls ∧
        Rested name (l.roster.get? name) calls := by
  obtain ⟨faults, removed, gone⟩ := passed.removed
  obtain ⟨left, tried⟩ := passed.tried
  obtain ⟨before, none⟩ := passed.settled.sameOn outside
  obtain ⟨kept, still⟩ := tried.sameOn fun member => outside (passed.sublist.subset member)
  obtain ⟨missing, calls, called, rests⟩ := removed.outside passed.sound_settled gone outside
  rw [before] at rests
  rw [none, ← still] at called
  exact ⟨kept.trans missing, calls, called, rests⟩

theorem served {turn : ComponentSpec × Surroundings} (entry : turn ∈ turns) :
    ∃ m calls, l'.roster.get? turn.1.name = some m ∧
      Call.on turn.1.name l'.calls = Call.on turn.1.name l.calls ++ calls ∧
        Served crew p turn.2 turn.1 (l.roster.get? turn.1.name) calls m := by
  obtain ⟨left, tried⟩ := passed.tried
  obtain ⟨calls, m, called, found, unstarted, ready⟩ :=
    passed.settled.readied crew passed.sound passed.nodup turn entry
  obtain ⟨kept, none⟩ := passed.sameOn_removed (List.mem_map_of_mem entry)
  rw [← none] at called
  by_cases queued : turn.1.name ∈ queue
  · obtain ⟨i, live, served⟩ := ready queued
    have each := (tried.started (passed.sublist.nodup passed.nodup) passed.live).2
    obtain ⟨last, running⟩ := each _ queued m i (kept.trans found) live
    rw [called, List.append_assoc] at last
    exact ⟨_, _, running, last, served⟩
  · obtain ⟨same, still⟩ := tried.sameOn queued
    exact ⟨m, calls, (same.trans kept).trans found, still.trans called, unstarted queued⟩

theorem ordered : ∃ new, l'.calls = l.calls ++ new ∧
    l'.order = l.order.filter (· ∉ Call.stopped new) ++ Call.started new ∧
      Call.started new = queue := by
  obtain ⟨faults, removed, gone⟩ := passed.removed
  obtain ⟨left, tried⟩ := passed.tried
  have names : (l₁.absent (turns.map (·.1.name))).Nodup := l₁.roster.nodup_names.filter _
  obtain ⟨front, settles⟩ := passed.settled.stops crew passed.sound
  obtain ⟨⟨middle, removes⟩, -⟩ := removed.rested passed.sound_settled names gone
  obtain ⟨⟨back, starts, started⟩, -⟩ :=
    tried.started (passed.sublist.nodup passed.nodup) passed.live
  have stops := settles.trans removes
  refine ⟨front ++ middle ++ back, ?_, ?_, ?_⟩
  · rw [starts.calls, stops.calls, List.append_assoc]
  · rw [starts.order, stops.order, Call.stopped_append _ back, Call.started_append _ back,
      starts.quiet, stops.quiet, List.append_nil, List.nil_append]
  · rw [Call.started_append, stops.quiet, started]
    rfl

theorem fulfilled : ∃ new, Fulfilled crew p turns l l' new := by
  obtain ⟨new, total, order, started⟩ := passed.ordered
  refine ⟨new, total, fun name => ⟨fun registered => ?_, fun entry => ?_⟩, fun name absent => ?_,
    fun turn entry => ?_, order, ?_⟩
  · by_contra absent
    obtain ⟨m, found⟩ := registered
    rw [(passed.outside absent).1] at found
    cases found
  · obtain ⟨turn, listed, rfl⟩ := List.mem_map.mp entry
    obtain ⟨m, calls, found, -⟩ := passed.served listed
    exact ⟨m, found⟩
  · obtain ⟨-, calls, called, rested⟩ := passed.outside absent
    rw [Call.on_new total called]
    exact rested
  · obtain ⟨m, calls, found, called, served⟩ := passed.served entry
    rw [Call.on_new total called]
    exact ⟨m, found, served⟩
  · rw [started]
    exact passed.sublist

end Passed

theorem Reconciled.passed {crew : Crew ι ω} {p : Policy}
    {turns : List (ComponentSpec × Surroundings)} {l l' : Ledger ι}
    (reconciled : Reconciled crew p turns l (.ok ()) l') (sound : l.Sound)
    (nodup : (turns.map (·.1.name)).Nodup) :
    ∃ queue l₁ l₂, Passed crew p turns queue l l₁ l₂ l' := by
  generalize result : Except.ok () = r at reconciled
  cases reconciled with
  | unsettled settled => cases result
  | unremoved settled removed failed => cases result
  | @tried queue faults r l₁ l₂ l' settled removed gone tried =>
    cases r with
    | error fault => cases result
    | ok left => exact ⟨queue, l₁, l₂, nodup, sound, settled, ⟨faults, removed, gone⟩, left, tried⟩

end Steward
