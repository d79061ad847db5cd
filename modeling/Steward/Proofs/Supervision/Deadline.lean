import Steward.Proofs.Supervision.Fulfilment

set_option autoImplicit false

namespace Steward

open Run

variable {ι ω : Type}

/-- What comes of a start that nobody cuts off. -/
inductive Trial
  | refused (cause : String)
  | endless
  | ended (took : Nat) (answer : Except String Unit)

def Trial.lasts : Trial → Option Nat
  | .refused _ => some 0
  | .endless => none
  | .ended took _ => some took

def Trial.total : List Trial → Option Nat
  | [] => some 0
  | t :: rest => t.lasts.bind fun took => (total rest).map (took + ·)

structure Starter (ι : Type) where
  member : Member ι
  instance_ : ι
  live : member.instance? = some instance_

def Member.started (m : Member ι) : Member ι := { m with state := .running }

namespace Starter

def name (c : Starter ι) : String := c.member.name

-- The roster has the component, but for its state: a batch may have it twice.
def On (c : Starter ι) (roster : Table (Member ι)) : Prop :=
  (roster.get? c.name).map Member.started = some c.member.started

theorem On.get? {c : Starter ι} {roster : Table (Member ι)} (on : c.On roster) :
    ∃ m, roster.get? c.name = some m ∧ m.kind = c.member.kind ∧ m.config = c.member.config ∧
      m.instance? = some c.instance_ := by
  obtain ⟨m, member, same⟩ := Option.map_eq_some_iff.mp on
  have kind : m.started.kind = c.member.started.kind := by rw [same]
  have config : m.started.config = c.member.started.config := by rw [same]
  have live : m.started.instance? = c.member.started.instance? := by rw [same]
  exact ⟨m, member, kind, config, live.trans c.live⟩

theorem On.start {c : Starter ι} {roster : Table (Member ι)} (on : c.On roster) (name : String) :
    c.On (roster.update name Member.started) := by
  unfold On
  rw [Table.get?_update]
  split
  · next own =>
    rw [Option.map_map, ← own]
    exact on
  · exact on

variable (crew : Crew ι ω) (c : Starter ι)

def hooked (s : Stage ω) : Except String Unit × Stage ω :=
  match crew.hook with
  | some hook => (hook c.name c.member.config).run s
  | none => (.ok (), s)

def note : Record :=
  ⟨.info, .supervision, "启动组件",
    [("event", .text "starting"), ("component", .bare c.name), ("kind", .bare c.member.kind)]⟩

def launched (s : Stage ω) : Trial × Stage ω :=
  match crew.begin_ c.instance_ c.name s with
  | (none, s) => (.endless, s)
  | (some took, s) =>
    let behind := (crew.finish c.instance_ c.name).run (crew.wait took s).2
    (.ended took behind.1, behind.2)

def attempt (s : Stage ω) : Trial × Stage ω :=
  match c.hooked crew s with
  | (.error cause, s) => (.refused cause, s)
  | (.ok (), s) => c.launched crew (s.write [c.note])

variable {crew c} {s : Stage ω}

theorem attempt_of_refused {cause : String} (refused : (c.hooked crew s).1 = .error cause) :
    c.attempt crew s = (.refused cause, (c.hooked crew s).2) := by
  rw [attempt, show c.hooked crew s = (.error cause, (c.hooked crew s).2) from
    Prod.ext refused rfl]

theorem attempt_of_passed (passed : (c.hooked crew s).1 = .ok ()) :
    c.attempt crew s = c.launched crew ((c.hooked crew s).2.write [c.note]) := by
  rw [attempt, show c.hooked crew s = (.ok (), (c.hooked crew s).2) from Prod.ext passed rfl]

variable (crew)

def trials : List (Starter ι) → Stage ω → List Trial
  | [], _ => []
  | c :: batch, s =>
    (c.attempt crew s).1 :: trials batch (c.attempt crew s).2

theorem length_trials (batch : List (Starter ι)) (s : Stage ω) :
    (trials crew batch s).length = batch.length := by
  induction batch generalizing s with
  | nil => rfl
  | cons c batch ih => simp [trials, ih]

def course (p : Policy) (batch : List (Starter ι)) (s : Stage ω) : List Trial :=
  trials crew batch (s.write [.debug .supervision
    ("启动 " ++ toString batch.length ++ " 个组件，批次预算 " ++ (p.startBudget batch.length).text)])

def calls (crew : Crew ι ω) (c : Starter ι) : List (Call ι) :=
  crew.startCalls c.name c.member.config c.instance_

end Starter

def timeoutFault (name : String) (budget : Span) : Fault := .component (.timeout name budget)

def Trial.within (name : String) (budget : Span) (left : Nat) : Trial → Except Fault Nat
  | .refused cause => .error (lifecycleFault name "pre-start" cause)
  | .endless => .error (timeoutFault name budget)
  | .ended took answer =>
    if took < left then
      (answer.map fun _ => took).mapError (lifecycleFault name "start")
    else .error (timeoutFault name budget)

theorem Trial.of_within {name : String} {budget : Span} {left took : Nat} {t : Trial}
    (early : t.within name budget left = .ok took) : took < left ∧ t = .ended took (.ok ()) := by
  cases t with
  | refused => cases early
  | endless => cases early
  | ended took' answer =>
    by_cases soon : took' < left
    · cases answer with
      | ok =>
        simp only [Trial.within, soon, if_true] at early
        cases early
        exact ⟨soon, rfl⟩
      | error => simp [Trial.within, soon, Except.map, Except.mapError] at early
    · simp [Trial.within, soon] at early

namespace Start

variable (crew : Crew ι ω)

structure Tells (name : String) (budget : Span) (left : Nat) (trial : Trial × Stage ω)
    (h : House ι ω) (r : Except Fault Nat) (h' : House ι ω) : Prop where
  result : r = trial.1.within name budget left
  roster : h'.roster = h.roster
  order : h'.order = h.order
  stage : ∀ took, r = .ok took → h'.stage = trial.2

theorem giveUp_tells {name : String} {budget : Span} {left : Nat} {trial : Trial × Stage ω}
    {h h₁ : House ι ω} (roster : h₁.roster = h.roster) (order : h₁.order = h.order)
    (late : trial.1.within name budget left = .error (timeoutFault name budget)) :
    Ends (giveUp name budget) h₁ (Tells name budget left trial h) :=
  ⟨late.symm, roster, order, nofun⟩

theorem onStage_ends {α β : Type} {m : StateM (Stage ω) α} {f : α → Run ι ω β} {h : House ι ω}
    {Q : Except Fault β → House ι ω → Prop}
    (rest : Ends (f (m h.stage).1) { h with stage := (m h.stage).2 } Q) :
    Ends (Run.onStage m >>= f) h Q :=
  rest

theorem act_ends {α β : Type} {name action : String} {m : Act ω α} {f : α → Run ι ω β}
    {h : House ι ω} {Q : Except Fault β → House ι ω → Prop}
    (ok : ∀ a, (m.run h.stage).1 = .ok a → Ends (f a) { h with stage := (m.run h.stage).2 } Q)
    (error : ∀ cause, (m.run h.stage).1 = .error cause →
      Q (.error (lifecycleFault name action cause)) { h with stage := (m.run h.stage).2 }) :
    Ends (Run.act name action m >>= f) h Q := by
  have acted : (Run.act name action m).run h =
      ((m.run h.stage).1.mapError (lifecycleFault name action),
        { h with stage := (m.run h.stage).2 }) := rfl
  unfold Ends
  rw [run_bind, acted]
  cases answer : (m.run h.stage).1 with
  | ok a => exact ok a answer
  | error cause => exact error cause answer

theorem hook_ends {α : Type} (c : Starter ι) {f : Unit → Run ι ω α} {h : House ι ω}
    {Q : Except Fault α → House ι ω → Prop}
    (passed : (c.hooked crew h.stage).1 = .ok () →
      Ends (f ()) { h with stage := (c.hooked crew h.stage).2 } Q)
    (refused : ∀ cause, (c.hooked crew h.stage).1 = .error cause →
      Q (.error (lifecycleFault c.name "pre-start" cause))
        { h with stage := (c.hooked crew h.stage).2 }) :
    Ends (callHook crew c.name c.member.config >>= f) h Q := by
  revert passed refused
  unfold callHook Starter.hooked
  cases crew.hook with
  | none => exact fun passed _ => passed rfl
  | some hook => exact fun passed refused => act_ends (fun _ => passed) refused

theorem launch_tells (c : Starter ι) (budget : Span) (left : Nat) (h : House ι ω) :
    Ends (launch crew c.instance_ c.name budget left) h
      (Tells c.name budget left (c.launched crew h.stage) h) := by
  unfold launch Starter.launched
  split
  · next none =>
    refine giveUp_tells rfl rfl ?_
    rcases crew.begin_ c.instance_ c.name h.stage with ⟨_ | took, s⟩ <;> simp [Trial.within, none]
  · refine onStage_ends ?_
    rcases crew.begin_ c.instance_ c.name h.stage with ⟨_ | took, s⟩
    · exact onStage_ends (onStage_ends (giveUp_tells rfl rfl rfl))
    · by_cases early : took < left
      · simp only [Option.filter, early, decide_true, if_true]
        refine onStage_ends (act_ends (fun _ answer => .pure ⟨?_, rfl, rfl, fun _ _ => rfl⟩)
          fun cause answer => ⟨?_, rfl, rfl, nofun⟩)
        · simp [Trial.within, early, answer, Except.mapError, Except.map]
        · simp [Trial.within, early, answer, Except.mapError, Except.map]
      · simp only [Option.filter, early, decide_false, Bool.false_eq_true, if_false]
        exact onStage_ends (onStage_ends (giveUp_tells rfl rfl (by simp [Trial.within, early])))

inductive Comes (name : String) (budget : Span) (left : Nat) (trial : Trial × Stage ω)
    (h : House ι ω) : Except Fault Nat → House ι ω → Prop
  | started {took : Nat} (early : trial.1.within name budget left = .ok took) :
      Comes name budget left trial h (.ok (left - took))
        { stage := trial.2, roster := h.roster.update name Member.started,
          order := h.order ++ [name] }
  | given_up {fault : Fault} {h' : House ι ω}
      (failed : trial.1.within name budget left = .error fault) (roster : h'.roster = h.roster)
      (order : h'.order = h.order) : Comes name budget left trial h (.error fault) h'

theorem one_comes (c : Starter ι) (budget : Span) (left : Nat) (h : House ι ω)
    (on : c.On h.roster) :
    Ends (one crew budget left c.name) h
      (Comes c.name budget left (c.attempt crew h.stage) h) := by
  obtain ⟨⟨own, kind, disabled, config, live, state⟩, member, rfl, rfl, rfl⟩ := on.get?
  unfold one
  refine .member? ?_
  rw [member]
  refine hook_ends crew c (fun passed => ?_) fun cause refused => ?_
  · rw [Starter.attempt_of_passed passed]
    -- The trial has the same record in its log.
    unfold Run.event
    refine .log ((launch_tells crew c budget left _).bind ?_ ?_)
    · intro took h' tells
      refine .change (.change (.pure ?_))
      have roster : h'.roster = h.roster := tells.roster
      have order : h'.order = h.order := tells.order
      have started := Comes.started (h := h) tells.result.symm
      rw [← tells.stage took rfl, ← roster, ← order] at started
      exact started
    · intro fault h' tells
      exact .given_up tells.result.symm tells.roster tells.order
  · rw [Starter.attempt_of_refused refused]
    exact .given_up rfl rfl rfl

/-- Where a batch ends: behind the first `k` of its components. -/
inductive Verdict (late : Nat → Prop) (budget : Span) (queue : List String) (trials : List Trial) :
    Nat → Except Fault Unit → Prop
  | through : Verdict late budget queue trials queue.length (.ok ())
  | refused {k : Nat} {name cause : String} (here : queue[k]? = some name)
      (trial : trials[k]? = some (.refused cause)) :
      Verdict late budget queue trials k (.error (lifecycleFault name "pre-start" cause))
  | late {k : Nat} {name : String} (here : queue[k]? = some name)
      (allowed : ∀ cause, trials[k]? ≠ some (.refused cause)) (beyond : late k) :
      Verdict late budget queue trials k (.error (timeoutFault name budget))
  | failed {k took : Nat} {name cause : String} (here : queue[k]? = some name)
      (trial : trials[k]? = some (.ended took (.error cause))) (early : ¬ late k) :
      Verdict late budget queue trials k (.error (lifecycleFault name "start" cause))

structure Begun (late : Nat → Prop) (queue : List String) (trials : List Trial) (k : Nat)
    (h h' : House ι ω) : Prop where
  within : k ≤ queue.length
  passed : ∀ j < k, (∃ took, trials[j]? = some (.ended took (.ok ()))) ∧ ¬ late j
  order : h'.order = h.order ++ queue.take k
  roster : ∀ name, h'.roster.get? name =
    if name ∈ queue.take k then (h.roster.get? name).map Member.started else h.roster.get? name

def Late (left : Nat) (trials : List Trial) : Prop := ∀ n, Trial.total trials = some n → left ≤ n

section Steps

variable {late late' : Nat → Prop} {budget : Span} {name : String} {queue : List String}
  {t : Trial} {trials : List Trial} {left took k : Nat} {r : Except Fault Unit}
  {h h₁ h' : House ι ω}

theorem late_single {answer : Except String Unit} :
    Late left [.ended took answer] ↔ left ≤ took := by
  simp [Late, Trial.total, Trial.lasts]

theorem late_cons {answer : Except String Unit} (early : took < left) :
    Late (left - took) trials ↔ Late left (.ended took answer :: trials) := by
  simp only [Late, Trial.total, Trial.lasts, Option.bind_some, Option.map_eq_some_iff]
  constructor
  · rintro late _ ⟨n, total, rfl⟩
    have rest := late n total
    omega
  · intro late n total
    have whole := late (took + n) ⟨n, total, rfl⟩
    omega

theorem Verdict.cons (verdict : Verdict late' budget queue trials k r)
    (same : ∀ k, late' k ↔ late (k + 1)) :
    Verdict late budget (name :: queue) (t :: trials) (k + 1) r := by
  cases verdict with
  | through => exact .through
  | refused here trial => exact .refused here trial
  | late here allowed beyond => exact .late here allowed ((same k).mp beyond)
  | failed here trial early => exact .failed here trial (mt (same k).mpr early)

theorem Verdict.of_within {fault : Fault} (failed : t.within name budget left = .error fault) :
    Verdict (fun k => Late left ((t :: trials).take (k + 1))) budget (name :: queue) (t :: trials) 0
      (.error fault) := by
  cases t with
  | refused cause =>
    cases failed
    exact .refused rfl rfl
  | endless =>
    cases failed
    exact .late rfl nofun nofun
  | ended took answer =>
    by_cases early : took < left
    · cases answer with
      | ok => simp [Trial.within, early, Except.map, Except.mapError] at failed
      | error cause =>
        simp only [Trial.within, early, if_true] at failed
        cases failed
        exact .failed rfl rfl (mt late_single.mp (Nat.not_le.mpr early))
    · simp only [Trial.within, early, if_false] at failed
      cases failed
      exact .late rfl nofun (late_single.mpr (Nat.not_lt.mp early))

theorem Verdict.congr (verdict : Verdict late' budget queue trials k r)
    (same : ∀ k < queue.length, late' k ↔ late k) : Verdict late budget queue trials k r := by
  cases verdict with
  | through => exact .through
  | refused here trial => exact .refused here trial
  | late here allowed beyond =>
    obtain ⟨before, -⟩ := List.getElem?_eq_some_iff.mp here
    exact .late here allowed ((same k before).mp beyond)
  | failed here trial early =>
    obtain ⟨before, -⟩ := List.getElem?_eq_some_iff.mp here
    exact .failed here trial (mt (same k before).mpr early)

theorem Begun.congr (begun : Begun late' queue trials k h h')
    (same : ∀ k < queue.length, late' k ↔ late k) : Begun late queue trials k h h' := by
  refine ⟨begun.within, fun j before => ?_, begun.order, begun.roster⟩
  obtain ⟨passed, early⟩ := begun.passed j before
  exact ⟨passed, mt (same j (Nat.lt_of_lt_of_le before begun.within)).mpr early⟩

theorem Begun.zero (roster : h'.roster = h.roster) (order : h'.order = h.order) :
    Begun late queue trials 0 h h' :=
  ⟨Nat.zero_le _, nofun, by simp [order], by simp [roster]⟩

theorem Begun.cons (begun : Begun late' queue trials k h₁ h') (same : ∀ k, late' k ↔ late (k + 1))
    (here : ¬ late 0) (roster : h₁.roster = h.roster.update name Member.started)
    (order : h₁.order = h.order ++ [name]) :
    Begun late (name :: queue) (.ended took (.ok ()) :: trials) (k + 1) h h' := by
  refine ⟨Nat.succ_le_succ begun.within, fun j before => ?_, ?_, fun other => ?_⟩
  · cases j with
    | zero => exact ⟨⟨took, rfl⟩, here⟩
    | succ j =>
      obtain ⟨passed, early⟩ := begun.passed j (Nat.lt_of_succ_lt_succ before)
      exact ⟨passed, mt (same j).mpr early⟩
  · rw [begun.order, order, List.append_assoc]
    rfl
  · have again : (h.roster.get? name).map (Member.started ∘ Member.started) =
        (h.roster.get? name).map Member.started := rfl
    rw [begun.roster, roster, Table.get?_update, List.take_succ_cons]
    by_cases own : other = name
    · subst own
      simp [again]
    · simp [own]

end Steps

theorem foldlM_one (batch : List (Starter ι)) (budget : Span) (left : Nat) (h : House ι ω)
    (on : ∀ c ∈ batch, c.On h.roster) :
    Ends ((batch.map (·.name)).foldlM (one crew budget) left) h fun r h' =>
      let trials := Starter.trials crew batch h.stage
      let late := fun k => Late left (trials.take (k + 1))
      ∃ k, Begun late (batch.map (·.name)) trials k h h' ∧
        Verdict late budget (batch.map (·.name)) trials k (r.map fun _ => ()) := by
  induction batch generalizing left h with
  | nil => exact .pure ⟨0, .zero rfl rfl, .through⟩
  | cons c batch ih =>
    rw [List.forall_mem_cons] at on
    rw [List.map_cons, List.foldlM_cons]
    refine (one_comes crew c budget left h on.1).bind ?_ ?_
    · rintro rest h₁ comes
      generalize result : Except.ok rest = r at comes
      cases comes with
      | given_up => cases result
      | @started took early =>
        cases result
        obtain ⟨soon, trial⟩ := Trial.of_within early
        have trials : Starter.trials crew (c :: batch) h.stage =
            .ended took (.ok ()) :: Starter.trials crew batch (c.attempt crew h.stage).2 := by
          rw [← trial]
          rfl
        refine (ih (left - took) _ fun b member => (on.2 b member).start c.name).mono ?_
        rintro r h' ⟨k, begun, verdict⟩
        rw [trials]
        exact ⟨k + 1, begun.cons (fun _ => late_cons soon)
          (mt late_single.mp (Nat.not_le.mpr soon)) rfl rfl, verdict.cons fun _ => late_cons soon⟩
    · rintro fault h' comes
      generalize result : Except.error fault = r at comes
      cases comes with
      | started => cases result
      | given_up failed roster order =>
        cases result
        exact ⟨0, .zero roster order, .of_within failed⟩

theorem batch_tells (p : Policy) (batch : List (Starter ι)) (h : House ι ω)
    (on : ∀ c ∈ batch, c.On h.roster) :
    Ends (Start.batch crew p (batch.map (·.name))) h fun r h' =>
      let trials := Starter.course crew p batch h.stage
      let budget := p.startBudget batch.length
      let late := fun k => Late budget.millisUp (trials.take (k + 1))
      ∃ k, Begun late (batch.map (·.name)) trials k h h' ∧
        Verdict late budget (batch.map (·.name)) trials k r := by
  unfold Start.batch Starter.course
  cases batch with
  | nil => exact .pure ⟨0, .zero rfl rfl, .through⟩
  | cons c batch =>
    rw [List.length_map]
    refine .log (.bind (foldlM_one crew (c :: batch) _ _ _ ?_) ?_ ?_)
    · exact on
    · rintro left h' ⟨k, begun, verdict⟩
      exact .pure ⟨k, ⟨begun.within, begun.passed, begun.order, begun.roster⟩, verdict⟩
    · rintro fault h' ⟨k, begun, verdict⟩
      exact ⟨k, ⟨begun.within, begun.passed, begun.order, begun.roster⟩, verdict⟩

end Start

open Start (Begun Verdict Late)

theorem Span.millisUp_le_iff (s : Span) (n : Nat) : s.millisUp ≤ n ↔ s.nanos ≤ n * 1000000 := by
  unfold millisUp
  omega

def Trial.Exceed (budget : Span) (trials : List Trial) : Prop :=
  ∀ n, total trials = some n → budget.nanos < (Span.ofMillis n).nanos

theorem Start.late_iff_exceed {budget : Span} {trials : List Trial}
    (untied : (Trial.total trials).map .ofMillis ≠ some budget) :
    Late budget.millisUp trials ↔ Trial.Exceed budget trials := by
  refine forall₂_congr fun n total => ?_
  have apart : n * 1000000 ≠ budget.nanos := fun same =>
    untied (Option.map_eq_some_iff.mpr ⟨n, total, congrArg Span.mk same⟩)
  rw [Span.millisUp_le_iff]
  exact ⟨fun late => Nat.lt_of_le_of_ne late apart.symm, Nat.le_of_lt⟩

structure Cut (name : String) (calls : List (Call ι)) : Prop where
  own : ∀ c ∈ calls, c.name = name
  quiet : Call.started calls = []
  still : Call.stopped calls = []

section Calls

variable {crew : Crew ι ω} {c : Starter ι} {name : String} {l l' : Ledger ι}

theorem Cut.hooked {config : Section} {calls : List (Call ι)} (cut : Cut name calls) :
    Cut name (crew.hookCalls name config ++ calls) := by
  have started : Call.started (crew.hookCalls name config) = [] := by
    cases hook : crew.hook <;> simp [Crew.hookCalls, Call.started, hook]
  have stopped : Call.stopped (crew.hookCalls name config) = [] := by
    cases hook : crew.hook <;> simp [Crew.hookCalls, Call.stopped, hook]
  refine ⟨List.forall_mem_append.mpr ⟨fun _ => Crew.name_of_mem_hookCalls, cut.own⟩, ?_, ?_⟩
  · rw [Call.started_append, started, cut.quiet]
    rfl
  · rw [Call.stopped_append, stopped, cut.still]
    rfl

theorem Tried.cut {fault : Fault} (tried : Tried crew name l (.error fault) l') :
    l'.order = l.order ∧ ∃ last, l'.calls = l.calls ++ last ∧ Cut name last := by
  generalize result : Except.error fault = r at tried
  cases tried with
  | refused _ _ cause => exact ⟨rfl, _, rfl, by simp [Call.name], rfl, rfl⟩
  | late =>
    have cut : Cut name ([] : List (Call ι)) := ⟨by simp, rfl, rfl⟩
    refine ⟨rfl, _, rfl, ?_⟩
    rw [← List.append_nil (crew.hookCalls _ _)]
    exact cut.hooked
  | cancelled => exact ⟨rfl, _, rfl, Cut.hooked ⟨by simp [Call.name], rfl, rfl⟩⟩
  | failed => exact ⟨rfl, _, rfl, Cut.hooked ⟨by simp [Call.name], rfl, rfl⟩⟩
  | _ => cases result

theorem Tried.joined {left : Nat} (tried : Tried crew c.name l (.ok left) l') (on : c.On l.roster) :
    l' = ((l.callAll (c.calls crew)).alter c.name Member.started).join c.name := by
  obtain ⟨m, member, -, config, live⟩ := on.get?
  rw [Starter.calls, ← config]
  exact tried.eq_started member live

structure Called (crew : Crew ι ω) (batch : List (Starter ι)) (k : Nat) (l l' : Ledger ι) :
    Prop where
  within : k ≤ batch.length
  order : l'.order = l.order ++ (batch.map (·.name)).take k
  calls : ∃ last, l'.calls = l.calls ++ (batch.take k).flatMap (·.calls crew) ++ last ∧
    match batch[k]? with
    | some c => Cut c.name last
    | none => last = []

theorem TriedAll.called {batch : List (Starter ι)} {r : Except Fault Nat}
    (tried : TriedAll crew (batch.map (·.name)) l r l') (on : ∀ c ∈ batch, c.On l.roster) :
    ∃ k, Called crew batch k l l' := by
  induction batch generalizing l with
  | nil =>
    cases tried
    exact ⟨0, Nat.zero_le _, by simp, [], by simp, rfl⟩
  | cons c batch ih =>
    rw [List.forall_mem_cons] at on
    cases tried with
    | failed first =>
      obtain ⟨order, last, calls, cut⟩ := first.cut
      exact ⟨0, Nat.zero_le _, by simp [order], last, by simp [calls], cut⟩
    | cons first later =>
      obtain rfl := first.joined on.1
      obtain ⟨k, called⟩ := ih later fun b member => (on.2 b member).start c.name
      obtain ⟨last, calls, cut⟩ := called.calls
      exact ⟨k + 1, Nat.succ_le_succ called.within, by simp [called.order, Ledger.callAll], last,
        by simp [calls], cut⟩

end Calls

theorem Policy.startBudget_nanos (p : Policy) (count : Nat) :
    (p.startBudget count).nanos = max p.minBudget.nanos
      (min Span.longest.nanos (p.perStart.nanos * min count (twoTo 32 - 1))) := by
  unfold startBudget Span.scale Span.max
  split <;> split <;> grind

theorem Start.batch_in_time (crew : Crew ι ω) (p : Policy) (batch : List (Starter ι))
    (h : House ι (Chronicle ι ω))
    (registered : ∀ c ∈ batch, h.roster.get? c.name = some c.member)
    (untied : ∀ j < batch.length,
      (Trial.total ((Starter.course crew.chronicled p batch h.stage).take (j + 1))).map .ofMillis ≠
        some (p.startBudget batch.length)) :
    let queue := batch.map (·.name)
    let budget := p.startBudget batch.length
    let trials := Starter.course crew.chronicled p batch h.stage
    let late := fun k => Trial.Exceed budget (trials.take (k + 1))
    let after := (Start.batch crew.chronicled p queue).run h
    budget.nanos = max p.minBudget.nanos
        (min Span.longest.nanos (p.perStart.nanos * min batch.length (twoTo 32 - 1))) ∧
      trials.length = batch.length ∧
      ∃ k, Begun late queue trials k h after.2 ∧ Verdict late budget queue trials k after.1 ∧
        Called crew batch k h.ledger after.2.ledger := by
  intro queue budget trials late after
  have on : ∀ c ∈ batch, c.On h.roster := by
    intro c member
    unfold Starter.On
    rw [registered c member]
    rfl
  refine ⟨p.startBudget_nanos batch.length, Starter.length_trials .., ?_⟩
  obtain ⟨k, begun, verdict⟩ := batch_tells crew.chronicled p batch h on
  obtain ⟨_, -, tried⟩ := batch_ends crew p queue h
  obtain ⟨k', called⟩ := tried.called on
  -- Both tell the same end of the order.
  have same : k' = k := by
    have orders : queue.take k' = queue.take k :=
      List.append_cancel_left (called.order.symm.trans begun.order)
    have within : k' ≤ queue.length := by simpa [queue] using called.within
    have lengths := List.take_eq_take_iff.mp orders
    rw [Nat.min_eq_left within, Nat.min_eq_left begun.within] at lengths
    exact lengths
  subst same
  have exceed : ∀ j < queue.length,
      Late budget.millisUp (trials.take (j + 1)) ↔ late j := by
    intro j before
    rw [List.length_map] at before
    exact late_iff_exceed (untied j before)
  exact ⟨k', begun.congr exceed, verdict.congr exceed, called⟩

namespace Theatre

def waiting (id : Nat) (name : String) : Starter Actor where
  member := { name, kind := "rec", disabled := false, config := default,
              instance? := some (.recorder id), state := .created }
  instance_ := .recorder id
  live := rfl

def cast : List (Starter Actor) := [waiting 0 "a", waiting 1 "b", waiting 2 "c"]

def backstage : House Actor (Chronicle Actor Theatre) where
  stage := { world := { world :=
    { recorders := [(0, { delay := 30 }), (1, { delay := 80 }), (2, { delay := 100 })] } } }
  roster := cast.foldl (fun roster c => roster.insert c.name c.member) .empty

theorem third_too_late :
    let p : Policy := { minBudget := .zero }
    let after := (Start.batch crew.chronicled p (cast.map (·.name))).run backstage
    (p.startBudget cast.length = .ofMillis 150 ∧ after.2.order = ["a", "b"]) ∧
      after.1 = .error (timeoutFault "c" (.ofMillis 150)) ∧
      Called crew cast 2 backstage.ledger after.2.ledger := by
  intro p after
  have order : after.2.order = ["a", "b"] := by decide +kernel
  have registered : ∀ c ∈ cast, backstage.roster.get? c.name = some c.member := by
    simp only [cast, List.forall_mem_cons]
    exact ⟨rfl, rfl, rfl, nofun⟩
  obtain ⟨-, -, k, -, -, called⟩ :=
    Start.batch_in_time crew p cast backstage registered (by decide +kernel)
  have started : k = 2 := by
    have taken := congrArg List.length (called.order.symm.trans order)
    rw [List.length_append, List.length_take, List.length_map,
      Nat.min_eq_left called.within] at taken
    exact (Nat.zero_add k).symm.trans taken
  subst started
  exact ⟨⟨by decide, order⟩, by decide +kernel, called⟩

end Theatre

end Steward
