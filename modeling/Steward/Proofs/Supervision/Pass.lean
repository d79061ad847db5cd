import Steward.Proofs.Supervision.Turn

set_option autoImplicit false

namespace Steward

open Run

variable {ι ω α : Type}

theorem Stopped.roster {name : String} {l l' : Ledger ι} {active : Option ι}
    {r : Except Fault Unit} (stop : Stopped name l active r l') : l'.roster = l.roster := by
  cases stop <;> rfl

namespace Ledger.Named

variable {l : Ledger ι}

theorem of_roster (named : l.Named) {l' : Ledger ι} (same : l'.roster = l.roster) : l'.Named := by
  unfold Ledger.Named
  rw [same]
  exact named

theorem enroll (named : l.Named) (m : Member ι) : (l.enroll m).Named := by
  intro name m' member
  rw [roster_enroll, Table.get?_insert] at member
  split at member
  · next same =>
    cases member
    exact same.symm
  · exact named name m' member

theorem alter (named : l.Named) (altered : String) {f : Member ι → Member ι}
    (keeps : ∀ m, (f m).name = m.name) : (l.alter altered f).Named := by
  intro name m' member
  rw [roster_alter, Table.get?_update] at member
  split at member
  · next same =>
    subst same
    obtain ⟨m, found, rfl⟩ := Option.map_eq_some_iff.mp member
    exact (keeps m).trans (named name m found)
  · exact named name m' member

theorem settled (named : l.Named) {p : Policy} {s : Surroundings} {spec : ComponentSpec}
    {r : Except Fault Bool} {l' : Ledger ι} (settled : Settled p s spec l r l') : l'.Named := by
  cases settled with
  | disableFailed off stop => exact named.of_roster stop.roster
  | disabled off stop => exact (named.of_roster stop.roster).enroll _
  | createStopFailed on fresh stop => exact named.of_roster stop.roster
  | createFailed on fresh stop cause => exact named.of_roster stop.roster
  | created on fresh stop i => exact Named.enroll (named.of_roster stop.roster) _
  | unchanged on held same => exact named
  | reloadFailed on held changed cause => exact named
  | inPlace on held changed => exact Named.alter named spec.name fun _ => rfl
  | replaceFailed on held changed instead runs cause => exact named
  | replaced on held changed instead stop => exact (named.of_roster stop.roster).enroll _

end Ledger.Named

def Supervisor.turns (crew : Crew ι ω) (p : Policy) :
    List ComponentSpec → House ι ω → List (ComponentSpec × Surroundings)
  | [], _ => []
  | spec :: specs, h =>
    (spec, crew.look h.stage.world) ::
      turns crew p specs ((Supervisor.settle crew p spec).run h).2

inductive SettledAll (p : Policy) :
    List (ComponentSpec × Surroundings) → Ledger ι → Except Fault (List String) →
      Ledger ι → Prop
  | nil {l : Ledger ι} : SettledAll p [] l (.ok []) l
  | failed {spec : ComponentSpec} {s : Surroundings}
      {rest : List (ComponentSpec × Surroundings)} {l l' : Ledger ι} {fault : Fault}
      (first : Settled p s spec l (.error fault) l') :
      SettledAll p ((spec, s) :: rest) l (.error fault) l'
  | failedLater {spec : ComponentSpec} {s : Surroundings}
      {rest : List (ComponentSpec × Surroundings)} {l l₁ l₂ : Ledger ι} {starts : Bool}
      {fault : Fault} (first : Settled p s spec l (.ok starts) l₁)
      (later : SettledAll p rest l₁ (.error fault) l₂) :
      SettledAll p ((spec, s) :: rest) l (.error fault) l₂
  | cons {spec : ComponentSpec} {s : Surroundings}
      {rest : List (ComponentSpec × Surroundings)} {l l₁ l₂ : Ledger ι} {starts : Bool}
      {names : List String} (first : Settled p s spec l (.ok starts) l₁)
      (later : SettledAll p rest l₁ (.ok names) l₂) :
      SettledAll p ((spec, s) :: rest) l (.ok (if starts then spec.name :: names else names)) l₂

theorem settleAll_ends (crew : Crew ι ω) (p : Policy) (specs : List ComponentSpec)
    (h : House ι (Chronicle ι ω)) (named : h.ledger.Named)
    (known : ∀ spec ∈ specs, crew.makers.has spec.kind = true) :
    Ends (Supervisor.settleAll crew.chronicled p specs) h fun r h' =>
      SettledAll p (Supervisor.turns crew.chronicled p specs h) h.ledger r h'.ledger := by
  induction specs generalizing h with
  | nil => exact .nil
  | cons spec specs ih =>
    unfold Supervisor.settleAll Supervisor.turns
    -- The other turns are taken in the house that this one leaves.
    have first : Ends (Supervisor.settle crew.chronicled p spec) h fun r h' =>
        Settled p (crew.look h.stage.world.world) spec h.ledger r h'.ledger ∧
          h' = ((Supervisor.settle crew.chronicled p spec).run h).2 :=
      ⟨settle_ends crew p spec h named (known spec (by simp)), rfl⟩
    refine first.bind ?_ ?_
    · rintro starts h' ⟨settled, rfl⟩
      refine (ih _ (named.settled settled) fun spec member => known spec (by simp [member])).bind
        ?_ ?_
      · intro names h' later
        exact .cons settled later
      · intro fault h' later
        exact .failedLater settled later
    · rintro fault h' ⟨settled, -⟩
      exact .failed settled

def faultOf : Except Fault Unit → Option Fault
  | .ok () => none
  | .error fault => some fault

theorem Run.Ends.attempt {m : Run ι ω Unit} {f : Option Fault → Run ι ω α} {h : House ι ω}
    {P : Except Fault Unit → House ι ω → Prop} {Q : Except Fault α → House ι ω → Prop}
    (first : Ends m h P) (rest : ∀ r h', P r h' → Ends (f (faultOf r)) h' Q) :
    Ends (Run.attempt m >>= f) h Q := by
  have tried : (Run.attempt m).run h = (.ok (faultOf (m.run h).1), (m.run h).2) := by
    unfold Run.attempt
    rw [ExceptT.run_mk]
    rcases m.run h with ⟨r, h'⟩
    cases r <;> rfl
  unfold Ends
  rw [run_bind, tried]
  exact rest _ _ first

inductive RemovedAll : List String → Ledger ι → List (Option Fault) → Ledger ι → Prop
  | nil {l : Ledger ι} : RemovedAll [] l [] l
  | cons {name : String} {names : List String} {l l₁ l₂ : Ledger ι} {r : Except Fault Unit}
      {faults : List (Option Fault)}
      (stop : Stopped name (l.strike name) (l.active? name) r l₁)
      (rest : RemovedAll names l₁ faults l₂) :
      RemovedAll (name :: names) l (faultOf r :: faults) l₂

def Removed (name : String) (l : Ledger ι) (r : Except Fault (Option Fault)) (l' : Ledger ι) :
    Prop :=
  ∃ stop, r = .ok (faultOf stop) ∧ Stopped name (l.strike name) (l.active? name) stop l'

theorem remove_ends (crew : Crew ι ω) (what : String → String) {name : String} {m : Member ι}
    {h : House ι (Chronicle ι ω)} (member : h.roster.get? name = some m) (named : m.name = name) :
    Ends (Supervisor.remove crew.chronicled what m) h fun r h' =>
      Removed name h.ledger r h'.ledger := by
  subst named
  have active : h.ledger.active? m.name = m.active? := Ledger.active?_of_get? member
  unfold Supervisor.remove
  refine .change (.attempt (stopMember_ends crew m _) fun r h' stop => .log (.pure ?_))
  rw [← active] at stop
  exact ⟨r, rfl, stop⟩

theorem mapM_removed {g : α → Run ι (Chronicle ι ω) (Option Fault)} {name : α → String}
    {P : α → Option (Member ι) → Prop} {items : List α} {h : House ι (Chronicle ι ω)}
    (each : ∀ a h, P a (h.roster.get? (name a)) →
      Ends (g a) h fun r h' => Removed (name a) h.ledger r h'.ledger)
    (nodup : (items.map name).Nodup) (holds : ∀ a ∈ items, P a (h.roster.get? (name a))) :
    Ends (items.mapM g) h fun r h' => ∃ faults,
      r = .ok faults ∧ RemovedAll (items.map name) h.ledger faults h'.ledger := by
  induction items generalizing h with
  | nil => exact ⟨[], rfl, .nil⟩
  | cons a items ih =>
    obtain ⟨new, nodup⟩ := List.nodup_cons.mp nodup
    rw [List.mapM_cons]
    refine (each a h (holds a (by simp))).bind ?_ ?_
    · rintro fault h' ⟨stop, result, stopped⟩
      cases result
      -- The others are on the roster as before.
      have others : ∀ b ∈ items, P b (h'.roster.get? (name b)) := by
        intro b member
        have roster : h'.roster = h.roster.erase (name a) := stopped.roster
        have apart : name b ≠ name a := fun same => new (List.mem_map.mpr ⟨b, member, same⟩)
        rw [roster, Table.get?_erase, if_neg apart]
        exact holds b (by simp [member])
      refine (ih nodup others).bind ?_ ?_
      · rintro faults h'' ⟨_, result, rest⟩
        cases result
        exact ⟨_, rfl, .cons stopped rest⟩
      · rintro fault h'' ⟨_, result, -⟩
        cases result
    · rintro fault h' ⟨_, result, -⟩
      cases result

def firstFault (faults : List (Option Fault)) : Except Fault Unit :=
  match faults.findSome? id with
  | some fault => .error fault
  | none => .ok ()

theorem firstFault_ends {faults : List (Option Fault)} {h : House ι ω}
    {Q : Except Fault Unit → House ι ω → Prop} (holds : Q (firstFault faults) h) :
    Ends (match faults.findSome? id with
      | some fault => throw fault
      | none => return ()) h Q := by
  unfold firstFault at holds
  split at holds
  · exact holds
  · exact holds

def Ledger.absent (l : Ledger ι) (present : List String) : List String :=
  l.roster.names.filter fun name => !present.contains name

theorem Ledger.mem_absent_iff (l : Ledger ι) (present : List String) (name : String) :
    name ∈ l.absent present ↔ (∃ m, l.roster.get? name = some m) ∧ name ∉ present := by
  rw [absent, List.mem_filter, Table.mem_names_iff]
  simp

theorem removeAbsent_ends (crew : Crew ι ω) (present : List String)
    (h : House ι (Chronicle ι ω)) (named : h.ledger.Named) :
    Ends (Supervisor.removeAbsent crew.chronicled present) h fun r h' => ∃ faults,
      r = firstFault faults ∧ RemovedAll (h.ledger.absent present) h.ledger faults h'.ledger := by
  unfold Supervisor.removeAbsent
  refine .get ?_
  have names : ((h.roster.rows.filter fun e => !present.contains e.1).map (·.1)) =
      h.ledger.absent present := by
    simp [Ledger.absent, Table.names, List.filter_map, House.ledger, Function.comp_def]
  have nodup : (h.ledger.absent present).Nodup := h.roster.nodup_names.filter _
  rw [← names] at nodup ⊢
  refine (mapM_removed (P := fun e member => member = some e.2 ∧ e.2.name = e.1) ?_ nodup
    ?_).bind ?_ ?_
  · rintro ⟨name, m⟩ h ⟨member, same⟩
    refine (remove_ends crew _ member same).bind ?_ ?_
    · intro fault h' removed
      exact .event fun _ => .pure removed
    · rintro fault h' ⟨_, result, -⟩
      cases result
  · rintro ⟨name, m⟩ row
    have member := (h.roster.mem_rows_iff name m).mp (List.mem_filter.mp row).1
    exact ⟨member, named name m member⟩
  · rintro faults h' ⟨_, result, removed⟩
    cases result
    exact firstFault_ends ⟨faults, rfl, removed⟩
  · rintro fault h' ⟨_, result, -⟩
    cases result

inductive Tried (crew : Crew ι ω) (name : String) (l : Ledger ι) :
    Except Fault Nat → Ledger ι → Prop
  | absent (left : Nat) (none : ∀ m, l.roster.get? name = some m → m.instance? = none) :
      Tried crew name l (.ok left) l
  | refused {m : Member ι} {i : ι} (member : l.roster.get? name = some m)
      (live : m.instance? = some i) (cause : String) :
      Tried crew name l (.error (lifecycleFault name "pre-start" cause))
        (l.call (.hook name m.config (.error cause)))
  | late {m : Member ι} {i : ι} (member : l.roster.get? name = some m)
      (live : m.instance? = some i) (budget : Span) :
      Tried crew name l (.error (.component (.timeout name budget)))
        (l.callAll (crew.hookCalls name m.config))
  | cancelled {m : Member ι} {i : ι} (member : l.roster.get? name = some m)
      (live : m.instance? = some i) (budget : Span) :
      Tried crew name l (.error (.component (.timeout name budget)))
        (l.callAll (crew.hookCalls name m.config ++ [.begin_ i name, .cancel i name]))
  | failed {m : Member ι} {i : ι} (member : l.roster.get? name = some m)
      (live : m.instance? = some i) (cause : String) :
      Tried crew name l (.error (lifecycleFault name "start" cause))
        (l.callAll (crew.hookCalls name m.config ++
          [.begin_ i name, .finish i name (.error cause)]))
  | started {m : Member ι} {i : ι} (member : l.roster.get? name = some m)
      (live : m.instance? = some i) (left : Nat) :
      Tried crew name l (.ok left)
        (((l.callAll (crew.startCalls name m.config i)).alter name
          fun m => { m with state := .running }).join name)

theorem begin_ends {crew : Crew ι ω} {i : ι} {name : String} {h : House ι (Chronicle ι ω)}
    {f : Option Nat → Run ι (Chronicle ι ω) α}
    {Q : Except Fault α → House ι (Chronicle ι ω) → Prop}
    (rest : ∀ took h', h'.ledger = h.ledger.call (.begin_ i name) → Ends (f took) h' Q) :
    Ends (Run.onStage (crew.chronicled.begin_ i name) >>= f) h Q :=
  rest _ _ rfl

theorem cancel_ends {crew : Crew ι ω} {i : ι} {name : String} {elapsed : Nat}
    {h : House ι (Chronicle ι ω)} {f : Unit → Run ι (Chronicle ι ω) α}
    {Q : Except Fault α → House ι (Chronicle ι ω) → Prop}
    (rest : ∀ h', h'.ledger = h.ledger.call (.cancel i name) → Ends (f ()) h' Q) :
    Ends (Run.onStage (crew.chronicled.cancel i name elapsed) >>= f) h Q :=
  rest _ rfl

theorem wait_ends {crew : Crew ι ω} {n : Nat} {h : House ι (Chronicle ι ω)}
    {f : Unit → Run ι (Chronicle ι ω) α}
    {Q : Except Fault α → House ι (Chronicle ι ω) → Prop}
    (rest : ∀ h', h'.ledger = h.ledger → Ends (f ()) h' Q) :
    Ends (Run.onStage (crew.chronicled.wait n) >>= f) h Q :=
  rest _ rfl

inductive Launched (i : ι) (name : String) (budget : Span) (l : Ledger ι) :
    Except Fault Nat → Ledger ι → Prop
  | late : Launched i name budget l (.error (.component (.timeout name budget))) l
  | cancelled :
      Launched i name budget l (.error (.component (.timeout name budget)))
        (l.callAll [.begin_ i name, .cancel i name])
  | failed (cause : String) :
      Launched i name budget l (.error (lifecycleFault name "start" cause))
        (l.callAll [.begin_ i name, .finish i name (.error cause)])
  | started (took : Nat) :
      Launched i name budget l (.ok took)
        (l.callAll [.begin_ i name, .finish i name (.ok ())])

theorem launch_ends (crew : Crew ι ω) (i : ι) (name : String) (budget : Span) (left : Nat)
    (h : House ι (Chronicle ι ω)) :
    Ends (Start.launch crew.chronicled i name budget left) h fun r h' =>
      Launched i name budget h.ledger r h'.ledger := by
  unfold Start.launch
  split
  · exact .late
  · refine begin_ends fun took h₁ begun => ?_
    split
    · next n _ =>
      refine wait_ends fun h₂ waited => ?_
      refine .act (waited.trans begun) ?_ ?_
      · intro _ h₃ finished
        rw [Ledger.call_call] at finished
        have done : Launched i name budget h.ledger _ _ := .started n
        rw [← finished] at done
        exact .pure done
      · intro cause h₃ finished
        rw [finished, Ledger.call_call]
        exact .failed cause
    · refine wait_ends fun h₂ waited => cancel_ends fun h₃ dropped => ?_
      rw [waited, begun, Ledger.call_call] at dropped
      have done : Launched i name budget h.ledger _ _ := .cancelled
      rw [← dropped] at done
      exact done

theorem callHook_ends (crew : Crew ι ω) (name : String) (config : Section)
    (h : House ι (Chronicle ι ω)) :
    Ends (Start.callHook crew.chronicled name config) h fun r h' =>
      (r = .ok () ∧ h'.ledger = h.ledger.callAll (crew.hookCalls name config)) ∨
        ∃ cause, r = .error (lifecycleFault name "pre-start" cause) ∧
          h'.ledger = h.ledger.call (.hook name config (.error cause)) := by
  unfold Start.callHook
  cases hook : crew.hook with
  | none =>
    simp only [Crew.chronicled, hook, Option.map_none]
    refine .pure (.inl ⟨rfl, ?_⟩)
    simp [Crew.hookCalls, hook, Ledger.callAll]
  | some call =>
    simp only [Crew.chronicled, hook, Option.map_some]
    refine (Chronicle.act_ends name "pre-start" (.hook name config) (call name config) h).mono ?_
    rintro r h' ⟨answer, rfl, ledger⟩
    cases answer with
    | ok =>
      refine .inl ⟨rfl, ?_⟩
      rw [ledger]
      simp [Crew.hookCalls, hook, Ledger.call]
    | error cause => exact .inr ⟨cause, rfl, ledger⟩

theorem one_ends (crew : Crew ι ω) (budget : Span) (left : Nat) (name : String)
    (h : House ι (Chronicle ι ω)) :
    Ends (Start.one crew.chronicled budget left name) h fun r h' =>
      Tried crew name h.ledger r h'.ledger := by
  unfold Start.one
  refine .member? ?_
  cases found : h.roster.get? name with
  | none =>
    refine .pure (.absent left fun m member => ?_)
    rw [House.ledger, found] at member
    cases member
  | some m =>
    obtain ⟨own, kind, disabled, config, live, state⟩ := m
    cases live with
    | none =>
      refine .pure (.absent left fun m member => ?_)
      rw [House.ledger, found] at member
      cases member
      rfl
    | some i =>
      let m : Member ι := ⟨own, kind, disabled, config, some i, state⟩
      have member : h.ledger.roster.get? name = some m := found
      have live : m.instance? = some i := rfl
      refine (callHook_ends crew name config h).bind ?_ ?_
      · rintro _ h₁ (⟨-, hooked⟩ | ⟨_, result, -⟩)
        · -- The launch begins behind the call of the hook.
          refine .event fun _ => (launch_ends crew i name budget left _).bind ?_ ?_
          · intro took h₂ launched
            change Launched i name budget h₁.ledger (.ok took) h₂.ledger at launched
            rw [hooked] at launched
            have begun : h₂.ledger =
                h.ledger.callAll (crew.startCalls name m.config i) := by
              generalize h₂.ledger = l₂ at launched ⊢
              cases launched
              rw [Ledger.callAll_callAll]
              rfl
            have done : Tried crew name h.ledger _ _ := .started member live (left - took)
            rw [← begun] at done
            exact .change (.change (.pure done))
          · intro fault h₂ launched
            change Launched i name budget h₁.ledger (.error fault) h₂.ledger at launched
            rw [hooked] at launched
            generalize h₂.ledger = l₂ at launched ⊢
            cases launched with
            | late => exact .late member live budget
            | cancelled =>
              rw [Ledger.callAll_callAll]
              exact .cancelled member live budget
            | failed cause =>
              rw [Ledger.callAll_callAll]
              exact .failed member live cause
        · cases result
      · rintro fault h₁ (⟨result, -⟩ | ⟨cause, result, hooked⟩)
        · cases result
        · cases result
          rw [hooked]
          exact .refused member live cause

inductive TriedAll (crew : Crew ι ω) : List String → Ledger ι → Except Fault Nat → Ledger ι → Prop
  | nil {l : Ledger ι} (left : Nat) : TriedAll crew [] l (.ok left) l
  | failed {name : String} {names : List String} {l l' : Ledger ι} {fault : Fault}
      (first : Tried crew name l (.error fault) l') :
      TriedAll crew (name :: names) l (.error fault) l'
  | cons {name : String} {names : List String} {l l₁ l₂ : Ledger ι} {left : Nat}
      {r : Except Fault Nat} (first : Tried crew name l (.ok left) l₁)
      (later : TriedAll crew names l₁ r l₂) : TriedAll crew (name :: names) l r l₂

theorem foldlM_one_ends (crew : Crew ι ω) (budget : Span) (left : Nat) (queue : List String)
    (h : House ι (Chronicle ι ω)) :
    Ends (queue.foldlM (Start.one crew.chronicled budget) left) h fun r h' =>
      TriedAll crew queue h.ledger r h'.ledger := by
  induction queue generalizing left h with
  | nil => exact .nil left
  | cons name queue ih =>
    rw [List.foldlM_cons]
    refine (one_ends crew budget left name h).bind ?_ ?_
    · intro left h' first
      exact (ih left h').mono fun r h'' later => .cons first later
    · intro fault h' first
      exact .failed first

theorem batch_ends (crew : Crew ι ω) (p : Policy) (queue : List String)
    (h : House ι (Chronicle ι ω)) :
    Ends (Start.batch crew.chronicled p queue) h fun r h' => ∃ tried : Except Fault Nat,
      r = tried.map (fun _ => ()) ∧ TriedAll crew queue h.ledger tried h'.ledger := by
  unfold Start.batch
  split
  · next empty =>
    rw [List.isEmpty_iff.mp empty]
    exact .pure ⟨.ok 0, rfl, .nil 0⟩
  · refine .log ((foldlM_one_ends crew _ _ queue _).bind ?_ ?_)
    · intro left h' tried
      exact .pure ⟨.ok left, rfl, tried⟩
    · intro fault h' tried
      exact ⟨.error fault, rfl, tried⟩

end Steward
