import Steward.Proofs.Supervision.Fulfilment
import Steward.Proofs.Supervision.Reread
import Steward.Proofs.Value.Sameness

set_option autoImplicit false

namespace Steward

open Run

variable {ι ω : Type}

namespace Section

theorem differs_self (sec : Section) (s : Surroundings) : sec.differs sec s = false := by
  simp [differs, Value.same_refl]

theorem differs_env (a b : Section) {s s' : Surroundings} (env : s'.env = s.env) :
    a.differs b s' = a.differs b s := by
  simp only [differs, resolved, resolve, env]

end Section

namespace Member

def moved (m : Member ι) (place : String) : Member ι := { m with config := m.config.moved place }

def Elsewhere (m m' : Member ι) : Prop := ∃ place, m' = m.moved place

namespace Elsewhere

theorem refl (m : Member ι) : m.Elsewhere m := ⟨m.config.context, rfl⟩

theorem trans {m m' m'' : Member ι} (first : m.Elsewhere m') (later : m'.Elsewhere m'') :
    m.Elsewhere m'' := by
  obtain ⟨place, rfl⟩ := first
  obtain ⟨there, rfl⟩ := later
  exact ⟨there, rfl⟩

theorem same (old : Option (Member ι)) : Option.Rel Elsewhere old old := by
  cases old with
  | none => exact .none
  | some m => exact .some (refl m)

theorem chain {old middle new : Option (Member ι)} (first : Option.Rel Elsewhere old middle)
    (later : Option.Rel Elsewhere middle new) : Option.Rel Elsewhere old new := by
  cases first with
  | none => exact later
  | some first =>
    cases later with
    | some later => exact .some (first.trans later)

end Elsewhere

end Member

structure House.Unmoved (h h' : House ι ω) : Prop where
  world : h'.stage.world = h.stage.world
  order : h'.order = h.order
  members : ∀ name, Option.Rel Member.Elsewhere (h.roster.get? name) (h'.roster.get? name)

namespace House.Unmoved

variable {h h' h'' : House ι ω}

theorem of_stage {stage : Stage ω} (world : stage.world = h.stage.world) :
    h.Unmoved { h with stage } :=
  ⟨world, rfl, fun _ => Member.Elsewhere.same _⟩

theorem trans (first : h.Unmoved h') (later : h'.Unmoved h'') : h.Unmoved h'' := by
  refine ⟨later.world.trans first.world, later.order.trans first.order, fun name => ?_⟩
  exact Member.Elsewhere.chain (first.members name) (later.members name)

theorem registered (same : h.Unmoved h') {name : String} {m' : Member ι}
    (found : h'.roster.get? name = some m') : ∃ m, h.roster.get? name = some m := by
  have rel := same.members name
  rw [found] at rel
  cases rel' : h.roster.get? name with
  | none =>
    rw [rel'] at rel
    cases rel
  | some m => exact ⟨m, rfl⟩

end House.Unmoved

inductive InLine (p : Policy) (s : Surroundings) (spec : ComponentSpec) (old : Option (Member ι)) :
    Prop
  | disabled (off : spec.disabledOn p.hostname = true) {m : Member ι} (found : old = some m)
      (placeholder : Member.Elsewhere (.placeholder spec) m) : InLine p s spec old
  | unchanged (on : spec.disabledOn p.hostname = false) {m : Member ι} {i : ι}
      (held : Held spec old m i) (same : m.config.differs spec.config s = false) :
      InLine p s spec old

namespace InLine

variable {p : Policy} {s s' : Surroundings} {spec spec' : ComponentSpec}
  {old new : Option (Member ι)}

theorem of_served {crew : Crew ι ω} {calls : List (Call ι)} {m : Member ι}
    (served : Served crew p s spec old calls m) : InLine p s spec (some m) := by
  cases served with
  | disabled off rested => exact .disabled off rfl (.refl _)
  | created on fresh rested => exact .unchanged on ⟨rfl, rfl, rfl⟩ (spec.config.differs_self s)
  | unchanged on held same => exact .unchanged on ⟨rfl, held.live, held.kind⟩ same
  | reconfigured on held changed =>
    exact .unchanged on ⟨rfl, held.live, held.kind⟩ (spec.config.differs_self s)
  | replaced on held changed rested =>
    exact .unchanged on ⟨rfl, rfl, rfl⟩ (spec.config.differs_self s)

theorem of_env (inLine : InLine p s spec old) (env : s'.env = s.env) : InLine p s' spec old := by
  cases inLine with
  | disabled off found placeholder => exact .disabled off found placeholder
  | unchanged on held same => exact .unchanged on held ((Section.differs_env _ _ env).trans same)

theorem elsewhere (inLine : InLine p s spec old) (entry : spec.Elsewhere spec')
    (record : Option.Rel Member.Elsewhere old new) : InLine p s spec' new := by
  obtain ⟨place, rfl⟩ := entry
  cases inLine with
  | disabled off found placeholder =>
    subst found
    obtain ⟨_, rfl⟩ := placeholder
    cases record with
    | some record =>
      obtain ⟨there, rfl⟩ := record
      exact .disabled off rfl ⟨there, rfl⟩
  | unchanged on held same =>
    obtain ⟨rfl, live, kind⟩ := held
    cases record with
    | some record =>
      obtain ⟨there, rfl⟩ := record
      exact .unchanged on ⟨rfl, live, kind⟩ same

end InLine

section Elsewhere

variable {specs specs' : List ComponentSpec}

theorem names_elsewhere (there : List.Forall₂ ComponentSpec.Elsewhere specs specs') :
    specs'.map (·.name) = specs.map (·.name) := by
  induction there with
  | nil => rfl
  | cons first later ih =>
    obtain ⟨place, rfl⟩ := first
    rw [List.map_cons, List.map_cons, ih]
    rfl

theorem mem_elsewhere (there : List.Forall₂ ComponentSpec.Elsewhere specs specs')
    {spec' : ComponentSpec} (member : spec' ∈ specs') :
    ∃ spec ∈ specs, spec.Elsewhere spec' := by
  induction there with
  | nil => cases member
  | cons first later ih =>
    rcases List.mem_cons.mp member with rfl | member
    · exact ⟨_, List.mem_cons_self, first⟩
    · obtain ⟨spec, before, there⟩ := ih member
      exact ⟨spec, List.mem_cons_of_mem _ before, there⟩

end Elsewhere

section Again

variable {crew : Crew ι ω} {p : Policy} {s : Surroundings} {spec : ComponentSpec}
  {specs : List ComponentSpec} {h : House ι ω}

theorem settle_inLine (inLine : InLine p s spec (h.roster.get? spec.name))
    (env : (crew.look h.stage.world).env = s.env) :
    Ends (Supervisor.settle crew p spec) h fun r h' => r = .ok false ∧ h.Unmoved h' := by
  unfold Supervisor.settle
  refine .member? ?_
  cases inLine with
  | @disabled off m found placeholder =>
    obtain ⟨place, rfl⟩ := placeholder
    -- A placeholder does not run, so there is nothing to stop.
    have idle : Supervisor.stopOld crew (some ((Member.placeholder spec).moved place)) =
        pure () := rfl
    rw [found]
    simp only [off, if_true, Supervisor.disable, idle, pure_bind, bind_assoc]
    refine Ends.event fun records => Ends.change (Ends.pure ⟨rfl, rfl, rfl, fun name => ?_⟩)
    rw [Table.get?_insert]
    split
    · next same =>
      have here : name = spec.name := same
      rw [here, found]
      exact .some ⟨spec.config.context, rfl⟩
    · exact Member.Elsewhere.same _
  | @unchanged on m i held same =>
    rw [← Section.differs_env m.config spec.config env] at same
    rw [held.member]
    simp only [on, held.live, held.kind, Bool.false_eq_true, if_false, if_true]
    refine .get (.log ?_)
    simp only [same, Bool.false_eq_true, if_false]
    exact .event fun records => .pure ⟨rfl, .of_stage rfl⟩

theorem settleAll_inLine (inLine : ∀ spec ∈ specs, InLine p s spec (h.roster.get? spec.name))
    (env : (crew.look h.stage.world).env = s.env) :
    Ends (Supervisor.settleAll crew p specs) h fun r h' => r = .ok [] ∧ h.Unmoved h' := by
  induction specs generalizing h with
  | nil => exact ⟨rfl, .of_stage rfl⟩
  | cons spec specs ih =>
    unfold Supervisor.settleAll
    refine .bind_ok (settle_inLine (inLine spec (by simp)) env) fun h₁ first => ?_
    have rest : ∀ spec ∈ specs, InLine p s spec (h₁.roster.get? spec.name) := fun spec member =>
      (inLine spec (by simp [member])).elsewhere (.refl spec) (first.members _)
    have still : (crew.look h₁.stage.world).env = s.env := by rw [first.world, env]
    refine .bind_ok (ih rest still) fun h₂ later => ?_
    exact .pure ⟨rfl, first.trans later⟩

theorem removeAbsent_none {present : List String}
    (none : ∀ name m, h.roster.get? name = some m → name ∈ present) :
    Ends (Supervisor.removeAbsent crew present) h fun r h' => r = .ok () ∧ h' = h := by
  unfold Supervisor.removeAbsent
  refine .get ?_
  have absent : h.roster.rows.filter (fun e => !present.contains e.1) = [] := by
    refine List.filter_eq_nil_iff.mpr fun ⟨name, m⟩ row => ?_
    simpa using none name m ((h.roster.mem_rows_iff name m).mp row)
  rw [absent]
  exact .pure ⟨rfl, rfl⟩

structure House.Fits (crew : Crew ι ω) (p : Policy) (s : Surroundings) (specs : List ComponentSpec)
    (h : House ι ω) : Prop where
  env : (crew.look h.stage.world).env = s.env
  inLine : ∀ spec ∈ specs, InLine p s spec (h.roster.get? spec.name)
  listed : ∀ name m, h.roster.get? name = some m → name ∈ specs.map (·.name)

theorem House.Fits.unmoved {h' : House ι ω} (fits : h.Fits crew p s specs) (same : h.Unmoved h') :
    h'.Fits crew p s specs := by
  refine ⟨by rw [same.world, fits.env], fun spec member => ?_, fun name m found => ?_⟩
  · exact (fits.inLine spec member).elsewhere (.refl spec) (same.members _)
  · obtain ⟨m, before⟩ := same.registered found
    exact fits.listed name m before

theorem House.Fits.permuted {order specs' : List ComponentSpec} (fits : h.Fits crew p s specs)
    (permuted : order.Perm specs) (there : List.Forall₂ ComponentSpec.Elsewhere order specs') :
    h.Fits crew p s specs' := by
  refine ⟨fits.env, fun spec' member => ?_, fun name m found => ?_⟩
  · obtain ⟨spec, before, place, rfl⟩ := mem_elsewhere there member
    have placed := fits.inLine spec (permuted.subset before)
    exact placed.elsewhere ⟨place, rfl⟩ (Member.Elsewhere.same _)
  · rw [names_elsewhere there]
    exact (permuted.map _).symm.subset (fits.listed name m found)

theorem reconcileSpecs_fits (fits : h.Fits crew p s specs) :
    Ends (Supervisor.reconcileSpecs crew p specs) h fun r h' => r = .ok () ∧ h.Unmoved h' := by
  unfold Supervisor.reconcileSpecs
  refine .bind_ok (settleAll_inLine fits.inLine fits.env) fun h₁ same => ?_
  refine .bind_ok (removeAbsent_none (fits.unmoved same).listed) ?_
  rintro _ rfl
  exact .pure ⟨rfl, same⟩

theorem openPass_ends_read (crew : Crew ι ω) (list : Listing) (initial : Bool) (h : House ι ω) :
    Ends (Supervisor.openPass crew list initial) h fun r h' => ∃ l,
      (Roll.read (Supervisor.knows crew) list).runOn (crew.look h.stage.world) h.stage.loading =
        (r, l) ∧ h'.stage.watch = l.watch ∧ h.Unmoved h' := by
  unfold Supervisor.openPass
  have read : Ends (Supervisor.readRoll crew list) h fun r h' => ∃ l,
      (Roll.read (Supervisor.knows crew) list).runOn (crew.look h.stage.world) h.stage.loading =
        (r, l) ∧ h'.stage.watch = l.watch ∧ h.Unmoved h' :=
    ⟨_, rfl, rfl, .of_stage rfl⟩
  refine read.bind ?_ ?_
  · rintro specs h' ⟨l, ran, watch, same⟩
    exact .log (.pure ⟨l, ran, watch, same.trans (.of_stage rfl)⟩)
  · rintro fault h' ⟨l, ran, watch, same⟩
    exact ⟨l, ran, watch, same⟩

theorem reconcile_fits {list : Listing} {l : Loading} (initial : Bool)
    (read : (Roll.read (Supervisor.knows crew) list).runOn (crew.look h.stage.world)
      h.stage.loading = (.ok specs, l)) (fits : h.Fits crew p s specs) :
    Ends (Supervisor.reconcile crew p list initial) h fun r h' => r = .ok () ∧ h.Unmoved h' := by
  unfold Supervisor.reconcile
  have opened : Ends (Supervisor.openPass crew list initial) h fun r h' =>
      r = .ok specs ∧ h.Unmoved h' := by
    refine (openPass_ends_read crew list initial h).mono ?_
    rintro r h' ⟨l', again, -, same⟩
    cases read.symm.trans again
    exact ⟨rfl, same⟩
  refine .bind_ok opened fun begun same => ?_
  refine (reconcileSpecs_fits (fits.unmoved same)).mono ?_
  rintro r h' ⟨result, later⟩
  exact ⟨result, same.trans later⟩

end Again

namespace Passed

variable {crew : Crew ι ω} {p : Policy} {turns : List (ComponentSpec × Surroundings)}
  {queue : List String} {l l₁ l₂ l' : Ledger ι}

theorem inLine (passed : Passed crew p turns queue l l₁ l₂ l') {s : Surroundings}
    (env : ∀ turn ∈ turns, turn.2.env = s.env) :
    ∀ spec ∈ turns.map (·.1), InLine p s spec (l'.roster.get? spec.name) := by
  intro spec member
  obtain ⟨turn, entry, rfl⟩ := List.mem_map.mp member
  obtain ⟨m, calls, found, -, served⟩ := passed.served entry
  rw [found]
  exact (InLine.of_served served).of_env (env turn entry).symm

theorem listed (passed : Passed crew p turns queue l l₁ l₂ l') {name : String} {m : Member ι}
    (found : l'.roster.get? name = some m) : name ∈ turns.map (·.1.name) := by
  by_contra absent
  rw [(passed.outside absent).1] at found
  cases found

end Passed

/-- While a pass is made, the variables stay as they are, and so do the files that are watched once
its list has been read. -/
structure Supervisor.Undisturbed (crew : Crew ι ω) (p : Policy) (list : Listing) (initial : Bool)
    (h : House ι ω) : Prop where
  env : ∀ specs begun, (openPass crew list initial).run h = (.ok specs, begun) →
    ∀ turn ∈ turns crew p specs begun, turn.2.env = (crew.look h.stage.world).env
  files : ∀ specs begun, (openPass crew list initial).run h = (.ok specs, begun) →
    (crew.look h.stage.world).AgreesOn (begun.stage.watch.Covers (crew.look h.stage.world))
      (crew.look ((reconcile crew p list initial).run h).2.stage.world)

theorem House.recorded_idempotent (crew : Crew ι ω) (p : Policy) (stage : Stage ω)
    (events : List (Event ω)) (list again : Listing) (initial later : Bool)
    (done : ((Supervisor.reconcile crew.chronicled p list initial).run
      (House.recorded crew p stage events)).1 = .ok ())
    (undisturbed : Supervisor.Undisturbed crew.chronicled p list initial
      (House.recorded crew p stage events))
    (table : again.table = list.table) (items : again.items.Perm list.items) :
    let h := ((Supervisor.reconcile crew.chronicled p list initial).run
      (House.recorded crew p stage events)).2
    ∃ h', (Supervisor.reconcile crew.chronicled p again later).run h = (.ok (), h') ∧
      h.Unmoved h' := by
  intro h
  let s := crew.chronicled.look (House.recorded crew p stage events).stage.world
  have sound := House.recorded_sound crew p stage events
  rcases reconcile_ends crew p list initial _ sound.named with
    ⟨fault, failed, -⟩ | ⟨specs, begun, opened, orderly, reconciled⟩
  · cases done.symm.trans failed
  · rw [done] at reconciled
    have nodup := orderly.nodup
    rw [← Supervisor.turns_names crew.chronicled p specs begun] at nodup
    obtain ⟨queue, l₁, l₂, passed⟩ := reconciled.passed sound nodup
    have opens := openPass_ends_read crew.chronicled list initial
      (House.recorded crew p stage events)
    unfold Ends at opens
    rw [opened] at opens
    obtain ⟨l, read, watch, -⟩ := opens
    have agrees := undisturbed.files specs begun opened
    rw [watch] at agrees
    have fits : h.Fits crew.chronicled p s specs := by
      have inLine := passed.inLine (undisturbed.env specs begun opened)
      rw [Supervisor.turns_specs] at inLine
      refine ⟨agrees.env, inLine, fun name m found => ?_⟩
      rw [← Supervisor.turns_names crew.chronicled p specs begun]
      exact passed.listed found
    -- The list is read as it was before, in its new order.
    obtain ⟨specs', l', reread, order, permuted, there⟩ :=
      Roll.read_permuted read agrees table items h.stage.loading
    have ends := reconcile_fits later reread (fits.permuted permuted there)
    exact ⟨_, Prod.ext ends.1 rfl, ends.2⟩

theorem Supervisor.turns_fixed {crew : Crew ι ω} {s : Surroundings} (fixed : ∀ w, crew.look w = s)
    (p : Policy) (specs : List ComponentSpec) (h : House ι ω) :
    ∀ turn ∈ turns crew p specs h, turn.2 = s := by
  induction specs generalizing h with
  | nil => exact nofun
  | cons spec specs ih =>
    intro turn member
    rcases List.mem_cons.mp member with rfl | member
    · exact fixed _
    · exact ih _ turn member

theorem Supervisor.Undisturbed.of_fixed {crew : Crew ι ω} {s : Surroundings}
    (fixed : ∀ w, crew.look w = s) (p : Policy) (list : Listing) (initial : Bool)
    (h : House ι ω) : Undisturbed crew p list initial h := by
  refine ⟨fun specs begun _ turn member => ?_, fun specs begun _ => ?_⟩
  · rw [turns_fixed fixed p specs begun turn member, fixed]
  · rw [fixed, fixed]
    exact .refl _ s

def Theatre.crewBefore (files : List (String × String)) : Crew Actor Theatre :=
  { Theatre.crew with look := fun _ => .ofFiles files }

theorem House.rehearsed_idempotent :
    let crew := Theatre.crewBefore [("/etc/part.yaml", "name: a\ntype: direct\n")]
    let before := House.recorded crew {} { world := {} }
      [.asked (.reconcile { items := [Theatre.entry "c" "rec" []] } true)]
    let list : Listing := { items := [(.string "/etc/part.yaml", none), Theatre.entry "b" "rec" [],
      Theatre.entry "c" "rec" [(.string "disabled", .bool true)]] }
    let h := ((Supervisor.reconcile crew.chronicled {} list false).run before).2
    before.order = ["c"] ∧ h.order = ["a", "b"] ∧
      ∃ h', (Supervisor.reconcile crew.chronicled {} { items := list.items.reverse } false).run h =
        (.ok (), h') ∧ h.Unmoved h' := by
  intro crew before list h
  have done : ((Supervisor.reconcile crew.chronicled {} list false).run before).1 = .ok () := by
    decide +kernel
  have undisturbed : Supervisor.Undisturbed crew.chronicled {} list false before :=
    .of_fixed (fun _ => rfl) {} list false before
  exact ⟨by decide +kernel, by decide +kernel, House.recorded_idempotent crew {} { world := {} } _
    list { items := list.items.reverse } false false done undisturbed rfl (List.reverse_perm _)⟩

end Steward
