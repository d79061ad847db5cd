import Steward.Component.Spec
import Steward.Proofs.Loading.Completeness

set_option autoImplicit false

namespace Steward

def LoadOr.Echoes {ε α β : Type} (R : α → β → Prop) (m : LoadOr ε α) (m' : LoadOr ε β)
    (s : Surroundings) : Prop :=
  ∀ l l₁ a, m.runOn s l = (.ok a, l₁) → ∀ l', ∃ b l₁', m'.runOn s l' = (.ok b, l₁') ∧ R a b

theorem LoadOr.runOn_tryCatch {ε α : Type} (m : LoadOr ε α) (handle : ε → LoadOr ε α)
    (s : Surroundings) (l : Loading) :
    (tryCatch m handle).runOn s l =
      match m.runOn s l with
      | (.ok a, l) => (.ok a, l)
      | (.error fault, l) => (handle fault).runOn s l := by
  change ExceptT.tryCatch (ExceptT.mk (Pure.pure (m.runOn s l).1))
    (fun fault => (handle fault).run s) (m.runOn s l).2 = _
  rcases m.runOn s l with ⟨r, l⟩
  cases r <;> rfl

theorem ok_of_bind {ε α β : Type} {r : Except ε α} {f : α → Except ε β} {b : β}
    (done : r >>= f = .ok b) : ∃ a, r = .ok a ∧ f a = .ok b := by
  cases r with
  | ok a => exact ⟨a, rfl, done⟩
  | error fault => cases done

theorem bind_eq_error_iff {ε α β : Type} {r : Except ε α} {f : α → Except ε β} {fault : ε} :
    r >>= f = .error fault ↔ r = .error fault ∨ ∃ a, r = .ok a ∧ f a = .error fault := by
  cases r <;> simp [bind, Except.bind]

namespace LoadOr.Echoes

variable {ε α β γ δ : Type} {R : α → β → Prop} {Q : γ → δ → Prop} {s : Surroundings}

theorem pure {a : α} {b : β} (goes : R a b) :
    Echoes (ε := ε) R (Pure.pure a) (Pure.pure b) s := by
  rintro l _ _ ⟨⟩ l'
  exact ⟨b, l', rfl, goes⟩

theorem throw (fault : ε) (m' : LoadOr ε β) :
    Echoes R (MonadExcept.throw fault : LoadOr ε α) m' s := by
  rintro l l₁ a ⟨⟩

theorem bind {m : LoadOr ε α} {m' : LoadOr ε β} {f : α → LoadOr ε γ} {f' : β → LoadOr ε δ}
    (first : Echoes R m m' s) (rest : ∀ a b, R a b → Echoes Q (f a) (f' b) s) :
    Echoes Q (m >>= f) (m' >>= f') s := by
  intro l l₂ c done l'
  obtain ⟨a, l₁, run, later⟩ := ok_of_bind done
  obtain ⟨b, l₁', run', goes⟩ := first l l₁ a run l'
  obtain ⟨d, l₂', later', ends⟩ := rest a b goes l₁ l₂ c later l₁'
  exact ⟨d, l₂', by rw [runOn_bind, run']; exact later', ends⟩

theorem foldlM {f : α → γ → LoadOr ε α} {f' : β → γ → LoadOr ε β} {items : List γ}
    (each : ∀ c ∈ items, ∀ a b, R a b → Echoes R (f a c) (f' b c) s) {a : α} {b : β}
    (goes : R a b) : Echoes R (items.foldlM f a) (items.foldlM f' b) s := by
  induction items generalizing a b with
  | nil => exact pure goes
  | cons c items ih =>
    rw [List.foldlM_cons, List.foldlM_cons]
    exact (each c (by simp) a b goes).bind fun a b goes =>
      ih (fun c member => each c (by simp [member])) goes

theorem of_leaves {m : LoadOr ε α} {r : Except ε α} {trail : List Mark}
    (leaves : m.Leaves s r trail) : Echoes Eq m m s := by
  intro l l₁ a done l'
  rw [leaves.run l] at done
  cases done
  exact ⟨a, _, leaves.run l', rfl⟩

end LoadOr.Echoes

theorem Load.Accounts.echoes {α : Type} {m : Load α} (accounts : m.Accounts) (s : Surroundings) :
    LoadOr.Echoes Eq m m s := by
  intro l l₁ a done l'
  obtain ⟨r, trail, obstacle, settles, -⟩ := accounts s
  have run := settles s (.refl _ s) fun _ _ _ => rfl
  rw [run l] at done
  cases done
  exact ⟨a, _, run l', rfl⟩

theorem Load.note_echoes (records records' : List Record) (s : Surroundings) :
    LoadOr.Echoes Eq (note records) (note records') s :=
  fun _ _ _ _ _ => ⟨(), _, rfl, rfl⟩

namespace Section

def moved (sec : Section) (place : String) : Section := { sec with context := place }

def Elsewhere (sec sec' : Section) : Prop := ∃ place, sec' = sec.moved place

section Build

variable (place place' : String) (parent : PropertyTable) (left : Nat)

theorem finish_echoes (es : Entries) (base : Option Path) (s : Surroundings) :
    LoadOr.Echoes Elsewhere (build.finish place parent left es base)
      (build.finish place' parent left es base) s := by
  unfold build.finish
  have merged :=
    Merge.mergeWith_accounts (Merge.included_accounts parent left) parent es base
  refine .bind (merged.echoes s) ?_
  rintro es _ rfl
  split
  · exact .pure ⟨place', rfl⟩
  · exact .pure ⟨place', rfl⟩
  · next block _ =>
    obtain ⟨r, trail, added, -⟩ := PropertyBlock.add_yields (s := s) parent block base
    refine .bind (.of_leaves added) ?_
    rintro ⟨table, files⟩ _ rfl
    exact .bind (.of_leaves (Load.registerAll_leaves files s)) fun _ _ _ => .pure ⟨place', rfl⟩
  · exact .throw _ _

theorem build_echoes (v : Value) (base : Option Path) (s : Surroundings) :
    LoadOr.Echoes Elsewhere (build place parent left v base) (build place' parent left v base)
      s := by
  induction left generalizing v base with
  | zero =>
    cases v with
    | null => exact finish_echoes place place' parent 0 [] base s
    | mapping es => exact finish_echoes place place' parent 0 es base s
    | string text =>
      refine .bind (.of_leaves (Load.resolve_leaves parent text base)) ?_
      rintro p _ rfl
      exact .throw _ _
    | _ => exact .throw _ _
  | succ left ih =>
    cases v with
    | null => exact finish_echoes place place' parent (left + 1) [] base s
    | mapping es => exact finish_echoes place place' parent (left + 1) es base s
    | string text =>
      refine .bind (.of_leaves (Load.resolve_leaves parent text base)) ?_
      rintro p _ rfl
      refine .bind (Load.note_echoes _ _ s) fun _ _ _ => ?_
      refine .bind (.of_leaves (Load.readYaml_leaves p)) ?_
      rintro v _ rfl
      refine .bind (.of_leaves (Load.register_leaves p)) fun _ _ _ => ?_
      refine .bind (.of_leaves (Load.directoryOf_leaves p)) ?_
      rintro dir _ rfl
      exact ih v dir
    | _ => exact .throw _ _

end Build

variable {α : Type} {sec : Section} {key : String} {s : Surroundings}

theorem fetch_accounts {f : Section → Surroundings → String → Except ConfigFault α}
    (same : ∀ s s', s'.env = s.env → f sec s' key = f sec s key) : (sec.fetch key f).Accounts := by
  refine .look (fun s s' _ env => ?_) fun s => .bind (.note _) fun _ => .lift _
  have notes : sec.getNotes s' key = sec.getNotes s key := by
    simp only [getNotes, resolveNotes, env]
  rw [notes, same s s' env]

theorem fetch_run (f : Section → Surroundings → String → Except ConfigFault α) (l : Loading) :
    LoadOr.runOn (sec.fetch key f) s l =
      (f sec s key, { l with notes := l.notes ++ sec.getNotes s key }) :=
  rfl

theorem fetch_echoes {f : Section → Surroundings → String → Except ConfigFault α} (place : String)
    (same : ∀ a, f sec s key = .ok a → f (sec.moved place) s key = .ok a) :
    LoadOr.Echoes Eq (sec.fetch key f) ((sec.moved place).fetch key f) s := by
  intro l l₁ a done l'
  rw [fetch_run] at done
  rw [fetch_run, same a (congrArg Prod.fst done)]
  exact ⟨a, _, rfl, rfl⟩

theorem checkAt_ok_iff (place : String) (checks : List (Check α)) (a : α) :
    checkAt place checks a = .ok () ↔ Check.run checks a = .ok () := by
  unfold checkAt
  cases Check.run checks a with
  | ok _ => simp
  | error cause => simp

section Fields

variable [Typed α]

theorem getChecked_nil : sec.getChecked (α := α) s key [] = sec.get s key := by
  unfold getChecked
  cases sec.get (α := α) s key with
  | error fault => rfl
  | ok found => cases found <;> rfl

theorem get_moved (place : String) {found : Option α} (done : sec.get s key = .ok found) :
    (sec.moved place).get s key = .ok found := by
  have field : (sec.moved place).field? key = sec.field? key := rfl
  have resolved (v : Value) : (sec.moved place).resolve s v = sec.resolve s v := rfl
  unfold get at done ⊢
  simp only [field, resolved]
  split at done
  · exact done
  · split at done
    · exact done
    · cases done

theorem getChecked_moved {checks : List (Check α)} (place : String) {found : Option α}
    (done : sec.getChecked s key checks = .ok found) :
    (sec.moved place).getChecked s key checks = .ok found := by
  obtain ⟨read, got, rest⟩ := ok_of_bind done
  unfold getChecked
  rw [get_moved place got]
  cases read with
  | none => exact rest
  | some a =>
    obtain ⟨_, checked, rest⟩ := ok_of_bind rest
    rw [checkAt_ok_iff] at checked
    rw [← checkAt_ok_iff ((sec.moved place).placeOf key)] at checked
    change (checkAt ((sec.moved place).placeOf key) checks a >>= _) = _
    rw [checked]
    exact rest

theorem require_moved {checks : List (Check α)} (place : String) {a : α}
    (done : sec.require s key checks = .ok a) :
    (sec.moved place).require s key checks = .ok a := by
  obtain ⟨found, read, rest⟩ := ok_of_bind done
  unfold require
  rw [getChecked_moved place read]
  cases found with
  | none => cases rest
  | some a => exact rest

theorem getChecked_env (blind : ∀ s s' v, Typed.ofValue (α := α) s v = Typed.ofValue s' v)
    {s' : Surroundings} (env : s'.env = s.env) (checks : List (Check α)) :
    sec.getChecked s' key checks = sec.getChecked s key checks := by
  have got : sec.get (α := α) s' key = sec.get s key := by
    simp only [get, resolve, env, blind s' s]
  simp only [getChecked, got]

theorem require_env (blind : ∀ s s' v, Typed.ofValue (α := α) s v = Typed.ofValue s' v)
    {s' : Surroundings} (env : s'.env = s.env) (checks : List (Check α)) :
    sec.require s' key checks = sec.require s key checks := by
  simp only [require, getChecked_env blind env]

end Fields

end Section

namespace Reading

variable {τ : Type}

theorem foldlM_next_of_fault {r : Reading τ} {fault : ConfigFault} (failed : r.fault = some fault)
    (steps : List (Step τ)) : steps.foldlM next r = pure r := by
  induction steps with
  | nil => rfl
  | cons step steps ih => rw [List.foldlM_cons, next_of_fault failed, pure_bind, ih]

theorem next_start_run (sec : Section) (targets : τ) (step : Step τ) (s : Surroundings)
    (l : Loading) :
    LoadOr.runOn ((start sec targets).next step) s l =
      match LoadOr.runOn (step sec targets) s l with
      | (.ok t, l) => (.ok ⟨sec, t, none⟩, l)
      | (.error fault, l) => (.ok ⟨sec, targets, some fault⟩, l) := by
  unfold next start
  simp only
  rw [LoadOr.runOn_bind, LoadOr.runOn_tryCatch, LoadOr.runOn_bind]
  rcases LoadOr.runOn (step sec targets) s l with ⟨r, l⟩
  cases r <;> rfl

-- Behind a fault nothing is done any more, so that it may as well be thrown.
theorem run_eq_foldlM (sec : Section) (targets : τ) (steps : List (Step τ)) :
    run sec targets steps = steps.foldlM (fun t step => step sec t) targets := by
  induction steps generalizing targets with
  | nil => rfl
  | cons step steps ih =>
    funext s
    funext l
    change LoadOr.runOn (run sec targets (step :: steps)) s l = LoadOr.runOn _ s l
    rw [run, List.foldlM_cons, bind_assoc, LoadOr.runOn_bind, LoadOr.runOn_bind,
      next_start_run]
    rcases LoadOr.runOn (step sec targets) s l with ⟨r, l⟩
    cases r with
    | ok t => exact congrFun (congrFun (ih t) s) l
    | error fault =>
      have failed : (⟨sec, targets, some fault⟩ : Reading τ).fault = some fault := rfl
      simp only [foldlM_next_of_fault failed]
      rfl

end Reading

namespace ComponentSpec

def moved (spec : ComponentSpec) (place : String) : ComponentSpec :=
  { spec with config := spec.config.moved place }

def Elsewhere (spec spec' : ComponentSpec) : Prop := ∃ place, spec' = spec.moved place

theorem Elsewhere.refl (spec : ComponentSpec) : spec.Elsewhere spec := ⟨spec.config.context, rfl⟩

structure Placeless (step : Step ComponentSpec) : Prop where
  accounts : ∀ sec t, (step sec t).Accounts
  echoes : ∀ (sec : Section) (place : String) t t' s, Elsewhere t t' →
    LoadOr.Echoes Elsewhere (step sec t) (step (sec.moved place) t') s

section Steps

variable {α : Type} [Typed α]

theorem placeless_readRequired (key : String) (set : α → ComponentSpec → ComponentSpec)
    (checks : List (Check α)) (blind : ∀ s s' v, Typed.ofValue (α := α) s v = Typed.ofValue s' v)
    (apart : ∀ a t place, set a (moved t place) = moved (set a t) place) :
    Placeless (Step.readRequired key set checks) := by
  refine ⟨fun sec t => ?_, ?_⟩
  · exact .bind (Section.fetch_accounts fun s s' env => Section.require_env blind env checks)
      fun a => .pure _
  · rintro sec place t _ s ⟨other, rfl⟩
    refine .bind (Section.fetch_echoes place fun a => Section.require_moved place) ?_
    rintro a _ rfl
    exact .pure ⟨other, apart a t other⟩

theorem placeless_readField (key : String) (set : α → ComponentSpec → ComponentSpec)
    (checks : List (Check α)) (blind : ∀ s s' v, Typed.ofValue (α := α) s v = Typed.ofValue s' v)
    (apart : ∀ a t place, set a (moved t place) = moved (set a t) place) :
    Placeless (Step.readField key set checks) := by
  refine ⟨fun sec t => ?_, ?_⟩
  · refine .bind (Section.fetch_accounts fun s s' env => Section.getChecked_env blind env checks)
      fun found => ?_
    cases found with
    | none => exact .pure _
    | some a => exact .pure _
  · rintro sec place t _ s ⟨other, rfl⟩
    refine .bind (Section.fetch_echoes place fun a => Section.getChecked_moved place) ?_
    rintro found _ rfl
    cases found with
    | none => exact .pure ⟨other, rfl⟩
    | some a => exact .pure ⟨other, apart a t other⟩

end Steps

theorem placeless_config :
    Placeless (Step.subsection "config" fun config t => { t with config }) := by
  refine ⟨fun sec t => ?_, ?_⟩
  · exact .bind (Section.build_accounts _ sec.table includeLimit _ sec.base) fun config => .pure _
  · rintro sec place t _ s ⟨other, rfl⟩
    have built := Section.build_echoes (sec.placeOf "config") ((sec.moved place).placeOf "config")
      sec.table includeLimit ((sec.raw? "config").getD .null) sec.base s
    refine .bind built ?_
    rintro config _ ⟨there, rfl⟩
    exact .pure ⟨there, rfl⟩

theorem placeless_steps : ∀ step ∈ steps, Placeless step := by
  have name : Placeless _ := placeless_readRequired "name" (fun name t => { t with name })
    [Check.nonEmpty] (fun _ _ _ => rfl) fun _ _ _ => rfl
  have kind : Placeless _ := placeless_readRequired "type" (fun kind t => { t with kind })
    [Check.nonEmpty] (fun _ _ _ => rfl) fun _ _ _ => rfl
  have disabled : Placeless _ := placeless_readField "disabled"
    (fun disabled t => { t with disabled }) [] (fun _ _ _ => rfl) fun _ _ _ => rfl
  have hosts : Placeless _ := placeless_readField "hosts" (fun hosts t => { t with hosts }) []
    (fun _ _ _ => rfl) fun _ _ _ => rfl
  simp [steps, fieldSteps, name, kind, disabled, hosts, placeless_config]

theorem ofSection_accounts (entry : Section) : (ofSection entry).Accounts := by
  unfold ofSection
  rw [Reading.run_eq_foldlM]
  refine .bind (.foldlM (fun step member t => (placeless_steps step member).accounts entry t) _)
    fun t => .pure _

theorem ofSection_echoes (entry : Section) (place : String) (s : Surroundings) :
    LoadOr.Echoes Elsewhere (ofSection entry) (ofSection (entry.moved place)) s := by
  unfold ofSection
  rw [Reading.run_eq_foldlM, Reading.run_eq_foldlM]
  refine .bind (.foldlM (fun step member t t' => (placeless_steps step member).echoes entry place t
    t' s) ⟨_, rfl⟩) ?_
  rintro t _ ⟨there, rfl⟩
  exact .pure ⟨there, rfl⟩

end ComponentSpec

end Steward
