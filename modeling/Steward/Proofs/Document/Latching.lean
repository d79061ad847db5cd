import Steward.Proofs.Document.Placement

set_option autoImplicit false

namespace Steward

inductive Link (τ : Type) : Type 1
  | required (α : Type) [Typed α] (key : String) (checks : List (Check α))
  | optional (α : Type) [Typed α] (key : String)
  | readField {α : Type} [Typed α] (key : String) (set : α → τ → τ) (checks : List (Check α))
  | readRequired {α : Type} [Typed α] (key : String) (set : α → τ → τ) (checks : List (Check α))
  | readOptional {α : Type} [Typed α] (key : String) (set : Option α → τ → τ)
      (checks : List (Check α))
  | subsection (key : String) (set : Section → τ → τ)
  | list (key : String) (set : Listing → τ → τ)
  | ensure (test : τ → Except CheckFault Unit)
  | check {β : Type} (key : String) (value : τ → β) (checks : List (Check β))

namespace Link

variable {τ : Type}

def step : Link τ → Step τ
  | @required _ α _ key checks => Step.required α key checks
  | @optional _ α _ key => Step.optional α key
  | @readField _ _ _ key set checks => Step.readField key set checks
  | @readRequired _ _ _ key set checks => Step.readRequired key set checks
  | @readOptional _ _ _ key set checks => Step.readOptional key set checks
  | .subsection key set => Step.subsection key set
  | .list key set => Step.list key set
  | .ensure test => Step.ensure test
  | .check key value checks => Step.check key value checks

def Spares {β : Type} (look : τ → β) : Link τ → Prop
  | @readField _ _ _ _ set _ => ∀ a t, look (set a t) = look t
  | @readRequired _ _ _ _ set _ => ∀ a t, look (set a t) = look t
  | @readOptional _ _ _ _ set _ => ∀ found t, look (set found t) = look t
  | .subsection _ set => ∀ part t, look (set part t) = look t
  | .list _ set => ∀ part t, look (set part t) = look t
  | @required .. => True
  | @optional .. => True
  | .ensure _ => True
  | .check .. => True

end Link

def Loading.fetched (l : Loading) (sec : Section) (s : Surroundings) (key : String) : Loading :=
  l.mark (.noted (sec.getNotes s key))

section Links

variable {τ : Type} (sec : Section) (s : Surroundings)

inductive Link.Passes : Link τ → τ → Loading → τ → Loading → Prop
  | required {α : Type} [Typed α] {key : String} {checks : List (Check α)} {a : α} {t : τ}
      {l : Loading} (read : sec.require s key checks = .ok a) :
      Passes (.required α key checks) t l t (l.fetched sec s key)
  | optional {α : Type} [Typed α] {key : String} {found : Option α} {t : τ} {l : Loading}
      (read : sec.get s key = .ok found) :
      Passes (.optional α key) t l t (l.fetched sec s key)
  | found {α : Type} [Typed α] {key : String} {set : α → τ → τ} {checks : List (Check α)} {a : α}
      {t : τ} {l : Loading} (read : sec.getChecked s key checks = .ok (some a)) :
      Passes (.readField key set checks) t l (set a t) (l.fetched sec s key)
  | absent {α : Type} [Typed α] {key : String} {set : α → τ → τ} {checks : List (Check α)} {t : τ}
      {l : Loading} (read : sec.getChecked s key checks = .ok none) :
      Passes (.readField key set checks) t l t (l.fetched sec s key)
  | readRequired {α : Type} [Typed α] {key : String} {set : α → τ → τ} {checks : List (Check α)}
      {a : α} {t : τ} {l : Loading} (read : sec.require s key checks = .ok a) :
      Passes (.readRequired key set checks) t l (set a t) (l.fetched sec s key)
  | readOptional {α : Type} [Typed α] {key : String} {set : Option α → τ → τ}
      {checks : List (Check α)} {found : Option α} {t : τ} {l : Loading}
      (read : sec.getChecked s key checks = .ok found) :
      Passes (.readOptional key set checks) t l (set found t) (l.fetched sec s key)
  | subsection {key : String} {set : Section → τ → τ} {part : Section} {t : τ} {l l' : Loading}
      (read : LoadOr.runOn (sec.getSection key) s l = (.ok part, l')) :
      Passes (.subsection key set) t l (set part t) l'
  | list {key : String} {set : Listing → τ → τ} {part : Listing} {t : τ} {l l' : Loading}
      (read : LoadOr.runOn (sec.getList key) s l = (.ok part, l')) :
      Passes (.list key set) t l (set part t) l'
  | ensure {test : τ → Except CheckFault Unit} {t : τ} {l : Loading} (fine : test t = .ok ()) :
      Passes (.ensure test) t l t l
  | check {β : Type} {key : String} {value : τ → β} {checks : List (Check β)} {t : τ} {l : Loading}
      (fine : Check.run checks (value t) = .ok ()) :
      Passes (.check key value checks) t l t l

inductive Link.Fails : Link τ → τ → Loading → ConfigFault → Loading → Prop
  | required {α : Type} [Typed α] {key : String} {checks : List (Check α)} {fault : ConfigFault}
      {t : τ} {l : Loading} (read : sec.require s key checks = .error fault) :
      Fails (.required α key checks) t l fault (l.fetched sec s key)
  | optional {α : Type} [Typed α] {key : String} {fault : ConfigFault} {t : τ} {l : Loading}
      (read : sec.get (α := α) s key = .error fault) :
      Fails (.optional α key) t l fault (l.fetched sec s key)
  | readField {α : Type} [Typed α] {key : String} {set : α → τ → τ} {checks : List (Check α)}
      {fault : ConfigFault} {t : τ} {l : Loading}
      (read : sec.getChecked s key checks = .error fault) :
      Fails (.readField key set checks) t l fault (l.fetched sec s key)
  | readRequired {α : Type} [Typed α] {key : String} {set : α → τ → τ} {checks : List (Check α)}
      {fault : ConfigFault} {t : τ} {l : Loading} (read : sec.require s key checks = .error fault) :
      Fails (.readRequired key set checks) t l fault (l.fetched sec s key)
  | readOptional {α : Type} [Typed α] {key : String} {set : Option α → τ → τ}
      {checks : List (Check α)} {fault : ConfigFault} {t : τ} {l : Loading}
      (read : sec.getChecked s key checks = .error fault) :
      Fails (.readOptional key set checks) t l fault (l.fetched sec s key)
  | subsection {key : String} {set : Section → τ → τ} {fault : ConfigFault} {t : τ}
      {l l' : Loading} (read : LoadOr.runOn (sec.getSection key) s l = (.error fault, l')) :
      Fails (.subsection key set) t l fault l'
  | list {key : String} {set : Listing → τ → τ} {fault : ConfigFault} {t : τ} {l l' : Loading}
      (read : LoadOr.runOn (sec.getList key) s l = (.error fault, l')) :
      Fails (.list key set) t l fault l'
  | ensure {test : τ → Except CheckFault Unit} {cause : CheckFault} {t : τ} {l : Loading}
      (refused : test t = .error cause) :
      Fails (.ensure test) t l (.refused sec.context cause) l
  | check {β : Type} {key : String} {value : τ → β} {checks : List (Check β)} {cause : CheckFault}
      {t : τ} {l : Loading} (refused : Check.run checks (value t) = .error cause) :
      Fails (.check key value checks) t l (.refused (sec.placeOf key) cause) l

inductive Link.Course : List (Link τ) → τ → Loading → τ → Loading → Prop
  | done {t : τ} {l : Loading} : Course [] t l t l
  | next {link : Link τ} {links : List (Link τ)} {t t₁ t₂ : τ} {l l₁ l₂ : Loading}
      (passes : link.Passes sec s t l t₁ l₁) (rest : Course links t₁ l₁ t₂ l₂) :
      Course (link :: links) t l t₂ l₂

end Links

namespace Link

variable {τ : Type} {sec : Section} {s : Surroundings} {link : Link τ} {links : List (Link τ)}
  {t t' : τ} {l l' : Loading} {fault : ConfigFault}

theorem fetch_bind_ok {α : Type} {key : String}
    {f : Section → Surroundings → String → Except ConfigFault α} {a : α}
    (read : f sec s key = .ok a) (rest : α → Load τ) :
    LoadOr.runOn (sec.fetch key f >>= rest) s l =
      LoadOr.runOn (rest a) s (l.fetched sec s key) := by
  rw [LoadOr.runOn_bind, Section.fetch_run, read]
  rfl

theorem fetch_bind_error {α : Type} {key : String}
    {f : Section → Surroundings → String → Except ConfigFault α}
    (read : f sec s key = .error fault) (rest : α → Load τ) :
    LoadOr.runOn (sec.fetch key f >>= rest) s l = (.error fault, l.fetched sec s key) := by
  rw [LoadOr.runOn_bind, Section.fetch_run, read]
  rfl

theorem Passes.run (passes : link.Passes sec s t l t' l') :
    LoadOr.runOn (link.step sec t) s l = (.ok t', l') := by
  cases passes with
  | required read => exact fetch_bind_ok read _
  | optional read => exact fetch_bind_ok read _
  | found read =>
    exact fetch_bind_ok (f := fun sec s key => sec.getChecked s key _) read _
  | absent read =>
    exact fetch_bind_ok (f := fun sec s key => sec.getChecked s key _) read _
  | readRequired read => exact fetch_bind_ok read _
  | readOptional read => exact fetch_bind_ok read _
  | subsection read =>
    unfold step Step.subsection
    rw [LoadOr.runOn_bind, read]
    rfl
  | list read =>
    unfold step Step.list
    rw [LoadOr.runOn_bind, read]
    rfl
  | ensure fine =>
    simp only [step, Step.ensure, fine]
    rfl
  | check fine =>
    simp only [step, Step.check, fine]
    rfl

theorem Fails.run (fails : link.Fails sec s t l fault l') :
    LoadOr.runOn (link.step sec t) s l = (.error fault, l') := by
  cases fails with
  | required read => exact fetch_bind_error read _
  | optional read => exact fetch_bind_error read _
  | readField read => exact fetch_bind_error read _
  | readRequired read => exact fetch_bind_error read _
  | readOptional read => exact fetch_bind_error read _
  | subsection read =>
    unfold step Step.subsection
    rw [LoadOr.runOn_bind, read]
  | list read =>
    unfold step Step.list
    rw [LoadOr.runOn_bind, read]
  | ensure refused =>
    simp only [step, Step.ensure, refused]
    rfl
  | check refused =>
    simp only [step, Step.check, refused]
    rfl

theorem passes_or_fails (link : Link τ) (sec : Section) (s : Surroundings) (t : τ) (l : Loading) :
    (∃ t' l', link.Passes sec s t l t' l') ∨ ∃ fault l', link.Fails sec s t l fault l' := by
  cases link with
  | required α key checks =>
    cases read : sec.require s key checks with
    | ok a => exact .inl ⟨_, _, .required read⟩
    | error fault => exact .inr ⟨_, _, .required read⟩
  | optional α key =>
    cases read : sec.get (α := α) s key with
    | ok found => exact .inl ⟨_, _, .optional read⟩
    | error fault => exact .inr ⟨_, _, .optional read⟩
  | readField key set checks =>
    cases read : sec.getChecked s key checks with
    | ok found =>
      cases found with
      | none => exact .inl ⟨_, _, .absent read⟩
      | some a => exact .inl ⟨_, _, .found read⟩
    | error fault => exact .inr ⟨_, _, .readField read⟩
  | readRequired key set checks =>
    cases read : sec.require s key checks with
    | ok a => exact .inl ⟨_, _, .readRequired read⟩
    | error fault => exact .inr ⟨_, _, .readRequired read⟩
  | readOptional key set checks =>
    cases read : sec.getChecked s key checks with
    | ok found => exact .inl ⟨_, _, .readOptional read⟩
    | error fault => exact .inr ⟨_, _, .readOptional read⟩
  | subsection key set =>
    rcases read : LoadOr.runOn (sec.getSection key) s l with ⟨part | fault, l'⟩
    · exact .inr ⟨_, _, .subsection read⟩
    · exact .inl ⟨_, _, .subsection read⟩
  | list key set =>
    rcases read : LoadOr.runOn (sec.getList key) s l with ⟨part | fault, l'⟩
    · exact .inr ⟨_, _, .list read⟩
    · exact .inl ⟨_, _, .list read⟩
  | ensure test =>
    cases asked : test t with
    | ok _ => exact .inl ⟨_, _, .ensure asked⟩
    | error cause => exact .inr ⟨_, _, .ensure asked⟩
  | check key value checks =>
    cases asked : Check.run checks (value t) with
    | ok _ => exact .inl ⟨_, _, .check asked⟩
    | error cause => exact .inr ⟨_, _, .check asked⟩

theorem Passes.spared {β : Type} {look : τ → β} (passes : link.Passes sec s t l t' l')
    (spares : link.Spares look) : look t' = look t := by
  cases passes with
  | found => exact spares _ t
  | readRequired => exact spares _ t
  | readOptional => exact spares _ t
  | subsection => exact spares _ t
  | list => exact spares _ t
  | _ => rfl

theorem Course.spared {β : Type} {look : τ → β} (course : Course sec s links t l t' l')
    (spares : ∀ link ∈ links, link.Spares look) : look t' = look t := by
  induction course with
  | done => rfl
  | next passes rest ih =>
    obtain ⟨first, later⟩ := List.forall_mem_cons.mp spares
    exact (ih later).trans (passes.spared first)

theorem Course.split {front back : List (Link τ)}
    (course : Course sec s (front ++ back) t l t' l') :
    ∃ t₁ l₁, Course sec s front t l t₁ l₁ ∧ Course sec s back t₁ l₁ t' l' := by
  induction front generalizing t l with
  | nil => exact ⟨t, l, .done, course⟩
  | cons link front ih =>
    cases course with
    | next passes rest =>
      obtain ⟨t₁, l₁, first, later⟩ := ih rest
      exact ⟨t₁, l₁, .next passes first, later⟩

/-- What the targets hold after links that have succeeded: each part is what the last link that
writes to it has left there. -/
structure Kept (sec : Section) (s : Surroundings) (before : List (Link τ)) (t : τ) (l : Loading)
    (t' : τ) : Prop where
  untouched : ∀ {β : Type} (look : τ → β), (∀ link ∈ before, link.Spares look) → look t' = look t
  written : ∀ {β : Type} (look : τ → β) (front : List (Link τ)) (link : Link τ)
    (back : List (Link τ)), before = front ++ link :: back → (∀ link ∈ back, link.Spares look) →
    ∃ t₁ l₁ t₂ l₂, Course sec s front t l t₁ l₁ ∧ link.Passes sec s t₁ l₁ t₂ l₂ ∧
      look t' = look t₂

theorem Course.kept (course : Course sec s links t l t' l') : Kept sec s links t l t' := by
  refine ⟨fun _ spares => course.spared spares, ?_⟩
  rintro β look front link back rfl spares
  obtain ⟨t₁, l₁, first, later⟩ := course.split
  cases later with
  | @next _ _ _ t₂ _ _ l₂ _ passes rest =>
    exact ⟨t₁, l₁, t₂, l₂, first, passes, rest.spared spares⟩

theorem course_or_fails (links : List (Link τ)) (sec : Section) (s : Surroundings) (t : τ)
    (l : Loading) :
    (∃ t' l', Course sec s links t l t' l') ∨
      ∃ before failing later t' l₁ fault l', links = before ++ failing :: later ∧
        Course sec s before t l t' l₁ ∧ failing.Fails sec s t' l₁ fault l' := by
  induction links generalizing t l with
  | nil => exact .inl ⟨t, l, .done⟩
  | cons link links ih =>
    rcases passes_or_fails link sec s t l with ⟨t₁, l₁, passes⟩ | ⟨fault, l', fails⟩
    · rcases ih t₁ l₁ with ⟨t', l', course⟩ | ⟨before, failing, later, t', l₂, fault, l', parts,
        course, fails⟩
      · exact .inl ⟨t', l', .next passes course⟩
      · refine .inr ⟨link :: before, failing, later, t', l₂, fault, l', ?_, .next passes course,
          fails⟩
        rw [parts, List.cons_append]
    · exact .inr ⟨[], link, links, t, l, fault, l', rfl, .done, fails⟩

end Link

namespace Reading

open Link (Course)

variable {τ : Type} {sec : Section} {s : Surroundings} {links : List (Link τ)} {t t' : τ}
  {l l₁ l' : Loading}

theorem foldlM_course (course : Course sec s links t l t' l₁) (others : List (Step τ)) :
    LoadOr.runOn ((links.map Link.step ++ others).foldlM next (start sec t)) s l =
      LoadOr.runOn (others.foldlM next (start sec t')) s l₁ := by
  induction course with
  | done => rfl
  | next passes rest ih =>
    rw [List.map_cons, List.cons_append, List.foldlM_cons, LoadOr.runOn_bind, next_start_run,
      passes.run]
    exact ih

theorem foldlM_fails {failing : Link τ} {fault : ConfigFault}
    (fails : failing.Fails sec s t l fault l') (others : List (Step τ)) :
    LoadOr.runOn ((failing.step :: others).foldlM next (start sec t)) s l =
      (.ok ⟨sec, t, some fault⟩, l') := by
  have failed : (⟨sec, t, some fault⟩ : Reading τ).fault = some fault := rfl
  rw [List.foldlM_cons, LoadOr.runOn_bind, next_start_run, fails.run]
  simp only [foldlM_next_of_fault failed]
  rfl

theorem keeps_first_fault (sec : Section) (s : Surroundings) (links : List (Link τ)) (t : τ)
    (l : Loading) :
    ∃ r l', LoadOr.runOn ((links.map Link.step).foldlM next (start sec t)) s l = (.ok r, l') ∧
      LoadOr.runOn (run sec t (links.map Link.step)) s l = (r.finish, l') ∧
      ∃ before later l₁, links = before ++ later ∧ Course sec s before t l r.targets l₁ ∧
        Link.Kept sec s before t l r.targets ∧
        (later = [] ∧ l' = l₁ ∧ r.finish = .ok r.targets ∨
          ∃ failing rest fault, later = failing :: rest ∧
            failing.Fails sec s r.targets l₁ fault l' ∧ r.finish = .error fault ∧
            ∀ others : List (Step τ),
              LoadOr.runOn ((before.map Link.step ++ failing.step :: others).foldlM next
                (start sec t)) s l = (.ok r, l')) := by
  have finished {r : Reading τ} {l' : Loading}
      (ends : LoadOr.runOn ((links.map Link.step).foldlM next (start sec t)) s l = (.ok r, l')) :
      LoadOr.runOn (run sec t (links.map Link.step)) s l = (r.finish, l') := by
    unfold run
    rw [LoadOr.runOn_bind, ends]
    rfl
  rcases Link.course_or_fails links sec s t l with ⟨t', l', course⟩ | ⟨before, failing, rest, t',
    l₁, fault, l', rfl, course, fails⟩
  · have ends := foldlM_course course []
    rw [List.append_nil] at ends
    exact ⟨_, l', ends, finished ends, links, [], l', by simp, course, course.kept,
      .inl ⟨rfl, rfl, rfl⟩⟩
  · have stops (others : List (Step τ)) :=
      (foldlM_course course _).trans (foldlM_fails fails others)
    have ends := stops (rest.map Link.step)
    rw [← List.map_cons, ← List.map_append] at ends
    exact ⟨_, l', ends, finished ends, before, failing :: rest, l₁, rfl, course, course.kept,
      .inr ⟨failing, rest, fault, rfl, fails, rfl, stops⟩⟩

-- The name is not read, since the port in front of it is no number.
theorem port_refused_first :
    let sec : Section :=
      { document := [(.string "port", .string "abc"), (.string "name", .string "api")] }
    let s := Surroundings.ofFiles []
    let links : List (Link (String × Bool)) := [.optional Int "port",
      .readRequired "name" (fun name t => (name, t.2)) [Check.nonEmpty],
      .ensure fun t => if t.2 then .ok () else .error .blank]
    ∃ r l', LoadOr.runOn ((links.map Link.step).foldlM next (start sec ("unchanged", false))) s {} =
        (.ok r, l') ∧
      r.targets = ("unchanged", false) ∧
      ∃ fault, r.finish = .error fault ∧ sec.get (α := Int) s "port" = .error fault := by
  intro sec s links
  obtain ⟨r, l', ends, -, before, later, l₁, parts, course, kept, outcome⟩ :=
    keeps_first_fault sec s links ("unchanged", false) {}
  cases before with
  | cons link before =>
    obtain ⟨rfl, -⟩ := List.cons.inj parts
    cases course with
    | next passes rest =>
      cases passes with
      | optional read =>
        have refused : (sec.get (α := Int) s "port").isOk = false := by decide +kernel
        rw [read] at refused
        cases refused
  | nil =>
    have untouched : r.targets = ("unchanged", false) := kept.untouched id (by simp)
    rcases outcome with ⟨rfl, -, -⟩ | ⟨failing, rest, fault, rfl, fails, failed, -⟩
    · cases (List.cons_ne_nil _ _ parts)
    · obtain ⟨rfl, -⟩ := List.cons.inj parts
      cases fails with
      | optional read => exact ⟨r, _, ends, untouched, fault, failed, read⟩

end Reading

end Steward
