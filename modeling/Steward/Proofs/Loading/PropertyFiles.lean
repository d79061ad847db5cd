import Steward.Proofs.Loading.Trail
import Steward.Property.Block

set_option autoImplicit false

namespace Steward

variable {s : Surroundings}

namespace LoadOr

variable {ε α β : Type}

def Yields (m : LoadOr ε α) (s : Surroundings) (front : List Mark) (Q : α → List Mark → Prop) :
    Prop :=
  m.Ends s fun r back => ∀ a, r = .ok a → Q a (front ++ back)

namespace Yields

variable {m : LoadOr ε α} {f : α → LoadOr ε β} {front : List Mark} {P : α → List Mark → Prop}
  {Q : β → List Mark → Prop}

theorem of_leaves {r : Except ε α} {back : List Mark} (leaves : m.Leaves s r back)
    (holds : ∀ a, P a (front ++ back)) : m.Yields s front P :=
  Ends.of_leaves leaves fun a _ => holds a

theorem pure {a : α} (holds : P a front) : Yields (Pure.pure a : LoadOr ε α) s front P :=
  Ends.pure fun _ same => by cases same; simpa using holds

theorem throw {fault : ε} : Yields (MonadExcept.throw fault : LoadOr ε α) s front P :=
  Ends.throw nofun

theorem bind (first : m.Yields s front P)
    (rest : ∀ a trail, P a trail → (f a).Yields s trail Q) : (m >>= f).Yields s front Q := by
  refine Ends.bind first ?_ ?_
  · intro a back holds
    refine (rest a _ (holds a rfl)).mono fun r trail holds b same => ?_
    simpa using holds b same
  · intro fault trail _ b same
    cases same

theorem after_ok {r : Except ε α} {back : List Mark} (leaves : m.Leaves s r back)
    (rest : ∀ a, r = .ok a → (f a).Yields s (front ++ back) Q) : (m >>= f).Yields s front Q := by
  refine bind (P := fun a trail => r = .ok a ∧ trail = front ++ back)
    (Ends.of_leaves leaves fun a same => ⟨same, rfl⟩) ?_
  rintro a _ ⟨same, rfl⟩
  exact rest a same

theorem behind {a : α} {back : List Mark} (leaves : m.Leaves s (.ok a) back)
    (rest : (f a).Yields s (front ++ back) Q) : (m >>= f).Yields s front Q := by
  refine after_ok leaves fun b same => ?_
  cases same
  exact rest

theorem after {r : Except ε α} {back : List Mark} (leaves : m.Leaves s r back)
    (rest : ∀ a, (f a).Yields s (front ++ back) Q) : (m >>= f).Yields s front Q :=
  after_ok leaves fun a _ => rest a

theorem look {f : Surroundings → LoadOr ε α}
    (same : ∀ s', s'.here = s.here → s'.env = s.env → f s' = f s)
    (rest : (f s).Yields s front P) : Yields (read >>= f) s front P :=
  Ends.look same rest

theorem foldlM {f : β → α → LoadOr ε β} {items : List α} {b : β}
    (each : ∀ b trail, ∀ a ∈ items, Q b trail → (f b a).Yields s trail Q) (start : Q b front) :
    (items.foldlM f b).Yields s front Q := by
  induction items generalizing b front with
  | nil => exact .pure start
  | cons a items ih =>
    rw [List.foldlM_cons]
    refine (each b front a (by simp) start).bind fun b trail holds => ih ?_ holds
    exact fun b trail c member => each b trail c (by simp [member])

end Yields

end LoadOr

open LoadOr (Yields)

def Listed (files : List Path) (trail : List Mark) : Prop := ∀ p, .read p ∈ trail → p ∈ files

namespace Listed

variable {files : List Path} {front back trail : List Mark}

@[simp] theorem nil (files : List Path) : Listed files [] := by
  simp [Listed]

@[simp] theorem noted (records : List Record) :
    Listed files (.noted records :: trail) ↔ Listed files trail := by
  simp [Listed]

@[simp] theorem read (p : Path) :
    Listed files (.read p :: trail) ↔ p ∈ files ∧ Listed files trail := by
  simp [Listed]

@[simp] theorem append_iff :
    Listed files (front ++ back) ↔ Listed files front ∧ Listed files back := by
  simp [Listed, or_imp, forall_and]

theorem more (listed : Listed files trail) (others : List Path) :
    Listed (files ++ others) trail :=
  fun p member => List.mem_append_left others (listed p member)

end Listed

namespace PropertyBlock

-- The induction is on the depth; what was read before the file stays listed in front of it.
theorem readFile_yields (left : Nat) (p : Path) {files : List Path} {front : List Mark}
    (listed : Listed files front) :
    (readFile left p).Yields s front fun result trail => Listed (files ++ result.2) trail := by
  induction left generalizing p files front with
  | zero => exact .throw
  | succ left ih =>
    unfold readFile
    refine .after (Load.note_leaves _) fun _ => ?_
    refine .after (Load.readYaml_leaves p) fun v => ?_
    refine .after (.lift _) fun entries => ?_
    refine .after (Load.directoryOf_leaves p) fun dir => ?_
    refine .bind (P := fun acc trail => Listed (files ++ acc.2) trail)
      (.foldlM (fun acc trail entry _ listed => ?_) (by simpa using listed.more [p])) ?_
    · refine .after (.lift _) fun paths =>
        .foldlM (fun acc trail path _ listed => ?_) (by simpa using listed)
      refine .look (fun s' here _ => ?_) ?_
      · simp [Surroundings.resolve, Surroundings.absolute, here]
      · refine (ih _ listed).bind fun result trail listed => .pure ?_
        simpa using listed
    · intro acc trail listed
      exact .pure listed

namespace Grow

variable {α β : Type}

theorem runFrom_bind (m : Grow α) (f : α → Grow β) (t : PropertyTable) :
    (m >>= f).runFrom t = (do
      match ← m.runFrom t with
      | (.ok a, t) => (f a).runFrom t
      | (.error fault, t) => return (.error fault, t)) := by
  funext s l
  change (Except.ok (ExceptT.bindCont (fun a => f a s) (m s t l).1.1 (m s t l).1.2 (m s t l).2).1,
    (ExceptT.bindCont (fun a => f a s) (m s t l).1.1 (m s t l).1.2 (m s t l).2).2) =
      LoadOr.runOn _ s l
  have ran : LoadOr.runOn (m.runFrom t) s l = (.ok (m s t l).1, (m s t l).2) := rfl
  rw [LoadOr.runOn_bind, ran]
  rcases m s t l with ⟨⟨r, t'⟩, l'⟩
  cases r <;> rfl

def Yields (m : Grow α) (s : Surroundings) (front : List Mark) (Q : α → List Mark → Prop) :
    Prop :=
  ∀ t, (m.runFrom t).Yields s front fun result trail => ∀ a, result.1 = .ok a → Q a trail

namespace Yields

variable {m : Grow α} {f : α → Grow β} {front : List Mark} {P : α → List Mark → Prop}
  {Q : β → List Mark → Prop}

theorem of_run {r : Except ConfigFault α} {f : PropertyTable → PropertyTable}
    (run : ∀ t, m.runFrom t = pure (r, f t)) (holds : ∀ a, r = .ok a → P a front) :
    m.Yields s front P := by
  intro t
  rw [run]
  exact .pure holds

theorem pure {a : α} (holds : P a front) : Yields (Pure.pure a : Grow α) s front P :=
  of_run (f := id) (fun _ => rfl) fun _ same => by cases same; exact holds

theorem bind (first : m.Yields s front P)
    (rest : ∀ a trail, P a trail → (f a).Yields s trail Q) : (m >>= f).Yields s front Q := by
  intro t
  rw [runFrom_bind]
  refine (first t).bind fun result trail holds => ?_
  obtain ⟨r, t⟩ := result
  cases r with
  | ok a => exact rest a trail (holds a rfl) t
  | error fault => exact .pure nofun

theorem lift {r : Except ConfigFault α} (rest : ∀ a, (f a).Yields s front Q) :
    Yields (liftM r >>= f) s front Q := by
  refine bind (P := fun _ trail => trail = front) (of_run (r := r) (f := id) (fun _ => rfl)
    fun _ _ => rfl) ?_
  rintro a _ rfl
  exact rest a

theorem mono {P' : α → List Mark → Prop} (yields : m.Yields s front P)
    (weaker : ∀ a trail, P a trail → P' a trail) : m.Yields s front P' :=
  fun t => LoadOr.Ends.mono (yields t) fun _ _ holds result same a found =>
    weaker a _ (holds result same a found)

theorem get {f : PropertyTable → Grow β} (rest : ∀ t, (f t).Yields s front Q) :
    Yields (MonadState.get >>= f) s front Q :=
  fun t => rest t t

theorem change {f : Unit → Grow β} {g : PropertyTable → PropertyTable}
    (rest : (f ()).Yields s front Q) : Yields (modify g >>= f) s front Q :=
  fun t => rest (g t)

theorem ofLoad {m : Load α} (ends : LoadOr.Yields m s front P) :
    Yields (Grow.ofLoad m) s front P := by
  intro t
  obtain ⟨r, trail, leaves, holds⟩ := ends
  refine ⟨.ok (r, t), trail, fun s' agrees l => ?_, ?_⟩
  · have run := leaves s' agrees l
    change (Except.ok ((m.runOn s' l).1, t), (m.runOn s' l).2) = _
    rw [Load.runOn, run]
  · rintro _ ⟨⟩
    exact holds

theorem after {γ : Type} {m : Load γ} {f : γ → Grow β} {r : Except ConfigFault γ}
    {back : List Mark} (leaves : m.Leaves s r back)
    (rest : ∀ a, (f a).Yields s (front ++ back) Q) : (Grow.ofLoad m >>= f).Yields s front Q := by
  refine bind (P := fun _ trail => trail = front ++ back) (ofLoad (.of_leaves leaves fun _ => rfl))
    ?_
  rintro a _ rfl
  exact rest a

theorem settle {f : Unit → Grow β}
    (rest : ∀ records, (f ()).Yields s (front ++ [.noted records]) Q) :
    Yields (Grow.settle >>= f) s front Q := by
  refine bind (P := fun _ trail => ∃ records, trail = front ++ [.noted records]) ?_ ?_
  · intro t
    refine ⟨.ok (.ok (), t.settle s.env), [.noted (t.settleNotes s.env)], ?_, ?_⟩
    · refine .of_run fun s' _ env l => ?_
      rw [← env]
      rfl
    · rintro _ ⟨⟩ _ ⟨⟩
      exact ⟨_, rfl⟩
  · rintro _ _ ⟨records, rfl⟩
    exact rest records

theorem mapM {γ : Type} {f : γ → Grow α} {items : List γ} {P : List α → List Mark → Prop}
    (each : ∀ done trail c, P done trail →
      (f c).Yields s trail fun a trail => P (done ++ [a]) trail)
    (start : P [] front) : Yields (items.mapM f) s front P := by
  have behind (done : List α) (holds : P done front) :
      Yields (items.mapM f) s front fun more trail => P (done ++ more) trail := by
    clear start
    induction items generalizing done front with
    | nil => exact .pure (by simpa using holds)
    | cons c items ih =>
      rw [List.mapM_cons]
      refine (each done front c holds).bind fun a trail holds => ?_
      refine (ih _ holds).bind fun more trail holds => .pure ?_
      simpa using holds
  simpa using behind [] start

end Yields

end Grow

theorem addInclude_yields (own : List String) (base : Option Path) (key : String) (value : Value)
    {files : List Path} {front : List Mark} (listed : Listed files front) :
    (addInclude own base key value).Yields s front fun more trail =>
      Listed (files ++ more) trail := by
  unfold addInclude
  refine .lift fun paths =>
    .bind (P := fun more trail => Listed (files ++ more.flatten) trail) ?_ ?_
  · refine .mapM ?_ (by simpa using listed)
    intro done trail path listed
    refine .get fun t => .after (Load.resolve_leaves t path base) fun p => ?_
    have listed : Listed (files ++ done.flatten)
        (trail ++ [.noted (t.expandNotes s.env path)]) := by
      simpa using listed
    refine (Grow.Yields.ofLoad (readFile_yields _ p listed)).bind fun result trail listed => ?_
    exact .change (.pure (by simpa using listed))
  · intro more trail listed
    exact .pure listed

theorem grow_yields (block : Entries) (base : Option Path) :
    (grow block base).Yields s [] Listed := by
  unfold grow
  refine .after (Load.note_leaves _) fun _ => .change (.settle fun records => ?_)
  split
  · exact .pure (by simp)
  · next includes _ =>
    refine .bind (P := fun more trail => Listed more.flatten trail) (.mapM ?_ (by simp)) ?_
    · intro done trail entry listed
      refine (addInclude_yields _ base entry.1 entry.2 listed).mono ?_
      simp
    · intro more trail listed
      exact .settle fun records => .pure (by simpa using listed)

theorem add_yields (t : PropertyTable) (block : Entries) (base : Option Path) :
    (add t block base).Yields s [] fun result trail => Listed result.2 trail := by
  unfold add
  refine (grow_yields block base t).bind fun result trail listed => ?_
  obtain ⟨r, t⟩ := result
  cases r with
  | ok files => exact .pure (listed files rfl)
  | error fault => exact .throw

end PropertyBlock

end Steward
