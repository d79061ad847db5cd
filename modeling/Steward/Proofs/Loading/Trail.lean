import Steward.Document.Load

set_option autoImplicit false

namespace Steward

structure Surroundings.AgreesOn (known : Path → Prop) (s s' : Surroundings) : Prop where
  here : s'.here = s.here
  env : s'.env = s.env
  stored : ∀ p, known p → s'.stored p = s.stored p

namespace Surroundings.AgreesOn

variable {known fewer : Path → Prop} {s s' : Surroundings}

theorem refl (known : Path → Prop) (s : Surroundings) : s.AgreesOn known s :=
  ⟨rfl, rfl, fun _ _ => rfl⟩

theorem mono (agrees : s.AgreesOn known s') (within : ∀ p, fewer p → known p) :
    s.AgreesOn fewer s' :=
  ⟨agrees.here, agrees.env, fun p member => agrees.stored p (within p member)⟩

end Surroundings.AgreesOn

inductive Mark
  | read (p : Path)
  | noted (records : List Record)
  | filed (p : Path)

def Loading.mark (l : Loading) : Mark → Loading
  | .read _ => l
  | .noted records => { l with notes := l.notes ++ records }
  | .filed p => { l with watch := l.watch.add p, notes := l.notes ++ l.watch.addNotes p }

def Loading.after (l : Loading) (trail : List Mark) : Loading := trail.foldl Loading.mark l

@[simp] theorem Loading.after_nil (l : Loading) : l.after [] = l := rfl

theorem Loading.after_append (l : Loading) (front back : List Mark) :
    l.after (front ++ back) = (l.after front).after back := by
  simp [after]

namespace LoadOr

variable {ε α β : Type} {s : Surroundings}

def Leaves (m : LoadOr ε α) (s : Surroundings) (r : Except ε α) (trail : List Mark) : Prop :=
  ∀ s', s.AgreesOn (.read · ∈ trail) s' → ∀ l, m.runOn s' l = (r, l.after trail)

/-- In these surroundings, and wherever the files that it reads are the same, the load ends with a
result and a trail of which `Q` holds. -/
def Ends (m : LoadOr ε α) (s : Surroundings) (Q : Except ε α → List Mark → Prop) : Prop :=
  ∃ r trail, m.Leaves s r trail ∧ Q r trail

section Leaves

variable {m : LoadOr ε α} {f : α → LoadOr ε β} {r : Except ε α} {trail front back : List Mark}

theorem Leaves.run (leaves : m.Leaves s r trail) (l : Loading) :
    m.runOn s l = (r, l.after trail) :=
  leaves s (.refl _ s) l

theorem Leaves.bind {a : α} {r : Except ε β} (first : m.Leaves s (.ok a) front)
    (rest : (f a).Leaves s r back) : (m >>= f).Leaves s r (front ++ back) := by
  intro s' agrees l
  have before := first s' (agrees.mono (by simp +contextual)) l
  have after := rest s' (agrees.mono (by simp +contextual)) (l.after front)
  rw [runOn_bind, before, Loading.after_append]
  exact after

theorem Leaves.bind_error {fault : ε} (first : m.Leaves s (.error fault) trail) :
    (m >>= f).Leaves s (.error fault) trail := by
  intro s' agrees l
  rw [runOn_bind, first s' agrees l]

theorem Leaves.of_run (run : ∀ s', s'.here = s.here → s'.env = s.env → ∀ l,
    m.runOn s' l = (r, l.after trail)) : m.Leaves s r trail :=
  fun s' agrees => run s' agrees.here agrees.env

end Leaves

theorem Leaves.pure (a : α) : Leaves (Pure.pure a : LoadOr ε α) s (.ok a) [] :=
  .of_run fun _ _ _ _ => rfl

theorem Leaves.throw (fault : ε) :
    Leaves (MonadExcept.throw fault : LoadOr ε α) s (.error fault) [] :=
  .of_run fun _ _ _ _ => rfl

theorem Leaves.lift (r : Except ε α) : Leaves (liftM r : LoadOr ε α) s r [] :=
  .of_run fun _ _ _ _ => rfl

theorem Leaves.look {f : Surroundings → LoadOr ε α} {r : Except ε α} {trail : List Mark}
    (same : ∀ s', s'.here = s.here → s'.env = s.env → f s' = f s)
    (rest : (f s).Leaves s r trail) : (read >>= f).Leaves s r trail := by
  intro s' agrees l
  rw [← rest s' agrees l, ← same s' agrees.here agrees.env]
  rfl

namespace Ends

variable {m : LoadOr ε α} {f : α → LoadOr ε β} {P Q : Except ε α → List Mark → Prop}

theorem of_leaves {r : Except ε α} {trail : List Mark} (leaves : m.Leaves s r trail)
    (holds : Q r trail) : m.Ends s Q :=
  ⟨r, trail, leaves, holds⟩

theorem mono (ends : m.Ends s P) (weaker : ∀ r trail, P r trail → Q r trail) : m.Ends s Q := by
  obtain ⟨r, trail, leaves, holds⟩ := ends
  exact ⟨r, trail, leaves, weaker r trail holds⟩

theorem bind {Q : Except ε β → List Mark → Prop} (first : m.Ends s P)
    (ok : ∀ a front, P (.ok a) front → (f a).Ends s fun r back => Q r (front ++ back))
    (error : ∀ fault trail, P (.error fault) trail → Q (.error fault) trail) :
    (m >>= f).Ends s Q := by
  obtain ⟨r, front, leaves, holds⟩ := first
  cases r with
  | ok a =>
    obtain ⟨r, back, rest, holds⟩ := ok a front holds
    exact ⟨r, front ++ back, leaves.bind rest, holds⟩
  | error fault => exact ⟨.error fault, front, leaves.bind_error, error fault front holds⟩

theorem pure {a : α} (holds : Q (.ok a) []) : Ends (Pure.pure a) s Q :=
  of_leaves (.pure a) holds

theorem throw {fault : ε} (holds : Q (.error fault) []) :
    Ends (MonadExcept.throw fault : LoadOr ε α) s Q :=
  of_leaves (.throw fault) holds

theorem look {f : Surroundings → LoadOr ε α}
    (same : ∀ s', s'.here = s.here → s'.env = s.env → f s' = f s) (rest : (f s).Ends s Q) :
    Ends (read >>= f) s Q := by
  obtain ⟨r, trail, leaves, holds⟩ := rest
  exact of_leaves (.look same leaves) holds

end Ends

end LoadOr

namespace Load

variable {s : Surroundings}

theorem note_leaves (records : List Record) : (note records).Leaves s (.ok ()) [.noted records] :=
  .of_run fun _ _ _ _ => rfl

theorem register_leaves (p : Path) :
    (register p).Leaves s (.ok ()) [.filed (s.absolute p)] := by
  refine .of_run fun s' here _ l => ?_
  have same : s.absolute p = s'.absolute p := by simp [Surroundings.absolute, here]
  rw [same]
  rfl

theorem directoryOf_leaves (p : Path) : (directoryOf p).Leaves s (.ok (s.directoryOf p)) [] :=
  .look (fun s' here _ => by simp [Surroundings.directoryOf, here]) (.pure _)

theorem resolve_leaves (t : PropertyTable) (raw : String) (base : Option Path) :
    (resolve t raw base).Leaves s (.ok (s.resolve (t.expand s.env raw) base))
      [.noted (t.expandNotes s.env raw)] := by
  refine .of_run fun s' here env l => ?_
  have same (text : String) : s.resolve text base = s'.resolve text base := by
    simp [Surroundings.resolve, Surroundings.absolute, here]
  rw [same, ← env]
  rfl

theorem readYaml_leaves (p : Path) :
    (readYaml p).Leaves s (readText p (s.stored p)) [.read p] := by
  intro s' agrees l
  rw [← agrees.stored p (by simp)]
  rfl

end Load

end Steward
