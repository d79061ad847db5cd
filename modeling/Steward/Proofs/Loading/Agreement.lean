import Steward.Proofs.Loading.Steadiness

set_option autoImplicit false

namespace Steward

def filesOf (trail : List Mark) : List Path :=
  trail.filterMap fun
    | .filed p => some p
    | _ => none

@[simp] theorem filesOf_append (front back : List Mark) :
    filesOf (front ++ back) = filesOf front ++ filesOf back :=
  List.filterMap_append

theorem Loading.watch_after (l : Loading) (trail : List Mark) :
    (l.after trail).watch = (filesOf trail).foldl Watch.add l.watch := by
  induction trail generalizing l with
  | nil => rfl
  | cons mark trail ih =>
    refine (ih (l.mark mark)).trans ?_
    cases mark <;> rfl

namespace LoadOr

variable {ε α β γ δ : Type}

inductive Comes (R : α → β → Prop) : Except ε α → Except ε β → Prop
  | ok {a : α} {b : β} (goes : R a b) : Comes R (.ok a) (.ok b)
  | error (fault : ε) : Comes R (.error fault) (.error fault)

theorem Comes.eq {r r' : Except ε α} (comes : Comes Eq r r') : r = r' := by
  cases comes with
  | ok goes => rw [goes]
  | error fault => rfl

def Agrees (R : α → β → Prop) (m : LoadOr ε α) (m' : LoadOr ε β) (s : Surroundings) : Prop :=
  ∃ r r' trail trail', m.Leaves s r trail ∧ m'.Leaves s r' trail' ∧ Comes R r r' ∧
    filesOf trail = filesOf trail'

namespace Agrees

variable {s : Surroundings} {R : α → β → Prop} {Q : γ → δ → Prop} {m : LoadOr ε α}
  {m' : LoadOr ε β} {f : α → LoadOr ε γ} {f' : β → LoadOr ε δ}

theorem run (agrees : Agrees R m m' s) (l : Loading) :
    Comes R (m.runOn s l).1 (m'.runOn s l).1 ∧
      (m.runOn s l).2.watch = (m'.runOn s l).2.watch := by
  obtain ⟨r, r', trail, trail', leaves, leaves', comes, files⟩ := agrees
  rw [leaves.run l, leaves'.run l]
  exact ⟨comes, by rw [Loading.watch_after, Loading.watch_after, files]⟩

theorem pure {a : α} {b : β} (goes : R a b) :
    Agrees (ε := ε) R (Pure.pure a) (Pure.pure b) s :=
  ⟨_, _, _, _, .pure a, .pure b, .ok goes, rfl⟩

theorem throw (fault : ε) :
    Agrees R (MonadExcept.throw fault : LoadOr ε α) (MonadExcept.throw fault : LoadOr ε β) s :=
  ⟨_, _, _, _, .throw fault, .throw fault, .error fault, rfl⟩

theorem bind (first : Agrees R m m' s) (rest : ∀ a b, R a b → Agrees Q (f a) (f' b) s) :
    Agrees Q (m >>= f) (m' >>= f') s := by
  obtain ⟨r, r', front, front', leaves, leaves', comes, files⟩ := first
  cases comes with
  | error fault =>
    exact ⟨_, _, _, _, leaves.bind_error, leaves'.bind_error, .error fault, files⟩
  | ok goes =>
    obtain ⟨r, r', back, back', after, after', comes, more⟩ := rest _ _ goes
    exact ⟨r, r', _, _, leaves.bind after, leaves'.bind after', comes, by simp [files, more]⟩

theorem of_ends {R : α → α → Prop} (ends : m.Ends s fun r _ => ∀ a, r = .ok a → R a a) :
    Agrees R m m s := by
  obtain ⟨r, trail, leaves, holds⟩ := ends
  refine ⟨r, r, trail, trail, leaves, leaves, ?_, rfl⟩
  cases r with
  | ok a => exact .ok (holds a rfl)
  | error fault => exact .error fault

theorem ends {R : α → α → Prop} (agrees : Agrees R m m s) :
    m.Ends s fun r _ => ∀ a, r = .ok a → R a a := by
  obtain ⟨r, r', trail, trail', leaves, leaves', comes, -⟩ := agrees
  have same : r = r' := leaves.outcome.symm.trans leaves'.outcome
  refine ⟨r, trail, leaves, ?_⟩
  rintro a rfl
  cases comes with
  | ok goes =>
    cases same
    exact goes

theorem after {f : α → LoadOr ε γ} {f' : α → LoadOr ε δ} {r : Except ε α} {trail : List Mark}
    (leaves : m.Leaves s r trail) (rest : ∀ a, r = .ok a → Agrees Q (f a) (f' a) s) :
    Agrees Q (m >>= f) (m >>= f') s := by
  refine bind (R := fun a b => r = .ok a ∧ a = b) (of_ends ?_) ?_
  · exact ⟨r, trail, leaves, fun a same => ⟨same, rfl⟩⟩
  · rintro a _ ⟨same, rfl⟩
    exact rest a same

theorem foldlM {R : α → β → Prop} {f : α → γ → LoadOr ε α} {f' : β → γ → LoadOr ε β}
    {items : List γ} (each : ∀ a b c, R a b → Agrees R (f a c) (f' b c) s) {a : α} {b : β}
    (start : R a b) : Agrees R (items.foldlM f a) (items.foldlM f' b) s := by
  induction items generalizing a b with
  | nil => exact pure start
  | cons c items ih =>
    rw [List.foldlM_cons, List.foldlM_cons]
    exact (each a b c start).bind fun a b goes => ih goes

end Agrees

end LoadOr

theorem Load.notes_agree {γ δ : Type} {Q : γ → δ → Prop} {s : Surroundings} {m : Load γ}
    {m' : Load δ} (records records' : List Record) (rest : LoadOr.Agrees Q m m' s) :
    LoadOr.Agrees Q (do note records; m) (do note records'; m') s :=
  LoadOr.Agrees.bind (R := fun _ _ => True)
    ⟨_, _, _, _, note_leaves records, note_leaves records', .ok True.intro, rfl⟩ fun _ _ _ => rest

end Steward
