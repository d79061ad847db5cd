import Steward.Proofs.Document.Placement

set_option autoImplicit false

namespace Steward.LoadOr

variable {ε δ α β : Type} {s : Surroundings}

def outcome (m : LoadOr ε α) (s : Surroundings) : Except ε α := (m.runOn s {}).1

theorem Leaves.outcome {m : LoadOr ε α} {r : Except ε α} {trail : List Mark}
    (leaves : m.Leaves s r trail) : m.outcome s = r :=
  congrArg Prod.fst (leaves.run {})

theorem Yields.known {m : LoadOr ε α} {front : List Mark} {P : α → List Mark → Prop}
    (yields : m.Yields s front P) :
    m.Yields s front fun a trail => P a trail ∧ m.outcome s = .ok a := by
  obtain ⟨r, back, leaves, holds⟩ := yields
  exact ⟨r, back, leaves, fun a same => ⟨holds a same, leaves.outcome.trans same⟩⟩

def Steady (m : LoadOr ε α) (s : Surroundings) : Prop := ∀ l, (m.runOn s l).1 = m.outcome s

namespace Steady

variable {m : LoadOr ε α} {f : α → LoadOr ε β}

theorem of_eq {r : Except ε α} (same : ∀ l, (m.runOn s l).1 = r) : m.Steady s :=
  fun l => (same l).trans (same {}).symm

theorem mapFault (steady : m.Steady s) (g : ε → δ) : (mapFault g m).Steady s :=
  .of_eq fun l => congrArg (Except.mapError g) (steady l)

theorem run_bind (first : m.Steady s) (rest : ∀ a, (f a).Steady s) (l : Loading) :
    ((m >>= f).runOn s l).1 = m.outcome s >>= fun a => (f a).outcome s := by
  rw [runOn_bind, ← first l]
  rcases m.runOn s l with ⟨r, l'⟩
  cases r with
  | ok a => exact rest a l'
  | error fault => rfl

theorem bind (first : m.Steady s) (rest : ∀ a, (f a).Steady s) : (m >>= f).Steady s :=
  .of_eq fun l => run_bind first rest l

theorem outcome_bind (first : m.Steady s) (rest : ∀ a, (f a).Steady s) :
    (m >>= f).outcome s = m.outcome s >>= fun a => (f a).outcome s :=
  run_bind first rest {}

end Steady

theorem outcome_mapFault (m : LoadOr ε α) (g : ε → δ) :
    (mapFault g m).outcome s = (m.outcome s).mapError g :=
  rfl

end Steward.LoadOr

theorem Steward.Load.Accounts.steady {α : Type} {m : Load α} (accounts : m.Accounts)
    (s : Surroundings) : LoadOr.Steady m s := by
  obtain ⟨r, trail, obstacle, settles, -⟩ := accounts s
  have run := settles s (.refl _ s) fun _ _ _ => rfl
  exact .of_eq (r := r) fun l => congrArg Prod.fst (run l)
