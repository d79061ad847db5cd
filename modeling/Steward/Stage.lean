import Steward.Document.Load

set_option autoImplicit false

namespace Steward

structure Stage (ω : Type) where
  world : ω
  watch : Watch := .empty
  log : List Record := []
  deriving Inhabited

namespace Stage

variable {ω ν : Type}

def write (s : Stage ω) (records : List Record) : Stage ω := { s with log := s.log ++ records }

def loading (s : Stage ω) : Loading := { watch := s.watch, notes := s.log }

def within {α : Type} (part : ν → ω) (put : ω → ν → ν) (m : StateM (Stage ω) α) :
    StateM (Stage ν) α := fun s =>
  let (a, t) := m ⟨part s.world, s.watch, s.log⟩
  (a, ⟨put t.world s.world, t.watch, t.log⟩)

theorem bind_run {α β : Type} (m : StateM (Stage ω) α) (f : α → StateM (Stage ω) β) (s : Stage ω) :
    (m >>= f) s = f (m s).1 (m s).2 := rfl

theorem get_run (s : Stage ω) : (get : StateM (Stage ω) (Stage ω)) s = (s, s) := rfl

theorem modify_run (f : Stage ω → Stage ω) (s : Stage ω) :
    (modify f : StateM (Stage ω) Unit) s = ((), f s) := rfl

theorem pure_run {α : Type} (a : α) (s : Stage ω) : (pure a : StateM (Stage ω) α) s = (a, s) := rfl

theorem ite_run {α : Type} {c : Prop} [Decidable c] (m m' : StateM (Stage ω) α) (s : Stage ω) :
    (if c then m else m') s = if c then m s else m' s := by
  split <;> rfl

def withLoading (s : Stage ω) (l : Loading) : Stage ω := { s with watch := l.watch, log := l.notes }

end Stage

end Steward
