import Steward.Document.Include
import Steward.Property.Expansion
import Steward.Watch.Basic
import Steward.Yaml.Reader

/-!
Loading: computations that read the surroundings, register files in a watch and leave notes in the
log. What was registered and noted stays when a load fails. Files are read through `readYaml`
alone.
-/

set_option autoImplicit false

namespace Steward

structure Loading where
  watch : Watch := .empty
  notes : List Record := []
  deriving DecidableEq, Repr, Inhabited

abbrev LoadOr (ε : Type) := ReaderT Surroundings (ExceptT ε (StateM Loading))

abbrev Load := LoadOr ConfigFault

namespace LoadOr

variable {ε δ α : Type}

def runOn (m : LoadOr ε α) (s : Surroundings) (l : Loading) : Except ε α × Loading :=
  ((m.run s).run).run l

theorem runOn_bind {β : Type} (m : LoadOr ε α) (f : α → LoadOr ε β) (s : Surroundings)
    (l : Loading) :
    (m >>= f).runOn s l =
      match m.runOn s l with
      | (.ok a, l) => (f a).runOn s l
      | (.error fault, l) => (.error fault, l) := by
  change (match m.runOn s l with | (r, l) => ExceptT.bindCont (fun a => (f a).run s) r l) = _
  rcases m.runOn s l with ⟨r, l⟩
  cases r <;> rfl

theorem ok_of_bind {β : Type} {m : LoadOr ε α} {f : α → LoadOr ε β} {s : Surroundings}
    {l l' : Loading} {b : β} (done : (m >>= f).runOn s l = (.ok b, l')) :
    ∃ a l₁, m.runOn s l = (.ok a, l₁) ∧ (f a).runOn s l₁ = (.ok b, l') := by
  rw [runOn_bind] at done
  revert done
  rcases m.runOn s l with ⟨r, l₁⟩
  intro done
  cases r with
  | ok a => exact ⟨a, l₁, rfl, done⟩
  | error fault => cases done

def mapFault (f : ε → δ) (m : LoadOr ε α) : LoadOr δ α := fun s => ExceptT.mk fun l =>
  let (r, l) := m.runOn s l
  (r.mapError f, l)

end LoadOr

namespace Load

variable {α : Type}

def runOn (m : Load α) (s : Surroundings) (l : Loading) : Except ConfigFault α × Loading :=
  LoadOr.runOn m s l

def note (records : List Record) : Load Unit :=
  modify fun l => { l with notes := l.notes ++ records }

def register (p : Path) : Load Unit := do
  let p := (← read).absolute p
  modify fun l => { l with watch := l.watch.add p, notes := l.notes ++ l.watch.addNotes p }

def directoryOf (p : Path) : Load (Option Path) := return (← read).directoryOf p

def expand (t : PropertyTable) (raw : String) : Load String := do
  let env := (← read).env
  note (t.expandNotes env raw)
  return t.expand env raw

def resolve (t : PropertyTable) (raw : String) (base : Option Path) : Load Path := do
  return (← read).resolve (← expand t raw) base

def readText (p : Path) : Stored → Except ConfigFault Value
  | .missing => .error (.noFile p.text)
  | .unreadable fault => .error (.unreadable p.text (.file fault))
  | .text content =>
    match Yaml.read? content with
    | some v => .ok v
    | none => .error (.unreadable p.text .yaml)

def readYaml (p : Path) : Load Value := do
  liftM (readText p ((← read).stored p))

end Load

end Steward
