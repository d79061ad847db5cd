import Steward.Component.Registry
import Steward.Document.Section
import Steward.Stage

/-!
What components are asked to do. They act on a stage; an action may fail with a text, and what it
did until then stays done.

Types of components come in two forms. A prototype has a blank instance, and to create one is to
reload the blank with the configuration. A direct type keeps its instances itself, by name.
-/

set_option autoImplicit false

namespace Steward

abbrev Act (ω α : Type) := ExceptT String (StateM (Stage ω)) α

namespace Act

variable {ω ν α : Type}

def log (records : List Record) : Act ω Unit := modify fun s => s.write records

def world : Act ω ω := return (← get).world

def change (f : ω → ω) : Act ω Unit := modify fun s => { s with world := f s.world }

def load (look : ω → Surroundings) (m : Load α) : Act ω α := ExceptT.mk fun s =>
  let (r, l) := m.runOn (look s.world) s.loading
  (r.mapError ConfigFault.message, s.withLoading l)

def during (what : String) (m : Act ω α) : Act ω α := ExceptT.mk fun s =>
  let (r, s) := m.run s
  (r.mapError fun cause => what ++ ": " ++ cause, s)

def within (part : ν → ω) (put : ω → ν → ν) (m : Act ω α) : Act ν α :=
  ExceptT.mk (Stage.within part put m.run)

end Act

inductive Reload (ι : Type)
  | inPlace
  | replace (instead : ι)
  deriving Repr

def Reload.name {ι : Type} : Reload ι → String
  | .inPlace => "InPlace"
  | .replace _ => "Replace(..)"

structure Maker (ι ω : Type) where
  create : String → Section → Act ω ι
  help : HelpDoc

def Maker.within {ι ω ν : Type} (part : ν → ω) (put : ω → ν → ν) (t : Maker ι ω) : Maker ι ν where
  create name config := Act.within part put (t.create name config)
  help := t.help

structure Prototype (ι ω : Type) where
  blank : Act ω ι
  reload : ι → String → Section → Act ω (Reload ι)
  help : HelpDoc

def Prototype.maker {ι ω : Type} (p : Prototype ι ω) : Maker ι ω where
  create name config := do
    let blank ← p.blank
    match ← p.reload blank name config with
    | .inPlace => return blank
    | .replace instead => return instead
  help := p.help

structure Direct (ω : Type) where
  create : String → Section → Act ω Unit
  reload : String → Section → Act ω Unit
  help : HelpDoc

def Direct.maker {ι ω : Type} (d : Direct ω) (handle : Act ω ι) : Maker ι ω where
  create name config := do
    d.create name config
    handle
  help := d.help

-- A reload of a direct type always takes effect in place.
def Direct.reloadHandle {ι ω : Type} (d : Direct ω) (name : String) (config : Section) :
    Act ω (Reload ι) := do
  d.reload name config
  return .inPlace

/-- All that a supervisor asks of the components and of time. A start is begun, gives the
milliseconds that it takes (none if it never ends), and is finished or cancelled later. -/
structure Crew (ι ω : Type) where
  makers : Registry (Maker ι ω)
  begin_ : ι → String → StateM (Stage ω) (Option Nat)
  finish : ι → String → Act ω Unit
  cancel : ι → String → Nat → StateM (Stage ω) Unit
  stop : ι → String → Act ω Unit
  reload : ι → String → Section → Act ω (Reload ι)
  hook : Option (String → Section → Act ω Unit)
  wait : Nat → StateM (Stage ω) Unit
  look : ω → Surroundings

def Crew.start {ι ω : Type} (c : Crew ι ω) (i : ι) (name : String) : Act ω Unit := do
  match ← c.begin_ i name with
  | some n =>
    c.wait n
    c.finish i name
  | none => return

def Crew.within {ι ω ν : Type} (c : Crew ι ω) (part : ν → ω) (put : ω → ν → ν)
    (wait : Nat → StateM (Stage ν) Unit) : Crew ι ν where
  makers := c.makers.map (Maker.within part put)
  begin_ i name := Stage.within part put (c.begin_ i name)
  finish i name := Act.within part put (c.finish i name)
  cancel i name elapsed := Stage.within part put (c.cancel i name elapsed)
  stop i name := Act.within part put (c.stop i name)
  reload i name config := Act.within part put (c.reload i name config)
  hook := c.hook.map fun hook name config => Act.within part put (hook name config)
  wait := wait
  look w := c.look (part w)

theorem Crew.makers_within {ι ω ν : Type} (c : Crew ι ω) (part : ν → ω) (put : ω → ν → ν)
    (wait : Nat → StateM (Stage ν) Unit) (kind : String) :
    (c.within part put wait).makers.get? kind =
      (c.makers.get? kind).map (Maker.within part put) :=
  Table.get?_mapNamed c.makers (fun _ => Maker.within part put) kind

end Steward
