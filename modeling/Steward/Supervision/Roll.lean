import Steward.Component.Spec
import Steward.Fault

set_option autoImplicit false

namespace Steward.Roll

def readFrom (knows : String → Bool) (list : Listing) (seen : List String) :
    List Nat → LoadOr Fault (List ComponentSpec)
  | [] => return []
  | i :: rest => do
    let spec ← LoadOr.mapFault Fault.config do ComponentSpec.ofSection (← list.get i)
    if seen.contains spec.name then throw (.component (.duplicateName spec.name))
    else if !knows spec.kind then throw (.component (.unknownType spec.name spec.kind))
    else return spec :: (← readFrom knows list (spec.name :: seen) rest)

def read (knows : String → Bool) (list : Listing) : LoadOr Fault (List ComponentSpec) :=
  readFrom knows list [] (List.range list.size)

end Steward.Roll
