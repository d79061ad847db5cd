import Steward.Component.Help
import Steward.Fault
import Steward.Log.Record
import Steward.Table

set_option autoImplicit false

namespace Steward

abbrev Registry (α : Type) := Table α

namespace Registry

variable {α : Type}

def allKinds : String := "all"

def duplicateMessage (kind : String) : String := "组件类型重复注册: " ++ kind

def register? (r : Registry α) (kind : String) (a : α) : Option (Registry α) :=
  if r.has kind then none else some (r.insert kind a)

def registerAll (r : Registry α) : List (String × α) → Registry α × Option String
  | [] => (r, none)
  | (kind, a) :: rest =>
    match r.register? kind a with
    | some r => registerAll r rest
    | none => (r, some kind)

def registerNotes (kind : String) : List Record := [.debug .registration ("注册组件类型: " ++ kind)]

def select (r : Registry α) (kind : Option String) : Except ComponentFault (List (String × α)) :=
  match kind with
  | none => .ok r.rows
  | some kind =>
    if kind = allKinds then .ok r.rows
    else
      match r.get? kind with
      | some a => .ok [(kind, a)]
      | none => .error (.unknownKind kind)

end Registry

end Steward
