import Steward.Log.Record
import Steward.Tree.Json

set_option autoImplicit false

namespace Steward

inductive AuditForm
  | text
  | json (time : String)
  deriving DecidableEq, Repr, Inhabited

structure Audit where
  trigger : String
  source : String
  failure? : Option String
  deriving DecidableEq, Repr, Inhabited

namespace Audit

def opening : String := "RELOAD: "

def line (a : Audit) : String :=
  opening ++ a.source ++ " by " ++ a.trigger ++ " - " ++
    match a.failure? with
    | none => "SUCCESS"
    | some failure => "FAILED (" ++ failure ++ ")"

def tree (a : Audit) (time : String) : Tree :=
  .fields [("error", .text (a.failure?.getD "")), ("source", .text a.source),
    ("success", .flag a.failure?.isNone), ("timestamp", .text time), ("trigger", .text a.trigger),
    ("type", .text "reload")]

def record (a : Audit) : AuditForm → Record
  | .json time => .info .logging (Tree.Json.compact (a.tree time))
  | .text => if a.failure?.isNone then .info .logging a.line else .warn .logging a.line

end Audit

end Steward
