import Steward.Log.Record
import Steward.Text.Quoted
import Steward.Tree.Json

set_option autoImplicit false

namespace Steward

def FieldValue.written : FieldValue → String
  | .text s => Text.quoted s
  | .bare s => s
  | .count n => toString n

def FieldValue.tree : FieldValue → Tree
  | .text s => .text s
  | .bare s => .text s
  | .count n => .count n

namespace Record

def text (r : Record) : String :=
  r.message ++ String.join (r.fields.map fun (name, v) => " " ++ name ++ "=" ++ v.written)

def tree (r : Record) : Tree :=
  .fields (("message", .text r.message) :: r.fields.map fun (name, v) => (name, v.tree))

end Record

end Steward
