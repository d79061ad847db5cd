import Steward.Component.Help
import Steward.Tree.Basic

set_option autoImplicit false

namespace Steward

def HelpField.tree (f : HelpField) : Tree :=
  .fields ([("key", .text f.key), ("kind", .text f.kind), ("note", .text f.note)] ++
    (f.default.toList.map fun default => ("default", .text default)) ++
    [("optional", .flag f.optional)])

def HelpDoc.tree (d : HelpDoc) : Tree :=
  .fields [("description", .text d.description), ("fields", .list (d.fields.map HelpField.tree))]

end Steward
