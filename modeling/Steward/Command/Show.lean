import Steward.Command.Arguments
import Steward.Component.HelpTree
import Steward.Component.Registry
import Steward.Tree.Json
import Steward.Tree.Yaml

set_option autoImplicit false

namespace Steward.Command

def programName : String := "service-backbone"

def programVersion : String := "0.1.0"

def programDescription : String :=
  "Layered YAML configuration resolver and component lifecycle supervisor for long-lived services"

def Format.render (f : Format) (text : String) (t : Tree) : String :=
  match f with
  | .text => text
  | .json => Tree.Json.pretty t
  | .yaml => Tree.Yaml.document t

def versionTree : Tree :=
  .fields [("description", .text programDescription), ("name", .text programName),
    ("version", .text programVersion)]

def versionText : String := programName ++ " v" ++ programVersion ++ "\n" ++ programDescription

def Format.version (f : Format) : String := f.render versionText versionTree

def helpText (docs : List (String × HelpDoc)) : String :=
  if docs.isEmpty then "没有已注册的组件类型\n"
  else "\n".intercalate (docs.map fun (kind, doc) => doc.text kind)

def helpTree (docs : List (String × HelpDoc)) : Tree :=
  .fields (docs.map fun (kind, doc) => (kind, doc.tree))

def Format.help (f : Format) (r : Registry HelpDoc) (kind : String) :
    Except ComponentFault String := do
  let docs ← r.select (some kind)
  return f.render (helpText docs) (helpTree docs)

end Steward.Command
