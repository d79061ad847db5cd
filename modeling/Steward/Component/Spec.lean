import Steward.Document.Reading

set_option autoImplicit false

namespace Steward

structure ComponentSpec where
  name : String := ""
  kind : String := ""
  disabled : Bool := false
  hosts : List String := []
  config : Section := .empty
  deriving Inhabited

namespace ComponentSpec

def fieldSteps : List (Step ComponentSpec) :=
  [Step.readRequired "name" (fun name t => { t with name }) [Check.nonEmpty],
    Step.readRequired "type" (fun kind t => { t with kind }) [Check.nonEmpty],
    Step.readField "disabled" (fun disabled t => { t with disabled }),
    Step.readField "hosts" (fun hosts t => { t with hosts })]

def steps : List (Step ComponentSpec) :=
  fieldSteps ++ [Step.subsection "config" fun config t => { t with config }]

def trimNames (t : ComponentSpec) : ComponentSpec :=
  { t with name := Text.trimmed t.name, kind := Text.trimmed t.kind }

def ofSection (entry : Section) : Load ComponentSpec :=
  return trimNames (← Reading.run entry {} steps)

def matchesHost (entry host : String) : Bool :=
  let entry := Text.lower (Text.trimmed entry)
  entry == Text.lower host || entry == Text.lower (String.ofList (host.toList.takeWhile (· ≠ '.')))

def allowedOn (t : ComponentSpec) (host : String) : Bool :=
  t.hosts.isEmpty || t.hosts.any fun entry => matchesHost entry host

def disabledOn (t : ComponentSpec) (host : String) : Bool := t.disabled || !t.allowedOn host

end ComponentSpec

end Steward
