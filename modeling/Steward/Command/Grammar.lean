import Steward.Text.Search

set_option autoImplicit false

namespace Steward.Command

inductive UsageFault
  | unknownArgument
  | invalidValue
  | invalidSubcommand
  | valueValidation
  | conflict
  | missingSubcommand
  | tooManyValues
  | help
  | missingHelp
  | version
  deriving DecidableEq, Repr

inductive OptionAction
  | value (test : String → Option UsageFault)
  | switch
  | ending (fault : UsageFault)

structure OptionRule where
  name : String
  short : Option Char := none
  standIn : Option String := none
  action : OptionAction

def OptionRule.takesValue (o : OptionRule) : Bool :=
  match o.action with
  | .value _ => true
  | _ => false

structure Grammar where
  options : List OptionRule
  operand : Option OptionRule := none
  subcommands : List String := []

/-- Where a value comes from, the weaker first. -/
inductive Source
  | variable
  | line
  deriving DecidableEq, Repr

structure Given where
  name : String
  text : String
  source : Source
  deriving DecidableEq, Repr

structure Reader where
  given : List Given := []
  pending : Option (OptionRule × Option String) := none
  operands : Nat := 0
  literal : Bool := false

namespace Reader

abbrev Result := Except UsageFault Reader

def find? (r : Reader) (name : String) : Option Given := r.given.find? (·.name == name)

def settle (r : Reader) (o : OptionRule) (value : Option String) (source : Source) : Result :=
  let put := fun text =>
    if (r.find? o.name).isSome then throw .conflict
    else
      match o.action with
      | .value test =>
        match test text with
        | some fault => throw fault
        | none => return { r with given := r.given ++ [⟨o.name, text, source⟩] }
      | _ => return { r with given := r.given ++ [⟨o.name, text, source⟩] }
  match o.action, value with
  | .ending fault, _ => throw fault
  | .switch, _ => put "true"
  | .value _, some text => put text
  | .value _, none => throw .invalidValue

def settlePending (r : Reader) : Result :=
  match r.pending with
  | some (o, value) => { r with pending := none }.settle o value .line
  | none => return r

def takeOption (r : Reader) (o : OptionRule) (attached : Option String) : Result :=
  if o.takesValue then do
    let r ← r.settlePending
    match attached with
    | some text => r.settle o (some text) .line
    | none => return { r with pending := some (o, none) }
  else if attached.isSome then throw .tooManyValues
  else do (← r.settlePending).settle o none .line

def takeLong (g : Grammar) (r : Reader) (body : List Char) : Result :=
  let (name, attached) := match Text.cut? ['='] body with
    | some (name, text) => (name, some (String.ofList text))
    | none => (body, none)
  match g.options.find? (·.name == String.ofList name) with
  | some o => r.takeOption o attached
  | none => throw .unknownArgument

def takeShort (g : Grammar) (r : Reader) : List Char → Result
  | [] => return r
  | c :: rest =>
    match g.options.find? (·.short == some c) with
    | none => throw .unknownArgument
    | some o =>
      if o.takesValue then
        match rest with
        | [] => r.takeOption o none
        | '=' :: text => r.takeOption o (some (String.ofList text))
        | text => r.takeOption o (some (String.ofList text))
      else do takeShort g (← r.takeOption o none) rest

def takeOperand (g : Grammar) (r : Reader) (word : String) : Result :=
  match g.operand with
  | some o =>
    if r.operands = 0 then do
      let r ← r.settlePending
      return { r with pending := some (o, some word), operands := 1 }
    else throw .unknownArgument
  | none =>
    if g.subcommands.isEmpty || (r.literal && g.subcommands.contains word) then
      throw .unknownArgument
    else throw .invalidSubcommand

def isWaiting (r : Reader) : Bool :=
  match r.pending with
  | some (_, none) => true
  | _ => false

def takeValue (r : Reader) (word : String) : Reader :=
  { r with pending := r.pending.map fun (o, _) => (o, some word) }

def takeWord (g : Grammar) (r : Reader) (word : String) : Result :=
  if r.literal then r.takeOperand g word
  else
    match word.toList with
    | ['-', '-'] => return { r with literal := true }
    | '-' :: '-' :: body => r.takeLong g body
    | '-' :: c :: cs => r.takeShort g (c :: cs)
    | _ => if r.isWaiting then return r.takeValue word else r.takeOperand g word

def readWords (g : Grammar) (r : Reader) :
    List String → Except UsageFault (Reader × Option (String × List String))
  | [] => return (r, none)
  | word :: rest =>
    if !r.literal && !r.isWaiting && g.subcommands.contains word then return (r, some (word, rest))
    else do readWords g (← r.takeWord g word) rest

def takeVariables (env : String → Option String) (r : Reader) : List OptionRule → Result
  | [] => return r
  | o :: rest => do
    let value := o.standIn.bind env
    if (r.find? o.name).isSome || value.isNone then takeVariables env r rest
    else takeVariables env (← r.settle o value .variable) rest

def conclude (g : Grammar) (env : String → Option String) (r : Reader) : Result := do
  (← r.settlePending).takeVariables env g.options

end Reader

-- The value of an option of the whole program: the one read with the subcommand, unless the one
-- before it has the stronger source.
def merged (outer inner : Reader) (name : String) : Option String :=
  match outer.find? name, inner.find? name with
  | some o, some i => if o.source = .line && i.source = .variable then some o.text else some i.text
  | some o, none => some o.text
  | none, i => i.map (·.text)

end Steward.Command
