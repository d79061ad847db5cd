import Steward.Yaml.Token

set_option autoImplicit false

namespace Steward.Yaml

structure Label where
  anchor : Option String
  tag : Option String
  deriving Repr, Inhabited

-- The label of a scalar that is written out: the tag `!` says nothing about it.
def Label.ofScalar (l : Label) : Label := if l.tag = some "!" then { l with tag := none } else l

inductive Node
  /-- An alias by name, and one whose anchor has got a number. -/
  | alias (name : String)
  | reference (id : Nat)
  | scalar (label : Label) (plain : Bool) (text : String)
  | sequence (label : Label) (items : List Node)
  | mapping (label : Label) (entries : List (Node × Node))
  deriving Repr, Inhabited

namespace Node

def empty : Node := .scalar ⟨none, none⟩ true ""

abbrev Handles := List (String × String)

def defaultHandles : Handles := [("!", "!"), ("!!", "tag:yaml.org,2002:")]

def resolveTag (handles : Handles) (handle suffix : String) : Option String :=
  if handle = "" then some suffix else (handles.lookup handle).map (· ++ suffix)

def takeLabel (handles : Handles) : List Token → Option (Label × List Token)
  | .anchor a :: .tag h s :: rest => (resolveTag handles h s).map fun t => (⟨some a, some t⟩, rest)
  | .tag h s :: .anchor a :: rest => (resolveTag handles h s).map fun t => (⟨some a, some t⟩, rest)
  | .anchor a :: rest => some (⟨some a, none⟩, rest)
  | .tag h s :: rest => (resolveTag handles h s).map fun t => (⟨none, some t⟩, rest)
  | rest => some (⟨none, none⟩, rest)

abbrev Parse (α : Type) := List Token → Option (α × List Token)

def orEmpty (stops : List Token) (node : Parse Node) : Parse Node := fun toks =>
  match toks with
  | t :: _ => if stops.contains t then some (empty, toks) else node toks
  | [] => none

-- The key of a pair in a sequence. Where it is left out, so is what stands in its place.
def pairKey (stops : List Token) (node : Parse Node) : Parse Node := fun toks =>
  match toks with
  | t :: rest => if stops.contains t then some (empty, rest) else node toks
  | [] => none

mutual

def node (handles : Handles) (block indentless : Bool) : Nat → Parse Node
  | 0, _ => none
  | _ + 1, .alias name :: rest => some (.alias name, rest)
  | n + 1, toks =>
    match takeLabel handles toks with
    | none => none
    | some (label, toks) =>
      match toks with
      | .blockEntry :: _ =>
        if indentless then
          (looseItems handles n toks).map fun (items, rest) => (.sequence label items, rest)
        else leftOut label toks
      | .scalar plain text :: rest => some (.scalar label.ofScalar plain text, rest)
      | .flowSequenceStart :: rest =>
        (flowItems handles n true rest).map fun (items, rest) => (.sequence label items, rest)
      | .flowMappingStart :: rest =>
        (flowEntries handles n true rest).map fun (entries, rest) => (.mapping label entries, rest)
      | .blockSequenceStart :: rest =>
        if block then
          (blockItems handles n rest).map fun (items, rest) => (.sequence label items, rest)
        else leftOut label toks
      | .blockMappingStart :: rest =>
        if block then
          (blockEntries handles n rest).map fun (entries, rest) => (.mapping label entries, rest)
        else leftOut label toks
      | _ => leftOut label toks

def leftOut (label : Label) : Parse Node := fun toks =>
  if label.anchor.isSome || label.tag.isSome then some (.scalar label true "", toks) else none

def blockItems (handles : Handles) : Nat → Parse (List Node)
  | 0, _ => none
  | n + 1, toks =>
    match toks with
    | .blockEntry :: rest => do
      let (item, rest) ← orEmpty [.blockEntry, .blockEnd] (node handles true false n) rest
      let (items, rest) ← blockItems handles n rest
      return (item :: items, rest)
    | .blockEnd :: rest => some ([], rest)
    | _ => none

def looseItems (handles : Handles) : Nat → Parse (List Node)
  | 0, _ => none
  | n + 1, toks =>
    match toks with
    | .blockEntry :: rest => do
      let (item, rest) ←
        orEmpty [.blockEntry, .key, .value, .blockEnd] (node handles true false n) rest
      let (items, rest) ← looseItems handles n rest
      return (item :: items, rest)
    | _ => some ([], toks)

def blockEntries (handles : Handles) : Nat → Parse (List (Node × Node))
  | 0, _ => none
  | n + 1, toks =>
    match toks with
    | .key :: rest => do
      let stops := [Token.key, .value, .blockEnd]
      let (k, rest) ← orEmpty stops (node handles true true n) rest
      let (v, rest) ← match rest with
        | .value :: rest => orEmpty stops (node handles true true n) rest
        | _ => some (empty, rest)
      let (entries, rest) ← blockEntries handles n rest
      return ((k, v) :: entries, rest)
    | .blockEnd :: rest => some ([], rest)
    | _ => none

def flowItems (handles : Handles) : Nat → Bool → Parse (List Node)
  | 0, _, _ => none
  | n + 1, first, toks =>
    match toks with
    | .flowSequenceEnd :: rest => some ([], rest)
    | _ => do
      let toks ← if first then some toks else
        match toks with
        | .flowEntry :: rest => some rest
        | _ => none
      match toks with
      | .flowSequenceEnd :: rest => return ([], rest)
      | .key :: rest =>
        let stops := [Token.flowEntry, .flowSequenceEnd]
        let (k, rest) ← pairKey (.value :: stops) (node handles false false n) rest
        let (v, rest) ← match rest with
          | .value :: rest => orEmpty stops (node handles false false n) rest
          | _ => some (empty, rest)
        let (items, rest) ← flowItems handles n false rest
        return (.mapping ⟨none, none⟩ [(k, v)] :: items, rest)
      | _ =>
        let (item, rest) ← node handles false false n toks
        let (items, rest) ← flowItems handles n false rest
        return (item :: items, rest)

def flowEntries (handles : Handles) : Nat → Bool → Parse (List (Node × Node))
  | 0, _, _ => none
  | n + 1, first, toks =>
    match toks with
    | .flowMappingEnd :: rest => some ([], rest)
    | _ => do
      let toks ← if first then some toks else
        match toks with
        | .flowEntry :: rest => some rest
        | _ => none
      match toks with
      | .flowMappingEnd :: rest => return ([], rest)
      | .key :: rest =>
        let stops := [Token.flowEntry, .flowMappingEnd]
        let (k, rest) ← orEmpty (.value :: stops) (node handles false false n) rest
        let (v, rest) ← match rest with
          | .value :: rest => orEmpty stops (node handles false false n) rest
          | _ => some (empty, rest)
        let (entries, rest) ← flowEntries handles n false rest
        return ((k, v) :: entries, rest)
      | _ =>
        let (k, rest) ← node handles false false n toks
        let (entries, rest) ← flowEntries handles n false rest
        return ((k, empty) :: entries, rest)

end

def directives (handles : Handles) (version : Bool) : Parse Handles
  | .versionDirective :: rest => if version then none else directives handles true rest
  | .tagDirective handle uri :: rest =>
    if (handles.lookup handle).isSome then none
    else directives ((handle, uri) :: handles) version rest
  | toks => some (handles ++ defaultHandles, toks)

def documentContent (node : Parse Node) : Parse Node
  | .versionDirective :: rest => some (empty, .versionDirective :: rest)
  | .tagDirective handle uri :: rest => some (empty, .tagDirective handle uri :: rest)
  | toks => orEmpty [.documentStart, .documentEnd, .streamEnd] node toks

def document (first : Bool) (toks : List Token) : Option (Option Node × List Token) := do
  let toks := if first then toks else toks.dropWhile (· == .documentEnd)
  if toks = [.streamEnd] then return (none, [])
  let (handles, rest) ← directives [] false toks
  let explicit := rest.head? = some .documentStart
  if !explicit && (!first || rest.length ≠ toks.length) then none
  let body := if explicit then rest.drop 1 else rest
  let content := node handles true false (4 * body.length + 4)
  let (root, rest) ← if explicit then documentContent content body else content body
  let rest := if rest.head? = some .documentEnd then rest.drop 1 else rest
  return (some root, rest)

def read? (text : String) : Option Node := do
  let toks ← Token.scan? text
  let (root, rest) ← document true toks
  match root with
  | none => return empty
  | some root =>
    let (more, _) ← document false rest
    if more.isSome then none else some root

end Node

end Steward.Yaml
