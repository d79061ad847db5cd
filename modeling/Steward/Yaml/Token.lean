import Steward.Yaml.Cursor

set_option autoImplicit false

namespace Steward.Yaml

inductive Token
  | versionDirective
  | tagDirective (handle uri : String)
  | documentStart
  | documentEnd
  | blockSequenceStart
  | blockMappingStart
  | blockEnd
  | flowSequenceStart
  | flowSequenceEnd
  | flowMappingStart
  | flowMappingEnd
  | blockEntry
  | flowEntry
  | key
  | value
  | alias (name : String)
  | anchor (name : String)
  | tag (handle suffix : String)
  | scalar (plain : Bool) (text : String)
  | streamEnd
  deriving DecidableEq, Repr, Inhabited

structure KeyMark where
  possible : Bool
  required : Bool
  token : Nat
  index : Nat
  line : Nat
  column : Nat

/-- Indentation is one more than the column here, so that zero stands for the outermost level. -/
structure Scan where
  cursor : Cursor
  tokens : Array Token
  indent : Nat
  indents : List Nat
  keyAllowed : Bool
  keys : List KeyMark

namespace Scan

def noKey : KeyMark :=
  { possible := false, required := false, token := 0, index := 0, line := 0, column := 0 }

def start (cs : List Char) : Scan :=
  { cursor := Cursor.start cs
    tokens := #[]
    indent := 0
    indents := []
    keyAllowed := true
    keys := [noKey] }

def inFlow (s : Scan) : Bool := s.keys.length > 1

def push (s : Scan) (t : Token) : Scan := { s with tokens := s.tokens.push t }

def goTo (s : Scan) (c : Cursor) : Scan := { s with cursor := c }

-- Forgets a place that is too far back for a key; where a key was required, the text is wrong.
def dropStaleKeys (s : Scan) : Option Scan := do
  let keys ← s.keys.mapM fun k =>
    if k.possible && (k.line < s.cursor.line || k.index + 1024 < s.cursor.index) then
      if k.required then none else some { k with possible := false }
    else some k
  some { s with keys }

def removeKey (s : Scan) : Option Scan :=
  match s.keys with
  | [] => some s
  | k :: keys =>
    if k.possible && k.required then none
    else some { s with keys := { k with possible := false } :: keys }

def saveKey (s : Scan) : Option Scan := do
  if !s.keyAllowed then return s
  let required := !s.inFlow && s.indent == s.cursor.column + 1
  let s ← s.removeKey
  let mark : KeyMark :=
    { possible := true, required, token := s.tokens.size, index := s.cursor.index
      line := s.cursor.line, column := s.cursor.column }
  return { s with keys := mark :: s.keys.drop 1 }

def roll (s : Scan) (column at_ : Nat) (t : Token) : Scan :=
  if s.inFlow || s.indent ≥ column + 1 then s
  else
    { s with
      indents := s.indent :: s.indents
      indent := column + 1
      tokens := s.tokens.insertIdxIfInBounds at_ t }

def unroll (s : Scan) (indent : Nat) : Scan :=
  if s.inFlow then s else go s.indents s
where
  go : List Nat → Scan → Scan
    | [], s => s
    | outer :: rest, s =>
      if s.indent > indent then
        go rest { s with indent := outer, indents := rest, tokens := s.tokens.push .blockEnd }
      else s

def skipToToken (s : Scan) : Nat → Scan
  | 0 => s
  | n + 1 =>
    let tabs := s.inFlow || !s.keyAllowed
    let c := (s.cursor.takeRun fun c => c == ' ' || (tabs && c == '\t')).2
    let c := if c.rest.head? = some '#' then (c.takeRun (!isBreak ·)).2 else c
    if c.atBreak then
      skipToToken { s with cursor := c.takeBreak.2, keyAllowed := s.keyAllowed || !s.inFlow } n
    else s.goTo c

def isWordChar (c : Char) : Bool := c.isAlphanum || c == '_' || c == '-'

def isUriChar (inBrackets : Bool) (c : Char) : Bool :=
  isWordChar c || ";/?:@&=+$.%!~*'()".toList.contains c || (inBrackets && ",[]".toList.contains c)

def hexValue? (c : Char) : Option Nat :=
  if c.isDigit then some (c.toNat - 48)
  else if 'a' ≤ c && c ≤ 'f' then some (c.toNat - 87)
  else if 'A' ≤ c && c ≤ 'F' then some (c.toNat - 55)
  else none

def uriBytes : List Char → Option (List UInt8)
  | [] => some []
  | '%' :: a :: b :: cs => do
    let x ← hexValue? a
    let y ← hexValue? b
    return UInt8.ofNat (x * 16 + y) :: (← uriBytes cs)
  | '%' :: _ => none
  | c :: cs => do return (String.singleton c).toUTF8.toList ++ (← uriBytes cs)

def uriText (cs : List Char) : Option String := do
  String.fromUTF8? ⟨(← uriBytes cs).toArray⟩

def directive (s : Scan) : Option Scan := do
  let s ← (s.unroll 0).removeKey
  let c := s.cursor.skip 1
  let (name, c) := c.takeRun isWordChar
  if name.isEmpty || !endsWord c.rest then none
  let blanks := fun (c : Cursor) => (c.takeRun isBlank).2
  let (token, c) ← match String.ofList name with
    | "YAML" =>
      let (major, c) := (blanks c).takeRun Char.isDigit
      if c.rest.head? ≠ some '.' then none
      let (minor, c) := (c.skip 1).takeRun Char.isDigit
      if String.ofList major = "1" && ["1", "2"].contains (String.ofList minor) then
        some (Token.versionDirective, c)
      else none
    | "TAG" =>
      let c := blanks c
      if c.rest.head? ≠ some '!' then none
      let (word, c) := (c.skip 1).takeRun isWordChar
      let (handle, c) ← if c.rest.head? = some '!' then some (('!' :: word) ++ ['!'], c.skip 1)
        else if word.isEmpty then some (['!'], c) else none
      if !c.atBlank then none
      let (uri, c) := (blanks c).takeRun (isUriChar true)
      if uri.isEmpty || !endsWord c.rest then none
      some (Token.tagDirective (String.ofList handle) (← uriText uri), c)
    | _ => none
  let c := blanks c
  let c := if c.rest.head? = some '#' then (c.takeRun (!isBreak ·)).2 else c
  if c.rest.isEmpty || c.atBreak then
    some { s with cursor := c.takeBreak.2, keyAllowed := false, tokens := s.tokens.push token }
  else none

def documentMark (s : Scan) (t : Token) : Option Scan := do
  let s ← (s.unroll 0).removeKey
  some { s with cursor := s.cursor.skip 3, keyAllowed := false, tokens := s.tokens.push t }

def flowStart (s : Scan) (t : Token) : Option Scan := do
  let s ← s.saveKey
  some { s with
    keys := noKey :: s.keys
    keyAllowed := true
    cursor := s.cursor.skip 1
    tokens := s.tokens.push t }

def flowEnd (s : Scan) (t : Token) : Option Scan := do
  let s ← s.removeKey
  some { s with
    keys := if s.inFlow then s.keys.drop 1 else s.keys
    keyAllowed := false
    cursor := s.cursor.skip 1
    tokens := s.tokens.push t }

def flowEntry (s : Scan) : Option Scan := do
  let s ← s.removeKey
  some { s with keyAllowed := true, cursor := s.cursor.skip 1, tokens := s.tokens.push .flowEntry }

def blockEntry (s : Scan) : Option Scan := do
  if !s.inFlow && !s.keyAllowed then none
  let s ← (s.roll s.cursor.column s.tokens.size .blockSequenceStart).removeKey
  some { s with keyAllowed := true, cursor := s.cursor.skip 1, tokens := s.tokens.push .blockEntry }

def explicitKey (s : Scan) : Option Scan := do
  if !s.inFlow && !s.keyAllowed then none
  let s ← (s.roll s.cursor.column s.tokens.size .blockMappingStart).removeKey
  some { s with keyAllowed := !s.inFlow, cursor := s.cursor.skip 1, tokens := s.tokens.push .key }

def valueMark (s : Scan) : Option Scan :=
  let finish := fun (s : Scan) =>
    { s with cursor := s.cursor.skip 1, tokens := s.tokens.push .value : Scan }
  match s.keys with
  | k :: keys =>
    if k.possible then
      -- The key has been read by now: what opens it goes in front of its tokens.
      let s := { s with tokens := s.tokens.insertIdxIfInBounds k.token .key }
      let s := s.roll k.column k.token .blockMappingStart
      some (finish { s with keys := { k with possible := false } :: keys, keyAllowed := false })
    else if s.inFlow then some (finish { s with keyAllowed := false })
    else if s.keyAllowed then
      let s := s.roll s.cursor.column s.tokens.size .blockMappingStart
      some (finish { s with keyAllowed := true })
    else none
  | [] => none

def named (s : Scan) (make : String → Token) : Option Scan := do
  let s ← s.saveKey
  let (name, c) := (s.cursor.skip 1).takeRun isWordChar
  let ends := endsWord c.rest || c.rest.head?.any fun x => "?:,]\x7d%@\x60".toList.contains x
  if name.isEmpty || !ends then none
  let s := s.push (make (String.ofList name))
  some { s with keyAllowed := false, cursor := c }

def tag (s : Scan) : Option Scan := do
  let s ← s.saveKey
  let c := s.cursor.skip 1
  let (token, c) ← match c.rest with
    | '<' :: _ =>
      let (uri, c) := (c.skip 1).takeRun (isUriChar true)
      if uri.isEmpty || c.rest.head? ≠ some '>' then none
      some (Token.tag "" (← uriText uri), c.skip 1)
    | _ =>
      let (word, after) := c.takeRun isWordChar
      if after.rest.head? = some '!' then
        let (uri, c) := (after.skip 1).takeRun (isUriChar false)
        if uri.isEmpty then none
        some (Token.tag (String.ofList ('!' :: word ++ ['!'])) (← uriText uri), c)
      else
        let (uri, c) := c.takeRun (isUriChar false)
        if uri.isEmpty then some (Token.tag "" "!", c)
        else some (Token.tag "!" (← uriText uri), c)
  if endsWord c.rest || (s.inFlow && c.rest.head? = some ',') then
    some { s with keyAllowed := false, cursor := c, tokens := s.tokens.push token }
  else none

def blockBreaks (indent deepest : Nat) (breaks : List Char) (c : Cursor) :
    Nat → Option (Nat × List Char × Cursor)
  | 0 => some (deepest, breaks, c)
  | n + 1 =>
    let blanks := (c.rest.takeWhile (· == ' ')).length
    let c := c.skip (if indent = 0 then blanks else min blanks (indent - c.column))
    let deepest := max deepest c.column
    if (indent = 0 || c.column < indent) && c.rest.head? = some '\t' then none
    else if c.atBreak then
      let (text, c) := c.takeBreak
      blockBreaks indent deepest (breaks ++ text) c n
    else some (deepest, breaks, c)

structure BlockText where
  text : List Char
  leading : List Char
  breaks : List Char
  leadingBlank : Bool
  cursor : Cursor

def BlockText.addLine (b : BlockText) (literal : Bool) (indent : Nat) : Option BlockText := do
  let trailingBlank := b.cursor.atBlank
  let fold := !literal && b.leading.head? = some '\n' && !b.leadingBlank && !trailingBlank
  let joint := if fold then (if b.breaks.isEmpty then [' '] else []) else b.leading
  let (line, c) := b.cursor.takeRun (!isBreak ·)
  let (leading, c) := c.takeBreak
  let (_, breaks, c) ← blockBreaks indent 0 [] c c.rest.length
  return { text := b.text ++ joint ++ b.breaks ++ line
           leading, breaks, leadingBlank := trailingBlank, cursor := c }

def blockLines (literal : Bool) (indent : Nat) (b : BlockText) : Nat → Option BlockText
  | 0 => some b
  | n + 1 =>
    if b.cursor.column = indent && !b.cursor.rest.isEmpty then do
      blockLines literal indent (← b.addLine literal indent) n
    else some b

inductive Chomp
  | strip
  | clip
  | keep
  deriving DecidableEq, Repr

def blockHeader (c : Cursor) : Option (Chomp × Nat × Cursor) :=
  let chomp := fun (c : Cursor) => match c.rest with
    | '+' :: _ => (Chomp.keep, c.skip 1, true)
    | '-' :: _ => (Chomp.strip, c.skip 1, true)
    | _ => (Chomp.clip, c, false)
  let depth := fun (c : Cursor) => match c.rest.head? with
    | some d =>
      if d = '0' then none
      else if d.isDigit then some (d.toNat - 48, c.skip 1)
      else some (0, c)
    | none => some (0, c)
  let (first, c₁, found) := chomp c
  if found then (depth c₁).map fun (n, c) => (first, n, c)
  else
    (depth c).map fun (n, c) =>
      let (second, c₂, _) := chomp c
      if n = 0 then (.clip, 0, c) else (second, n, c₂)

def blockScalar (s : Scan) (literal : Bool) : Option Scan := do
  let s ← s.removeKey
  let (chomp, increment, c) ← blockHeader (s.cursor.skip 1)
  let c := (c.takeRun isBlank).2
  let c := if c.rest.head? = some '#' then (c.takeRun (!isBreak ·)).2 else c
  if !c.rest.isEmpty && !c.atBreak then none
  let c := c.takeBreak.2
  let known := if increment = 0 then 0 else (s.indent - 1) + increment
  let (deepest, breaks, c) ← blockBreaks known 0 [] c c.rest.length
  -- A text whose depth is not written is at least one column deeper than what it belongs to.
  let indent := if known = 0 then max (max deepest s.indent) 1 else known
  let first : BlockText :=
    { text := [], leading := [], breaks, leadingBlank := false, cursor := c }
  let b ← blockLines literal indent first c.rest.length
  let text := b.text ++ (if chomp = .strip then [] else b.leading) ++
    (if chomp = .keep then b.breaks else [])
  some { s with
    keyAllowed := true
    cursor := b.cursor
    tokens := s.tokens.push (.scalar false (String.ofList text)) }

structure Gap where
  blanks : List Char
  leading : List Char
  trailing : List Char
  broken : Bool

def Gap.none : Gap := { blanks := [], leading := [], trailing := [], broken := false }

def Gap.text (g : Gap) : List Char :=
  if g.broken then
    if g.leading.head? = some '\n' then (if g.trailing.isEmpty then [' '] else g.trailing)
    else g.leading ++ g.trailing
  else g.blanks

def takeGap (deepest : Option Nat) (g : Gap) (c : Cursor) : Nat → Option (Gap × Cursor)
  | 0 => some (g, c)
  | n + 1 =>
    match c.rest with
    | [] => some (g, c)
    | x :: _ =>
      if isBlank x then
        if g.broken && x == '\t' && deepest.any (c.column < ·) then Option.none
        else
          let g := if g.broken then g else { g with blanks := g.blanks ++ [x] }
          takeGap deepest g (c.skip 1) n
      else if isBreak x then
        let (text, c) := c.takeBreak
        let g := if g.broken then { g with trailing := g.trailing ++ text }
          else { g with blanks := [], leading := text, broken := true }
        takeGap deepest g c n
      else some (g, c)

def escapeValue? (c : Char) : Option Char :=
  match c with
  | '0' => some '\x00'
  | 'a' => some '\x07'
  | 'b' => some '\x08'
  | 't' | '\t' => some '\t'
  | 'n' => some '\n'
  | 'v' => some '\x0b'
  | 'f' => some '\x0c'
  | 'r' => some '\r'
  | 'e' => some '\x1b'
  | ' ' => some ' '
  | '"' => some '"'
  | '/' => some '/'
  | '\\' => some '\\'
  | 'N' => some '\u0085'
  | '_' => some '\u00a0'
  | 'L' => some '\u2028'
  | 'P' => some '\u2029'
  | _ => none

def codeLength (c : Char) : Nat :=
  match c with
  | 'x' => 2
  | 'u' => 4
  | 'U' => 8
  | _ => 0

def escape? : List Char → Option (Char × Nat)
  | [] => none
  | c :: cs =>
    match escapeValue? c with
    | some d => some (d, 1)
    | none => do
      let width := codeLength c
      let digits := cs.take width
      if width = 0 || digits.length < width then none
      let n ← digits.foldlM (fun n c => (hexValue? c).map (n * 16 + ·)) 0
      if (0xD800 ≤ n && n ≤ 0xDFFF) || n > 0x10FFFF then none
      return (Char.ofNat n, width + 1)

def quotedRun (single : Bool) (c : Cursor) : Nat → Option (List Char × Cursor × Bool)
  | 0 => some ([], c, false)
  | n + 1 =>
    let next := fun (x : Char) (width : Nat) =>
      (quotedRun single (c.skip width) n).map fun (run, c, escaped) => (x :: run, c, escaped)
    match c.rest with
    | [] => some ([], c, false)
    | x :: rest =>
      if isSpace x then some ([], c, false)
      else if single && x == '\'' then
        if rest.head? = some '\'' then next x 2 else some ([], c, false)
      else if !single && x == '"' then some ([], c, false)
      else if !single && x == '\\' then
        if rest.head?.any isBreak then some ([], (c.skip 1).takeBreak.2, true)
        else
          match escape? rest with
          | some (d, width) => next d (width + 1)
          | none => none
      else next x 1

def quotedParts (single : Bool) (text : List Char) (c : Cursor) : Nat → Option (List Char × Cursor)
  | 0 => none
  | n + 1 => do
    if c.atDocumentMark || c.rest.isEmpty then none
    let (run, c, escaped) ← quotedRun single c c.rest.length
    let text := text ++ run
    if c.rest.head? = some (if single then '\'' else '"') then return (text, c.skip 1)
    let (gap, c) ← takeGap none { Gap.none with broken := escaped } c c.rest.length
    quotedParts single (text ++ gap.text) c n

def quotedScalar (s : Scan) (single : Bool) : Option Scan := do
  let s ← s.saveKey
  let c := s.cursor.skip 1
  let (text, c) ← quotedParts single [] c (c.rest.length + 1)
  some { s with
    keyAllowed := false
    cursor := c
    tokens := s.tokens.push (.scalar false (String.ofList text)) }

def plainRun (inFlow : Bool) : List Char → Option (List Char)
  | [] => some []
  | x :: rest =>
    if isSpace x then some []
    -- In brackets a colon in front of an indicator is neither text nor the end of a key.
    else if inFlow && x == ':' &&
        (rest.head?.any fun y => ",?[]\x7b\x7d".toList.contains y) then none
    else if x == ':' && endsWord rest then some []
    else if inFlow && ",[]\x7b\x7d".toList.contains x then some []
    else (plainRun inFlow rest).map (x :: ·)

def plainParts (inFlow : Bool) (indent : Nat) (text : List Char) (gap : Gap) (c : Cursor) :
    Nat → Option (List Char × Gap × Cursor)
  | 0 => some (text, gap, c)
  | n + 1 => do
    if c.atDocumentMark || c.rest.head? = some '#' then return (text, gap, c)
    let run ← plainRun inFlow c.rest
    if run.isEmpty then return (text, gap, c)
    let text := text ++ gap.text ++ run
    let c := c.skip run.length
    if !(c.rest.head?.any isSpace) then return (text, Gap.none, c)
    let (gap, next) ← takeGap (some indent) Gap.none c c.rest.length
    if !inFlow && next.column < indent then return (text, gap, next)
    plainParts inFlow indent text gap next n

def plainScalar (s : Scan) : Option Scan := do
  let s ← s.saveKey
  let (text, gap, c) ←
    plainParts s.inFlow s.indent [] Gap.none s.cursor (s.cursor.rest.length + 1)
  some { s with
    keyAllowed := gap.broken
    cursor := c
    tokens := s.tokens.push (.scalar true (String.ofList text)) }

def startsPlain (s : Scan) (c : Char) (rest : List Char) : Bool :=
  !(isSpace c || "-?:,[]\x7b\x7d#&*!|>'\"%@\x60".toList.contains c) ||
    (c == '-' && !rest.head?.any isBlank) ||
    (!s.inFlow && (c == '?' || c == ':') && !endsWord rest)

def fetch (s : Scan) : Option Scan := do
  let s ← (s.skipToToken (s.cursor.rest.length + 1)).dropStaleKeys
  let s := s.unroll (s.cursor.column + 1)
  match s.cursor.rest with
  | [] =>
    let s ← (s.unroll 0).removeKey
    return s.push .streamEnd
  | c :: rest =>
    if s.cursor.column = 0 && c == '%' then s.directive
    else if s.cursor.atMark '-' then s.documentMark .documentStart
    else if s.cursor.atMark '.' then s.documentMark .documentEnd
    else
      match c with
      | '[' => s.flowStart .flowSequenceStart
      | '{' => s.flowStart .flowMappingStart
      | ']' => s.flowEnd .flowSequenceEnd
      | '}' => s.flowEnd .flowMappingEnd
      | ',' => s.flowEntry
      | '*' => s.named .alias
      | '&' => s.named .anchor
      | '!' => s.tag
      | '\'' => s.quotedScalar true
      | '"' => s.quotedScalar false
      | _ =>
        if c == '-' && endsWord rest then s.blockEntry
        else if c == '?' && (s.inFlow || endsWord rest) then s.explicitKey
        else if c == ':' && (s.inFlow || endsWord rest) then s.valueMark
        else if c == '|' && !s.inFlow then s.blockScalar true
        else if c == '>' && !s.inFlow then s.blockScalar false
        else if s.startsPlain c rest then s.plainScalar
        else none

def run (s : Scan) : Option (Array Token) :=
  match s.fetch with
  | none => none
  | some next =>
    if _h : next.cursor.rest.length < s.cursor.rest.length then
      if next.tokens.back? = some .streamEnd then some next.tokens else run next
    else if next.tokens.back? = some .streamEnd then some next.tokens else none
termination_by s.cursor.rest.length

end Scan

def isAllowed (c : Char) : Bool :=
  let n := c.toNat
  n == 0x9 || n == 0xA || n == 0xD || (0x20 ≤ n && n ≤ 0x7E) || n == 0x85 ||
    (0xA0 ≤ n && n ≤ 0xD7FF) || (0xE000 ≤ n && n ≤ 0xFFFD) || 0x10000 ≤ n

-- The tokens of a text. A byte order mark in front is left out, but takes a column.
def Token.scan? (text : String) : Option (List Token) :=
  let cs := text.toList
  if cs.all isAllowed then
    let s := Scan.start cs
    let s := if cs.head? = some '\uFEFF' then s.goTo (s.cursor.skip 1) else s
    s.run.map Array.toList
  else none

end Steward.Yaml
