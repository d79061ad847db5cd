set_option autoImplicit false

namespace Steward.Yaml

structure Cursor where
  rest : List Char
  index : Nat
  line : Nat
  column : Nat
  deriving Repr

def isBlank (c : Char) : Bool := c == ' ' || c == '\t'

def isBreak (c : Char) : Bool :=
  c == '\n' || c == '\r' || c == '\u0085' || c == '\u2028' || c == '\u2029'

def isSpace (c : Char) : Bool := isBlank c || isBreak c

def endsWord (cs : List Char) : Bool := cs.head?.all isSpace

namespace Cursor

def start (cs : List Char) : Cursor := { rest := cs, index := 0, line := 0, column := 0 }

def skip (c : Cursor) (n : Nat) : Cursor :=
  { c with rest := c.rest.drop n, index := c.index + n, column := c.column + n }

def takeRun (c : Cursor) (p : Char → Bool) : List Char × Cursor :=
  let run := c.rest.takeWhile p
  (run, c.skip run.length)

def takeBreak (c : Cursor) : List Char × Cursor :=
  let next := fun (n : Nat) =>
    { rest := c.rest.drop n, index := c.index + n, line := c.line + 1, column := 0 : Cursor }
  match c.rest with
  | '\r' :: '\n' :: _ => (['\n'], next 2)
  | '\r' :: _ | '\n' :: _ | '\u0085' :: _ => (['\n'], next 1)
  | '\u2028' :: _ => (['\u2028'], next 1)
  | '\u2029' :: _ => (['\u2029'], next 1)
  | _ => ([], c)

def atBreak (c : Cursor) : Bool := c.rest.head?.any isBreak

def atBlank (c : Cursor) : Bool := c.rest.head?.any isBlank

def atMark (c : Cursor) (mark : Char) : Bool :=
  c.column == 0 &&
    match c.rest with
    | a :: b :: d :: rest => a == mark && b == mark && d == mark && endsWord rest
    | _ => false

def atDocumentMark (c : Cursor) : Bool := c.atMark '-' || c.atMark '.'

end Cursor

end Steward.Yaml
