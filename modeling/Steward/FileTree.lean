import Steward.Surroundings

/-!
A tree of files and directories held as a value, with the directory that relative paths start from.
Names are looked up part by part, so that a path through a missing directory or through a file fails
as it does on a disk.
-/

set_option autoImplicit false

namespace Steward

inductive FileNode
  | directory
  | file (content : ByteArray) (modified : Moment)
  deriving Inhabited

namespace FileNode

def isDirectory : FileNode → Bool
  | .directory => true
  | .file .. => false

-- The content of a file as text; one that is not text counts as empty.
def text? : FileNode → Option String
  | .file content _ => some ((String.fromUTF8? content).getD "")
  | .directory => none

def sameAs : FileNode → FileNode → Bool
  | .directory, .directory => true
  | .file a m, .file b n => a.data == b.data && m == n
  | _, _ => false

end FileNode

structure FileTree where
  nodes : List (List String × FileNode) := []
  here : List String := []
  deriving Inhabited

namespace FileTree

def empty : FileTree := {}

def hereAsPath (t : FileTree) : Path := ⟨"/" ++ "/".intercalate t.here⟩

def node? (t : FileTree) (names : List String) : Option FileNode :=
  if names.isEmpty then some .directory else (t.nodes.find? (·.1 == names)).map (·.2)

def isDirectory (t : FileTree) (names : List String) : Bool :=
  (t.node? names).any (·.isDirectory)

def put (t : FileTree) (names : List String) (n : FileNode) : FileTree :=
  if t.nodes.any (·.1 == names) then
    { t with nodes := t.nodes.map fun e => if e.1 == names then (names, n) else e }
  else { t with nodes := t.nodes ++ [(names, n)] }

def drop (t : FileTree) (names : List String) : FileTree :=
  { t with nodes := t.nodes.filter (·.1 != names) }

def walk (t : FileTree) (at_ : List String) : List String → Except FileFault (List String)
  | [] => .ok at_
  | name :: rest =>
    match t.node? at_ with
    | none => .error .notFound
    | some (.file ..) => .error .notDirectory
    | some .directory =>
      if Path.isSkipped name then walk t at_ rest
      else if name == ".." then walk t at_.dropLast rest
      else if name.utf8ByteSize > 255 then .error .nameTooLong
      else walk t (at_ ++ [name]) rest

def locate (t : FileTree) (p : Path) : Except FileFault (List String) :=
  if p.text == "" then .error .notFound
  else if p.chars.contains '\x00' then .error .nulInName
  else if p.text.utf8ByteSize ≥ 4096 then .error .nameTooLong
  else walk t (if p.isAbsolute then [] else t.here) p.segments

def stat (t : FileTree) (p : Path) : Except FileFault FileNode := do
  let names ← t.locate p
  match t.node? names with
  | some n => .ok n
  | none => .error .notFound

-- The moment of the last change; that of a directory lies before all others.
def modified (t : FileTree) (p : Path) : Except FileFault Moment := do
  match ← t.stat p with
  | .file _ m => .ok m
  | .directory => .ok 0

def stored (t : FileTree) (p : Path) : Stored :=
  match t.stat p with
  | .error _ => .missing
  | .ok .directory => .unreadable .isDirectory
  | .ok (.file content _) =>
    match String.fromUTF8? content with
    | some s => .text s
    | none => .unreadable .notText

def surroundings (t : FileTree) (env : String → Option String) : Surroundings :=
  { stored := t.stored, modified := t.modified, here := t.hereAsPath, env }

def makeDirectory (t : FileTree) (p : Path) : Except FileFault FileTree := do
  let names ← t.locate p
  match t.node? names with
  | some _ => .error .alreadyExists
  | none => .ok (t.put names .directory)

def ancestors (p : Path) : List Path :=
  let segs := p.segments
  let ends := (List.range segs.length).filter fun n => !Path.isSkipped (segs.getD n "")
  ends.reverse.map fun n => ⟨"/".intercalate (segs.take (n + 1))⟩

def isDirectoryAt (t : FileTree) (p : Path) : Bool :=
  match t.stat p with
  | .ok .directory => true
  | _ => false

def makeFirst (t : FileTree) : List Path → Except FileFault FileTree
  | [] => .error .notFound
  | p :: above =>
    let settle := fun (t : FileTree) (f : FileFault) =>
      if t.isDirectoryAt p then .ok t else .error f
    match t.makeDirectory p with
    | .ok t => .ok t
    | .error .notFound =>
      match makeFirst t above with
      | .error f => .error f
      | .ok t =>
        match t.makeDirectory p with
        | .ok t => .ok t
        | .error f => settle t f
    | .error f => settle t f

def makeDirectories (t : FileTree) (p : Path) : Except FileFault FileTree :=
  match ancestors p with
  | [] => .ok t
  | ps => t.makeFirst ps

def endsInSlash (p : Path) : Bool := p.chars.getLast? == some '/'

def write (t : FileTree) (p : Path) (content : ByteArray) (modified : Moment) :
    Except FileFault FileTree :=
  match t.locate p with
  | .ok names =>
    match t.node? names with
    | some .directory => .error .isDirectory
    | _ => .ok (t.put names (.file content modified))
  | .error f => .error (if f = .notFound && endsInSlash p then .isDirectory else f)

def openForAppend (t : FileTree) (p : Path) (now : Moment) : Except FileFault FileTree :=
  match t.stat p with
  | .ok (.file ..) => .ok t
  | _ => t.write p ByteArray.empty now

def removeFile (t : FileTree) (p : Path) : Except FileFault FileTree := do
  let names ← t.locate p
  match t.node? names with
  | none => .error .notFound
  | some .directory => .error .isDirectory
  | some (.file ..) => .ok (t.drop names)

def touch (t : FileTree) (p : Path) (modified : Moment) : Except FileFault FileTree := do
  let names ← t.locate p
  match t.node? names with
  | none => .error .notFound
  | some .directory => .error .isDirectory
  | some (.file content _) => .ok (t.put names (.file content modified))

def place (t : FileTree) (p : Path) (content : Option ByteArray) (modified : Moment) : FileTree :=
  match content with
  | none => (t.makeDirectories p).toOption.getD t
  | some bytes =>
    let t := (p.parent?.bind fun dir => (t.makeDirectories dir).toOption).getD t
    (t.write p bytes modified).toOption.getD t

def textsBelow (t : FileTree) (dir : List String) : List (String × String) :=
  t.nodes.filterMap fun (names, n) =>
    if dir.isPrefixOf names then n.text?.map ("/".intercalate (names.drop dir.length), ·) else none

theorem walk_nil (t : FileTree) (names : List String) : t.walk names [] = .ok names := rfl

end FileTree

end Steward
