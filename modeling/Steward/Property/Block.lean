import Steward.Document.Load
import Steward.Text.Quoted

set_option autoImplicit false

namespace Steward

namespace Value

mutual

def outline : Value → String
  | .null => "Null"
  | .bool b => "Bool(" ++ (if b then "true" else "false") ++ ")"
  | .number n => "Number(" ++ n.text ++ ")"
  | .string s => "String(" ++ Text.quoted s ++ ")"
  | .sequence xs => "Sequence [" ++ ", ".intercalate (outlineItems xs) ++ "]"
  | .mapping es => "Mapping \x7b" ++ ", ".intercalate (outlineEntries es) ++ "\x7d"
  | .tagged tag v => "TaggedValue \x7b tag: " ++ tag ++ ", value: " ++ outline v ++ " \x7d"

def outlineItems : List Value → List String
  | [] => []
  | v :: vs => outline v :: outlineItems vs

def outlineEntries : Entries → List String
  | [] => []
  | (k, v) :: es => (outlineKey k ++ ": " ++ outline v) :: outlineEntries es

def outlineKey : Value → String
  | .bool b => if b then "true" else "false"
  | .number n => n.text
  | .string s => Text.quoted s
  | k => outline k

end

end Value

namespace PropertyBlock

def localText? (v : Value) : Option String := if v.untagged.isNull then some "" else v.scalarText?

def definition? (e : Value × Value) : Option (String × String) :=
  match e.1.string? with
  | some name => if Include.isKey name then none else (localText? e.2).map (name, ·)
  | none => none

def definitions (block : Entries) : List (String × String) := block.filterMap definition?

def entryNotes (e : Value × Value) : List Record :=
  match e.1.string? with
  | some name =>
    if Include.isKey name || (localText? e.2).isSome then []
    else [.debug .properties ("忽略非标量属性: " ++ name)]
  | none => [.debug .properties ("忽略非字符串属性键: " ++ e.1.outline)]

def fileEntries (p : Path) : Value → Except ConfigFault Entries
  | .null => .ok []
  | .mapping es => .ok es
  | _ => .error (.malformed p.text .propertyFile)

-- The property that an entry of a property file defines; here null defines nothing.
def fileDefinition? (e : Value × Value) : Option (String × String) :=
  match e.1.string? with
  | some name => if Include.isKey name then none else e.2.scalarText?.map (name, ·)
  | none => none

def define (t : PropertyTable) (rows : List (String × String)) : PropertyTable :=
  rows.foldl (fun t row => t.insert row.1 row.2) t

def readFile : Nat → Path → Load (PropertyTable × List Path)
  | 0, p => throw (.tooDeep p.text)
  | left + 1, p => do
    Load.note [.debug .properties ("加载属性文件: " ++ p.text)]
    let entries ← liftM (fileEntries p (← Load.readYaml p))
    let dir ← Load.directoryOf p
    let (included, files) ← (Include.ofEntries entries).foldlM
      (fun acc (key, value) => do
        let paths ← liftM (Include.paths key value)
        paths.foldlM
          (fun (acc : PropertyTable × List Path) path => do
            let (table, files) ← readFile left ((← read).resolve path dir)
            return (acc.1.union table, acc.2 ++ files))
          acc)
      (Table.empty, [p])
    return (define included (entries.filterMap fileDefinition?), files)

def adopt (own : List String) (t included : PropertyTable) : PropertyTable :=
  define t (included.rows.filter fun row => !own.contains row.1)

abbrev Grow := ReaderT Surroundings (ExceptT ConfigFault (StateT PropertyTable (StateM Loading)))

namespace Grow

variable {α : Type}

def ofLoad (m : Load α) : Grow α :=
  fun s => ExceptT.mk fun t l =>
    let (result, l) := m.runOn s l
    ((result, t), l)

def runFrom (m : Grow α) (t : PropertyTable) : Load (Except ConfigFault α × PropertyTable) :=
  fun s => ExceptT.mk fun l =>
    let (r, l) := ((m s).run t) l
    (.ok r, l)

def settle : Grow Unit := do
  let env := (← read).env
  let t ← get
  ofLoad (Load.note (t.settleNotes env))
  set (t.settle env)

end Grow

def addInclude (own : List String) (base : Option Path) (key : String) (value : Value) :
    Grow (List Path) := do
  let paths ← liftM (Include.paths key value)
  let files ← paths.mapM fun path => do
    let p ← Grow.ofLoad (Load.resolve (← get) path base)
    let (included, files) ← Grow.ofLoad (readFile includeLimit p)
    modify fun t => adopt own t included
    return files
  return files.flatten

def grow (block : Entries) (base : Option Path) : Grow (List Path) := do
  let own := definitions block
  Grow.ofLoad (Load.note (block.flatMap entryNotes))
  modify fun t => define t own
  -- The block is expanded before its includes are read, since their paths may use its properties.
  Grow.settle
  match Include.ofEntries block with
  | [] => return []
  | includes =>
    let files ← includes.mapM fun (key, value) => addInclude (own.map (·.1)) base key value
    Grow.settle
    return files.flatten

def add (t : PropertyTable) (block : Entries) (base : Option Path) :
    Load (PropertyTable × List Path) := do
  match ← (grow block base).runFrom t with
  | (.ok files, t) => return (t, files)
  | (.error fault, _) => throw fault

theorem readFile_zero (p : Path) : readFile 0 p = throw (.tooDeep p.text) := rfl

end PropertyBlock

end Steward
