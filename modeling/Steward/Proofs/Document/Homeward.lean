import Steward.Document.Listing
import Steward.Proofs.Document.Difference

/-!
Loads that look for every file at home. Beside each value goes the home of its text, which is the
directory of the file where it is written. A relative path is looked for there; where the directory
that the document keeps for it is another one, the load halts.
-/

set_option autoImplicit false

namespace Steward

/-- What ends a load at home: a fault, or a relative path that has left its home for `base`. -/
inductive Halt
  | fault (cause : ConfigFault)
  | stray (raw : String) (base home : Option Path)
  deriving DecidableEq, Repr

abbrev Homeward := LoadOr Halt

abbrev Homes := Value → Option Path

structure Source where
  home : Option Path
  entries : Homes

structure Sources where
  entries : Homes
  properties : Homes

namespace Source

def whole (home : Option Path) : Source := ⟨home, fun _ => home⟩

def document (o : Source) : Sources := ⟨o.entries, fun _ => o.entries (.string Merge.propertiesKey)⟩

end Source

namespace Sources

def inside (o : Sources) (key : Value) : Source where
  home := o.entries key
  entries := if key.same (.string Merge.propertiesKey) then o.properties else fun _ => o.entries key

end Sources

def Homes.put (homes : Homes) (key : Value) (home : Option Path) : Homes := fun k =>
  if key.same k then home else homes k

structure Sourced where
  sec : Section
  sources : Sources

structure SourcedListing where
  context : String
  table : PropertyTable
  items : List ((Value × Option Path) × Source)

def SourcedListing.listing (l : SourcedListing) : Listing :=
  ⟨l.context, l.table, l.items.map (·.1)⟩

namespace Homeward

variable {α : Type}

def ofLoad (m : Load α) : Homeward α := LoadOr.mapFault Halt.fault m

def isLost (s : Surroundings) (t : PropertyTable) (raw : String) (base home : Option Path) :
    Bool :=
  base ≠ home && !(Path.mk (Text.trimmed (t.expand s.env raw))).isAbsolute

def locate (t : PropertyTable) (raw : String) (base home : Option Path) : Homeward Path := do
  let s ← read
  if isLost s t raw base home then throw (.stray raw base home)
  else ofLoad (Load.resolve t raw home)

section Merge

open Merge

def putMissing (own : List Value) (source homes : Homes) (e : Value × Value) : Homes :=
  if hasKey own e.1 then homes else homes.put e.1 (source e.1)

def adoptProperties (own : Own) (es : Entries) (o : Sources) (block : Value) (source : Source) :
    Sources :=
  match block with
  | .mapping ps =>
    match es.lookup propertiesKey with
    | some (.mapping _) =>
      { o with properties := ps.foldl (putMissing own.properties source.entries) o.properties }
    | some .null | none =>
      ⟨o.entries.put (.string propertiesKey) source.home, source.entries⟩
    | some _ => o
  | _ => o

def adoptEntry (own : Own) (source : Sources) (d : Entries × Sources) (e : Value × Value) :
    Entries × Sources :=
  (Merge.adoptEntry own d.1 e,
    if e.1.string? = some propertiesKey then
      adoptProperties own d.1 d.2 e.2 (source.inside e.1)
    else { d.2 with entries := putMissing own.keys source.entries d.2.entries e })

def adopt (own : Own) (d included : Entries × Sources) : Entries × Sources :=
  included.1.foldl (adoptEntry own included.2) d

def includes (es : Entries) (homes : Homes) : List ((String × Value) × Option Path) :=
  (es.filterMap fun e => (Include.ofEntry? e).map (·, homes e.1)).mergeSort fun a b =>
    Include.isBefore a.1.1 b.1.1

def mergeWith (file : Path → Homeward (Entries × Sources)) (t : PropertyTable) (es : Entries)
    (base : Option Path) (o : Sources) : Homeward (Entries × Sources) := do
  let plain := withoutIncludes es
  let own := Own.of plain
  (includes es o.entries).foldlM
    (fun d ((key, value), home) => do
      let paths ← ofLoad (liftM (Include.paths key value))
      paths.foldlM
        (fun d path => do
          let included ← file (← locate t path base home)
          ofLoad (Load.note (adoptNotes d.1 included.1))
          return adopt own d included)
        d)
    (plain, o)

def included (t : PropertyTable) : Nat → Path → Homeward (Entries × Sources)
  | 0, p => throw (.fault (.tooDeep p.text))
  | left + 1, p => do
    let loaded ← ofLoad (Load.readYaml p)
    let es ← ofLoad (liftM (documentEntries p loaded))
    ofLoad (Load.register p)
    ofLoad (Load.note [.debug .sections ("合并 include 文档: " ++ p.text)])
    let dir ← ofLoad (Load.directoryOf p)
    mergeWith (included t left) t es dir (Source.whole dir).document

end Merge

section Properties

open PropertyBlock

abbrev Growing := StateT PropertyTable Homeward

def settle : Growing Unit := do
  let env := (← read).env
  let t ← get
  ofLoad (Load.note (t.settleNotes env))
  set (t.settle env)

-- A property file takes its own includes from its own directory, so that it is read as it is.
def addInclude (own : List String) (base home : Option Path) (key : String) (value : Value) :
    Growing (List Path) := do
  let paths ← ofLoad (liftM (Include.paths key value))
  let files ← paths.mapM fun path => do
    let p ← locate (← get) path base home
    let (included, files) ← ofLoad (readFile includeLimit p)
    modify fun t => PropertyBlock.adopt own t included
    return files
  return files.flatten

def grow (block : Entries) (base : Option Path) (homes : Homes) : Growing (List Path) := do
  let own := definitions block
  ofLoad (Load.note (block.flatMap entryNotes))
  modify fun t => define t own
  settle
  match includes block homes with
  | [] => return []
  | entries =>
    let files ← entries.mapM fun ((key, value), home) =>
      addInclude (own.map (·.1)) base home key value
    settle
    return files.flatten

end Properties

section Sections

open Section

def build (context : String) (parent : PropertyTable) :
    Nat → Value → Option Path → Source → Homeward Sourced
  | left, .null, base, o => finish left [] base o
  | left, .mapping es, base, o => finish left es base o
  | 0, .string text, base, o => do
    let p ← locate parent text base o.home
    throw (.fault (.tooDeep p.text))
  | left + 1, .string text, base, o => do
    let p ← locate parent text base o.home
    ofLoad (Load.note
      [.debug .sections ("从文件加载配置节点 " ++ orRoot context ++ ": " ++ p.text)])
    let loaded ← ofLoad (Load.readYaml p)
    ofLoad (Load.register p)
    let dir ← ofLoad (Load.directoryOf p)
    build context parent left loaded dir (.whole dir)
  | _, _, _, _ => throw (.fault (.malformed (orRoot context) .section))
where
  finish (left : Nat) (es : Entries) (base : Option Path) (o : Source) : Homeward Sourced := do
    let (es, sources) ← mergeWith (included parent left) parent es base o.document
    match es.lookup Merge.propertiesKey with
    | none | some .null => return ⟨⟨context, parent, es, base⟩, sources⟩
    | some (.mapping block) => do
      let (files, table) ← (grow block base sources.properties).run parent
      ofLoad (files.forM Load.register)
      return ⟨⟨context, table, es, base⟩, sources⟩
    | some _ => throw (.fault (.malformed (joinPlace context Merge.propertiesKey) .properties))

def ofValue (context : String) (v : Value) : Homeward Sourced :=
  build context .empty includeLimit v none (.whole none)

def ofFile (p : Path) : Homeward Sourced := do
  let p := (← read).absolute p
  let v ← ofLoad (Load.readYaml p)
  ofLoad (Load.register p)
  let dir ← ofLoad (Load.directoryOf p)
  build "" .empty includeLimit v dir (.whole dir)

def getSection (src : Sourced) (key : String) : Homeward Sourced :=
  build (src.sec.placeOf key) src.sec.table includeLimit ((src.sec.raw? key).getD .null)
    src.sec.base (src.sources.inside (.string key))

end Sections

section Listings

def spliceWith (file : Path → Homeward (List ((Value × Option Path) × Source)))
    (t : PropertyTable) (vs : List Value) (base home : Option Path) :
    Homeward (List ((Value × Option Path) × Source)) := do
  let parts ← vs.mapM fun v => do
    match Listing.loneInclude? v with
    | none => return [((v, base), Source.whole home)]
    | some (key, value) => do
      let paths ← ofLoad (liftM (Include.paths key value))
      let parts ← paths.mapM fun path => do file (← locate t path base home)
      return parts.flatten
  return parts.flatten

def spliceFile (context : String) (t : PropertyTable) :
    Nat → Path → Homeward (List ((Value × Option Path) × Source))
  | 0, p => throw (.fault (.tooDeep p.text))
  | left + 1, p => do
    let loaded ← ofLoad (Load.readYaml p)
    ofLoad (Load.register p)
    ofLoad (Load.note [.debug .sections
      ("拼接 include 列表 " ++ Section.orRoot context ++ ": " ++ p.text)])
    let vs ← ofLoad (liftM (Listing.listEntries p loaded))
    let dir ← ofLoad (Load.directoryOf p)
    spliceWith (spliceFile context t left) t vs dir dir

def buildList (context : String) (t : PropertyTable) (v : Value) (base home : Option Path) :
    Homeward SourcedListing := do
  let file := spliceFile context t includeLimit
  match v with
  | .null => return ⟨context, t, []⟩
  | .sequence vs => return ⟨context, t, ← spliceWith file t vs base home⟩
  | .string text => return ⟨context, t, ← file (← locate t text base home)⟩
  | _ => throw (.fault (.malformed (Section.orRoot context) .list))

def getList (src : Sourced) (key : String) : Homeward SourcedListing :=
  buildList (src.sec.placeOf key) src.sec.table ((src.sec.raw? key).getD .null) src.sec.base
    (src.sources.inside (.string key)).home

def get (l : SourcedListing) (index : Nat) : Homeward Sourced :=
  let place := Section.joinPlace l.context (toString index)
  match l.items[index]? with
  | none => throw (.fault (.missing place))
  | some ((v, base), o) => build place l.table includeLimit v base o

end Listings

def go (src : Sourced) : Way → Homeward Sourced
  | .field key => getSection src key
  | .item key index => do get (← getList src key) index

def walk (src : Sourced) (ways : List Way) : Homeward Sourced := ways.foldlM go src

end Homeward

end Steward
