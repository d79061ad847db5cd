import Steward.Document.Section

set_option autoImplicit false

namespace Steward.Section

def gather (context : String) (parent : PropertyTable) :
    Nat → Value → Option Path → Load (Entries × Option Path)
  | left, .null, base => return (← Merge.mergeIncludes parent left [] base, base)
  | left, .mapping es, base => return (← Merge.mergeIncludes parent left es base, base)
  | 0, .string text, base => do
    let p ← Load.resolve parent text base
    throw (.tooDeep p.text)
  | left + 1, .string text, base => do
    let p ← Load.resolve parent text base
    Load.note [.debug .sections ("从文件加载配置节点 " ++ orRoot context ++ ": " ++ p.text)]
    let loaded ← Load.readYaml p
    Load.register p
    gather context parent left loaded (← Load.directoryOf p)
  | _, _, _ => throw (.malformed (orRoot context) .section)

def furnish (context : String) (parent : PropertyTable) (gathered : Entries × Option Path) :
    Load Section := do
  let (es, base) := gathered
  match es.lookup Merge.propertiesKey with
  | none | some .null => return ⟨context, parent, es, base⟩
  | some (.mapping block) => do
    let (table, files) ← PropertyBlock.add parent block base
    files.forM Load.register
    return ⟨context, table, es, base⟩
  | some _ => throw (.malformed (joinPlace context Merge.propertiesKey) .properties)

theorem gather_null (context : String) (parent : PropertyTable) (left : Nat)
    (base : Option Path) :
    gather context parent left .null base = gather context parent left (.mapping []) base := by
  cases left <;> rfl

theorem gather_mapping (context : String) (parent : PropertyTable) (left : Nat) (es : Entries)
    (base : Option Path) :
    gather context parent left (.mapping es) base = (do
      return (← Merge.mergeIncludes parent left es base, base)) := by
  cases left <;> rfl

theorem build_eq (context : String) (parent : PropertyTable) (left : Nat) (v : Value)
    (base : Option Path) :
    build context parent left v base =
      gather context parent left v base >>= furnish context parent := by
  have finish (left : Nat) (es : Entries) (base : Option Path) :
      build.finish context parent left es base = (do
        let es ← Merge.mergeIncludes parent left es base
        furnish context parent (es, base)) := rfl
  have stop {α : Type} (fault : ConfigFault) (f : α → Load Section) :
      throw fault >>= f = throw fault := rfl
  induction left generalizing v base with
  | zero => cases v <;> simp [build, gather, finish, stop]
  | succ left ih => cases v <;> simp [build, gather, finish, stop, ih]

end Steward.Section
