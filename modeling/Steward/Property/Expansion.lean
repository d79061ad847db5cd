import Steward.Log.Record
import Steward.Property.Template

set_option autoImplicit false

namespace Steward

namespace Variable

def isFirst (c : Char) : Bool := c.isAlpha || c == '_'

def isNext (c : Char) : Bool := c.isAlphanum || c == '_'

def opening : List Char := ['$', '{']

def reference? (cs : List Char) : Option (List Char × List Char) :=
  match cs with
  | '$' :: '{' :: c :: rest =>
    if isFirst c then
      match rest.dropWhile isNext with
      | '}' :: after => some (c :: rest.takeWhile isNext, after)
      | _ => none
    else none
  | _ => none

theorem length_of_reference? {cs name after : List Char}
    (h : reference? cs = some (name, after)) : after.length < cs.length := by
  unfold reference? at h
  split at h
  · next c rest =>
    split at h
    · split at h
      · next after' hd =>
        simp only [Option.some.injEq, Prod.mk.injEq] at h
        have hl := congrArg List.length (List.takeWhile_append_dropWhile (p := isNext) (l := rest))
        rw [hd] at hl
        simp only [List.length_append, List.length_cons] at hl ⊢
        rw [← h.2]
        omega
      · cases h
    · cases h
  · cases h

-- Puts the values of variables in place of their references; a reference to none stays.
def substitute (env : String → Option String) (cs : List Char) : List Char :=
  match cs with
  | [] => []
  | c :: rest =>
    match _h : reference? (c :: rest) with
    | none => c :: substitute env rest
    | some (name, after) =>
      match env (String.ofList name) with
      | some value => value.toList ++ substitute env after
      | none => opening ++ name ++ '}' :: substitute env after
termination_by cs.length
decreasing_by
  all_goals simp only [List.length_cons]
  · omega
  all_goals
    have := length_of_reference? _h
    simp only [List.length_cons] at this
    omega

def occursIn (s : String) : Bool := Text.contains opening s.toList

end Variable

namespace PropertyTable

def withVariables (env : String → Option String) (raw : String) : String :=
  if Variable.occursIn raw then String.ofList (Variable.substitute env raw.toList) else raw

def render (t : PropertyTable) (text : String) : String :=
  match Template.strict t text with
  | .ok rendered => rendered
  | .error _ => Template.careful t text

def expand (t : PropertyTable) (env : String → Option String) (raw : String) : String :=
  if !Variable.occursIn raw && !Template.occursIn raw then raw
  else
    let text := withVariables env raw
    Text.trimmed (if Template.occursIn text then t.render text else text)

def expandNotes (t : PropertyTable) (env : String → Option String) (raw : String) : List Record :=
  let text := withVariables env raw
  if Template.occursIn text then
    match Template.strict t text with
    | .ok _ => []
    | .error fault =>
      [.debug .properties ("模板整体求值失败，改为逐片段求值: " ++ fault.message)]
  else []

def expandEntry (env : String → Option String) (t : PropertyTable) (name : String) :
    PropertyTable :=
  match t.get? name with
  | some raw => t.insert name (t.expand env raw)
  | none => t

def pass (env : String → Option String) (t : PropertyTable) : PropertyTable :=
  t.names.foldl (expandEntry env) t

def passNotes (env : String → Option String) (t : PropertyTable) : List String → List Record
  | [] => []
  | name :: names =>
    (match t.get? name with
      | some raw => t.expandNotes env raw
      | none => []) ++ passNotes env (expandEntry env t name) names

def settle (env : String → Option String) (t : PropertyTable) : PropertyTable :=
  pass env (pass env t)

def settleNotes (env : String → Option String) (t : PropertyTable) : List Record :=
  passNotes env t t.names ++ passNotes env (pass env t) (pass env t).names

theorem expand_of_plain {t : PropertyTable} {env : String → Option String} {raw : String}
    (hv : Variable.occursIn raw = false) (ht : Template.occursIn raw = false) :
    t.expand env raw = raw := by
  simp [expand, hv, ht]

end PropertyTable

end Steward
