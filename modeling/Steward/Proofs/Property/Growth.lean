import Steward.Proofs.Document.AtHome

set_option autoImplicit false

namespace Steward.PropertyBlock

open Homeward (whole whole_bind whole_ofLoad whole_lift)

variable {α β : Type}

def opened (t : PropertyTable) (block : Entries) (env : String → Option String) : PropertyTable :=
  (define t (definitions block)).settle env

def ownNames (block : Entries) : List String := (definitions block).map (·.1)

def takeFile (own : List String) (base : Option Path) (acc : List Path × PropertyTable)
    (raw : String) : Load (List Path × PropertyTable) := do
  let p ← Load.resolve acc.2 raw base
  let (included, files) ← readFile includeLimit p
  return (acc.1 ++ files, adopt own acc.2 included)

def takeInclude (own : List String) (base : Option Path) (acc : List Path × PropertyTable)
    (e : String × Value) : Load (List Path × PropertyTable) := do
  let paths ← liftM (Include.paths e.1 e.2)
  paths.foldlM (takeFile own base) acc

def takeIncludes (own : List String) (base : Option Path) (t : PropertyTable)
    (includes : List (String × Value)) : Load (List Path × PropertyTable) :=
  includes.foldlM (takeInclude own base) ([], t)

theorem whole_pure (a : α) (t : PropertyTable) : whole (pure a) t = pure (a, t) := rfl

theorem whole_get (t : PropertyTable) : whole (get : Grow PropertyTable) t = pure (t, t) := rfl

theorem whole_modify (f : PropertyTable → PropertyTable) (t : PropertyTable) :
    whole (modify f) t = pure ((), f t) :=
  rfl

theorem whole_mapM (f : β → Grow (List α)) (items : List β) (front : List α) (t : PropertyTable) :
    (do
      let r ← whole (items.mapM f) t
      return (front ++ r.1.flatten, r.2)) =
      items.foldlM
        (fun (acc : List α × PropertyTable) b => do
          let r ← whole (f b) acc.2
          return (acc.1 ++ r.1, r.2)) (front, t) := by
  induction items generalizing front t with
  | nil => simp only [List.mapM_nil, whole_pure, pure_bind, List.flatten_nil, List.append_nil,
      List.foldlM_nil]
  | cons b items ih =>
    simp only [List.mapM_cons, List.foldlM_cons, whole_bind, bind_assoc, whole_pure, pure_bind,
      ← ih, List.flatten_cons, List.append_assoc]

theorem whole_addInclude (own : List String) (base : Option Path) (e : String × Value)
    (files : List Path) (t : PropertyTable) :
    (do
      let r ← whole (addInclude own base e.1 e.2) t
      return (files ++ r.1, r.2)) =
      takeInclude own base (files, t) e := by
  unfold addInclude takeInclude
  simp only [whole_bind, whole_lift, whole_pure, bind_assoc, pure_bind]
  congr 1
  funext paths
  rw [whole_mapM]
  simp only [whole_bind, whole_get, whole_ofLoad, whole_modify, whole_pure, bind_assoc, pure_bind]
  rfl

theorem whole_settle (t : PropertyTable) :
    whole Grow.settle t = (do
      let s ← read
      Load.note (t.settleNotes s.env)
      return ((), t.settle s.env)) :=
  rfl

theorem add_eq_takeIncludes (t : PropertyTable) (block : Entries) (base : Option Path) :
    add t block base = (do
      Load.note (block.flatMap entryNotes)
      let s ← read
      Load.note ((define t (definitions block)).settleNotes s.env)
      match Include.ofEntries block with
      | [] => return (opened t block s.env, [])
      | includes => do
        let (files, t) ← takeIncludes (ownNames block) base (opened t block s.env) includes
        let s ← read
        Load.note (t.settleNotes s.env)
        return (t.settle s.env, files)) := by
  rw [Homeward.add_eq]
  unfold grow
  simp only [whole_bind, whole_ofLoad, whole_modify, whole_settle, bind_assoc, pure_bind]
  congr 1
  funext _
  congr 1
  funext s
  congr 1
  funext _
  cases Include.ofEntries block with
  | nil => rfl
  | cons e includes =>
    have moved := whole_mapM
      (fun e : String × Value => addInclude (ownNames block) base e.1 e.2) (e :: includes) []
      (opened t block s.env)
    simp only [whole_addInclude] at moved
    simp only [whole_bind, whole_settle, whole_pure, bind_assoc, pure_bind]
    unfold takeIncludes
    rw [← moved]
    simp only [bind_assoc, pure_bind]
    rfl

end Steward.PropertyBlock
