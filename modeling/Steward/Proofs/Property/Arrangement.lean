import Steward.Proofs.Document.IncludeOrder
import Steward.Proofs.Loading.Takings
import Steward.Proofs.Property.Growth

set_option autoImplicit false

namespace Steward

open List (Forall₂)
open Entries (Twin)

namespace Table

variable {α : Type} {t u : Table α}

theorem nodup_rows (t : Table α) : t.rows.Nodup := by
  refine t.ascending.imp fun {a b} below same => ?_
  simp [same] at below

theorem ext_get? (same : ∀ name, t.get? name = u.get? name) : t = u := by
  have members : ∀ row, row ∈ t.rows ↔ row ∈ u.rows := by
    rintro ⟨name, a⟩
    rw [mem_rows_iff, mem_rows_iff, same]
  have perm := (List.perm_ext_iff_of_nodup t.nodup_rows u.nodup_rows).mpr members
  have rows : t.rows = u.rows := by
    refine perm.eq_of_pairwise (fun a b _ _ below above => ?_) t.ascending u.ascending
    rw [Std.OrientedCmp.gt_of_lt below] at above
    cases above
  cases t
  cases u
  cases rows
  rfl

end Table

namespace PropertyBlock

variable {t : PropertyTable} {rows rows' : List (String × String)}

def rowValue? (name : String) (rows : List (String × String)) : Option String :=
  latest (fun row => if row.1 = name then some row.2 else none) rows

theorem rowValue?_under (name : String) (rows : List (String × String)) :
    rowValue? name rows = latest (fun row => some row.2) (Include.under rows name) := by
  simp [rowValue?, Include.under, latest_filter]

theorem get?_define (t : PropertyTable) (rows : List (String × String)) (name : String) :
    (define t rows).get? name = (rowValue? name rows).or (t.get? name) := by
  refine foldl_latest (Table.get? · name) (fun t row _ => ?_) t
  rw [Table.get?_insert]
  by_cases same : row.1 = name
  · simp [same]
  · simp [same, Ne.symm same]

theorem define_congr (same : ∀ name, Include.under rows name = Include.under rows' name) :
    define t rows = define t rows' :=
  Table.ext_get? fun name => by
    rw [get?_define, get?_define, rowValue?_under, rowValue?_under, same]

theorem contains_congr (same : ∀ name, Include.under rows name = Include.under rows' name)
    (name : String) : (rows.map (·.1)).contains name = (rows'.map (·.1)).contains name := by
  have members : ∀ row, row ∈ rows ↔ row ∈ rows' := fun row =>
    ⟨Include.mem_of_under same, Include.mem_of_under fun name => (same name).symm⟩
  refine Bool.eq_iff_iff.mpr ?_
  simp [members]

theorem takeFile_congr (same : ∀ name, Include.under rows name = Include.under rows' name) :
    takeFile (rows.map (·.1)) = takeFile (rows'.map (·.1)) := by
  have adopts : adopt (rows.map (·.1)) = adopt (rows'.map (·.1)) := by
    funext t included
    simp only [adopt, contains_congr same]
  funext base acc raw
  simp only [takeFile, adopts]

def takeOrder (own : List String) (base : Option Path) (acc : List Path × PropertyTable)
    (o : String × Except ConfigFault (List String)) : Load (List Path × PropertyTable) := do
  let raws ← liftM o.2
  raws.foldlM (takeFile own base) acc

def fill (t : PropertyTable) (rows : List (String × String))
    (orders : List (String × Except ConfigFault (List String))) (base : Option Path) :
    Load (PropertyTable × List Path) := do
  let s ← read
  Load.note ((define t rows).settleNotes s.env)
  match orders with
  | [] => return ((define t rows).settle s.env, [])
  | orders => do
    let (files, t) ← orders.foldlM (takeOrder (rows.map (·.1)) base)
      ([], (define t rows).settle s.env)
    let s ← read
    Load.note (t.settleNotes s.env)
    return (t.settle s.env, files)

theorem add_eq_fill (t : PropertyTable) (block : Entries) (base : Option Path) :
    add t block base = (do
      Load.note (block.flatMap entryNotes)
      fill t (definitions block) (Include.orders block) base) := by
  rw [add_eq_takeIncludes]
  unfold fill Include.orders
  congr 1
  funext _
  congr 1
  funext s
  congr 1
  funext _
  cases Include.ofEntries block with
  | nil => rfl
  | cons e includes =>
    have taken : takeIncludes (ownNames block) base (opened t block s.env) (e :: includes) =
        List.foldlM (takeOrder (ownNames block) base) ([], opened t block s.env)
          ((e :: includes).map fun e => (e.1, Include.paths e.1 e.2)) := by
      rw [List.foldlM_map]
      rfl
    simp only [taken]
    rfl

theorem fill_congr (same : ∀ name, Include.under rows name = Include.under rows' name)
    (orders : List (String × Except ConfigFault (List String))) (base : Option Path) :
    fill t rows orders base = fill t rows' orders base := by
  have takes : takeOrder (rows.map (·.1)) = takeOrder (rows'.map (·.1)) := by
    funext base acc o
    simp only [takeOrder, takeFile_congr same]
  unfold fill
  rw [define_congr same, takes]

theorem localText?_reordered {v w : Value} (reordered : v.Reordered w) :
    localText? v = localText? w := by
  unfold localText?
  rw [reordered.isNull_untagged, reordered.scalarText?]

theorem definition?_twin {e f : Value × Value} (twin : Twin e f) :
    definition? e = definition? f := by
  unfold definition?
  rw [twin.1.string?, localText?_reordered twin.2]

theorem definition?_text (e : Value × Value) (row : String × String)
    (found : definition? e = some row) : e.1.string? = some row.1 := by
  unfold definition? at found
  split at found
  · next name text =>
    split at found
    · cases found
    · obtain ⟨value, -, rfl⟩ := Option.map_eq_some_iff.mp found
      exact text
  · cases found

theorem fill_yields (t : PropertyTable) (rows : List (String × String))
    (orders : List (String × Except ConfigFault (List String))) (base : Option Path)
    {s : Surroundings} : (fill t rows orders base).Yields s [] fun _ _ => True := by
  unfold fill
  refine .look (fun s' here env => by simp only [env]) (.after (Load.note_leaves _) fun _ => ?_)
  split
  · exact .pure True.intro
  · refine .bind (P := fun _ _ => True) (.foldlM (fun acc front o _ _ => ?_) True.intro) ?_
    · refine .after (.lift _) fun raws => .foldlM (fun acc front raw _ _ => ?_) True.intro
      refine .after (Load.resolve_leaves _ raw base) fun p => ?_
      refine LoadOr.Yields.bind (P := fun _ _ => True) ?_ fun result front _ => .pure True.intro
      exact (readFile_yields includeLimit p (Listed.nil [])).mono fun _ _ _ _ _ => True.intro
    · rintro ⟨files, u⟩ front -
      refine .look (fun s' here env => by simp only [env]) ?_
      exact .after (Load.note_leaves _) fun _ => .pure True.intro

-- Only the notes in the log can tell the two blocks apart.
theorem add_twin (t : PropertyTable) {ps qs : Entries} (base : Option Path)
    (twins : ∀ name, Forall₂ Twin (ps.under name) (qs.under name)) :
    add t qs base = (do
      Load.note (qs.flatMap entryNotes)
      fill t (definitions ps) (Include.orders ps) base) := by
  have same (name : String) :
      Include.under (definitions ps) name = Include.under (definitions qs) name := by
    rw [definitions, definitions, Include.under_filterMap definition?_text,
      Include.under_filterMap definition?_text]
    exact Entries.filterMap_twin (fun _ _ => definition?_twin) (twins name)
  rw [add_eq_fill, Include.orders_twin fun name _ => twins name, fill_congr same]

end PropertyBlock

end Steward
