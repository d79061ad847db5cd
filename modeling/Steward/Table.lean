set_option autoImplicit false

namespace Steward

variable {α : Type}

def Ascending (rows : List (String × α)) : Prop :=
  rows.Pairwise fun a b => compare a.1 b.1 = .lt

structure Table (α : Type) where
  rows : List (String × α)
  ascending : Ascending rows

namespace Table

def empty : Table α := ⟨[], List.Pairwise.nil⟩

instance : Inhabited (Table α) := ⟨empty⟩

instance [DecidableEq α] : DecidableEq (Table α) := fun a b =>
  if h : a.rows = b.rows then isTrue (by cases a; cases b; simp_all)
  else isFalse (fun e => h (congrArg rows e))

def insertRow (name : String) (a : α) : List (String × α) → List (String × α)
  | [] => [(name, a)]
  | row :: rows =>
    match compare name row.1 with
    | .lt => (name, a) :: row :: rows
    | .eq => (name, a) :: rows
    | .gt => row :: insertRow name a rows

theorem fst_of_mem_insertRow {name : String} {a : α} {rows : List (String × α)}
    {row : String × α} (h : row ∈ insertRow name a rows) :
    row = (name, a) ∨ row ∈ rows := by
  induction rows with
  | nil => simpa [insertRow] using h
  | cons r rs ih =>
    simp only [insertRow] at h
    split at h
    · simpa using h
    · rcases List.mem_cons.mp h with h | h
      · exact .inl h
      · exact .inr (List.mem_cons_of_mem _ h)
    · rcases List.mem_cons.mp h with h | h
      · exact .inr (h ▸ List.mem_cons_self)
      · exact (ih h).imp id (List.mem_cons_of_mem _)

theorem ascending_insertRow {rows : List (String × α)} (h : Ascending rows)
    (name : String) (a : α) : Ascending (insertRow name a rows) := by
  induction rows with
  | nil => simp [insertRow, Ascending]
  | cons r rs ih =>
    have hr := List.pairwise_cons.mp h
    simp only [insertRow]
    split
    · next hc =>
      refine List.pairwise_cons.mpr ⟨fun b hb => ?_, h⟩
      rcases List.mem_cons.mp hb with rfl | hb
      · exact hc
      · exact Std.TransCmp.lt_trans hc (hr.1 b hb)
    · next hc =>
      refine List.pairwise_cons.mpr ⟨fun b hb => ?_, hr.2⟩
      have : name = r.1 := Std.LawfulEqCmp.eq_of_compare hc
      exact this ▸ hr.1 b hb
    · next hc =>
      refine List.pairwise_cons.mpr ⟨fun b hb => ?_, ih hr.2⟩
      rcases fst_of_mem_insertRow hb with rfl | hb
      · exact Std.OrientedCmp.lt_of_gt hc
      · exact hr.1 b hb

def insert (t : Table α) (name : String) (a : α) : Table α :=
  ⟨insertRow name a t.rows, ascending_insertRow t.ascending name a⟩

def ofList (rows : List (String × α)) : Table α :=
  rows.foldl (fun t row => t.insert row.1 row.2) empty

def union (t u : Table α) : Table α :=
  u.rows.foldl (fun t row => t.insert row.1 row.2) t

def erase (t : Table α) (name : String) : Table α :=
  ⟨t.rows.filter (·.1 ≠ name), t.ascending.filter _⟩

def get? (t : Table α) (name : String) : Option α := t.rows.lookup name

def has (t : Table α) (name : String) : Bool := (t.get? name).isSome

def update (t : Table α) (name : String) (f : α → α) : Table α :=
  match t.get? name with
  | some a => t.insert name (f a)
  | none => t

theorem ascending_map {β : Type} {rows : List (String × α)} (h : Ascending rows) (f : α → β) :
    Ascending (rows.map fun row => (row.1, f row.2)) :=
  List.pairwise_map.mpr h

def map {β : Type} (f : α → β) (t : Table α) : Table β :=
  ⟨t.rows.map fun row => (row.1, f row.2), ascending_map t.ascending f⟩

theorem ascending_mapNamed {β : Type} {rows : List (String × α)} (h : Ascending rows)
    (f : String → α → β) : Ascending (rows.map fun row => (row.1, f row.1 row.2)) :=
  List.pairwise_map.mpr h

def mapNamed {β : Type} (f : String → α → β) (t : Table α) : Table β :=
  ⟨t.rows.map fun row => (row.1, f row.1 row.2), ascending_mapNamed t.ascending f⟩

def names (t : Table α) : List String := t.rows.map (·.1)

def size (t : Table α) : Nat := t.rows.length

def isEmpty (t : Table α) : Bool := t.rows.isEmpty

theorem get?_empty (name : String) : (empty : Table α).get? name = none := rfl

theorem lookup_cons_of_ne {name other : String} (hne : name ≠ other) (a : α)
    (rows : List (String × α)) : ((other, a) :: rows).lookup name = rows.lookup name := by
  have hb : (name == other) = false := beq_eq_false_iff_ne.mpr hne
  rw [List.lookup_cons, hb]

theorem lookup_cons_congr {rows rows' : List (String × α)} {name : String}
    (h : rows.lookup name = rows'.lookup name) (row : String × α) :
    (row :: rows).lookup name = (row :: rows').lookup name := by
  obtain ⟨other, a⟩ := row
  by_cases he : name = other
  · subst he
    rw [List.lookup_cons_self, List.lookup_cons_self]
  · rw [lookup_cons_of_ne he, lookup_cons_of_ne he, h]

theorem lookup_insertRow_self (name : String) (a : α) (rows : List (String × α)) :
    (insertRow name a rows).lookup name = some a := by
  induction rows with
  | nil => exact List.lookup_cons_self
  | cons r rs ih =>
    simp only [insertRow]
    split
    · exact List.lookup_cons_self
    · exact List.lookup_cons_self
    · next hc =>
      have hne : name ≠ r.1 := fun he => by simp [he] at hc
      rw [lookup_cons_of_ne hne, ih]

theorem lookup_insertRow_of_ne {name other : String} (hne : other ≠ name) (a : α)
    (rows : List (String × α)) :
    (insertRow name a rows).lookup other = rows.lookup other := by
  induction rows with
  | nil => exact lookup_cons_of_ne hne a []
  | cons r rs ih =>
    simp only [insertRow]
    split
    · exact lookup_cons_of_ne hne a (r :: rs)
    · next hc =>
      have he : name = r.1 := Std.LawfulEqCmp.eq_of_compare hc
      rw [lookup_cons_of_ne hne, lookup_cons_of_ne (he ▸ hne)]
    · exact lookup_cons_congr ih r

theorem get?_insert_self (t : Table α) (name : String) (a : α) :
    (t.insert name a).get? name = some a := lookup_insertRow_self name a t.rows

theorem get?_insert_of_ne (t : Table α) {name other : String} (hne : other ≠ name)
    (a : α) : (t.insert name a).get? other = t.get? other :=
  lookup_insertRow_of_ne hne a t.rows

theorem get?_insert (t : Table α) (name other : String) (a : α) :
    (t.insert name a).get? other = if other = name then some a else t.get? other := by
  by_cases same : other = name
  · subst same
    simp [get?_insert_self]
  · simp [same, get?_insert_of_ne t same]

theorem lookup_filter_ne (name other : String) (rows : List (String × α)) :
    (rows.filter (·.1 ≠ name)).lookup other =
      if other = name then none else rows.lookup other := by
  induction rows with
  | nil => simp
  | cons row rows ih =>
    obtain ⟨key, a⟩ := row
    by_cases dropped : key = name
    · subst dropped
      by_cases same : other = key
      · simpa [same] using ih
      · simpa [same, lookup_cons_of_ne same] using ih
    · by_cases here : other = key
      · subst here
        simp [dropped]
      · simpa [dropped, lookup_cons_of_ne here] using ih

theorem get?_erase (t : Table α) (name other : String) :
    (t.erase name).get? other = if other = name then none else t.get? other :=
  lookup_filter_ne name other t.rows

theorem get?_erase_self (t : Table α) (name : String) : (t.erase name).get? name = none := by
  rw [get?_erase, if_pos rfl]

theorem get?_update (t : Table α) (name other : String) (f : α → α) :
    (t.update name f).get? other =
      if other = name then (t.get? name).map f else t.get? other := by
  unfold update
  cases found : t.get? name with
  | none => by_cases same : other = name <;> simp [same, found]
  | some a => simp [get?_insert]

theorem lookup_mapNamed {β : Type} (f : String → α → β) (name : String)
    (rows : List (String × α)) :
    (rows.map fun row => (row.1, f row.1 row.2)).lookup name =
      (rows.lookup name).map (f name) := by
  induction rows with
  | nil => rfl
  | cons row rows ih =>
    obtain ⟨key, a⟩ := row
    by_cases here : name = key
    · subst here
      simp
    · simp only [List.map_cons, lookup_cons_of_ne here, ih]

theorem get?_mapNamed {β : Type} (t : Table α) (f : String → α → β) (name : String) :
    (t.mapNamed f).get? name = (t.get? name).map (f name) :=
  lookup_mapNamed f name t.rows

theorem mem_rows_iff (t : Table α) (name : String) (a : α) :
    (name, a) ∈ t.rows ↔ t.get? name = some a := by
  unfold get?
  rw [List.lookup_eq_some_iff]
  constructor
  · intro member
    obtain ⟨front, back, rows⟩ := List.append_of_mem member
    refine ⟨front, back, rows, fun row before => ?_⟩
    have ascending := t.ascending
    rw [rows, Ascending, List.pairwise_append] at ascending
    have below := ascending.2.2 row before (name, a) (by simp)
    exact bne_iff_ne.mpr fun same => by simp [same] at below
  · rintro ⟨front, back, rows, -⟩
    simp [rows]

theorem nodup_names (t : Table α) : t.names.Nodup := by
  refine List.pairwise_map.mpr (t.ascending.imp fun {a b} below same => ?_)
  simp [same] at below

theorem mem_names_iff (t : Table α) (name : String) :
    name ∈ t.names ↔ ∃ a, t.get? name = some a := by
  unfold names
  rw [List.mem_map]
  constructor
  · rintro ⟨⟨_, a⟩, member, rfl⟩
    exact ⟨a, (t.mem_rows_iff _ a).mp member⟩
  · rintro ⟨a, found⟩
    exact ⟨(name, a), (t.mem_rows_iff name a).mpr found, rfl⟩

theorem has_iff (t : Table α) (name : String) : t.has name = true ↔ ∃ a, t.get? name = some a :=
  Option.isSome_iff_exists

end Table

end Steward
