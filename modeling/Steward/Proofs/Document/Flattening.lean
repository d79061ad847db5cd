import Steward.Proofs.Property.Inheritance
import Steward.Proofs.Loading.Takings

set_option autoImplicit false

namespace Steward.Listing

open List (Forall₂)

/-- A place in a list: an entry or a file that is included, written in a file of the directory. -/
inductive Slot
  | entry (v : Value) (home : Option Path)
  | file (raw : String) (home : Option Path)

def contents : Value → List Value
  | .sequence vs => vs
  | .null => []
  | v => [v]

inductive Flattened (s : Surroundings) (t : PropertyTable) :
    List Slot → List (Value × Option Path) → Prop
  | nil : Flattened s t [] []
  | own {v : Value} {home : Option Path} {slots : List Slot} {items : List (Value × Option Path)}
      (own : loneInclude? v = none) (rest : Flattened s t slots items) :
      Flattened s t (.entry v home :: slots) ((v, home) :: items)
  | lone {v : Value} {home : Option Path} {e : String × Value} {raws : List String}
      {slots : List Slot} {items : List (Value × Option Path)} (lone : loneInclude? v = some e)
      (paths : Include.paths e.1 e.2 = .ok raws)
      (rest : Flattened s t (raws.map (.file · home) ++ slots) items) :
      Flattened s t (.entry v home :: slots) items
  | file {raw : String} {home : Option Path} {p : Path} {v : Value} {slots : List Slot}
      {items : List (Value × Option Path)} (named : s.resolve (t.expand s.env raw) home = p)
      (text : Load.readText p (s.stored p) = .ok v)
      (rest : Flattened s t ((contents v).map (.entry · (s.directoryOf p)) ++ slots) items) :
      Flattened s t (.file raw home :: slots) items

def slots (base : Option Path) : Value → List Slot
  | .sequence vs => vs.map (.entry · base)
  | .string raw => [.file raw base]
  | _ => []

variable {s : Surroundings} {t : PropertyTable} {base : Option Path} {context : String}
  {front back : List Slot} {items more : List (Value × Option Path)}

namespace Flattened

theorem append (first : Flattened s t front items) (second : Flattened s t back more) :
    Flattened s t (front ++ back) (items ++ more) := by
  induction first with
  | nil => exact second
  | own own _ ih => exact .own own ih
  | lone lone paths _ ih => exact .lone lone paths (by rwa [List.append_assoc] at ih)
  | file named text _ ih => exact .file named text (by rwa [List.append_assoc] at ih)

theorem flatten {parts : List (List (Value × Option Path))}
    (each : Forall₂ (fun slot part => Flattened s t [slot] part) front parts) :
    Flattened s t front parts.flatten := by
  induction each with
  | nil => exact .nil
  | cons first _ ih => exact first.append ih

theorem unique (first : Flattened s t front items) (second : Flattened s t front more) :
    items = more := by
  induction first generalizing more with
  | nil =>
    cases second
    rfl
  | own own _ ih =>
    cases second with
    | own _ rest => rw [ih rest]
    | lone lone => cases own.symm.trans lone
  | lone lone paths _ ih =>
    cases second with
    | own own => cases own.symm.trans lone
    | lone lone' paths' rest =>
      cases lone.symm.trans lone'
      cases paths.symm.trans paths'
      exact ih rest
  | file named text _ ih =>
    cases second with
    | file named' text' rest =>
      subst named
      subst named'
      cases text.symm.trans text'
      exact ih rest

theorem not_lone (flattened : Flattened s t front items) :
    ∀ item ∈ items, loneInclude? item.1 = none := by
  induction flattened with
  | nil => nofun
  | own own _ ih =>
    intro item member
    rcases List.mem_cons.mp member with rfl | member
    · exact own
    · exact ih item member
  | lone _ _ _ ih => exact ih
  | file _ _ _ ih => exact ih

end Flattened

theorem spliceWith_flattened {file : Path → Load (List (Value × Option Path))}
    (each : ∀ raw trail, (file (s.resolve (t.expand s.env raw) base)).Yields s trail
      fun items _ => Flattened s t [.file raw base] items)
    (vs : List Value) (trail : List Mark) :
    (spliceWith file t vs base).Yields s trail fun items _ =>
      Flattened s t (vs.map (.entry · base)) items := by
  unfold spliceWith
  refine LoadOr.Yields.bind (P := fun parts _ =>
    Forall₂ (fun v part => Flattened s t [.entry v base] part) vs parts)
    (LoadOr.Yields.mapM fun v _ trail => ?_) fun parts trail parted => ?_
  · split
    · next own => exact .pure (.own own .nil)
    · next key value lone =>
      refine .after_ok (.lift _) fun raws paths => ?_
      refine LoadOr.Yields.bind (P := fun parts _ =>
        Forall₂ (fun raw part => Flattened s t [.file raw base] part) raws parts)
        (LoadOr.Yields.mapM fun raw _ trail => ?_) fun parts trail parted => ?_
      · exact .behind (Load.resolve_leaves t raw base) (each raw _)
      · refine .pure (.lone lone paths ?_)
        rw [List.append_nil]
        exact .flatten (List.forall₂_map_left_iff.mpr parted)
  · exact .pure (.flatten (List.forall₂_map_left_iff.mpr parted))

theorem listEntries_contents {p : Path} {v : Value} {vs : List Value}
    (entries : listEntries p v = .ok vs) : vs = contents v := by
  unfold listEntries at entries
  split at entries <;> cases entries <;> rfl

theorem spliceFile_flattened (left : Nat) {p : Path} {raw : String}
    (named : s.resolve (t.expand s.env raw) base = p) (trail : List Mark) :
    (spliceFile context t left p).Yields s trail fun items _ =>
      Flattened s t [.file raw base] items := by
  induction left generalizing p raw base trail with
  | zero => exact .throw
  | succ left ih =>
    unfold spliceFile
    refine .after_ok (Load.readYaml_leaves p) fun v text => ?_
    refine .after (Load.register_leaves p) fun _ => .after (Load.note_leaves _) fun _ => ?_
    refine .after_ok (.lift _) fun vs entries => .behind (Load.directoryOf_leaves p) ?_
    rw [listEntries_contents entries]
    refine (spliceWith_flattened (fun raw trail => ih rfl trail) _ []).imp fun items inside => ?_
    exact .file named text (by rwa [List.append_nil])

theorem build_flattens (v : Value) (trail : List Mark) :
    (build context t v base).Yields s trail fun list _ =>
      Flattened s t (slots base v) list.items := by
  have file (raw : String) (trail : List Mark) :
      (spliceFile context t includeLimit (s.resolve (t.expand s.env raw) base)).Yields s trail
        fun items _ => Flattened s t [.file raw base] items :=
    spliceFile_flattened includeLimit rfl trail
  unfold build
  split
  · exact .pure .nil
  · exact (spliceWith_flattened file _ trail).bind fun items trail flattened => .pure flattened
  · next raw =>
    refine .behind (Load.resolve_leaves t raw base) ?_
    exact (file raw _).bind fun items trail flattened => .pure flattened
  · exact .throw

theorem spliceWith_append (file : Path → Load (List (Value × Option Path))) (vs ws : List Value) :
    spliceWith file t (vs ++ ws) base = (do
      let items ← spliceWith file t vs base
      let more ← spliceWith file t ws base
      return items ++ more) := by
  unfold spliceWith
  simp only [List.mapM_append, bind_assoc, pure_bind, List.flatten_append]

theorem build_append (vs ws : List Value) :
    build context t (.sequence (vs ++ ws)) base = (do
      let front ← build context t (.sequence vs) base
      let back ← build context t (.sequence ws) base
      return ⟨context, t, front.items ++ back.items⟩) := by
  simp only [build, spliceWith_append, bind_assoc, pure_bind]

theorem build_flattened :
    (∀ (v : Value) (l l' : Loading) (list : Listing),
      (build context t v base).runOn s l = (.ok list, l') →
        (∀ items, Flattened s t (slots base v) items ↔ items = list.items) ∧
          ∀ item ∈ list.items, loneInclude? item.1 = none) ∧
    ∀ vs ws : List Value, build context t (.sequence (vs ++ ws)) base = (do
      let front ← build context t (.sequence vs) base
      let back ← build context t (.sequence ws) base
      return ⟨context, t, front.items ++ back.items⟩) := by
  refine ⟨fun v l l' list done => ?_, build_append⟩
  have flattened : Flattened s t (slots base v) list.items :=
    LoadOr.Yields.of_run (build_flattens v []) done
  refine ⟨fun items => ⟨fun other => other.unique flattened, ?_⟩, flattened.not_lone⟩
  rintro rfl
  exact flattened

def flattenedFiles : List (String × String) :=
  [("/etc/sub/list.yaml", "- x: 1\n- include_: one.yaml\n- y: 2\n"),
    ("/etc/sub/one.yaml", "z: 3\n"), ("/etc/none.yaml", "")]

def flattenedList : Value :=
  .sequence [.string "first",
    .mapping [(.string "include_", .sequence [.string "sub/list.yaml", .string "none.yaml"])],
    .string "last"]

def label (item : Value × Option Path) : List String × Option Path :=
  match item.1 with
  | .mapping es => (Entries.stringKeys es, item.2)
  | v => (v.scalarText?.toList, item.2)

theorem sample_flattened :
    let s := Surroundings.ofFiles flattenedFiles
    let base : Option Path := some ⟨"/etc"⟩
    let sub : Option Path := some ⟨"/etc/sub"⟩
    ∃ list, ((build "" .empty flattenedList base).runOn s {}).1 = .ok list ∧
      (∀ items, Flattened s .empty (slots base flattenedList) items ↔ items = list.items) ∧
      (∀ item ∈ list.items, loneInclude? item.1 = none) ∧
      list.items.map label =
        [(["first"], base), (["x"], sub), (["z"], sub), (["y"], sub), (["last"], base)] := by
  intro s base sub
  obtain ⟨list, done⟩ := Load.ok_of_isOk (m := build "" .empty flattenedList base) (s := s)
    (l := {}) (by decide +kernel)
  have made : ((build "" .empty flattenedList base).runOn s {}).1 = .ok list :=
    congrArg Prod.fst done
  have shown : ((build "" .empty flattenedList base).runOn s {}).1.map
      (fun list => list.items.map label) =
        .ok [(["first"], base), (["x"], sub), (["z"], sub), (["y"], sub), (["last"], base)] := by
    decide +kernel
  rw [made] at shown
  obtain ⟨only, own⟩ := build_flattened.1 flattenedList {} _ list done
  exact ⟨list, made, only, own, Except.ok.inj shown⟩

end Steward.Listing
