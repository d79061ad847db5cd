import Steward.Document.Listing
import Steward.Proofs.Loading.Coverage

set_option autoImplicit false

namespace Steward

open Load (Accounts)

namespace Merge

theorem mergeWith_accounts {file : Path → Load Entries} (each : ∀ p, (file p).Accounts)
    (t : PropertyTable) (es : Entries) (base : Option Path) :
    (mergeWith file t es base).Accounts := by
  unfold mergeWith
  refine .foldlM (fun entry _ es => ?_) _
  refine .bind (.lift _) fun paths => .foldlM (fun path _ es => ?_) es
  refine .bind (.resolve t path base) fun p => .bind (each p) fun included => ?_
  exact .bind (.note _) fun _ => .pure _

theorem included_accounts (t : PropertyTable) (left : Nat) (p : Path) :
    (included t left p).Accounts := by
  induction left generalizing p with
  | zero => exact .throw _
  | succ left ih =>
    have rest (es : Entries) : Accounts (do
        Load.note [.debug .sections ("合并 include 文档: " ++ p.text)]
        mergeWith (included t left) t es (← Load.directoryOf p)) :=
      .bind (.note _) fun _ => .bind (.directoryOf p) fun dir => mergeWith_accounts ih t es dir
    simpa [included] using Load.readDocument_accounts p rest

end Merge

namespace Section

theorem finish_accounts (context : String) (parent : PropertyTable) (left : Nat) (es : Entries)
    (base : Option Path) : (build.finish context parent left es base).Accounts := by
  unfold build.finish
  refine .bind (Merge.mergeWith_accounts (Merge.included_accounts parent left) parent es base)
    fun es => ?_
  split
  · exact .pure _
  · exact .pure _
  · next block _ =>
    have rest (table : PropertyTable) : Accounts (return (⟨context, table, es, base⟩ : Section)) :=
      .pure _
    exact .properties parent block base rest
  · exact .throw _

theorem build_accounts (context : String) (parent : PropertyTable) (left : Nat) (v : Value)
    (base : Option Path) : (build context parent left v base).Accounts := by
  induction left generalizing v base with
  | zero =>
    cases v with
    | null => exact finish_accounts context parent 0 [] base
    | mapping es => exact finish_accounts context parent 0 es base
    | string text => exact .bind (.resolve parent text base) fun p => .throw _
    | _ => exact .throw _
  | succ left ih =>
    cases v with
    | null => exact finish_accounts context parent (left + 1) [] base
    | mapping es => exact finish_accounts context parent (left + 1) es base
    | string text =>
      refine .bind (.resolve parent text base) fun p => .bind (.note _) fun _ => ?_
      refine Load.readYaml_accounts p fun v => .bind (.directoryOf p) fun dir => ?_
      exact ih v dir
    | _ => exact .throw _

theorem ofFile_accounts (p : Path) : (ofFile p).Accounts := by
  refine .look (fun s s' here _ => by simp [Surroundings.absolute, here]) fun s => ?_
  refine Load.readYaml_accounts _ fun v => ?_
  exact .bind (.directoryOf _) fun dir => build_accounts "" .empty includeLimit v dir

end Section

namespace Listing

theorem spliceWith_accounts {file : Path → Load (List (Value × Option Path))}
    (each : ∀ p, (file p).Accounts) (t : PropertyTable) (vs : List Value) (base : Option Path) :
    (spliceWith file t vs base).Accounts := by
  unfold spliceWith
  refine .bind (.mapM (fun v => ?_) vs) fun parts => .pure _
  split
  · exact .pure _
  · refine .bind (.lift _) fun paths => .bind (.mapM (fun path => ?_) paths) fun parts => .pure _
    exact .bind (.resolve t path base) each

theorem spliceFile_accounts (context : String) (t : PropertyTable) (left : Nat) (p : Path) :
    (spliceFile context t left p).Accounts := by
  induction left generalizing p with
  | zero => exact .throw _
  | succ left ih =>
    unfold spliceFile
    refine Load.readYaml_accounts p fun loaded => .bind (.note _) fun _ => ?_
    refine .bind (.lift _) fun vs => .bind (.directoryOf p) fun dir => ?_
    exact spliceWith_accounts ih t vs dir

theorem build_accounts (context : String) (t : PropertyTable) (v : Value) (base : Option Path) :
    (build context t v base).Accounts := by
  have file := spliceFile_accounts context t includeLimit
  unfold build
  split
  · exact .pure _
  · exact .bind (spliceWith_accounts file t _ base) fun items => .pure _
  · exact .bind (.resolve t _ base) fun p => .bind (file p) fun items => .pure _
  · exact .throw _

end Listing

namespace Watch

def Covers (w : Watch) (s : Surroundings) (p : Path) : Prop := holds w.files (s.absolute p) = true

instance (w : Watch) (s : Surroundings) (p : Path) : Decidable (w.Covers s p) :=
  inferInstanceAs (Decidable (_ = true))

end Watch

namespace Loading

theorem holds_after {l : Loading} {p : Path} (held : Watch.holds l.watch.files p = true)
    (trail : List Mark) : Watch.holds (l.after trail).watch.files p = true := by
  induction trail generalizing l with
  | nil => exact held
  | cons m trail ih =>
    apply ih
    cases m with
    | read q => exact held
    | noted records => exact held
    | filed q => exact Watch.holds_of_prefix (l.watch.prefix_add q) held

theorem holds_of_filed {trail : List Mark} {p : Path} (filed : .filed p ∈ trail) (l : Loading) :
    Watch.holds (l.after trail).watch.files p = true := by
  obtain ⟨front, back, rfl⟩ := List.append_of_mem filed
  rw [after_append]
  exact holds_after (Watch.holds_add_self _ p) back

end Loading

namespace Load.Accounts

variable {α : Type} {m : Load α} {s s' : Surroundings} {l l' : Loading}

theorem ok_after (accounts : m.Accounts) {a : α} (done : m.runOn s l = (.ok a, l')) :
    ∃ trail, l' = l.after trail ∧
      ∀ s', s.AgreesOn (fun p => .filed (s.absolute p) ∈ trail) s' →
        ∀ l, m.runOn s' l = (.ok a, l.after trail) := by
  obtain ⟨r, trail, obstacle, settles, explains⟩ := accounts s
  have here := settles s (.refl _ s) (fun _ _ _ => rfl) l
  rw [runOn, here] at done
  cases done
  cases explains
  exact ⟨trail, rfl, fun s' agrees => settles s' agrees (by simp)⟩

theorem watched (accounts : m.Accounts) (agrees : s.AgreesOn (l'.watch.Covers s) s') {a : α}
    (done : m.runOn s l = (.ok a, l')) : m.runOn s' l = (.ok a, l') := by
  obtain ⟨trail, rfl, same⟩ := accounts.ok_after done
  exact same s' (agrees.mono fun p filed => Loading.holds_of_filed filed l) l

theorem watched_or_obstructed (accounts : m.Accounts) {fault : ConfigFault}
    (failed : m.runOn s l = (.error fault, l')) :
    ∃ obstacle : Option Obstacle, (∀ o ∈ obstacle, o.Stands s fault) ∧
      ∀ s', s.AgreesOn (l'.watch.Covers s) s' → (∀ o ∈ obstacle, o.SameIn s s') →
        m.runOn s' l = (.error fault, l') := by
  obtain ⟨r, trail, obstacle, settles, explains⟩ := accounts s
  have here := settles s (.refl _ s) (fun _ _ _ => rfl) l
  rw [runOn, here] at failed
  cases failed
  refine ⟨obstacle, explains, fun s' agrees same => ?_⟩
  exact settles s' (agrees.mono fun p filed => Loading.holds_of_filed filed l) same l

end Load.Accounts

section Examples

variable {α : Type} {m : Load α} {s : Surroundings} {l : Loading}

theorem Load.ok_of_isOk (fine : (m.runOn s l).1.isOk = true) :
    ∃ a, m.runOn s l = (.ok a, (m.runOn s l).2) := by
  rcases ran : m.runOn s l with ⟨r, l'⟩
  rw [ran] at fine
  cases r with
  | ok a => exact ⟨a, rfl⟩
  | error fault => cases fine

theorem Load.error_of_isOk (failed : (m.runOn s l).1.isOk = false) :
    ∃ fault l', m.runOn s l = (.error fault, l') := by
  rcases ran : m.runOn s l with ⟨r, l'⟩
  rw [ran] at failed
  cases r with
  | ok a => cases failed
  | error fault => exact ⟨fault, l', rfl⟩

def Surroundings.ofFiles (files : List (String × String)) : Surroundings where
  stored p := match files.lookup p.text with
    | some content => .text content
    | none => .missing
  modified _ := .error .notFound
  here := ⟨"/etc"⟩
  env _ := none

theorem Surroundings.agreesOn_ofFiles {w : Watch} {files more : List (String × String)}
    (unwatched : ∀ file ∈ more, ¬w.Covers (.ofFiles files) ⟨file.1⟩) :
    (ofFiles files).AgreesOn (w.Covers (.ofFiles files)) (ofFiles (files ++ more)) := by
  refine ⟨rfl, rfl, fun p covered => ?_⟩
  have absent : more.lookup p.text = none := by
    refine List.lookup_eq_none_iff.mpr fun file member => ?_
    exact bne_iff_ne.mpr fun same => unwatched file member (same ▸ covered)
  simp [ofFiles, List.lookup_append, absent]

end Examples

theorem Section.loads_watched (p : Path) (sec : Section) (key : String) {s s' : Surroundings}
    {l l' : Loading} (agrees : s.AgreesOn (l'.watch.Covers s) s') :
    (∀ root, (Section.ofFile p).runOn s l = (.ok root, l') →
      (Section.ofFile p).runOn s' l = (.ok root, l')) ∧
    (∀ sub, (sec.getSection key).runOn s l = (.ok sub, l') →
      (sec.getSection key).runOn s' l = (.ok sub, l')) ∧
    ∀ list, (sec.getList key).runOn s l = (.ok list, l') →
      (sec.getList key).runOn s' l = (.ok list, l') := by
  refine ⟨fun _ => ?_, fun _ => ?_, fun _ => ?_⟩
  · exact (ofFile_accounts p).watched agrees
  · exact (build_accounts _ sec.table includeLimit _ sec.base).watched agrees
  · exact (Listing.build_accounts _ sec.table _ sec.base).watched agrees

def sampleFiles : List (String × String) :=
  [("/etc/main.yaml", "include_: extra.yaml\n"), ("/etc/extra.yaml", "x: 1\n"),
    ("/etc/part.yaml", "y: 2\n"), ("/etc/items.yaml", "- z: 3\n")]

def Section.sample : Section :=
  { document := [(.string "sub", .string "part.yaml"), (.string "items", .string "items.yaml")]
    base := some ⟨"/etc"⟩ }

theorem Section.sample_loads_watched :
    let s := Surroundings.ofFiles sampleFiles
    let s' := Surroundings.ofFiles (sampleFiles ++ [("/etc/other.yaml", "w: 4\n")])
    (∃ root l, (Section.ofFile ⟨"main.yaml"⟩).runOn s {} = (.ok root, l) ∧
      (Section.ofFile ⟨"main.yaml"⟩).runOn s' {} = (.ok root, l)) ∧
    (∃ sub l, (Section.sample.getSection "sub").runOn s {} = (.ok sub, l) ∧
      (Section.sample.getSection "sub").runOn s' {} = (.ok sub, l)) ∧
    ∃ list l, (Section.sample.getList "items").runOn s {} = (.ok list, l) ∧
      (Section.sample.getList "items").runOn s' {} = (.ok list, l) := by
  intro s s'
  refine ⟨?_, ?_, ?_⟩
  · have agrees : s.AgreesOn (((ofFile ⟨"main.yaml"⟩).runOn s {}).2.watch.Covers s) s' :=
      Surroundings.agreesOn_ofFiles (by decide +kernel)
    obtain ⟨root, done⟩ := Load.ok_of_isOk (m := ofFile ⟨"main.yaml"⟩) (s := s) (l := {})
      (by decide +kernel)
    exact ⟨root, _, done, (loads_watched _ sample "" agrees).1 root done⟩
  · have agrees : s.AgreesOn (((sample.getSection "sub").runOn s {}).2.watch.Covers s) s' :=
      Surroundings.agreesOn_ofFiles (by decide +kernel)
    obtain ⟨sub, done⟩ := Load.ok_of_isOk (m := sample.getSection "sub") (s := s) (l := {})
      (by decide +kernel)
    exact ⟨sub, _, done, (loads_watched ⟨""⟩ sample "sub" agrees).2.1 sub done⟩
  · have agrees : s.AgreesOn (((sample.getList "items").runOn s {}).2.watch.Covers s) s' :=
      Surroundings.agreesOn_ofFiles (by decide +kernel)
    obtain ⟨list, done⟩ := Load.ok_of_isOk (m := sample.getList "items") (s := s) (l := {})
      (by decide +kernel)
    exact ⟨list, _, done, (loads_watched ⟨""⟩ sample "items" agrees).2.2 list done⟩

theorem Section.ofFile_failure_watched {p : Path} {s : Surroundings} {l l' : Loading}
    {fault : ConfigFault} (failed : (ofFile p).runOn s l = (.error fault, l')) :
    ∃ obstacle : Option Obstacle, (∀ o ∈ obstacle, o.Stands s fault) ∧
      ∀ s', s.AgreesOn (l'.watch.Covers s) s' → (∀ o ∈ obstacle, o.SameIn s s') →
        (ofFile p).runOn s' l = (.error fault, l') :=
  (ofFile_accounts p).watched_or_obstructed failed

def unrepairedFiles : List (String × String) := [("/etc/main.yaml", "include_: extra.yaml\n")]

theorem Section.unrepaired_failure_watched :
    let s := Surroundings.ofFiles unrepairedFiles
    ∃ fault l', (ofFile ⟨"main.yaml"⟩).runOn s {} = (.error fault, l') ∧
      ∃ obstacle : Option Obstacle, (∀ o ∈ obstacle, o.Stands s fault) ∧
        ∀ s', s.AgreesOn (l'.watch.Covers s) s' → (∀ o ∈ obstacle, o.SameIn s s') →
          (ofFile ⟨"main.yaml"⟩).runOn s' {} = (.error fault, l') := by
  intro s
  obtain ⟨fault, l', failed⟩ := Load.error_of_isOk (m := ofFile ⟨"main.yaml"⟩) (s := s) (l := {})
    (by decide +kernel)
  exact ⟨fault, l', failed, ofFile_failure_watched failed⟩

-- The missing file is not watched, so that putting it in its place goes unnoticed.
theorem Section.unrepaired_failure_missed :
    let s := Surroundings.ofFiles unrepairedFiles
    let s' := Surroundings.ofFiles (unrepairedFiles ++ [("/etc/extra.yaml", "x: 1\n")])
    let failed := (ofFile ⟨"main.yaml"⟩).runOn s {}
    (Load.readText ⟨"/etc/main.yaml"⟩ (s.stored ⟨"/etc/main.yaml"⟩)).isOk = true ∧
      failed.1.isOk = false ∧ s.AgreesOn (failed.2.watch.Covers s) s' ∧
      ((ofFile ⟨"main.yaml"⟩).runOn s' {}).1.isOk = true := by
  intro s s' failed
  exact ⟨by decide +kernel, by decide +kernel, Surroundings.agreesOn_ofFiles (by decide +kernel),
    by decide +kernel⟩

end Steward
