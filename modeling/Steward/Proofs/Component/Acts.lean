import Steward.Component.Builtin
import Steward.Proofs.Supervision.Upkeep

set_option autoImplicit false

namespace Steward

namespace Act

variable {ω α β : Type}

def Keeps (S : Stage ω → Prop) (m : Act ω α) : Prop := Stage.Keeps S m.run

variable {S : Stage ω → Prop}

theorem run_bind (m : Act ω α) (f : α → Act ω β) (s : Stage ω) :
    (m >>= f).run s =
      match m.run s with
      | (.ok a, s) => (f a).run s
      | (.error cause, s) => (.error cause, s) := by
  rw [ExceptT.run_bind, Stage.bind_run]
  rcases m.run s with ⟨_ | _, t⟩ <;> rfl

namespace Keeps

theorem pure (a : α) : Keeps S (Pure.pure a : Act ω α) := fun _ holds => holds

theorem throw (cause : String) : Keeps S (MonadExcept.throw cause : Act ω α) :=
  fun _ holds => holds

theorem bind {m : Act ω α} {f : α → Act ω β} (first : Keeps S m) (rest : ∀ a, Keeps S (f a)) :
    Keeps S (m >>= f) := by
  intro s holds
  have next := first s holds
  rw [run_bind]
  revert next
  rcases m.run s with ⟨r, t⟩
  intro next
  cases r with
  | ok a => exact rest a t next
  | error cause => exact next

theorem log (marks : ∀ s m, S s → S (s.mark m)) (records : List Record) :
    Keeps S (Act.log records) :=
  fun s => marks s (.noted records)

theorem world {f : ω → Act ω α} (rest : ∀ w, Keeps S (f w)) : Keeps S (Act.world >>= f) :=
  fun s => rest s.world s

theorem change {f : ω → ω} (holds : ∀ s, S s → S { s with world := f s.world }) :
    Keeps S (Act.change f) :=
  fun s => holds s

theorem load (marks : ∀ s m, S s → S (s.mark m)) {look : ω → Surroundings} {m : Load α}
    (trails : LoadOr.Trails m) : Keeps S (Act.load look m) := by
  intro s holds
  obtain ⟨trail, left⟩ := trails (look s.world) s.loading
  have kept := Stage.of_trail marks holds trail
  rw [← left] at kept
  exact kept

end Keeps

end Act

structure Stage.Worldless {ω : Type} (S : Stage ω → Prop) : Prop where
  mark : ∀ s m, S s → S (s.mark m)
  world : ∀ s world, S s → S { s with world }

theorem Step.readField_accounts {τ α : Type} [Typed α]
    (blind : ∀ s s' v, Typed.ofValue (α := α) s v = Typed.ofValue s' v) (key : String)
    (set : α → τ → τ) (checks : List (Check α)) (sec : Section) (t : τ) :
    (readField key set checks sec t).Accounts := by
  refine .bind (Section.fetch_accounts fun s s' env => Section.getChecked_env blind env checks)
    fun found => ?_
  cases found <;> exact .pure _

namespace PidFile

open Act (Keeps)

structure Apart (S : Stage Machine → Prop) : Prop where
  mark : ∀ s m, S s → S (s.mark m)
  files : ∀ s files, S s → S { s with world := { s.world with files } }
  pidFiles : ∀ s pidFiles, S s → S { s with world := { s.world with pidFiles } }
  fresh : ∀ s, S s → S { s with world := { s.world with fresh := s.world.fresh + 1 } }

variable {S : Stage Machine → Prop}

theorem Apart.of_worldless (worldless : Stage.Worldless S) : Apart S where
  mark := worldless.mark
  files s _ := worldless.world s _
  pidFiles s _ := worldless.world s _
  fresh s := worldless.world s _

theorem record?_keeps {α : Type} {f : Option PidFile → Act Machine α} (name : String)
    (rest : ∀ found, Keeps S (f found)) : Keeps S (record? name >>= f) :=
  fun s => rest (s.world.pidFiles.get? name) s

variable (apart : Apart S)

include apart

theorem onFiles_keeps (what : String) (f : FileTree → Except FileFault FileTree) :
    Keeps S (Act.onFiles what f) := by
  apply Act.Keeps.world
  intro m
  cases f m.files with
  | ok files => exact .change fun s => apart.files s files
  | error fault => exact .throw _

theorem put_keeps (name : String) (f : PidFile) : Keeps S (put name f) :=
  .change fun s => apart.pidFiles s _

theorem write_keeps (p : Path) : Keeps S (write p) := by
  have content : Keeps S (do
      let m ← Act.world
      let content := (toString m.processId ++ "\n").toUTF8
      Act.onFiles ("写入进程号文件失败: " ++ p.text) fun t => t.write p content m.calendar) := by
    apply Act.Keeps.world
    intro m
    exact onFiles_keeps apart _ _
  unfold write
  cases p.parent? with
  | none => exact content
  | some dir => exact .bind (onFiles_keeps apart _ _) fun _ => content

theorem remove_keeps (p : Path) : Keeps S (remove p) := onFiles_keeps apart _ _

theorem pathIn_keeps (config : Section) : Keeps S (pathIn config) :=
  .load apart.mark (.fetch config "path" _)

theorem create_keeps (name : String) (config : Section) : Keeps S (create name config) :=
  .bind (pathIn_keeps apart config) fun _ => put_keeps apart name _

theorem start_keeps (name : String) : Keeps S (start name) := by
  apply record?_keeps
  intro found
  cases found with
  | none => exact .throw _
  | some f =>
    exact .bind (write_keeps apart _) fun _ => .bind (put_keeps apart name _) fun _ =>
      .log apart.mark _

theorem stop_keeps (name : String) : Keeps S (stop name) := by
  apply record?_keeps
  intro found
  refine .bind (.change fun s => apart.pidFiles s _) fun _ => ?_
  rcases found with _ | ⟨p, _ | _⟩
  · exact .pure ()
  · exact .pure ()
  · exact .bind (remove_keeps apart _) fun _ => .log apart.mark _

theorem reload_keeps (name : String) (config : Section) : Keeps S (reload name config) := by
  refine .bind (pathIn_keeps apart config) fun p => record?_keeps name fun found => ?_
  cases found with
  | none => exact put_keeps apart name _
  | some old =>
    dsimp only
    split
    · exact .bind (write_keeps apart _) fun _ => .bind (remove_keeps apart _) fun _ =>
        .bind (.log apart.mark _) fun _ => put_keeps apart name _
    · exact put_keeps apart name _

end PidFile

namespace Heartbeat

open Act (Keeps)

namespace Settings

theorem ofSection_accounts (config : Section) : (ofSection config).Accounts := by
  unfold ofSection
  rw [Reading.run_eq_foldlM]
  refine .foldlM (fun step member t => ?_) _
  simp only [settingSteps, List.mem_cons, List.not_mem_nil, or_false] at member
  rcases member with rfl | rfl
  · exact Step.readField_accounts (fun _ _ _ => rfl) _ _ _ config t
  · exact Step.readField_accounts (fun _ _ _ => rfl) _ _ _ config t

end Settings

variable {S : Stage Machine → Prop} (worldless : Stage.Worldless S)

include worldless

theorem make_keeps (h : Heartbeat) : Keeps S (make h) :=
  .bind (.world fun _ => .bind (.change fun s => worldless.world s _) fun _ => .pure _) fun _ =>
    .bind (.change fun s => worldless.world s _) fun _ => .pure _

theorem set_keeps (id : Nat) (h : Heartbeat) : Keeps S (set id h) :=
  .change fun s => worldless.world s _

omit worldless in
theorem get_keeps (id : Nat) : Keeps S (get id) := .world fun _ => .pure _

theorem start_keeps (id : Nat) (name : String) : Keeps S (start id name) :=
  .bind (get_keeps id) fun _ => .world fun _ => set_keeps worldless id _

theorem stop_keeps (id : Nat) (name : String) : Keeps S (stop id name) := by
  refine .bind (get_keeps id) fun h => ?_
  split
  · exact .bind (set_keeps worldless id _) fun _ => .log worldless.mark _
  · exact .pure ()

theorem reload_keeps (id : Nat) (name : String) (config : Section) :
    Keeps S (reload id name config) := by
  have settings : LoadOr.Trails (Settings.ofSection config) :=
    .of_accounts (Settings.ofSection_accounts config)
  refine .bind (.load worldless.mark settings) fun t => .bind (get_keeps id) fun h => ?_
  split
  · exact .bind (.log worldless.mark _) fun _ => .bind (set_keeps worldless id _) fun _ => .pure _
  · exact .bind (make_keeps worldless _) fun _ => .pure _

theorem create_keeps (name : String) (config : Section) :
    Keeps S (prototype.maker.create name config) := by
  refine .bind (make_keeps worldless {}) fun blank => ?_
  refine .bind (reload_keeps worldless blank name config) fun answer => ?_
  cases answer <;> exact .pure _

end Heartbeat

namespace Instance

variable {S : Stage Machine → Prop} (worldless : Stage.Worldless S)

include worldless

theorem makers_keep {kind : String} {maker : Maker Instance Machine}
    (found : makers.get? kind = some maker) (name : String) (config : Section) :
    Act.Keeps S (maker.create name config) := by
  have apart := PidFile.Apart.of_worldless worldless
  rw [makers, Table.get?_insert, Table.get?_insert] at found
  split at found
  · cases found
    exact .bind (PidFile.create_keeps apart name config) fun _ =>
      .bind (.world fun _ => .bind (.change apart.fresh) fun _ => .pure _) fun _ => .pure _
  · split at found
    · cases found
      exact .bind (Heartbeat.create_keeps worldless name config) fun _ => .pure _
    · cases found

theorem crew_upholds : crew.Upholds S where
  mark := worldless.mark
  create _ _ := makers_keep worldless
  begin_ _ _ _ := id
  finish i name := by
    cases i with
    | heartbeat id => exact Heartbeat.start_keeps worldless id name
    | pidFile id => exact PidFile.start_keeps (.of_worldless worldless) name
  cancel _ _ _ _ := id
  stop i name := by
    cases i with
    | heartbeat id => exact Heartbeat.stop_keeps worldless id name
    | pidFile id => exact PidFile.stop_keeps (.of_worldless worldless) name
  reload i name config := by
    cases i with
    | heartbeat id =>
      refine Act.Keeps.bind (Heartbeat.reload_keeps worldless id name config) fun answer => ?_
      cases answer <;> exact .pure _
    | pidFile id =>
      exact Act.Keeps.bind (PidFile.reload_keeps (.of_worldless worldless) name config) fun _ =>
        .pure _
  hook _ := nofun
  wait _ s holds := worldless.world _ _ (worldless.mark s (.noted _) holds)

end Instance

end Steward
