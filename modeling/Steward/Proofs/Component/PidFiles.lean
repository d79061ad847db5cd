import Steward.Proofs.Component.Acts
import Steward.Proofs.Files.Deeds

set_option autoImplicit false

namespace Steward

namespace Machine

def pidText (m : Machine) : ByteArray := (toString m.processId ++ "\n").toUTF8

end Machine

def Stage.withFiles (s : Stage Machine) (files : FileTree) : Stage Machine :=
  { s with world := { s.world with files } }

namespace PidFile

variable {m : Machine} {name cause : String} {config : Section} {p : Path}

def pathOf (config : Section) (m : Machine) : Except ConfigFault Path :=
  config.require m.look "path" []

def furnished? (t : FileTree) (p : Path) : Except FileFault FileTree :=
  match p.parent? with
  | some dir => t.makeDirectories dir
  | none => .ok t

def written? (m : Machine) (p : Path) : Except FileFault FileTree := do
  (← furnished? m.files p).write p m.pidText m.calendar

def removed? (t : FileTree) (p : Path) : Except FileFault FileTree :=
  match t.removeFile p with
  | .error .notFound => .ok t
  | result => result

theorem isAbsolute_of_require {s : Surroundings} {key : String} (root : s.here.isAbsolute = true)
    (reads : config.require s key [] = .ok p) : p.isAbsolute = true := by
  obtain ⟨found, got, reads⟩ := ok_of_bind reads
  cases found with
  | none => cases reads
  | some q =>
    cases reads
    rw [Section.getChecked_nil, Section.get] at got
    split at got
    · cases got
    · split at got
      · next typed =>
        cases got
        exact Path.isAbsolute_of_ofValue root typed
      · cases got

theorem isAbsolute_of_pathOf (reads : pathOf config m = .ok p) : p.isAbsolute = true := by
  refine isAbsolute_of_require ?_ reads
  have here : m.look.here = m.files.hereAsPath := rfl
  rw [here]
  exact FileTree.isAbsolute_hereAsPath m.files

theorem furnished?_became {t u : FileTree} (furnishes : furnished? t p = .ok u) :
    t.Became [] u := by
  unfold furnished? at furnishes
  split at furnishes
  · exact FileTree.makeDirectories_became furnishes
  · cases furnishes
    exact .same

theorem written?_eq_ok {u : FileTree} (writes : written? m p = .ok u) :
    ∃ t place, m.files.Became [] t ∧ t.locate p = .ok place ∧
      t.node? place ≠ some .directory ∧ u = t.put place (.file m.pidText m.calendar) := by
  obtain ⟨t, made, writes⟩ := ok_of_bind writes
  obtain ⟨place, located, free, rfl⟩ := FileTree.write_eq_ok_iff.mp writes
  exact ⟨t, place, furnished?_became made, located, free, rfl⟩

theorem removed?_eq_ok {t u : FileTree} (removes : removed? t p = .ok u) :
    (t.removeFile p = .error .notFound ∧ u = t) ∨ t.removeFile p = .ok u := by
  unfold removed? at removes
  split at removes
  · next missed =>
    cases removes
    exact .inl ⟨missed, rfl⟩
  · exact .inr removes

theorem pathIn_run (config : Section) (s : Stage Machine) : (pathIn config).run s =
    ((pathOf config s.world).mapError ConfigFault.message,
      s.write (config.getNotes s.world.look "path")) :=
  rfl

theorem onFiles_run (what : String) (f : FileTree → Except FileFault FileTree)
    (s : Stage Machine) : (Act.onFiles what f).run s =
      match f s.world.files with
      | .ok files => (.ok (), s.withFiles files)
      | .error fault => (.error (what ++ ": " ++ fault.message), s) := by
  change (match f s.world.files with
    | .ok files => Act.change fun m => { m with files }
    | .error fault => throw (what ++ ": " ++ fault.message) : Act Machine Unit).run s = _
  cases f s.world.files <;> rfl

theorem remove_run (p : Path) (s : Stage Machine) : (remove p).run s =
    match removed? s.world.files p with
    | .ok files => (.ok (), s.withFiles files)
    | .error fault => (.error ("删除进程号文件失败: " ++ p.text ++ ": " ++ fault.message), s) :=
  onFiles_run _ _ s

def filled (p : Path) (s : Stage Machine) (t : FileTree) :
    Except String Unit × Stage Machine :=
  match t.write p s.world.pidText s.world.calendar with
  | .ok files => (.ok (), s.withFiles files)
  | .error fault =>
    (.error ("写入进程号文件失败: " ++ p.text ++ ": " ++ fault.message), s.withFiles t)

theorem write_run_furnished (p : Path) (s : Stage Machine) :
    (∃ t, furnished? s.world.files p = .ok t ∧ (write p).run s = filled p s t) ∨
      ∃ fault cause, furnished? s.world.files p = .error fault ∧
        (write p).run s = (.error cause, s) := by
  have content (t : FileTree) : (Act.world >>= fun m : Machine =>
      Act.onFiles ("写入进程号文件失败: " ++ p.text) fun t =>
        t.write p m.pidText m.calendar).run (s.withFiles t) = filled p s t :=
    onFiles_run _ (fun t => t.write p s.world.pidText s.world.calendar) (s.withFiles t)
  unfold write furnished?
  cases p.parent? with
  | none => exact .inl ⟨s.world.files, rfl, content s.world.files⟩
  | some dir =>
    dsimp only
    rw [Act.run_bind, onFiles_run]
    cases s.world.files.makeDirectories dir with
    | ok t => exact .inl ⟨t, rfl, content t⟩
    | error fault => exact .inr ⟨fault, _, rfl, rfl⟩

theorem write_run (p : Path) (s : Stage Machine) :
    (∃ files, written? s.world p = .ok files ∧
        (write p).run s = (.ok (), s.withFiles files)) ∨
      ∃ fault cause files, written? s.world p = .error fault ∧ s.world.files.Became [] files ∧
        (write p).run s = (.error cause, s.withFiles files) := by
  rcases write_run_furnished p s with ⟨t, furnishes, run⟩ | ⟨fault, cause, fails, run⟩
  · have writes : written? s.world p = t.write p s.world.pidText s.world.calendar := by
      rw [written?, furnishes]
      rfl
    rw [run, writes, filled]
    cases t.write p s.world.pidText s.world.calendar with
    | ok files => exact .inl ⟨files, rfl, rfl⟩
    | error fault => exact .inr ⟨fault, _, t, rfl, furnished?_became furnishes, rfl⟩
  · rw [run, written?, fails]
    exact .inr ⟨fault, cause, s.world.files, rfl, .same, rfl⟩

inductive Call
  | create (config : Section)
  | start
  | stop
  | reload (config : Section)

namespace Call

def act (name : String) : Call → Act Machine Unit
  | create config => PidFile.create name config
  | start => PidFile.start name
  | stop => PidFile.stop name
  | reload config => PidFile.reload name config

inductive Refused (name : String) (m : Machine) : Call → Prop
  | create {config : Section} {fault : ConfigFault} (unread : pathOf config m = .error fault) :
      Refused name m (.create config)
  | reload {config : Section} {fault : ConfigFault} (unread : pathOf config m = .error fault) :
      Refused name m (.reload config)
  | start (unknown : m.pidFiles.get? name = none) : Refused name m .start

end Call

inductive Ends (name : String) (m : Machine) : Call → Except String Unit → Machine → Prop
  | refused {c : Call} (refused : c.Refused name m) (cause : String) :
      Ends name m c (.error cause) m
  | created {config : Section} {p : Path} (reads : pathOf config m = .ok p) :
      Ends name m (.create config) (.ok ())
        { m with pidFiles := m.pidFiles.insert name ⟨p, false⟩ }
  | unstarted {f : PidFile} {fault : FileFault} {files : FileTree}
      (known : m.pidFiles.get? name = some f) (fails : written? m f.path = .error fault)
      (made : m.files.Became [] files) (cause : String) :
      Ends name m .start (.error cause) { m with files }
  | started {f : PidFile} {files : FileTree} (known : m.pidFiles.get? name = some f)
      (writes : written? m f.path = .ok files) :
      Ends name m .start (.ok ())
        { m with files, pidFiles := m.pidFiles.insert name ⟨f.path, true⟩ }
  | forgotten (unwritten : ∀ p, m.pidFiles.get? name ≠ some ⟨p, true⟩) :
      Ends name m .stop (.ok ()) { m with pidFiles := m.pidFiles.erase name }
  | unstopped {p : Path} {fault : FileFault} (known : m.pidFiles.get? name = some ⟨p, true⟩)
      (fails : removed? m.files p = .error fault) (cause : String) :
      Ends name m .stop (.error cause) { m with pidFiles := m.pidFiles.erase name }
  | stopped {p : Path} {files : FileTree} (known : m.pidFiles.get? name = some ⟨p, true⟩)
      (removes : removed? m.files p = .ok files) :
      Ends name m .stop (.ok ()) { m with files, pidFiles := m.pidFiles.erase name }
  | renamed {config : Section} {p : Path} (reads : pathOf config m = .ok p)
      (stays : ∀ old, m.pidFiles.get? name = some ⟨old, true⟩ → old.sameAs p = true) :
      Ends name m (.reload config) (.ok ()) { m with
        pidFiles := m.pidFiles.insert name ⟨p, (m.pidFiles.get? name).any (·.written)⟩ }
  | unmoved {config : Section} {p old : Path} {fault : FileFault} {files : FileTree}
      (reads : pathOf config m = .ok p) (known : m.pidFiles.get? name = some ⟨old, true⟩)
      (apart : old.sameAs p = false) (fails : written? m p = .error fault)
      (made : m.files.Became [] files) (cause : String) :
      Ends name m (.reload config) (.error cause) { m with files }
  | halfway {config : Section} {p old : Path} {fault : FileFault} {files : FileTree}
      (reads : pathOf config m = .ok p) (known : m.pidFiles.get? name = some ⟨old, true⟩)
      (apart : old.sameAs p = false) (writes : written? m p = .ok files)
      (fails : removed? files old = .error fault) (cause : String) :
      Ends name m (.reload config) (.error cause) { m with files }
  | moved {config : Section} {p old : Path} {between files : FileTree}
      (reads : pathOf config m = .ok p) (known : m.pidFiles.get? name = some ⟨old, true⟩)
      (apart : old.sameAs p = false) (writes : written? m p = .ok between)
      (removes : removed? between old = .ok files) :
      Ends name m (.reload config) (.ok ())
        { m with files, pidFiles := m.pidFiles.insert name ⟨p, true⟩ }

section Ends

variable (name : String) (config : Section) (s : Stage Machine)

theorem create_ends : Ends name s.world (.create config) ((create name config).run s).1
    ((create name config).run s).2.world := by
  unfold create
  rw [Act.run_bind, pathIn_run]
  cases reads : pathOf config s.world with
  | error fault => exact .refused (.create reads) _
  | ok p => exact .created reads

theorem start_ends :
    Ends name s.world .start ((start name).run s).1 ((start name).run s).2.world := by
  have found : (record? name).run s = (.ok (s.world.pidFiles.get? name), s) := rfl
  unfold start
  rw [Act.run_bind, found]
  cases known : s.world.pidFiles.get? name with
  | none => exact .refused (.start known) _
  | some f =>
    dsimp only
    rw [Act.run_bind]
    rcases write_run f.path s with ⟨files, writes, run⟩ | ⟨fault, cause, files, fails, made, run⟩
    · rw [run]
      exact .started known writes
    · rw [run]
      exact .unstarted known fails made cause

theorem stop_ends :
    Ends name s.world .stop ((stop name).run s).1 ((stop name).run s).2.world := by
  have found : (record? name).run s = (.ok (s.world.pidFiles.get? name), s) := rfl
  have dropped : (drop name).run s =
      (.ok (), { s with world := { s.world with pidFiles := s.world.pidFiles.erase name } }) := rfl
  unfold stop
  rw [Act.run_bind, found]
  dsimp only
  rw [Act.run_bind, dropped]
  dsimp only
  rcases known : s.world.pidFiles.get? name with _ | ⟨p, _ | _⟩
  · exact .forgotten (by simp [known])
  · exact .forgotten (by simp [known])
  · dsimp only
    rw [Act.run_bind, remove_run]
    cases removes : removed? s.world.files p with
    | error fault => exact .unstopped known removes _
    | ok files => exact .stopped known removes

theorem reload_ends : Ends name s.world (.reload config) ((reload name config).run s).1
    ((reload name config).run s).2.world := by
  unfold reload
  rw [Act.run_bind, pathIn_run]
  cases reads : pathOf config s.world with
  | error fault => exact .refused (.reload reads) _
  | ok p =>
    let s₁ := s.write (config.getNotes s.world.look "path")
    have found : (record? name).run s₁ = (.ok (s.world.pidFiles.get? name), s₁) := rfl
    change Ends name s.world (.reload config) ((record? name >>= fun found => _).run s₁).1
      ((record? name >>= fun found => _).run s₁).2.world
    rw [Act.run_bind, found]
    rcases known : s.world.pidFiles.get? name with _ | ⟨old, written⟩
    · have ends : Ends name s.world (.reload config) (.ok ()) _ :=
        .renamed reads (by simp [known])
      rwa [known] at ends
    · dsimp only
      split
      · next moves =>
        obtain ⟨rfl, apart⟩ := Bool.and_eq_true_iff.mp moves
        have apart : old.sameAs p = false := by simpa using apart
        rw [Act.run_bind]
        rcases write_run p s₁ with ⟨between, writes, run⟩ | ⟨fault, cause, files, fails, made, run⟩
        · rw [run]
          dsimp only
          rw [Act.run_bind, remove_run]
          cases removes : removed? (s₁.withFiles between).world.files old with
          | error fault => exact .halfway reads known apart writes removes _
          | ok files => exact .moved reads known apart writes removes
        · rw [run]
          exact .unmoved reads known apart fails made cause
      · next stays =>
        have same (other : Path) (recorded : s.world.pidFiles.get? name = some ⟨other, true⟩) :
            other.sameAs p = true := by
          cases known.symm.trans recorded
          simpa using stays
        have ends : Ends name s.world (.reload config) (.ok ()) _ := .renamed reads same
        rwa [known] at ends

theorem call_ends (c : Call) :
    Ends name s.world c ((c.act name).run s).1 ((c.act name).run s).2.world := by
  cases c with
  | create config => exact create_ends name config s
  | start => exact start_ends name s
  | stop => exact stop_ends name s
  | reload config => exact reload_ends name config s

end Ends

end PidFile

end Steward
