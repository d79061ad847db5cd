import Steward.Proofs.Component.PidAccounts

set_option autoImplicit false

namespace Steward

namespace PidFile

variable {m m' : Machine} {name : String} {config : Section} {old : Path}

/-- The new file can be written, but after that the old one cannot be removed. -/
def Stuck (config : Section) (m : Machine) (old : Path) : Prop :=
  ∃ p files fault, pathOf config m = .ok p ∧ old.sameAs p = false ∧
    written? m p = .ok files ∧ removed? files old = .error fault

-- What can be located can only not be removed if it is a directory.
theorem file?_of_removed?_error {t : FileTree} {place : List String} {fault : FileFault}
    (located : t.locate old = .ok place) (fails : removed? t old = .error fault) :
    t.file? place = none := by
  cases there : t.file? place with
  | none => rfl
  | some found =>
    have removes : t.removeFile old = .ok (t.drop place) :=
      FileTree.removeFile_eq_ok_iff.mpr ⟨place, located, by simp [there], rfl⟩
    rw [removed?, removes] at fails
    cases fails

theorem file?_of_removed? {t u : FileTree} (removes : removed? t old = .ok u)
    (place : List String) :
    u.file? place = if t.locate old = .ok place then none else t.file? place := by
  rcases removed?_eq_ok removes with ⟨missed, rfl⟩ | removed
  · split
    · next located =>
      rcases FileTree.removeFile_eq_notFound_iff.mp missed with missed | ⟨place', located', none⟩
      · cases located.symm.trans missed
      · cases located.symm.trans located'
        exact FileTree.file?_eq_none_iff.mpr (.inl none)
    · rfl
  · obtain ⟨place', located, there, rfl⟩ := FileTree.removeFile_eq_ok_iff.mp removed
    rw [FileTree.file?_drop there, located]
    simp [eq_comm]

theorem Ends.file?_of_stop {r : Except String Unit} (ends : Ends name m .stop r m')
    (known : m.pidFiles.get? name = some ⟨old, true⟩) (place : List String) :
    m'.files.file? place =
      if r.isOk ∧ m.files.locate old = .ok place then none else m.files.file? place := by
  cases ends with
  | refused refused _ => cases refused
  | forgotten unwritten => exact absurd known (unwritten old)
  | unstopped _ _ _ => simp [Except.isOk, Except.toBool]
  | stopped known' removes =>
    cases known.symm.trans known'
    simp only [Except.isOk, Except.toBool, true_and]
    exact file?_of_removed? removes place

theorem Ends.of_failed_reload {cause : String}
    (ends : Ends name m (.reload config) (.error cause) m')
    (known : m.pidFiles.get? name = some ⟨old, true⟩) :
    m'.pidFiles = m.pidFiles ∧
      ((¬ Stuck config m old ∧ m'.files.file? = m.files.file?) ∨
        ∃ p fault, pathOf config m = .ok p ∧ old.sameAs p = false ∧
          written? m p = .ok m'.files ∧ removed? m'.files old = .error fault) := by
  cases ends with
  | refused refused _ =>
    cases refused with
    | reload unread =>
      refine ⟨rfl, .inl ⟨?_, rfl⟩⟩
      rintro ⟨p, files, fault, reads, -⟩
      cases reads.symm.trans unread
  | unmoved reads _ _ fails made _ =>
    refine ⟨rfl, .inl ⟨?_, made.same_files⟩⟩
    rintro ⟨p, files, fault, reads', -, writes, -⟩
    cases reads.symm.trans reads'
    cases fails.symm.trans writes
  | @halfway config p old' fault files reads known' apart writes fails _ =>
    cases known.symm.trans known'
    exact ⟨rfl, .inr ⟨p, fault, reads, apart, writes, fails⟩⟩

theorem file?_of_written? {p : Path} {files : FileTree} (writes : written? m p = .ok files) :
    ∃ place, files.locate p = .ok place ∧ ∀ other, files.file? other =
      if other = place then some (m.pidText, m.calendar) else m.files.file? other := by
  obtain ⟨t, place, made, located, free, rfl⟩ := written?_eq_ok writes
  have filled := FileTree.ne_nil_of_free free
  refine ⟨place, FileTree.locate_put filled free _ _ located, fun other => ?_⟩
  rw [FileTree.file?_put_file free, made.same_files]

theorem failed_reload (name : String) (config : Section) (s : Stage Machine) (old : Path)
    (cause : String) (known : s.world.pidFiles.get? name = some ⟨old, true⟩)
    (failed : ((reload name config).run s).1 = .error cause) :
    let m := ((reload name config).run s).2.world
    m.pidFiles = s.world.pidFiles ∧
      (¬ Stuck config s.world old → m.files.file? = s.world.files.file? ∧
        ∀ later : Stage Machine, later.world.pidFiles.get? name = some ⟨old, true⟩ →
          later.world.files.file? = s.world.files.file? → ((stop name).run later).1 = .ok () →
          ∀ place, ((stop name).run later).2.world.files.file? place =
            if later.world.files.locate old = .ok place then none
            else s.world.files.file? place) ∧
      (Stuck config s.world old → ∃ p place, pathOf config s.world = .ok p ∧
        m.files.locate p = .ok place ∧ m.files.locate old ≠ .ok place ∧
        (∀ other, m.files.file? other =
          if other = place then some (s.world.pidText, s.world.calendar)
          else s.world.files.file? other) ∧
        ∀ later : Stage Machine, later.world.pidFiles.get? name = some ⟨old, true⟩ →
          later.world.files.locate old ≠ .ok place →
          ((stop name).run later).2.world.files.file? place = later.world.files.file? place) := by
  intro m
  have ends : Ends name s.world (.reload config) (.error cause) m :=
    failed ▸ reload_ends name config s
  obtain ⟨records, files⟩ := ends.of_failed_reload known
  refine ⟨records, fun free => ?_, fun stuck => ?_⟩
  · rcases files with ⟨-, same⟩ | ⟨p, fault, reads, apart, writes, fails⟩
    · refine ⟨same, fun later known' unchanged stopped place => ?_⟩
      rw [(stop_ends name later).file?_of_stop known' place, stopped, unchanged]
      simp [Except.isOk, Except.toBool]
    · exact absurd ⟨p, m.files, fault, reads, apart, writes, fails⟩ free
  · rcases files with ⟨free, -⟩ | ⟨p, fault, reads, apart, writes, fails⟩
    · exact absurd stuck free
    · obtain ⟨place, located, found⟩ := file?_of_written? writes
      refine ⟨p, place, reads, located, ?_, found, fun later known' elsewhere => ?_⟩
      · intro located'
        have missing := file?_of_removed?_error located' fails
        rw [found, if_pos rfl] at missing
        cases missing
      · rw [(stop_ends name later).file?_of_stop known' place, if_neg fun both => elsewhere both.2]

def sampleStarted : Stage Machine where
  world :=
    { files := ⟨[(["a.pid"], .file "1\n".toUTF8 0), (["d"], .directory)], []⟩
      pidFiles := Table.empty.insert "pid" ⟨⟨"/a.pid"⟩, true⟩ }

theorem sample_failed_reload :
    let m := ((reload "pid" (sampleConfig "/d")).run sampleStarted).2.world
    ((reload "pid" (sampleConfig "/d")).run sampleStarted).1.isOk = false ∧
      m.pidFiles = sampleStarted.world.pidFiles ∧
      m.files.file? = sampleStarted.world.files.file? := by
  intro m
  have failed : ((reload "pid" (sampleConfig "/d")).run sampleStarted).1 =
      .error "写入进程号文件失败: /d: Is a directory (os error 21)" := by decide +kernel
  obtain ⟨records, kept, -⟩ := failed_reload "pid" (sampleConfig "/d") sampleStarted ⟨"/a.pid"⟩ _
    (by decide +kernel) failed
  have free : ¬ Stuck (sampleConfig "/d") sampleStarted.world ⟨"/a.pid"⟩ := by
    rintro ⟨p, files, fault, reads, -, writes, -⟩
    have path : pathOf (sampleConfig "/d") sampleStarted.world = .ok ⟨"/d"⟩ := by decide +kernel
    cases path.symm.trans reads
    have refuses : (written? sampleStarted.world ⟨"/d"⟩).isOk = false := by decide +kernel
    rw [writes] at refuses
    cases refuses
  exact ⟨by rw [failed]; rfl, records, (kept free).1⟩

theorem new_file_left :
    let s := after "pid" { world := {} }
      [.create (sampleConfig "/a.pid"), .start, .reload (sampleConfig "/a.pid/")]
    let t := ((reload "pid" (sampleConfig "/b.pid")).run s).2
    let u := ((reload "pid" (sampleConfig "/a.pid")).run t).2
    s.world.pidFiles.get? "pid" = some ⟨⟨"/a.pid/"⟩, true⟩ ∧
      ((reload "pid" (sampleConfig "/b.pid")).run s).1.isOk = false ∧
      (s.world.files.file? ["b.pid"]).isSome = false ∧
      (t.world.files.file? ["b.pid"]).isSome = true ∧
      ((stop "pid").run u).1.isOk = true ∧
      (((stop "pid").run u).2.world.files.file? ["a.pid"]).isSome = false ∧
      (((stop "pid").run u).2.world.files.file? ["b.pid"]).isSome = true := by
  decide +kernel

end PidFile

end Steward
