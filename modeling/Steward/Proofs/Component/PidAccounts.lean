import Steward.Proofs.Component.PidFiles

set_option autoImplicit false

namespace Steward

namespace PidFile

variable {before : FileTree} {m m' : Machine} {name : String} {p : Path} {deeds : List FileDeed}

def standing : Option PidFile → Set (List String)
  | some ⟨p, true⟩ => {p.parts}
  | _ => ∅

/-- The deeds by which the files before have become those on a machine, where they leave what the
record of the name says. -/
structure Accounted (before : FileTree) (name : String) (m : Machine) (deeds : List FileDeed) :
    Prop where
  became : before.Became deeds m.files
  text : ∀ place content, .written place content ∈ deeds → content = m.pidText
  left : FileDeed.left deeds = standing (m.pidFiles.get? name)

def Settled (name : String) (m : Machine) : Prop :=
  ∀ f, m.pidFiles.get? name = some f →
    f.path.isAbsolute = true ∧ f.path.Descends ∧
      (f.written = true → m.files.Rooted f.path.parts)

namespace Call

def path? (m : Machine) : Call → Option Path
  | create config | reload config => (pathOf config m).toOption
  | start | stop => none

def next (name : String) (s : Stage Machine) (c : Call) : Stage Machine := ((c.act name).run s).2

/-- A call with a path that never steps up, which fails on no file, and which creates the component
only while its file is not written. -/
structure Proper (name : String) (s : Stage Machine) (c : Call) : Prop where
  descends : ∀ p ∈ c.path? s.world, p.Descends
  succeeds : ∀ cause, ((c.act name).run s).1 = .error cause → c.Refused name s.world
  unwritten : ∀ config, c = .create config → ∀ p, s.world.pidFiles.get? name ≠ some ⟨p, true⟩

theorem Proper.of_done {s : Stage Machine} {c : Call}
    (done : ((c.act name).run s).1.isOk = true) (descends : ∀ p ∈ c.path? s.world, p.Descends)
    (unwritten : ∀ config, c = .create config →
      ∀ p, s.world.pidFiles.get? name ≠ some ⟨p, true⟩) : c.Proper name s where
  descends := descends
  succeeds cause failed := by
    rw [failed] at done
    cases done
  unwritten := unwritten

end Call

def Orderly (name : String) (s : Stage Machine) : List Call → Prop
  | [] => True
  | c :: rest => c.Proper name s ∧ Orderly name (c.next name s) rest

def after (name : String) (s : Stage Machine) (calls : List Call) : Stage Machine :=
  calls.foldl (Call.next name) s

section Deeds

variable {files : FileTree}

theorem written?_became (absolute : p.isAbsolute = true) (descends : p.Descends)
    (writes : written? m p = .ok files) :
    m.files.Became [.written p.parts m.pidText] files ∧ files.Rooted p.parts := by
  obtain ⟨t, place, made, located, free, rfl⟩ := written?_eq_ok writes
  obtain ⟨rfl, rooted⟩ := FileTree.locate_ok absolute descends located
  have wrote : t.Became [.written p.parts m.pidText] _ := .written m.pidText m.calendar .same free
  exact ⟨made.trans wrote, wrote.rooted rooted⟩

theorem removed?_became {t : FileTree} (absolute : p.isAbsolute = true) (descends : p.Descends)
    (rooted : t.Rooted p.parts) (there : t.file? p.parts ≠ none)
    (removes : removed? t p = .ok files) : t.Became [.removed p.parts] files := by
  rcases removed?_eq_ok removes with ⟨missed, -⟩ | removed
  · have stands : t.node? p.parts ≠ none := fun none =>
      there (FileTree.file?_eq_none_iff.mpr (.inl none))
    rcases FileTree.removeFile_eq_notFound_iff.mp missed with missed | ⟨place, located, none⟩
    · exact absurd missed (FileTree.locate_ne_notFound absolute descends rooted stands)
    · obtain ⟨rfl, -⟩ := FileTree.locate_ok absolute descends located
      exact absurd none stands
  · obtain ⟨place, located, there, rfl⟩ := FileTree.removeFile_eq_ok_iff.mp removed
    obtain ⟨rfl, -⟩ := FileTree.locate_ok absolute descends located
    exact .removed .same there

end Deeds

namespace Accounted

theorem there (accounted : Accounted before name m deeds) {place : List String}
    (left : place ∈ FileDeed.left deeds) :
    ∃ modified, m.files.file? place = some (m.pidText, modified) := by
  rcases accounted.became.ends place with ⟨-, content, modified, member, found⟩ | ⟨gone, -⟩
  · rw [accounted.text place content member] at found
    exact ⟨modified, found⟩
  · exact absurd left gone

theorem left_of_known (accounted : Accounted before name m deeds)
    (known : m.pidFiles.get? name = some ⟨p, true⟩) : FileDeed.left deeds = {p.parts} := by
  rw [accounted.left, known]
  rfl

theorem there_of_known (accounted : Accounted before name m deeds)
    (known : m.pidFiles.get? name = some ⟨p, true⟩) : m.files.file? p.parts ≠ none := by
  have left : p.parts ∈ FileDeed.left deeds := by rw [accounted.left_of_known known]; rfl
  obtain ⟨modified, found⟩ := accounted.there left
  simp [found]

theorem elsewhere (accounted : Accounted before name m deeds) {place : List String}
    (gone : place ∉ FileDeed.left deeds) :
    m.files.file? place = none ∨ m.files.file? place = before.file? place := by
  rcases accounted.became.ends place with ⟨left, -⟩ | ⟨-, found⟩
  · exact absurd left gone
  · exact found

theorem more (accounted : Accounted before name m deeds) {more : List FileDeed}
    (became : m.files.Became more m'.files) (same : m'.processId = m.processId)
    (text : ∀ place content, .written place content ∈ more → content = m.pidText)
    (left : FileDeed.left (deeds ++ more) = standing (m'.pidFiles.get? name)) :
    Accounted before name m' (deeds ++ more) where
  became := accounted.became.trans became
  text place content member := by
    have texts : m'.pidText = m.pidText := by rw [Machine.pidText, same, Machine.pidText]
    rw [texts]
    rcases List.mem_append.mp member with old | new
    · exact accounted.text place content old
    · exact text place content new
  left := left

end Accounted

theorem standing_eq_empty {found : Option PidFile} (unwritten : ∀ p, found ≠ some ⟨p, true⟩) :
    standing found = ∅ := by
  rcases found with _ | ⟨p, _ | _⟩
  · rfl
  · rfl
  · exact absurd rfl (unwritten p)

structure Balanced (before : FileTree) (name : String) (m : Machine) (deeds : List FileDeed) : Prop
    extends Accounted before name m deeds where
  settled : Settled name m

theorem Settled.inserted {f : PidFile} {files : FileTree} (absolute : f.path.isAbsolute = true)
    (descends : f.path.Descends) (rooted : f.written = true → files.Rooted f.path.parts) :
    Settled name { m with files, pidFiles := m.pidFiles.insert name f } := by
  intro g known
  rw [Table.get?_insert_self] at known
  cases known
  exact ⟨absolute, descends, rooted⟩

theorem Settled.erased {files : FileTree} :
    Settled name { m with files, pidFiles := m.pidFiles.erase name } := by
  intro g known
  rw [Table.get?_erase_self] at known
  cases known

namespace Balanced

variable {f : PidFile} {old : Path} {files between : FileTree}

theorem recorded (balanced : Balanced before name m deeds) (absolute : f.path.isAbsolute = true)
    (descends : f.path.Descends) (rooted : f.written = true → m.files.Rooted f.path.parts)
    (same : standing (m.pidFiles.get? name) = standing (some f)) :
    Balanced before name { m with pidFiles := m.pidFiles.insert name f } deeds where
  became := balanced.became
  text := balanced.text
  left := by rw [balanced.left, same, Table.get?_insert_self]
  settled := .inserted absolute descends rooted

theorem renamed (balanced : Balanced before name m deeds) (absolute : p.isAbsolute = true)
    (descends : p.Descends)
    (stays : ∀ old, m.pidFiles.get? name = some ⟨old, true⟩ → old.sameAs p = true) :
    Balanced before name { m with
      pidFiles := m.pidFiles.insert name ⟨p, (m.pidFiles.get? name).any (·.written)⟩ } deeds := by
  rcases known : m.pidFiles.get? name with _ | ⟨old, _ | _⟩
  · exact balanced.recorded absolute descends nofun (by rw [known]; rfl)
  · exact balanced.recorded absolute descends nofun (by rw [known]; rfl)
  · obtain ⟨absolute', -, rooted⟩ := balanced.settled _ known
    have same : old.parts = p.parts := (Path.sameAs_iff absolute' absolute).mp (stays old known)
    refine balanced.recorded absolute descends (fun _ => same ▸ rooted rfl) ?_
    rw [known]
    exact congrArg (fun parts => ({parts} : Set (List String))) same

theorem forgotten (balanced : Balanced before name m deeds)
    (unwritten : ∀ p, m.pidFiles.get? name ≠ some ⟨p, true⟩) :
    Balanced before name { m with pidFiles := m.pidFiles.erase name } deeds where
  became := balanced.became
  text := balanced.text
  left := by
    rw [balanced.left, standing_eq_empty unwritten, Table.get?_erase_self]
    rfl
  settled := .erased

theorem started (balanced : Balanced before name m deeds) (known : m.pidFiles.get? name = some f)
    (writes : written? m f.path = .ok files) :
    m.files.Became [.written f.path.parts m.pidText] files ∧
      Balanced before name { m with files, pidFiles := m.pidFiles.insert name ⟨f.path, true⟩ }
        (deeds ++ [.written f.path.parts m.pidText]) := by
  obtain ⟨absolute, descends, -⟩ := balanced.settled f known
  obtain ⟨wrote, rooted⟩ := written?_became absolute descends writes
  refine ⟨wrote, balanced.more wrote rfl (by simp) ?_,
    .inserted absolute descends fun _ => rooted⟩
  rw [FileDeed.left_concat, balanced.left, known, Table.get?_insert_self]
  rcases f with ⟨p, _ | _⟩
  · exact insert_empty_eq _
  · exact Set.pair_eq_singleton _

theorem stopped (balanced : Balanced before name m deeds)
    (known : m.pidFiles.get? name = some ⟨p, true⟩) (removes : removed? m.files p = .ok files) :
    m.files.Became [.removed p.parts] files ∧
      Balanced before name { m with files, pidFiles := m.pidFiles.erase name }
        (deeds ++ [.removed p.parts]) := by
  obtain ⟨absolute, descends, rooted⟩ := balanced.settled _ known
  have removed := removed?_became absolute descends (rooted rfl) (balanced.there_of_known known)
    removes
  refine ⟨removed, balanced.more removed rfl (by simp) ?_, .erased⟩
  rw [FileDeed.left_concat, balanced.left_of_known known, Table.get?_erase_self]
  ext place
  simp [FileDeed.keep, standing]

theorem moved (balanced : Balanced before name m deeds)
    (known : m.pidFiles.get? name = some ⟨old, true⟩) (absolute : p.isAbsolute = true)
    (descends : p.Descends) (apart : old.sameAs p = false) (writes : written? m p = .ok between)
    (removes : removed? between old = .ok files) :
    m.files.Became [.written p.parts m.pidText, .removed old.parts] files ∧
      Balanced before name { m with files, pidFiles := m.pidFiles.insert name ⟨p, true⟩ }
        (deeds ++ [.written p.parts m.pidText, .removed old.parts]) := by
  obtain ⟨absolute', descends', rooted'⟩ := balanced.settled _ known
  have elsewhere : old.parts ≠ p.parts := by
    intro same
    rw [(Path.sameAs_iff absolute' absolute).mpr same] at apart
    cases apart
  obtain ⟨wrote, rooted⟩ := written?_became absolute descends writes
  have there : between.file? old.parts ≠ none := by
    rw [wrote.untouched (by simpa [FileDeed.place] using elsewhere.symm)]
    exact balanced.there_of_known known
  have removed := removed?_became absolute' descends' (wrote.rooted (rooted' rfl)) there removes
  have left : FileDeed.left (deeds ++ [.written p.parts m.pidText, .removed old.parts]) =
      insert p.parts {old.parts} \ {old.parts} := by
    rw [List.append_cons, FileDeed.left_concat, FileDeed.left_concat,
      balanced.left_of_known known]
    rfl
  refine ⟨wrote.trans removed, balanced.more (wrote.trans removed) rfl (by simp) ?_,
    .inserted absolute descends fun _ => removed.rooted rooted⟩
  rw [left, Table.get?_insert_self]
  ext place
  simp only [standing, Set.mem_sdiff, Set.mem_insert_iff, Set.mem_singleton_iff]
  grind

theorem unchanged (balanced : Balanced before name m deeds) :
    ∃ more, m.files.Became more m.files ∧ Balanced before name m (deeds ++ more) := by
  refine ⟨[], .same, ?_⟩
  rwa [List.append_nil]

end Balanced

theorem Ends.balanced {c : Call} {r : Except String Unit} (ends : Ends name m c r m')
    (balanced : Balanced before name m deeds) (descends : ∀ p ∈ c.path? m, p.Descends)
    (succeeds : ∀ cause, r = .error cause → c.Refused name m)
    (unwritten : ∀ config, c = .create config → ∀ p, m.pidFiles.get? name ≠ some ⟨p, true⟩) :
    ∃ more, m.files.Became more m'.files ∧ Balanced before name m' (deeds ++ more) := by
  have fine {config : Section} {p : Path} (reads : pathOf config m = .ok p)
      (asks : c.path? m = (pathOf config m).toOption) : p.Descends := by
    apply descends
    rw [asks, reads]
    rfl
  cases ends with
  | refused _ _ => exact balanced.unchanged
  | @created config p reads =>
    have empty := standing_eq_empty (unwritten config rfl)
    have recorded := balanced.recorded (f := ⟨p, false⟩) (isAbsolute_of_pathOf reads)
      (fine reads rfl) nofun empty
    exact recorded.unchanged
  | unstarted known _ _ cause =>
    cases succeeds cause rfl with
    | start unknown => cases known.symm.trans unknown
  | started known writes => exact ⟨_, balanced.started known writes⟩
  | forgotten none_written => exact (balanced.forgotten none_written).unchanged
  | unstopped _ _ cause => cases succeeds cause rfl
  | stopped known removes => exact ⟨_, balanced.stopped known removes⟩
  | renamed reads stays =>
    exact (balanced.renamed (isAbsolute_of_pathOf reads) (fine reads rfl) stays).unchanged
  | unmoved reads _ _ _ _ cause =>
    cases succeeds cause rfl with
    | reload unread => cases reads.symm.trans unread
  | halfway reads _ _ _ _ cause =>
    cases succeeds cause rfl with
    | reload unread => cases reads.symm.trans unread
  | moved reads known apart writes removes =>
    exact ⟨_, balanced.moved known (isAbsolute_of_pathOf reads) (fine reads rfl) apart writes
      removes⟩

theorem Call.Proper.balanced {s : Stage Machine} {c : Call} (proper : c.Proper name s)
    (balanced : Balanced before name s.world deeds) :
    ∃ more, s.world.files.Became more (c.next name s).world.files ∧
      Balanced before name (c.next name s).world (deeds ++ more) :=
  (call_ends name s c).balanced balanced proper.descends proper.succeeds proper.unwritten

theorem Orderly.accounted {s : Stage Machine} {calls : List Call} (orderly : Orderly name s calls)
    (balanced : Balanced before name s.world deeds) :
    ∃ account : List (List FileDeed), account.length = calls.length ∧
      (∀ front c back, calls = front ++ c :: back → ∃ own, account[front.length]? = some own ∧
        (after name s front).world.files.Became own (after name s (front ++ [c])).world.files) ∧
      ∀ front back, calls = front ++ back → Accounted before name (after name s front).world
        (deeds ++ (account.take front.length).flatten) := by
  induction calls generalizing s deeds with
  | nil =>
    refine ⟨[], rfl, fun front c back parts => ?_, fun front back parts => ?_⟩
    · simp at parts
    · obtain ⟨rfl, -⟩ := List.append_eq_nil_iff.mp parts.symm
      simpa [after] using balanced.toAccounted
  | cons c rest ih =>
    obtain ⟨proper, orderly⟩ := orderly
    obtain ⟨more, became, balanced'⟩ := proper.balanced balanced
    obtain ⟨account, long, owns, accounts⟩ := ih orderly balanced'
    refine ⟨more :: account, congrArg Nat.succ long, fun front d back parts => ?_,
      fun front back parts => ?_⟩
    · cases front with
      | nil =>
        obtain ⟨rfl, -⟩ := List.cons_eq_cons.mp parts
        exact ⟨more, rfl, became⟩
      | cons e front =>
        obtain ⟨rfl, parts'⟩ := List.cons_eq_cons.mp parts
        exact owns front d back parts'
    · cases front with
      | nil => simpa [after] using balanced.toAccounted
      | cons e front =>
        obtain ⟨rfl, parts'⟩ := List.cons_eq_cons.mp parts
        have later := accounts front back parts'
        rwa [List.append_assoc] at later

theorem Ends.forgets {r : Except String Unit} (ends : Ends name m .stop r m') :
    m'.pidFiles.get? name = none := by
  cases ends with
  | refused refused _ => cases refused
  | forgotten _ => exact Table.get?_erase_self ..
  | unstopped _ _ _ => exact Table.get?_erase_self ..
  | stopped _ _ => exact Table.get?_erase_self ..

theorem left_as_recorded (name : String) (s : Stage Machine) (calls : List Call)
    (new : s.world.pidFiles.get? name = none) (orderly : Orderly name s calls) :
    ∃ account : List (List FileDeed), account.length = calls.length ∧
      (∀ front c back, calls = front ++ c :: back → ∃ own, account[front.length]? = some own ∧
        (after name s front).world.files.Became own (after name s (front ++ [c])).world.files) ∧
      ∀ front back, calls = front ++ back →
        let deeds := (account.take front.length).flatten
        let m := (after name s front).world
        Accounted s.world.files name m deeds ∧
          (∀ place ∈ FileDeed.left deeds,
            ∃ modified, m.files.file? place = some (m.pidText, modified)) ∧
          (∀ place ∉ FileDeed.left deeds,
            m.files.file? place = none ∨ m.files.file? place = s.world.files.file? place) ∧
          (∀ earlier, front = earlier ++ [.stop] → FileDeed.left deeds = ∅) := by
  have start : Balanced s.world.files name s.world [] := by
    refine ⟨⟨.same, nofun, ?_⟩, fun f known => ?_⟩
    · rw [new]
      rfl
    · cases new.symm.trans known
  obtain ⟨account, long, owns, accounts⟩ := orderly.accounted start
  refine ⟨account, long, owns, fun front back parts => ?_⟩
  have accounted := accounts front back parts
  rw [List.nil_append] at accounted
  refine ⟨accounted, fun _ => accounted.there, fun _ => accounted.elsewhere, ?_⟩
  rintro earlier rfl
  have last : after name s (earlier ++ [.stop]) = Call.stop.next name (after name s earlier) :=
    List.foldl_append
  have forgotten : (Call.stop.next name (after name s earlier)).world.pidFiles.get? name = none :=
    (call_ends name (after name s earlier) .stop).forgets
  rw [accounted.left, last, forgotten]
  rfl

def sampleConfig (path : String) : Section := { document := [(.string "path", .string path)] }

def sampleCalls : List Call :=
  [.create (sampleConfig "run/a.pid"), .start, .reload (sampleConfig "/b.pid"), .stop]

theorem sample_left_as_recorded :
    let s : Stage Machine := { world := {} }
    Orderly "pid" s sampleCalls ∧
      ∃ account : List (List FileDeed), account.length = 4 ∧
        FileDeed.left (account.take 3).flatten = {["b.pid"]} ∧
        Accounted s.world.files "pid" (after "pid" s sampleCalls).world account.flatten ∧
        FileDeed.left account.flatten = ∅ := by
  intro s
  have orderly : Orderly "pid" s sampleCalls :=
    ⟨.of_done (by decide +kernel) (by decide +kernel) nofun,
      .of_done (by decide +kernel) (by decide +kernel) nofun,
      .of_done (by decide +kernel) (by decide +kernel) nofun,
      .of_done (by decide +kernel) (by decide +kernel) nofun, trivial⟩
  obtain ⟨account, long, -, accounts⟩ := left_as_recorded "pid" s sampleCalls rfl orderly
  obtain ⟨moved, -⟩ := accounts (sampleCalls.take 3) [.stop] rfl
  have record : (after "pid" s (sampleCalls.take 3)).world.pidFiles.get? "pid" =
      some ⟨⟨"/b.pid"⟩, true⟩ := by decide +kernel
  have place : Path.parts ⟨"/b.pid"⟩ = ["b.pid"] := by decide +kernel
  have between := moved.left
  rw [record, standing, place] at between
  obtain ⟨accounted, -, -, stopped⟩ := accounts sampleCalls [] rfl
  rw [← long, List.take_length] at accounted stopped
  exact ⟨orderly, account, long, between, accounted, stopped (sampleCalls.take 3) rfl⟩

end PidFile

end Steward
