import Steward.Document.Merge
import Steward.Proofs.Loading.PropertyFiles

set_option autoImplicit false

namespace Steward

-- A part of a load that reads files and registers none of them if it fails.
inductive Obstacle
  | file (p : Path)
  | document (p : Path)
  | properties (t : PropertyTable) (block : Entries) (base : Option Path)

namespace Obstacle

def load : Obstacle → Load Unit
  | .file p => do
    let _ ← Load.readYaml p
  | .document p => do
    let _ ← (do liftM (Merge.documentEntries p (← Load.readYaml p)) : Load Entries)
  | .properties t block base => do
    let _ ← PropertyBlock.add t block base

def Stands (o : Obstacle) (s : Surroundings) (fault : ConfigFault) : Prop :=
  ∀ l, (o.load.runOn s l).1 = .error fault

def SameIn (o : Obstacle) (s s' : Surroundings) : Prop :=
  ∀ l, o.load.runOn s' l = o.load.runOn s l

end Obstacle

namespace Load

variable {α β : Type} {s s' : Surroundings} {l l' : Loading} {fault : ConfigFault}
  {obstacle : Option Obstacle} {front back trail : List Mark}

theorem error_of_discard {m : Load α}
    (stops : LoadOr.runOn (do let _ ← m) s l = (.error fault, l')) :
    LoadOr.runOn m s l = (.error fault, l') := by
  rw [LoadOr.runOn_bind] at stops
  revert stops
  rcases LoadOr.runOn m s l with ⟨r, l₁⟩
  cases r with
  | ok a => nofun
  | error fault =>
    rintro ⟨⟩
    rfl

def Settles (m : Load α) (s : Surroundings) (obstacle : Option Obstacle)
    (r : Except ConfigFault α) (trail : List Mark) : Prop :=
  ∀ s', s.AgreesOn (fun p => .filed (s.absolute p) ∈ trail) s' →
    (∀ o ∈ obstacle, o.SameIn s s') → ∀ l, LoadOr.runOn m s' l = (r, l.after trail)

-- Only a fault has an obstacle, and it is the fault of the obstacle.
def Explains (s : Surroundings) (obstacle : Option Obstacle) : Except ConfigFault α → Prop
  | .ok _ => obstacle = none
  | .error fault => ∀ o ∈ obstacle, o.Stands s fault

def Accounts (m : Load α) : Prop :=
  ∀ s, ∃ r trail obstacle, m.Settles s obstacle r trail ∧ Explains s obstacle r

namespace Settles

variable {m : Load α} {f : α → Load β}

theorem of_leaves {r : Except ConfigFault α} (leaves : m.Leaves s r trail)
    (filed : ∀ p, .read p ∈ trail → .filed (s.absolute p) ∈ trail) : m.Settles s none r trail :=
  fun s' agrees _ => leaves s' (agrees.mono filed)

theorem bind {a : α} {r : Except ConfigFault β} (first : m.Settles s none (.ok a) front)
    (rest : (f a).Settles s obstacle r back) : (m >>= f).Settles s obstacle r (front ++ back) := by
  intro s' agrees same l
  have before := first s' (agrees.mono (by simp +contextual)) (by simp) l
  have after := rest s' (agrees.mono (by simp +contextual)) same (l.after front)
  rw [LoadOr.runOn_bind, before, Loading.after_append]
  exact after

theorem bind_error (first : m.Settles s obstacle (.error fault) trail) :
    (m >>= f).Settles s obstacle (.error fault) trail := by
  intro s' agrees same l
  rw [LoadOr.runOn_bind, first s' agrees same l]

theorem of_obstacle {o : Obstacle} (own : o.load = do let _ ← m)
    (leaves : m.Leaves s (.error fault) trail) : m.Settles s (some o) (.error fault) trail := by
  intro s' _ same l
  have stops := same o rfl l
  rw [own, runOn, runOn, leaves.bind_error.run l] at stops
  exact error_of_discard stops

end Settles

theorem stands_of_leaves {m : Load α} {o : Obstacle} (own : o.load = do let _ ← m)
    (leaves : m.Leaves s (.error fault) trail) : o.Stands s fault := by
  intro l
  rw [own, runOn, leaves.bind_error.run l]

namespace Accounts

variable {m : Load α} {f : α → Load β}

theorem of_leaves {r : Surroundings → Except ConfigFault α} {trail : Surroundings → List Mark}
    (leaves : ∀ s, m.Leaves s (r s) (trail s)) (silent : ∀ s p, .read p ∉ trail s) :
    m.Accounts := by
  intro s
  refine ⟨r s, trail s, none, .of_leaves (leaves s) fun p read => absurd read (silent s p), ?_⟩
  cases r s with
  | ok a => rfl
  | error fault => nofun

theorem pure (a : α) : Accounts (Pure.pure a) :=
  of_leaves (fun _ => .pure a) (by simp)

theorem throw (fault : ConfigFault) : Accounts (MonadExcept.throw fault : Load α) :=
  of_leaves (fun _ => .throw fault) (by simp)

theorem lift (r : Except ConfigFault α) : Accounts (liftM r : Load α) :=
  of_leaves (fun _ => .lift r) (by simp)

theorem note (records : List Record) : Accounts (Load.note records) :=
  of_leaves (fun _ => note_leaves records) (by simp)

theorem directoryOf (p : Path) : Accounts (Load.directoryOf p) :=
  of_leaves (fun _ => directoryOf_leaves p) (by simp)

theorem resolve (t : PropertyTable) (raw : String) (base : Option Path) :
    Accounts (Load.resolve t raw base) :=
  of_leaves (fun _ => resolve_leaves t raw base) (by simp)

theorem look {f : Surroundings → Load α}
    (same : ∀ s s', s'.here = s.here → s'.env = s.env → f s' = f s) (rest : ∀ s, (f s).Accounts) :
    Accounts (read >>= f) := by
  intro s
  obtain ⟨r, trail, obstacle, settles, explains⟩ := rest s s
  refine ⟨r, trail, obstacle, fun s' agrees met l => ?_, explains⟩
  rw [← settles s' agrees met l, ← same s s' agrees.here agrees.env]
  rfl

theorem bind (first : m.Accounts) (rest : ∀ a, (f a).Accounts) : Accounts (m >>= f) := by
  intro s
  obtain ⟨r, front, obstacle, settles, explains⟩ := first s
  cases r with
  | error fault => exact ⟨.error fault, front, obstacle, settles.bind_error, explains⟩
  | ok a =>
    cases explains
    obtain ⟨r, back, obstacle, after, explains⟩ := rest a s
    exact ⟨r, front ++ back, obstacle, settles.bind after, explains⟩

theorem mapM {f : α → Load β} (each : ∀ a, (f a).Accounts) (items : List α) :
    Accounts (items.mapM f) := by
  induction items with
  | nil => exact pure []
  | cons a items ih =>
    rw [List.mapM_cons]
    exact (each a).bind fun b => ih.bind fun bs => pure (b :: bs)

theorem foldlM {f : β → α → Load β} {items : List α} (each : ∀ a ∈ items, ∀ b, (f b a).Accounts)
    (b : β) : Accounts (items.foldlM f b) := by
  induction items generalizing b with
  | nil => exact pure b
  | cons a items ih =>
    rw [List.foldlM_cons]
    exact (each a (by simp) b).bind (ih fun a member => each a (by simp [member]))

theorem obtained {o : Obstacle} {file : α → Load Unit} (own : o.load = do let _ ← m)
    (obtains : ∀ s, ∃ r front, m.Leaves s r front ∧ ∀ a, r = .ok a → ∃ back,
      (file a).Leaves s (.ok ()) back ∧ ∀ p, .read p ∈ front ++ back →
        .filed (s.absolute p) ∈ front ++ back)
    (rest : ∀ a, (f a).Accounts) :
    Accounts (do
      let a ← m
      file a
      f a) := by
  intro s
  obtain ⟨r, front, read, filed⟩ := obtains s
  cases r with
  | error fault =>
    refine ⟨.error fault, front, some o, (Settles.of_obstacle own read).bind_error, ?_⟩
    rintro _ ⟨⟩
    exact stands_of_leaves own read
  | ok a =>
    obtain ⟨back, register, filed⟩ := filed a rfl
    obtain ⟨r, trail, obstacle, after, explains⟩ := rest a s
    have settles : (do
        let a ← m
        file a
        return a).Settles s none (.ok a) (front ++ back) := by
      have both := read.bind (f := fun a => do file a; return a) (register.bind (.pure a))
      rw [List.append_nil] at both
      exact .of_leaves both filed
    have all := settles.bind after
    simp only [bind_assoc, pure_bind] at all
    exact ⟨r, _, obstacle, all, explains⟩

theorem registered {p : Path} {o : Obstacle} (own : o.load = do let _ ← m)
    (obtains : ∀ s, ∃ r, m.Leaves s r [.read p]) (rest : ∀ a, (f a).Accounts) :
    Accounts (do
      let a ← m
      Load.register p
      f a) := by
  refine obtained own (fun s => ?_) rest
  obtain ⟨r, read⟩ := obtains s
  exact ⟨r, _, read, fun a _ => ⟨_, register_leaves p, by simp⟩⟩

end Accounts

theorem registerAll_leaves (files : List Path) (s : Surroundings) :
    (files.forM register).Leaves s (.ok ()) (files.map fun p => .filed (s.absolute p)) := by
  induction files with
  | nil => exact .pure ()
  | cons p files ih => exact (register_leaves p).bind ih

theorem Accounts.properties (t : PropertyTable) (block : Entries) (base : Option Path)
    {f : PropertyTable → Load β} (rest : ∀ t, (f t).Accounts) :
    Accounts (do
      let result ← PropertyBlock.add t block base
      result.2.forM register
      f result.1) := by
  have own : (Obstacle.properties t block base).load = (do
    let _ ← PropertyBlock.add t block base) := rfl
  refine obtained own (fun s => ?_) fun result => rest result.1
  obtain ⟨r, front, added, listed⟩ := PropertyBlock.add_yields (s := s) t block base
  refine ⟨r, front, added, fun result same => ⟨_, registerAll_leaves result.2 s, fun p read => ?_⟩⟩
  have file := listed result same p (by simpa using read)
  simp only [List.mem_append, List.mem_map]
  exact .inr ⟨p, file, rfl⟩

theorem readYaml_accounts (p : Path) {f : Value → Load β} (rest : ∀ v, (f v).Accounts) :
    Accounts (do
      let v ← readYaml p
      register p
      f v) :=
  .registered (o := .file p) rfl (fun _ => ⟨_, readYaml_leaves p⟩) rest

theorem readDocument_accounts (p : Path) {f : Entries → Load β} (rest : ∀ es, (f es).Accounts) :
    Accounts (do
      let es ← (do liftM (Merge.documentEntries p (← readYaml p)) : Load Entries)
      register p
      f es) := by
  refine .registered (o := .document p) rfl (fun s => ?_) rest
  have read := readYaml_leaves (s := s) p
  generalize readText p (s.stored p) = found at read
  cases found with
  | error fault => exact ⟨_, read.bind_error⟩
  | ok v => exact ⟨_, read.bind (.lift _)⟩

end Load

end Steward
