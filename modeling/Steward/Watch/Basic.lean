import Steward.FileTree
import Steward.Log.Record

set_option autoImplicit false

namespace Steward

inductive WatchPhase
  | unstarted
  | watching
  | stopped
  deriving DecidableEq, Repr, Inhabited

def WatchPhase.name : WatchPhase → String
  | .unstarted => "Unstarted"
  | .watching => "Watching"
  | .stopped => "Stopped"

structure Watch where
  phase : WatchPhase := .unstarted
  files : List Path := []
  queue : Option (List Path) := none
  lastChange : Option Moment := none
  deriving DecidableEq, Repr, Inhabited

namespace Watch

def empty : Watch := {}

def holds (files : List Path) (p : Path) : Bool := files.any p.sameAs

def isQueued (w : Watch) : Bool := w.phase == .watching && w.queue.isSome

def add (w : Watch) (p : Path) : Watch :=
  if holds w.files p then w
  else if w.phase = .watching then
    { w with files := w.files ++ [p], queue := w.queue.map (· ++ [p]) }
  else { w with files := w.files ++ [p] }

def addNotes (w : Watch) (p : Path) : List Record :=
  if !holds w.files p && w.isQueued then [.debug .watching ("追加监控文件: " ++ p.text)] else []

def stop (w : Watch) : Watch := { w with phase := .stopped, queue := none }

theorem add_of_holds {w : Watch} {p : Path} (h : holds w.files p = true) : w.add p = w := by
  simp [add, h]

theorem files_add (w : Watch) (p : Path) :
    (w.add p).files = if holds w.files p then w.files else w.files ++ [p] := by
  unfold add
  split
  · simp_all
  · split <;> simp_all

theorem prefix_add (w : Watch) (p : Path) : w.files <+: (w.add p).files := by
  rw [files_add]
  by_cases held : holds w.files p = true <;> simp [held]

theorem holds_add_self (w : Watch) (p : Path) : holds (w.add p).files p = true := by
  rw [files_add]
  split
  · assumption
  · simp [holds, Path.sameAs]

theorem holds_of_prefix {files more : List Path} {p : Path} (front : files <+: more)
    (held : holds files p = true) : holds more p = true := by
  obtain ⟨q, member, same⟩ := List.any_eq_true.mp held
  exact List.any_eq_true.mpr ⟨q, front.subset member, same⟩

theorem phase_add (w : Watch) (p : Path) : (w.add p).phase = w.phase := by
  unfold add
  split
  · rfl
  · split <;> rfl

end Watch

end Steward
