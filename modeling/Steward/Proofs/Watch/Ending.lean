import Steward.Proofs.Supervision.Upkeep
import Steward.Proofs.Watch.Interleaving

set_option autoImplicit false

namespace Steward

variable {ι ω : Type}

def Stage.HasStopped (s : Stage ω) : Prop := s.watch.phase = .stopped

open Stage (HasStopped Keeps)

theorem Watch.Handled.stopped_phase {v w : Watch} (handled : v.Handled w)
    (ended : v.phase = .stopped) : w.phase = .stopped := by
  induction handled with
  | idle => exact ended
  | added file _ ih => rw [Watch.phase_add, ih]
  | stopped => rfl

theorem Loading.handled_after (l : Loading) (trail : List Mark) :
    l.watch.Handled (l.after trail).watch := by
  induction trail generalizing l with
  | nil => exact .idle l.watch
  | cons mark trail ih =>
    apply Watch.Handled.trans _ (ih (l.mark mark))
    cases mark with
    | read file => exact .idle l.watch
    | noted records => exact .idle l.watch
    | filed file => exact .added file (.idle l.watch)

theorem Stage.hasStopped_mark (s : Stage ω) (m : Mark) (ended : s.HasStopped) :
    (s.mark m).HasStopped :=
  (Loading.handled_after s.loading [m]).stopped_phase ended

variable (look : ω → Surroundings) {l : Listener ω} {pass : Nat → StateM (Stage ω) Unit}

structure Listener.Leaves (l : Listener ω) : Prop where
  onChange : ∀ file, Keeps HasStopped (l.onChange file)
  onError : ∀ file fault, Keeps HasStopped (l.onError file fault)

theorem Poll.scan_keeps (leaves : l.Leaves) (seen : Moment) (files : List Path) :
    Keeps HasStopped (scan look l seen files) := by
  induction files with
  | nil => exact fun _ ended => ended
  | cons file rest ih =>
    intro s ended
    rw [scan_cons]
    cases (look s.world).modified file with
    | error fault =>
      have told := leaves.onError file fault s ended
      revert told
      dsimp only
      rcases l.onError file fault s with ⟨_ | _, t⟩ <;> intro told
      · exact ih t told
      · exact told
    | ok m =>
      by_cases newer : seen < m
      · simp only [newer, if_true]
        exact leaves.onChange file _ ended
      · simp only [newer, if_false]
        exact ih s ended

theorem Poll.tick_keeps (leaves : l.Leaves) (p : Poll) (now : Nat) :
    Keeps HasStopped (p.tick look l now) := by
  intro s ended
  rw [tick_run]
  have scanned := scan_keeps look leaves p.seen p.files
    (s.write [.debug .watching ("轮询 " ++ toString p.files.length ++ " 个文件")]) ended
  revert scanned
  rcases scan look l p.seen p.files _ with ⟨⟨_ | _, seen⟩, t⟩ <;> exact id

namespace Vigil

theorem receive_keeps : Keeps HasStopped (receive : Step ω Unit) := by
  intro s ended
  rw [receive_run]
  split
  · exact ended
  · rfl
  · exact ended

theorem tick_keeps (leaves : l.Leaves) (p : Poll) : Keeps HasStopped (tick look l p) := by
  intro s ended
  have ticked := Poll.tick_keeps look leaves p s.world.now
    ⟨s.world.world, s.watch, s.log⟩ ended
  rw [tick_run]
  revert ticked
  rcases p.tick look l s.world.now ⟨s.world.world, s.watch, s.log⟩ with ⟨_ | p, t⟩
  · exact fun _ => rfl
  · exact id

theorem elapse_keeps (keeps : ∀ n, Keeps HasStopped (pass n)) (n : Nat) :
    Keeps HasStopped (elapse pass n) :=
  fun s ended => keeps n ⟨s.world.world, s.watch, s.log⟩ ended

theorem stopping (leaves : l.Leaves) (keeps : ∀ n, Keeps HasStopped (pass n)) :
    Passes look l pass fun s t => s.HasStopped → t.HasStopped where
  refl _ := id
  trans first later := later ∘ first
  receive := receive_keeps
  elapse := elapse_keeps keeps
  tick p s _ := tick_keeps look leaves p s

theorem waitOpen_keeps (leaves : l.Leaves) (keeps : ∀ n, Keeps HasStopped (pass n)) (n : Nat) :
    Keeps HasStopped (waitOpen look l pass n) :=
  (stopping look leaves keeps).waitIn (roundsIn n) n

theorem wait_keeps (leaves : l.Leaves) (keeps : ∀ n, Keeps HasStopped (pass n)) (n : Nat) :
    Keeps HasStopped (wait look l pass n) :=
  (stopping look leaves keeps).wait n

end Vigil

theorem Stage.within_keeps {ν α : Type} {m : StateM (Stage ω) α} (keeps : Keeps HasStopped m)
    (part : ν → ω) (put : ω → ν → ν) : Keeps HasStopped (Stage.within part put m) :=
  fun s => keeps ⟨part s.world, s.watch, s.log⟩

namespace Crew.Upholds

variable {crew : Crew ι ω}

theorem within {ν : Type} (keeps : crew.Upholds HasStopped) (part : ν → ω) (put : ω → ν → ν)
    {wait : Nat → StateM (Stage ν) Unit} (waits : ∀ n, Keeps HasStopped (wait n)) :
    (crew.within part put wait).Upholds HasStopped where
  mark := Stage.hasStopped_mark
  create kind maker found := by
    rw [Crew.makers_within] at found
    obtain ⟨m, known, rfl⟩ := Option.map_eq_some_iff.mp found
    exact fun name config => Stage.within_keeps (keeps.create kind m known name config) part put
  begin_ i name := Stage.within_keeps (keeps.begin_ i name) part put
  finish i name := Stage.within_keeps (keeps.finish i name) part put
  cancel i name elapsed := Stage.within_keeps (keeps.cancel i name elapsed) part put
  stop i name := Stage.within_keeps (keeps.stop i name) part put
  reload i name config := Stage.within_keeps (keeps.reload i name config) part put
  hook hook found := by
    obtain ⟨call, known, rfl⟩ := Option.map_eq_some_iff.mp found
    exact fun name config => Stage.within_keeps (keeps.hook call known name config) part put
  wait := waits

theorem chronicled (keeps : crew.Upholds HasStopped) : crew.chronicled.Upholds HasStopped where
  mark := Stage.hasStopped_mark
  create kind maker found := by
    rw [Crew.makers_chronicled] at found
    obtain ⟨m, known, rfl⟩ := Option.map_eq_some_iff.mp found
    exact fun name config s =>
      keeps.create kind m known name config ⟨s.world.world, s.watch, s.log⟩
  begin_ i name s := keeps.begin_ i name ⟨s.world.world, s.watch, s.log⟩
  finish i name s := keeps.finish i name ⟨s.world.world, s.watch, s.log⟩
  cancel i name elapsed s := keeps.cancel i name elapsed ⟨s.world.world, s.watch, s.log⟩
  stop i name s := keeps.stop i name ⟨s.world.world, s.watch, s.log⟩
  reload i name config s := keeps.reload i name config ⟨s.world.world, s.watch, s.log⟩
  hook hook found := by
    obtain ⟨call, known, rfl⟩ := Option.map_eq_some_iff.mp found
    exact fun name config s => keeps.hook call known name config ⟨s.world.world, s.watch, s.log⟩
  wait n s := keeps.wait n ⟨s.world.world, s.watch, s.log⟩

end Crew.Upholds

end Steward
