import Steward.Watch.Polling

set_option autoImplicit false

namespace Steward

structure Vigil (ω : Type) where
  world : ω
  now : Nat := 0
  poll : Option Poll := none
  deriving Inhabited

namespace Vigil

variable {ω : Type}

abbrev Step (ω : Type) := StateM (Stage (Vigil ω))

def inside {α : Type} (m : StateM (Stage ω) α) : Step ω α :=
  Stage.within Vigil.world (fun world v => { v with world }) m

def setPoll (p : Option Poll) : Step ω Unit :=
  modify fun s => { s with world := { s.world with poll := p } }

def clearQueue : Step ω Unit :=
  modify fun s => { s with watch := { s.watch with queue := s.watch.queue.map fun _ => [] } }

def receive : Step ω Unit := do
  let s ← get
  match s.world.poll, s.watch.queue with
  | some p, some files =>
    setPoll (some (p.takeAll files))
    clearQueue
  | some _, none =>
    setPoll none
    inside Poll.finish
  | none, _ => return

def start (period : Nat) (today : Moment) : Step ω Bool := fun s =>
  let log := s.log ++ s.watch.startNotes period
  match s.watch.start? with
  | some watch =>
    (true, { world := { s.world with poll := watch.poll? period s.world.now today }, watch, log })
  | none => (false, { s with log })

def stop : Step ω Unit := modify fun s => { s with watch := s.watch.stop }

variable (look : ω → Surroundings) (l : Listener ω) (pass : Nat → StateM (Stage ω) Unit)

def tick (p : Poll) : Step ω Unit := do
  let now := (← get).world.now
  match ← inside (p.tick look l now) with
  | some p => setPoll (some p)
  | none =>
    setPoll none
    inside Poll.finish

def untilTick (s : Stage (Vigil ω)) : Option Nat :=
  if l.isBusy s.world.world then none else s.world.poll.map fun p => p.due - s.world.now

def elapse (n : Nat) : Step ω Unit := do
  inside (pass n)
  modify fun s => { s with world := { s.world with now := s.world.now + n } }

-- Lets milliseconds pass with the ticks in them. When the listener has become busy it stops, and
-- gives the milliseconds that are left. Each round but the last does a tick.
def waitIn : Nat → Nat → Step ω Nat
  | 0, n => return n
  | rounds + 1, n => do
    if !l.isBusy (← get).world.world then receive
    let s ← get
    match (untilTick l s).filter (· ≤ n), s.world.poll with
    | some d, some p =>
      elapse pass d
      tick look l p
      if l.isBusy (← get).world.world then return n - d
      else waitIn rounds (n - d)
    | _, _ =>
      elapse pass n
      return 0

-- Ticks lie at least a millisecond apart, but for those that are late by up to five.
def roundsIn (n : Nat) : Nat := n + 8

def waitOpen (n : Nat) : Step ω Nat := waitIn look l pass (roundsIn n) n

def wait (n : Nat) : Step ω Unit := do elapse pass (← waitOpen look l pass n)

theorem receive_run (s : Stage (Vigil ω)) :
    (receive s).2 =
      match s.world.poll, s.watch.queue with
      | some p, some files =>
        { s with
          world := { s.world with poll := some (p.takeAll files) }
          watch := { s.watch with queue := some [] } }
      | some _, none =>
        { world := { s.world with poll := none }
          watch := s.watch.stop
          log := s.log ++ [.info .watching "配置文件监控已停止"] }
      | none, _ => s := by
  rcases s with ⟨⟨world, now, _ | p⟩, ⟨phase, files, _ | queue, last⟩, log⟩ <;> rfl

theorem tick_run (p : Poll) (s : Stage (Vigil ω)) :
    (tick look l p s).2 =
      match p.tick look l s.world.now ⟨s.world.world, s.watch, s.log⟩ with
      | (some p, t) => ⟨{ s.world with world := t.world, poll := some p }, t.watch, t.log⟩
      | (none, t) =>
        { world := { s.world with world := t.world, poll := none }
          watch := t.watch.stop
          log := t.log ++ [.info .watching "配置文件监控已停止"] } := by
  simp only [tick, bind, StateT.bind, get, getThe, MonadStateOf.get, StateT.get, pure, inside,
    Stage.within]
  rcases p.tick look l s.world.now ⟨s.world.world, s.watch, s.log⟩ with ⟨_ | p, t⟩ <;> rfl

theorem waitIn_run (rounds n : Nat) (s : Stage (Vigil ω)) :
    waitIn look l pass (rounds + 1) n s =
      let s := if l.isBusy s.world.world then s else (receive s).2
      match (untilTick l s).filter (· ≤ n), s.world.poll with
      | some d, some p =>
        let t := (tick look l p (elapse pass d s).2).2
        if l.isBusy t.world.world then (n - d, t) else waitIn look l pass rounds (n - d) t
      | _, _ => (0, (elapse pass n s).2) := by
  rw [waitIn, Stage.bind_run, Stage.get_run]
  cases l.isBusy s.world.world
  · simp only [Bool.not_false, if_true, Bool.false_eq_true, if_false, Stage.bind_run, Stage.get_run]
    generalize (receive s).2 = t
    rcases (untilTick l t).filter (· ≤ n) with _ | d <;> rcases t.world.poll with _ | p <;>
      simp only [Stage.bind_run, Stage.pure_run, Stage.get_run]
    exact Stage.ite_run _ _ _
  · simp only [Bool.not_true, if_true, Bool.false_eq_true, if_false, Stage.bind_run, Stage.get_run]
    rcases (untilTick l s).filter (· ≤ n) with _ | d <;> rcases s.world.poll with _ | p <;>
      simp only [Stage.bind_run, Stage.pure_run, Stage.get_run]
    exact Stage.ite_run _ _ _

theorem wait_run (n : Nat) (s : Stage (Vigil ω)) :
    wait look l pass n s =
      let r := waitIn look l pass (roundsIn n) n s
      elapse pass r.1 r.2 := rfl

end Vigil

end Steward
