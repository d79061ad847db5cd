import Steward.Span
import Steward.Stage

set_option autoImplicit false

namespace Steward

inductive Flow
  | goOn
  | done
  deriving DecidableEq, Repr, Inhabited

structure Listener (ω : Type) where
  onChange : Path → StateM (Stage ω) Flow
  onError : Path → FileFault → StateM (Stage ω) Flow
  isBusy : ω → Bool := fun _ => false

/-- A polling under way. Times are in milliseconds; `seen` is the moment of the last change. -/
structure Poll where
  files : List Path
  seen : Moment
  period : Nat
  due : Nat
  deriving DecidableEq, Repr, Inhabited

namespace Watch

def startNotes (w : Watch) (period : Nat) : List Record :=
  if w.phase = .unstarted then
    [.info .watching ("启动配置文件监控，周期 " ++ (Span.ofMillis period).text ++ "，文件数 " ++
      toString w.files.length)]
  else [.warn .watching ("文件监控已处于 " ++ w.phase.name ++ " 状态，忽略重复启动")]

def start? (w : Watch) : Option Watch :=
  if w.phase = .unstarted then some { w with phase := .watching, queue := some [] } else none

def poll? (w : Watch) (period now : Nat) (today : Moment) : Option Poll :=
  if period = 0 then none else some ⟨w.files, today, period, now + period⟩

def sawChange (w : Watch) (m : Moment) : Watch := { w with lastChange := some m }

end Watch

namespace Poll

variable {ω : Type}

def take (p : Poll) (file : Path) : Poll :=
  if Watch.holds p.files file then p else { p with files := p.files ++ [file] }

def takeAll (p : Poll) (files : List Path) : Poll := files.foldl take p

-- A tick that is not late sets the next one by the clock; one that is late, by its own time.
def nextDue (p : Poll) (now : Nat) : Nat :=
  if p.due + 5 < now then now + p.period else p.due + p.period

def noteChange (file : Path) (m : Moment) : StateM (Stage ω) Unit :=
  modify fun s => { s with
    watch := s.watch.sawChange m
    log := s.log ++ [.info .watching ("检测到配置文件变更: " ++ file.text)] }

def scan (look : ω → Surroundings) (l : Listener ω) (seen : Moment) :
    List Path → StateM (Stage ω) (Flow × Moment)
  | [] => return (.goOn, seen)
  | file :: rest => do
    match (look (← get).world).modified file with
    | .error fault =>
      match ← l.onError file fault with
      | .done => return (.done, seen)
      | .goOn => scan look l seen rest
    | .ok m =>
      if seen < m then
        -- The files behind this one have their turn at the next tick.
        noteChange file m
        return (← l.onChange file, m)
      else scan look l seen rest

def tick (look : ω → Surroundings) (l : Listener ω) (p : Poll) (now : Nat) :
    StateM (Stage ω) (Option Poll) := do
  modify fun s => s.write [.debug .watching ("轮询 " ++ toString p.files.length ++ " 个文件")]
  let (flow, seen) ← scan look l p.seen p.files
  match flow with
  | .goOn => return some { p with seen, due := p.nextDue now }
  | .done => return none

def finish : StateM (Stage ω) Unit :=
  modify fun s => { s with
    watch := s.watch.stop
    log := s.log ++ [.info .watching "配置文件监控已停止"] }

def warnError (file : Path) (fault : FileFault) : StateM (Stage ω) Flow := do
  modify fun s => s.write
    [.warn .watching ("获取文件状态失败 " ++ file.text ++ ": " ++ fault.message)]
  return .goOn

theorem scan_nil (look : ω → Surroundings) (l : Listener ω) (seen : Moment) (s : Stage ω) :
    scan look l seen [] s = ((.goOn, seen), s) := rfl

theorem scan_cons (look : ω → Surroundings) (l : Listener ω) (seen : Moment) (file : Path)
    (rest : List Path) (s : Stage ω) :
    scan look l seen (file :: rest) s =
      match (look s.world).modified file with
      | .error fault =>
        match l.onError file fault s with
        | (.done, s) => ((.done, seen), s)
        | (.goOn, s) => scan look l seen rest s
      | .ok m =>
        if seen < m then
          let r := l.onChange file (noteChange file m s).2
          ((r.1, m), r.2)
        else scan look l seen rest s := by
  rw [scan, Stage.bind_run, Stage.get_run]
  dsimp only
  cases (look s.world).modified file with
  | error fault =>
    simp only [Stage.bind_run]
    rcases l.onError file fault s with ⟨_ | _, t⟩ <;> rfl
  | ok m =>
    by_cases newer : seen < m <;> simp only [newer] <;> rfl

theorem tick_run (look : ω → Surroundings) (l : Listener ω) (p : Poll) (now : Nat) (s : Stage ω) :
    tick look l p now s =
      match scan look l p.seen p.files
        (s.write [.debug .watching ("轮询 " ++ toString p.files.length ++ " 个文件")]) with
      | ((.goOn, seen), t) => (some { p with seen, due := p.nextDue now }, t)
      | ((.done, _), t) => (none, t) := by
  rw [tick, Stage.bind_run, Stage.modify_run, Stage.bind_run]
  rcases scan look l p.seen p.files _ with ⟨⟨_ | _, seen⟩, t⟩ <;> rfl

end Poll

end Steward
