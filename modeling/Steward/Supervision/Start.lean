import Steward.Supervision.House

set_option autoImplicit false

namespace Steward.Start

variable {ι ω : Type} (crew : Crew ι ω)

def callHook (name : String) (config : Section) : Run ι ω Unit :=
  match crew.hook with
  | some hook => Run.act name "pre-start" (hook name config)
  | none => return ()

def giveUp (name : String) (budget : Span) : Run ι ω Nat := do
  Run.log [⟨.warn, .supervision, "组件启动超时，已取消启动任务", [("component", .bare name)]⟩]
  throw (.component (.timeout name budget))

def launch (i : ι) (name : String) (budget : Span) (left : Nat) : Run ι ω Nat := do
  if left = 0 then giveUp name budget
  else
    -- A start that takes all the time that is left is too late.
    match (← Run.onStage (crew.begin_ i name)).filter (· < left) with
    | some n =>
      Run.onStage (crew.wait n)
      Run.act name "start" (crew.finish i name)
      return n
    | none =>
      Run.onStage (crew.wait left)
      Run.onStage (crew.cancel i name left)
      giveUp name budget

def one (budget : Span) (left : Nat) (name : String) : Run ι ω Nat := do
  match ← Run.member? name with
  | some { kind, config, instance? := some i, .. } =>
    callHook crew name config
    Run.event .info "starting" name kind "启动组件"
    let took ← launch crew i name budget left
    Run.alter name fun m => { m with state := .running }
    Run.joinOrder name
    return left - took
  | _ => return left

def batch (p : Policy) (queue : List String) : Run ι ω Unit := do
  if queue.isEmpty then return
  let budget := p.startBudget queue.length
  Run.log [.debug .supervision
    ("启动 " ++ toString queue.length ++ " 个组件，批次预算 " ++ budget.text)]
  let _ ← queue.foldlM (one crew budget) budget.millisUp

end Steward.Start
