import Steward.Document.Fault
import Steward.Span

set_option autoImplicit false

namespace Steward

inductive ComponentFault
  | duplicateName (name : String)
  | unknownType (name kind : String)
  | unknownKind (kind : String)
  | lifecycle (name action message : String)
  | timeout (name : String) (budget : Span)
  deriving DecidableEq, Repr

def ComponentFault.message : ComponentFault → String
  | .duplicateName name => "组件名称重复: " ++ name
  | .unknownType name kind => "组件 " ++ name ++ " 使用了未注册的类型: " ++ kind
  | .unknownKind kind => "未注册的组件类型: " ++ kind
  | .lifecycle name action message => "组件 " ++ name ++ " " ++ action ++ " 失败: " ++ message
  | .timeout name budget => "组件 " ++ name ++ " 启动超时 (批次预算 " ++ budget.text ++ ")"

inductive Fault
  | config (cause : ConfigFault)
  | component (cause : ComponentFault)
  | other (message : String)
  deriving DecidableEq, Repr

namespace Fault

def causeMessage : Fault → String
  | .config cause => cause.message
  | .component cause => cause.message
  | .other message => message

def message (f : Fault) : String :=
  (match f with
    | .config _ => "配置错误: "
    | .component _ => "组件错误: "
    | .other _ => "其他错误: ") ++ f.causeMessage

end Fault

end Steward
