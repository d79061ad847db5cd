import Steward.Surroundings
import Steward.Typed.Fault

set_option autoImplicit false

namespace Steward

def includeLimit : Nat := 16

inductive ShapeFault
  | yaml
  | section
  | properties
  | includeItem
  | includeValue
  | propertyFile
  | includedDocument
  | list
  | includedList
  deriving DecidableEq, Repr

def yamlMessage : String := "YAML解析失败: 文档无效"

def ShapeFault.message : ShapeFault → String
  | .yaml => yamlMessage
  | .section => "配置节点必须是映射、文件路径或空值"
  | .properties => "properties 必须是映射"
  | .includeItem => "include 列表元素必须是路径字符串"
  | .includeValue => "include 取值必须是路径字符串"
  | .propertyFile => "属性文件必须是映射"
  | .includedDocument => "被 include 的文档必须是映射"
  | .list => "期望列表"
  | .includedList => "被 include 的列表必须是序列或映射"

inductive ReadFault
  | file (fault : FileFault)
  | yaml
  deriving DecidableEq, Repr

def ReadFault.message : ReadFault → String
  | .file fault => fault.message
  | .yaml => yamlMessage

inductive ConfigFault
  | malformed (place : String) (cause : ShapeFault)
  | missing (place : String)
  | mistyped (place kind : String) (cause : TypedFault)
  | refused (place : String) (cause : CheckFault)
  | noFile (file : String)
  | unreadable (file : String) (cause : ReadFault)
  | tooDeep (file : String)
  deriving DecidableEq, Repr

namespace ConfigFault

def place : ConfigFault → String
  | .malformed place _ => place
  | .missing place => place
  | .mistyped place _ _ => place
  | .refused place _ => place
  | .noFile file => file
  | .unreadable file _ => file
  | .tooDeep file => file

def message : ConfigFault → String
  | .malformed place cause => place ++ ": 配置解析失败: " ++ cause.message
  | .missing place => place ++ ": 缺少必填字段"
  | .mistyped place kind cause => place ++ ": 无法转换为 " ++ kind ++ ": " ++ cause.message
  | .refused place cause => place ++ ": 校验失败: " ++ cause.message
  | .noFile file => "配置文件不存在: " ++ file
  | .unreadable file cause => "读取配置文件失败 " ++ file ++ ": " ++ cause.message
  | .tooDeep file => "include 嵌套超过 " ++ toString includeLimit ++ " 层: " ++ file

end ConfigFault

end Steward
