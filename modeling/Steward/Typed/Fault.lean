set_option autoImplicit false

namespace Steward

inductive DigitFault
  | invalidDigit
  | tooLarge
  | tooSmall
  deriving DecidableEq, Repr

def DigitFault.message : DigitFault → String
  | .invalidDigit => "invalid digit found in string"
  | .tooLarge => "number too large to fit in target type"
  | .tooSmall => "number too small to fit in target type"

inductive Wanted
  | string
  | scalar
  | item
  | integer
  | number
  | bool
  | span
  | list
  deriving DecidableEq, Repr

def Wanted.text : Wanted → String
  | .string => "期望字符串"
  | .scalar => "期望标量"
  | .item => "列表元素期望标量"
  | .integer => "期望整数"
  | .number => "期望数值"
  | .bool => "期望布尔值"
  | .span => "期望时长"
  | .list => "期望字符串列表"

inductive TypedFault
  | wanted (what : Wanted) (found : String)
  | emptyInteger
  | noDigits (text : String)
  | digits (text : String) (cause : DigitFault)
  | numeral (text : String) (empty : Bool)
  | notWhole (text : String)
  | beyondIntegers (text : String)
  | negative (text : String)
  | notBool (text : String)
  | emptySpan
  | notSpan (text : String)
  | unitMissing (text : String)
  | unitUnknown (unit text : String)
  | emptyPath
  | noHome
  | url (text cause : String)
  | pattern (cause : String)
  deriving DecidableEq, Repr

def TypedFault.message : TypedFault → String
  | .wanted what found => what.text ++ "，实际为 " ++ found
  | .emptyInteger => "空字符串不是整数"
  | .noDigits text => "无效的整数: " ++ text
  | .digits text cause => "无效的整数 " ++ text ++ ": " ++ cause.message
  | .numeral text empty =>
    "无效的数值 " ++ text ++ ": " ++
      if empty then "cannot parse float from empty string" else "invalid float literal"
  | .notWhole text => text ++ " 不是整数"
  | .beyondIntegers text => text ++ " 超出整数范围"
  | .negative text => text ++ " 不能为负数"
  | .notBool text => "无效的布尔值: " ++ text
  | .emptySpan => "空字符串不是时长"
  | .notSpan text => "无效的时长: " ++ text
  | .unitMissing text => "时长缺少单位: " ++ text
  | .unitUnknown unit text => "未知的时长单位 " ++ unit ++ ": " ++ text
  | .emptyPath => "路径不能为空"
  | .noHome => "无法确定用户主目录"
  | .url text cause => "无效的URL " ++ text ++ ": " ++ cause
  | .pattern cause => "无效的正则表达式: " ++ cause

inductive CheckFault
  | blank
  | emptyList
  | zeroSpan
  | notAllowed (value allowed : String)
  | outside (value low high : String)
  | below (value low : String)
  | unmatched (value pattern : String)
  | custom (text : String)
  deriving DecidableEq, Repr

def CheckFault.message : CheckFault → String
  | .blank => "不能为空"
  | .emptyList => "列表不能为空"
  | .zeroSpan => "时长不能为0"
  | .notAllowed value allowed => "无效的取值 " ++ value ++ "，支持的取值: " ++ allowed
  | .outside value low high => value ++ " 超出范围 [" ++ low ++ ", " ++ high ++ "]"
  | .below value low => value ++ " 小于下限 " ++ low
  | .unmatched value pattern => value ++ " 不匹配 " ++ pattern
  | .custom text => text

end Steward
