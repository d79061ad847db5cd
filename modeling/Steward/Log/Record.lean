set_option autoImplicit false

namespace Steward

inductive Level
  | error
  | warn
  | info
  | debug
  | trace
  deriving DecidableEq, Repr, Inhabited

namespace Level

def name : Level → String
  | .error => "ERROR"
  | .warn => "WARN"
  | .info => "INFO"
  | .debug => "DEBUG"
  | .trace => "TRACE"

def width : Level → Nat
  | .error => 1
  | .warn => 2
  | .info => 3
  | .debug => 4
  | .trace => 5

theorem width_injective {a b : Level} (h : a.width = b.width) : a = b := by
  cases a <;> cases b <;> simp_all [width]

end Level

inductive Origin
  | program
  | properties
  | sections
  | loading
  | watching
  | supervision
  | registration
  | builtins
  | service
  | commands
  | logging
  | signals
  deriving DecidableEq, Repr, Inhabited

def Origin.target : Origin → String
  | .program => "service_backbone"
  | .properties => "service_backbone::config::expander"
  | .sections => "service_backbone::config::section"
  | .loading => "service_backbone::config::loader"
  | .watching => "service_backbone::config::watch"
  | .supervision => "service_backbone::component::supervisor"
  | .registration => "service_backbone::component::registry"
  | .builtins => "service_backbone::component::builtin"
  | .service => "service_backbone::runtime"
  | .commands => "service_backbone::cli::commands"
  | .logging => "service_backbone::logging"
  | .signals => "service_backbone::signal"

inductive FieldValue
  | text (s : String)
  | bare (s : String)
  | count (n : Nat)
  deriving DecidableEq, Repr, Inhabited

structure Record where
  level : Level
  origin : Origin
  message : String
  fields : List (String × FieldValue) := []
  deriving DecidableEq, Repr, Inhabited

namespace Record

def debug (origin : Origin) (message : String) : Record := ⟨.debug, origin, message, []⟩

def info (origin : Origin) (message : String) : Record := ⟨.info, origin, message, []⟩

def warn (origin : Origin) (message : String) : Record := ⟨.warn, origin, message, []⟩

def error (origin : Origin) (message : String) : Record := ⟨.error, origin, message, []⟩

def field? (r : Record) (name : String) : Option FieldValue := r.fields.lookup name

end Record

end Steward
