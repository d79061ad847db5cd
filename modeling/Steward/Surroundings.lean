import Steward.Path

set_option autoImplicit false

namespace Steward

inductive FileFault
  | notFound
  | alreadyExists
  | notDirectory
  | isDirectory
  | nameTooLong
  | emptyPath
  | nulInName
  | notText
  deriving DecidableEq, Repr, Inhabited

def FileFault.message : FileFault → String
  | .notFound => "No such file or directory (os error 2)"
  | .alreadyExists => "File exists (os error 17)"
  | .notDirectory => "Not a directory (os error 20)"
  | .isDirectory => "Is a directory (os error 21)"
  | .nameTooLong => "File name too long (os error 36)"
  | .emptyPath => "cannot make an empty path absolute"
  | .nulInName => "file name contained an unexpected NUL byte"
  | .notText => "stream did not contain valid UTF-8"

/-- A moment of the calendar. Moments are only compared, so that any unit will do. -/
abbrev Moment := Int

inductive Stored
  | missing
  | unreadable (fault : FileFault)
  | text (content : String)
  deriving DecidableEq, Repr, Inhabited

structure Surroundings where
  stored : Path → Stored
  modified : Path → Except FileFault Moment
  here : Path
  env : String → Option String

namespace Surroundings

def home? (s : Surroundings) : Option Path :=
  match s.env "HOME" with
  | some "" | none => none
  | some dir => some ⟨dir⟩

def absolute (s : Surroundings) (p : Path) : Path := p.absolute s.here

def directoryOf (s : Surroundings) (p : Path) : Option Path := p.parentOf s.here

end Surroundings

end Steward
