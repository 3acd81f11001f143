/-!
# Lines of the log

What the library tells whoever runs it, besides its results.
-/

namespace FieldDiagram

/-- How much a line matters. -/
inductive LogLevel where
  | info
  | warn
  | error
  deriving DecidableEq, Repr

/-- The name of a level. -/
def LogLevel.name : LogLevel → String
  | .info => "INFO"
  | .warn => "WARN"
  | .error => "ERROR"

/-- A message and how much it matters. -/
structure LogLine where
  level : LogLevel
  message : String
  deriving DecidableEq, Repr

/-- A line as it is written. -/
def LogLine.text (l : LogLine) : String := l.level.name ++ " " ++ l.message

end FieldDiagram
