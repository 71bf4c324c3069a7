/-!
# Severities

How grave a finding is, in the words that Cppcheck uses for its own messages.
-/

namespace DeadCast

/-- How grave a finding is. -/
inductive Severity where
  | error
  | warning
  | style
  | performance
  | portability
  | information
  deriving DecidableEq, Repr

namespace Severity

/-- All severities, in the order in which they are offered. -/
def all : List Severity := [.error, .warning, .style, .performance, .portability, .information]

/-- The word for a severity. -/
def word : Severity → String
  | .error => "error"
  | .warning => "warning"
  | .style => "style"
  | .performance => "performance"
  | .portability => "portability"
  | .information => "information"

/-- The constant that stands for a severity in messages about values. -/
def constant : Severity → String
  | .error => "DiagnosticSeverity.ERROR"
  | .warning => "DiagnosticSeverity.WARNING"
  | .style => "DiagnosticSeverity.STYLE"
  | .performance => "DiagnosticSeverity.PERFORMANCE"
  | .portability => "DiagnosticSeverity.PORTABILITY"
  | .information => "DiagnosticSeverity.INFORMATION"

/-- The severity of a word. -/
def ofWord? (word : String) : Option Severity := all.find? (·.word == word)

end Severity

end DeadCast
