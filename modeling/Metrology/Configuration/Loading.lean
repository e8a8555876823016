import Metrology.Configuration.Basic
import Metrology.Configuration.Warning

/-!
# Reading a configuration

A configuration is written in lines. After trimming, a line is blank or a comment, a header
`[name]`, an entry `key = value`, or invalid (`Line.ofText`). The value of an entry ends before its
first `#`. An entry counts below the latest header of the same text, when that header has a name.
Everything else is skipped with a warning.
-/

set_option autoImplicit false
set_option relaxedAutoImplicit false

namespace Metrology

/-- What a line of a configuration says. -/
inductive Line where
  /-- Nothing: the line is blank or a comment. -/
  | skipped
  /-- The entries that follow stand below this heading. -/
  | header (heading : Text)
  | entry (key value : Text)
  /-- Neither a header nor an entry. -/
  | invalid (line : Text)
  deriving DecidableEq

namespace Line

/-- The characters that a comment line starts with: `#` and `;`. -/
def startsComment (byte : UInt8) : Bool :=
  byte == 35 || byte == 59

/-- The value that is written after the equals sign, without comment. -/
def valueOf (written : Text) : Text :=
  Text.trim (Text.before 35 (Text.trim written))

/-- The text between the brackets of a header. -/
def headingOf (line : Text) : Text :=
  Text.trim (line.drop 1).dropLast

/-- What a line that is no comment says. -/
def ofContent (line : Text) : Line :=
  if line.head? = some 91 ∧ line.getLast? = some 93 then .header (headingOf line)
  else
    match Text.cut? 61 line with
    | none => .invalid line
    | some (key, value) => .entry (Text.trim key) (valueOf value)

/-- What a trimmed line says. -/
def ofTrimmed : Text → Line
  | [] => .skipped
  | first :: rest => if startsComment first then .skipped else ofContent (first :: rest)

/-- What a line says. -/
def ofText (line : Text) : Line :=
  ofTrimmed (Text.trim line)

end Line

namespace Configuration

/-- The state of reading a configuration. -/
structure Progress where
  configuration : Configuration
  /-- The latest heading; empty before the first header. -/
  heading : Text
  /-- The number of lines read. -/
  lines : Nat
  /-- The warnings so far, in order. -/
  warnings : List Warning

/-- Reports and changes nothing else. -/
def Progress.warn (progress : Progress) (warning : Warning) : Progress :=
  { progress with warnings := progress.warnings ++ [warning] }

/-- Accepts a setting, with a warning when it replaces another. -/
def Progress.accept (progress : Progress) (setting : Setting) : Progress :=
  let accepted := { progress with configuration := progress.configuration.put setting }
  if progress.configuration.hasKey setting.heading setting.key then
    accepted.warn (.duplicateKey setting.heading setting.key progress.lines)
  else accepted

/-- Takes in what a line says. -/
def Progress.take (progress : Progress) : Line → Progress
  | .skipped => progress
  | .header heading => { progress with heading := heading }
  | .invalid line => progress.warn (.invalidLine progress.lines line)
  | .entry key value =>
    if progress.heading = [] then progress.warn (.missingHeading progress.lines)
    else if key = [] then progress.warn (.emptyKey progress.lines)
    else progress.accept ⟨progress.heading, key, value⟩

/-- Reads one line. -/
def Progress.step (progress : Progress) (line : Text) : Progress :=
  { progress with lines := progress.lines + 1 }.take (Line.ofText line)

/-- The lines of a text. -/
def linesOf (text : Text) : List Text :=
  Text.splitOn 10 text

/-- Reads a text into a configuration, with the warnings about it. -/
def load (configuration : Configuration) (text : Text) : Configuration × List Warning :=
  let progress := (linesOf text).foldl Progress.step ⟨configuration, [], 0, []⟩
  (progress.configuration, progress.warnings)

end Configuration

end Metrology
