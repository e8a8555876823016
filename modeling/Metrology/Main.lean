import Metrology.Calculator
import Metrology.Configuration.Loading
import Metrology.Configuration.Units

/-!
# The command line

Reads the files that a request names, prints the answer and ends with 0 when all went well.
-/

set_option autoImplicit false
set_option relaxedAutoImplicit false

open Metrology

/-- Writes a text to a stream. -/
def writeText (stream : IO.FS.Stream) (text : Text) : IO Unit := do
  stream.write ⟨text.toArray⟩
  stream.flush

/-- Writes the template of a configuration to a file. -/
def writeTemplate (stdout : IO.FS.Stream) (path : String) : IO UInt32 := do
  try
    IO.FS.writeBinFile path ⟨Configuration.template.toArray⟩
    writeText stdout (utf8 "Configuration template written to: " ++ utf8 path ++ utf8 "\n")
    return 0
  catch _ =>
    let error := ConfigurationError.unwritableTemplate (utf8 path)
    writeText stdout (Calculator.Answer.failure error.message).text
    return 1

/-- Writes warnings to a stream, one on a line. -/
def writeWarnings (stream : IO.FS.Stream) (warnings : List Warning) : IO Unit :=
  writeText stream (warnings.flatMap fun warning ↦ warning.message ++ utf8 "\n")

/-- The configuration in a file. -/
def readConfiguration (stderr : IO.FS.Stream) (path : String) : IO (Option Configuration) := do
  try
    let bytes ← IO.FS.readBinFile path
    let (configuration, warnings) := Configuration.load .empty bytes.toList
    writeWarnings stderr warnings
    return some configuration
  catch _ =>
    writeWarnings stderr [.unreadableFile (utf8 path)]
    return none

/-- Answers a request that may name a configuration. -/
def answerRequest (stdout stderr : IO.FS.Stream) (request : Calculator.Request) : IO UInt32 := do
  let configuration ← match request.configurationPath with
    | some path => readConfiguration stderr path
    | none => pure (some .empty)
  match configuration with
  | none => return 1
  | some configuration =>
    let answer := Calculator.answer request configuration
    writeText stdout answer.text
    return if answer.succeeded then 0 else 1

/-- The calculator as a program. -/
def main (arguments : List String) : IO UInt32 := do
  let stdout ← IO.getStdout
  let stderr ← IO.getStderr
  let request := Calculator.Request.ofArguments {} arguments
  if request.help then
    writeText stdout Calculator.usage
    return 0
  match request.templatePath with
  | some path => writeTemplate stdout path
  | none =>
    if request.isComplete then answerRequest stdout stderr request
    else
      writeText stdout Calculator.incomplete.text
      return 1
