import Metrology.Configuration.Declarations
import Metrology.Configuration.Template
import Metrology.Quantity.Text
import Metrology.SI.Vocabulary
import Metrology.Vocabulary.Shadowing

/-!
# The calculator

The calculator evaluates an expression in the vocabulary of the International System, extended by
the symbols that a configuration declares, and the expressions that the configuration names. A
request is read from command line arguments; answering it is a function of the request and the
configuration.
-/

set_option autoImplicit false
set_option relaxedAutoImplicit false

namespace Metrology.Calculator

/-- What the calculator is asked for. -/
structure Request where
  /-- The expression to evaluate. -/
  expression : Option Text := none
  /-- The unit of the answer; empty for coherent units. -/
  target : Text := []
  /-- The file with the configuration. -/
  configurationPath : Option String := none
  /-- The file to write a template to. -/
  templatePath : Option String := none
  /-- The number of digits after the point. -/
  places : Int := Quantity.defaultPlaces
  /-- The vocabulary is to be listed. -/
  listing : Bool := false
  /-- The usage is to be printed. -/
  help : Bool := false

namespace Request

/-- Takes an option with its value into account; other options are ignored. -/
def option (request : Request) (name value : String) : Request :=
  if name = "-q" then { request with expression := some (utf8 value) }
  else if name = "-to" then { request with target := utf8 value }
  else if name = "-c" then { request with configurationPath := some value }
  else if name = "-generate_config" then { request with templatePath := some value }
  else if name = "-precision" then
    { request with places := (Leading.integer? (utf8 value)).getD request.places }
  else request

/-- The options that take a value. -/
def valued : List String :=
  ["-q", "-to", "-c", "-generate_config", "-precision"]

/-- Reads arguments; of a repeated option the last value counts. -/
def ofArguments (request : Request) : List String → Request
  | [] => request
  | [name] =>
    if name = "-list" then { request with listing := true }
    else if name = "-help" then { request with help := true }
    else request
  | name :: value :: rest =>
    if name ∈ valued then (request.option name value).ofArguments rest
    else if name = "-list" then { request with listing := true }.ofArguments (value :: rest)
    else if name = "-help" then { request with help := true }.ofArguments (value :: rest)
    else request.ofArguments (value :: rest)

/-- Something is asked for that can be answered. -/
def isComplete (request : Request) : Bool :=
  request.expression.isSome || request.configurationPath.isSome || request.listing

end Request

/-- What the calculator prints, and whether all went well. -/
structure Answer where
  text : Text
  succeeded : Bool

namespace Answer

/-- An error message. -/
def failure (message : Text) : Answer :=
  ⟨utf8 "Error: " ++ message ++ utf8 "\n", false⟩

/-- One answer after the other. -/
def append (first second : Answer) : Answer :=
  ⟨first.text ++ second.text, first.succeeded && second.succeeded⟩

/-- Nothing to print. -/
def empty : Answer :=
  ⟨[], true⟩

end Answer

/-- How to use the calculator. -/
def usage : Text :=
  ["dql_calc - Unit expression calculator",
    "Usage: dql_calc [options]",
    "",
    "Options:",
    "  -q <expr>                 Quantity to evaluate (e.g. \"2.5 g/l\")",
    "  -to <unit>                Express the result in this unit",
    "  -c <file>                 Configuration file with [prefixes], [units]",
    "                            and [evaluate] sections",
    "  -precision <n>            Digits after the decimal point (default 6)",
    "  -list                     Print the symbol table",
    "  -generate_config <file>   Write a configuration template",
    "",
    "Examples:",
    "  dql_calc -q \"343.4 m/s\" -to \"km/h\" -precision 1",
    "  dql_calc -q \"kg·m²·s⁻²\"",
    "  dql_calc -c storage.config -q \"1.5 MiB\" -to B",
    ""].flatMap fun line ↦ utf8 line ++ utf8 "\n"

/-- The answer to a request that asks for nothing. -/
def incomplete : Answer :=
  ⟨utf8 "Error: Expression (-q), configuration file (-c) or -list required\n" ++
    utf8 "Run with -help for usage information\n", false⟩

/-- The text of a quantity: in the target unit if there is one, else in coherent units with its
dimension. -/
def describe (vocabulary : Vocabulary) (target : Text) (places : Int) (quantity : Quantity) :
    Except Error Text :=
  if target = [] then
    (quantity.toText vocabulary).map fun written ↦
      written ++ utf8 "  (" ++ quantity.dimension.toText ++ utf8 ")"
  else quantity.toTextIn vocabulary target places

/-- The line of a named expression. -/
def evaluate (vocabulary : Vocabulary) (target : Text) (places : Int) (name expression : Text) :
    Answer :=
  match (vocabulary.parse expression).bind (describe vocabulary target places) with
  | .ok written => ⟨name ++ utf8 " = " ++ written ++ utf8 "\n", true⟩
  | .error error => .failure (name ++ utf8 ": " ++ error.message)

/-- The vocabulary of a configuration. -/
def vocabularyOf (configuration : Configuration) : Except Error Vocabulary :=
  match configuration.declareSymbols SI.vocabulary with
  | (vocabulary, none) => vocabulary.build.mapError .expression
  | (_, some error) => .error error

/-- The heading of the expressions that a configuration names. -/
def evaluateHeading : Text := utf8 "evaluate"

/-- The answers to the expressions that a configuration names. -/
def named (vocabulary : Vocabulary) (configuration : Configuration) : Answer :=
  ((configuration.keys evaluateHeading).map fun key ↦
    evaluate vocabulary [] Quantity.defaultPlaces key
      (configuration.textOrEmpty evaluateHeading key)).foldl Answer.append .empty

/-- The answers to a request in a vocabulary. -/
def answerIn (vocabulary : Vocabulary) (request : Request) (configuration : Configuration) :
    Answer :=
  let expression := (request.expression.map fun expression ↦
    evaluate vocabulary request.target request.places expression expression).getD .empty
  let rest := expression.append (named vocabulary configuration)
  if request.listing then
    match vocabulary.listing with
    | .ok listing => Answer.append ⟨listing, true⟩ rest
    | .error error => .failure error.message
  else rest

/-- The answer to a request. -/
def answer (request : Request) (configuration : Configuration) : Answer :=
  match vocabularyOf configuration with
  | .ok vocabulary => answerIn vocabulary request configuration
  | .error error => .failure error.message

end Metrology.Calculator
