import Metrology.Text.Utf8

/-!
# The template of a configuration

A configuration to start from, with comments on its format.
-/

set_option autoImplicit false
set_option relaxedAutoImplicit false

namespace Metrology.Configuration

/-- The lines of the template. -/
def templateLines : List String :=
  ["# DQL configuration template",
    "#",
    "# Values may carry unit expressions: [number] term ((*|/|space) term)*",
    "# with term := symbol [^exponent], e.g. \"2.5 g/l\", \"9.81 m s^-2\".",
    "",
    "[prefixes]",
    "# symbol = dimensionless factor",
    "# Ki = 1024",
    "",
    "[units]",
    "# symbol = unit expression, or 'base' for a new base dimension",
    "# B = base",
    "# mph = 0.44704 m/s",
    "",
    "[evaluate]",
    "# name = expression printed by dql_calc",
    "speed_of_sound = 343.4 m/s",
    "dose = 2.5 mg/kg"]

/-- The text of the template. -/
def template : Text :=
  templateLines.flatMap fun line ↦ utf8 line ++ utf8 "\n"

end Metrology.Configuration
