import Metrology.SI.Units
import Metrology.Vocabulary.Shadowing

/-!
# The vocabulary of the International System

The symbols of the units of `Metrology.SI`, the decimal prefixes and the binary ones. The symbol of
the candela also reads as a hundredth of a day, which is acknowledged. The micro prefix has two
symbols, the micro sign and the Greek letter.
-/

set_option autoImplicit false
set_option relaxedAutoImplicit false

namespace Metrology.SI

/-- A unit under a symbol. -/
def entry (category symbol name : String) (unit : Quantity) : UnitEntry :=
  ⟨utf8 symbol, unit.magnitude, unit.dimension, utf8 name, utf8 category⟩

/-- The entries of the base units. -/
def baseEntries : List UnitEntry :=
  [entry "base" "m" "meter" metre,
    entry "base" "kg" "kilogram" kilogram,
    entry "base" "s" "second" second,
    entry "base" "A" "ampere" ampere,
    entry "base" "K" "kelvin" kelvin,
    entry "base" "mol" "mole" mole,
    entry "base" "cd" "candela" candela]

/-- The entries of the derived units. -/
def derivedEntries : List UnitEntry :=
  [entry "derived" "rad" "radian" radian,
    entry "derived" "sr" "steradian" steradian,
    entry "derived" "Hz" "hertz" hertz,
    entry "derived" "N" "newton" newton,
    entry "derived" "Pa" "pascal" pascal,
    entry "derived" "J" "joule" joule,
    entry "derived" "W" "watt" watt,
    entry "derived" "C" "coulomb" coulomb,
    entry "derived" "V" "volt" volt,
    entry "derived" "F" "farad" farad,
    entry "derived" "Ω" "ohm" ohm,
    entry "derived" "S" "siemens" siemens,
    entry "derived" "Wb" "weber" weber,
    entry "derived" "T" "tesla" tesla,
    entry "derived" "H" "henry" henry,
    entry "derived" "lm" "lumen" lumen,
    entry "derived" "lx" "lux" lux,
    entry "derived" "Bq" "becquerel" becquerel,
    entry "derived" "Gy" "gray" gray,
    entry "derived" "Sv" "sievert" sievert,
    entry "derived" "kat" "katal" katal]

/-- The entries of the units accepted beside the system. -/
def acceptedEntries : List UnitEntry :=
  [entry "accepted" "g" "gram" gram,
    entry "accepted" "min" "minute" minute,
    entry "accepted" "h" "hour" hour,
    entry "accepted" "d" "day" day,
    entry "accepted" "l" "liter" litre,
    entry "accepted" "L" "liter" litre,
    entry "accepted" "t" "tonne" tonne,
    entry "accepted" "eV" "electronvolt" electronvolt,
    entry "accepted" "Da" "dalton" dalton]

/-- A prefix under a symbol. -/
def scaling (symbol name : String) (scale : Float) : PrefixEntry :=
  ⟨utf8 symbol, scale, utf8 name⟩

/-- The decimal prefixes. -/
def decimalPrefixes : List PrefixEntry :=
  [scaling "Y" "yotta" 1e24,
    scaling "Z" "zetta" 1e21,
    scaling "E" "exa" 1e18,
    scaling "P" "peta" 1e15,
    scaling "T" "tera" 1e12,
    scaling "G" "giga" 1e9,
    scaling "M" "mega" 1e6,
    scaling "k" "kilo" 1e3,
    scaling "h" "hecto" 1e2,
    scaling "da" "deca" 1e1,
    scaling "d" "deci" 1e-1,
    scaling "c" "centi" 1e-2,
    scaling "m" "milli" 1e-3,
    scaling "\u00B5" "micro" 1e-6,
    scaling "\u03BC" "micro" 1e-6,
    scaling "n" "nano" 1e-9,
    scaling "p" "pico" 1e-12,
    scaling "f" "femto" 1e-15,
    scaling "a" "atto" 1e-18,
    scaling "z" "zepto" 1e-21,
    scaling "y" "yocto" 1e-24]

/-- The binary prefixes, the powers of 1024. -/
def binaryPrefixes : List PrefixEntry :=
  [scaling "Ki" "kibi" 1024.0,
    scaling "Mi" "mebi" 1048576.0,
    scaling "Gi" "gibi" 1073741824.0,
    scaling "Ti" "tebi" 1099511627776.0,
    scaling "Pi" "pebi" 1125899906842624.0,
    scaling "Ei" "exbi" 1152921504606846976.0,
    scaling "Zi" "zebi" 1180591620717411303424.0,
    scaling "Yi" "yobi" 1208925819614629174706176.0]

/-- The declarations of the International System. -/
def declarations : List Declaration :=
  (baseEntries ++ derivedEntries ++ acceptedEntries).map .unitEntry ++
    .acknowledgement (utf8 "cd") :: (decimalPrefixes ++ binaryPrefixes).map .prefixEntry

/-- The vocabulary of the International System. -/
def vocabulary : Vocabulary :=
  (Vocabulary.empty.declareAll declarations).1

end Metrology.SI
