import Metrology.SI.Kinds
import Metrology.Quantity.Basic

/-!
# Units of the International System

The base units, the derived units with names, and the units accepted beside them, as quantities. All
but the accepted ones are coherent: their magnitude is one. The decimal prefixes multiply a unit.
-/

set_option autoImplicit false
set_option relaxedAutoImplicit false

namespace Metrology.SI

/-- The coherent unit of a dimension. -/
def coherent (dimension : Dimension) : Quantity :=
  ⟨1.0, dimension⟩

/-! ### Base units -/

def metre : Quantity := coherent Kind.length
def kilogram : Quantity := coherent Kind.mass
def second : Quantity := coherent Kind.time
def ampere : Quantity := coherent Kind.electricCurrent
def kelvin : Quantity := coherent Kind.temperature
def mole : Quantity := coherent Kind.amountOfSubstance
def candela : Quantity := coherent Kind.luminousIntensity

/-! ### Derived units -/

def radian : Quantity := coherent Kind.angle
def steradian : Quantity := coherent Kind.solidAngle
def hertz : Quantity := coherent Kind.frequency
def newton : Quantity := coherent Kind.force
def pascal : Quantity := coherent Kind.pressure
def joule : Quantity := coherent Kind.energy
def watt : Quantity := coherent Kind.power
def coulomb : Quantity := coherent Kind.electricCharge
def volt : Quantity := coherent Kind.electricPotential
def farad : Quantity := coherent Kind.capacitance
def ohm : Quantity := coherent Kind.electricResistance
def siemens : Quantity := coherent Kind.electricConductance
def weber : Quantity := coherent Kind.magneticFlux
def tesla : Quantity := coherent Kind.magneticFluxDensity
def henry : Quantity := coherent Kind.inductance

/-- The unit of temperature intervals. -/
def celsius : Quantity := kelvin

def lumen : Quantity := coherent Kind.luminousFlux
def lux : Quantity := coherent Kind.illuminance
def becquerel : Quantity := coherent Kind.radioactivity
def gray : Quantity := coherent Kind.absorbedDose
def sievert : Quantity := coherent Kind.doseEquivalent
def katal : Quantity := coherent Kind.catalyticActivity

/-! ### Units accepted beside the system -/

/-- The ratio of the circumference of a circle to its diameter. -/
def pi : Float := 3.141592653589793

def gram : Quantity := .scale 1e-3 kilogram
def minute : Quantity := .scale 60.0 second
def hour : Quantity := .scale 60.0 minute
def day : Quantity := .scale 24.0 hour
def degreeOfAngle : Quantity := .scale (pi / 180.0) radian
def minuteOfAngle : Quantity := degreeOfAngle.dividedBy 60.0
def secondOfAngle : Quantity := minuteOfAngle.dividedBy 60.0
def hectare : Quantity := .scale 1e4 (coherent Kind.area)
def litre : Quantity := .scale 1e-3 (coherent Kind.volume)
def tonne : Quantity := .scale 1e3 kilogram
def electronvolt : Quantity := .scale 1.60217653e-19 joule
def dalton : Quantity := .scale 1.66053886e-27 kilogram

/-! ### Decimal prefixes -/

def yotta : Quantity → Quantity := .scale 1e24
def zetta : Quantity → Quantity := .scale 1e21
def exa : Quantity → Quantity := .scale 1e18
def peta : Quantity → Quantity := .scale 1e15
def tera : Quantity → Quantity := .scale 1e12
def giga : Quantity → Quantity := .scale 1e9
def mega : Quantity → Quantity := .scale 1e6
def kilo : Quantity → Quantity := .scale 1e3
def hecto : Quantity → Quantity := .scale 1e2
def deca : Quantity → Quantity := .scale 1e1
def deci : Quantity → Quantity := .scale 1e-1
def centi : Quantity → Quantity := .scale 1e-2
def milli : Quantity → Quantity := .scale 1e-3
def micro : Quantity → Quantity := .scale 1e-6
def nano : Quantity → Quantity := .scale 1e-9
def pico : Quantity → Quantity := .scale 1e-12
def femto : Quantity → Quantity := .scale 1e-15
def atto : Quantity → Quantity := .scale 1e-18
def zepto : Quantity → Quantity := .scale 1e-21
def yocto : Quantity → Quantity := .scale 1e-24

end Metrology.SI
