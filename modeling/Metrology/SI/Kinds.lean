import Metrology.Dimension.Algebra

/-!
# Kinds of quantities

The dimensions of the quantities that the International System names, by their exponents of its
seven base dimensions.
-/

set_option autoImplicit false
set_option relaxedAutoImplicit false

namespace Metrology.SI.Kind

open BaseDimension renaming
  length → L, mass → M, time → T, electricCurrent → I, temperature → Θ, amountOfSubstance → N,
  luminousIntensity → J

/-- The dimension of a plain number. -/
def dimensionless : Dimension := .one

/-! ### Base quantities -/

def length : Dimension where entries := [(L, 1)]
def mass : Dimension where entries := [(M, 1)]
def time : Dimension where entries := [(T, 1)]
def electricCurrent : Dimension where entries := [(I, 1)]
def temperature : Dimension where entries := [(Θ, 1)]
def amountOfSubstance : Dimension where entries := [(N, 1)]
def luminousIntensity : Dimension where entries := [(J, 1)]

/-! ### Geometry and motion -/

/-- Length squared. -/
def area : Dimension where entries := [(L, 2)]

/-- Length cubed. -/
def volume : Dimension where entries := [(L, 3)]

/-- Length over time. -/
def speed : Dimension where entries := [(L, 1), (T, -1)]

/-- Speed over time. -/
def acceleration : Dimension where entries := [(L, 1), (T, -2)]

/-- An angle is a plain number. -/
def angle : Dimension := dimensionless

/-- A solid angle is a plain number. -/
def solidAngle : Dimension := dimensionless

/-- One over time. -/
def frequency : Dimension where entries := [(T, -1)]

/-! ### Mechanics and matter -/

/-- Mass over volume. -/
def massDensity : Dimension where entries := [(L, -3), (M, 1)]

/-- Amount of substance over volume. -/
def concentration : Dimension where entries := [(L, -3), (N, 1)]

/-- Mass times acceleration. -/
def force : Dimension where entries := [(L, 1), (M, 1), (T, -2)]

/-- Force over area. -/
def pressure : Dimension where entries := [(L, -1), (M, 1), (T, -2)]

/-- Force times length. -/
def energy : Dimension where entries := [(L, 2), (M, 1), (T, -2)]

/-- Energy over time. -/
def power : Dimension where entries := [(L, 2), (M, 1), (T, -3)]

/-! ### Electricity and magnetism -/

/-- Current over area. -/
def currentDensity : Dimension where entries := [(I, 1), (L, -2)]

/-- Current over length. -/
def magneticFieldStrength : Dimension where entries := [(I, 1), (L, -1)]

/-- Current times time. -/
def electricCharge : Dimension where entries := [(I, 1), (T, 1)]

/-- Power over current. -/
def electricPotential : Dimension where entries := [(I, -1), (L, 2), (M, 1), (T, -3)]

/-- Charge over potential. -/
def capacitance : Dimension where entries := [(I, 2), (L, -2), (M, -1), (T, 4)]

/-- Potential over current. -/
def electricResistance : Dimension where entries := [(I, -2), (L, 2), (M, 1), (T, -3)]

/-- Current over potential. -/
def electricConductance : Dimension where entries := [(I, 2), (L, -2), (M, -1), (T, 3)]

/-- Potential times time. -/
def magneticFlux : Dimension where entries := [(I, -1), (L, 2), (M, 1), (T, -2)]

/-- Magnetic flux over area. -/
def magneticFluxDensity : Dimension where entries := [(I, -1), (M, 1), (T, -2)]

/-- Magnetic flux over current. -/
def inductance : Dimension where entries := [(I, -2), (L, 2), (M, 1), (T, -2)]

/-! ### Light, radiation and chemistry -/

/-- Luminous intensity over area. -/
def luminance : Dimension where entries := [(J, 1), (L, -2)]

/-- Luminous intensity times solid angle. -/
def luminousFlux : Dimension := luminousIntensity

/-- Luminous flux over area. -/
def illuminance : Dimension where entries := [(J, 1), (L, -2)]

/-- Decays over time. -/
def radioactivity : Dimension := frequency

/-- Energy over mass. -/
def absorbedDose : Dimension where entries := [(L, 2), (T, -2)]

/-- Energy over mass. -/
def doseEquivalent : Dimension := absorbedDose

/-- Amount of substance over time. -/
def catalyticActivity : Dimension where entries := [(N, 1), (T, -1)]

end Metrology.SI.Kind
