import Metrology.Proofs.Fallible
import Metrology.Quantity.Formula
import Metrology.SI.Kinds

/-!
# The dimension of a formula does not depend on magnitudes

An operation on quantities acts on their dimensions alone (`UnaryOperation.map_dimension_apply`,
`BinaryOperation.map_dimension_apply`), so evaluating a formula succeeds, and fails, as finding its
dimension does (`Formula.map_dimension_evaluate`). When that is, and what is found, is said by rules
on exact integers: `Formula.exponent` gives every formula its exponents, in range or not, and a
dimension is found exactly when each part of the formula obeys the rule of its operation and has
exponents in range (`Formula.dimension_eq_ok_iff`).
-/

set_option autoImplicit false
set_option relaxedAutoImplicit false

namespace Metrology

open Fallible

/-! ### The rules on exact exponents -/

namespace UnaryOperation

/-- The exponent of a base dimension after an operation, as an exact integer. -/
def exponent : UnaryOperation → Int → Int
  | inverted _, operand => -operand
  | power exponent, operand => exponent * operand
  | root order, operand => operand / order
  | sqrt, operand => operand / 2
  | cbrt, operand => operand / 3
  | _, operand => operand

/-- The order of a root divides the exponent of its operand, and is not zero. -/
def Allows : UnaryOperation → Int → Prop
  | root order, operand => order ≠ 0 ∧ order ∣ operand
  | sqrt, operand => 2 ∣ operand
  | cbrt, operand => 3 ∣ operand
  | _, _ => True

end UnaryOperation

namespace BinaryOperation

/-- The exponent of a base dimension after an operation, as an exact integer. -/
def exponent : BinaryOperation → Int → Int → Int
  | add, first, _ => first
  | sub, first, _ => first
  | mul, first, second => first + second
  | div, first, second => first - second

/-- The operands of a sum or difference have the same exponent. -/
def Allows : BinaryOperation → Int → Int → Prop
  | add, first, second => first = second
  | sub, first, second => first = second
  | _, _, _ => True

end BinaryOperation

namespace Formula

/-- The exponents of a formula as exact integers. -/
def exponent (dimensions : Text → Dimension) : Formula → Text → Int
  | named name, identifier => (dimensions name).exponent identifier
  | unary operation operand, identifier =>
    operation.exponent (operand.exponent dimensions identifier)
  | binary operation _ first second, identifier =>
    operation.exponent (first.exponent dimensions identifier)
      (second.exponent dimensions identifier)

/-- The exponents of the operands are such as the operation of a formula asks for. -/
def ObeysRule (dimensions : Text → Dimension) : Formula → Prop
  | named _ => True
  | unary operation operand =>
    ∀ identifier, operation.Allows (operand.exponent dimensions identifier)
  | binary operation _ first second =>
    ∀ identifier, operation.Allows (first.exponent dimensions identifier)
      (second.exponent dimensions identifier)

/-- The exponents of a formula are in the range of exponents. -/
def InRange (dimensions : Text → Dimension) (formula : Formula) : Prop :=
  ∀ identifier, InExponentRange (formula.exponent dimensions identifier)

/-- A formula with all its parts, and their parts. -/
def nodes : Formula → List Formula
  | named name => [named name]
  | unary operation operand => unary operation operand :: operand.nodes
  | binary operation order first second =>
    binary operation order first second :: (first.nodes ++ second.nodes)

end Formula

/-! ### Results of two operands -/

namespace OperandOrder

variable {ε α β γ δ : Type}

theorem bind_eq_ok_iff {order : OperandOrder} {first second : Except ε α}
    {operation : α → α → Except ε β} {value : β} :
    order.bind first second operation = .ok value ↔
      ∃ left right, first = .ok left ∧ second = .ok right ∧ operation left right = .ok value := by
  cases order with
  | leftFirst =>
    simp only [OperandOrder.bind, Fallible.bind_eq_ok_iff]
    exact ⟨fun ⟨left, hfirst, right, hsecond, hvalue⟩ ↦ ⟨left, right, hfirst, hsecond, hvalue⟩,
      fun ⟨left, right, hfirst, hsecond, hvalue⟩ ↦ ⟨left, hfirst, right, hsecond, hvalue⟩⟩
  | rightFirst =>
    simp only [OperandOrder.bind, Fallible.bind_eq_ok_iff]
    exact ⟨fun ⟨right, hsecond, left, hfirst, hvalue⟩ ↦ ⟨left, right, hfirst, hsecond, hvalue⟩,
      fun ⟨left, right, hfirst, hsecond, hvalue⟩ ↦ ⟨right, hsecond, left, hfirst, hvalue⟩⟩

/-- A part of the result is found from that part of the operands when each operation on two values
does so. -/
theorem map_bind {order : OperandOrder} {first second : Except ε α}
    {operation : α → α → Except ε β} {part : α → γ} {result : β → δ}
    {reduced : γ → γ → Except ε δ}
    (hoperation : ∀ left right,
      (operation left right).map result = reduced (part left) (part right)) :
    (order.bind first second operation).map result =
      order.bind (first.map part) (second.map part) reduced := by
  cases order with
  | leftFirst =>
    cases first with
    | error error => rfl
    | ok left =>
      cases second with
      | error error => rfl
      | ok right => exact hoperation left right
  | rightFirst =>
    cases second with
    | error error => rfl
    | ok right =>
      cases first with
      | error error => rfl
      | ok left => exact hoperation left right

end OperandOrder

/-! ### Operations act on dimensions alone -/

theorem Quantity.map_dimension_withDimension (magnitude : Float)
    (dimension : Except DimensionError Dimension) :
    (Quantity.withDimension magnitude dimension).map Quantity.dimension = dimension := by
  cases dimension <;> rfl

theorem Quantity.map_dimension_compare (comparison : Comparison)
    (operation : Float → Float → Float) (first second : Quantity) :
    (Quantity.compare comparison (fun a b ↦ Quantity.mk (operation a b) first.dimension) first
        second).map Quantity.dimension =
      BinaryOperation.common comparison first.dimension second.dimension := by
  unfold Quantity.compare BinaryOperation.common
  split <;> rfl

theorem UnaryOperation.map_dimension_apply (operation : UnaryOperation) (number : Text → Float)
    (operand : Quantity) :
    (operation.apply number operand).map Quantity.dimension =
      operation.dimension operand.dimension := by
  cases operation with
  | neg | abs | scale | times | dividedBy => rfl
  | inverted | power | root | sqrt | cbrt => exact Quantity.map_dimension_withDimension _ _

theorem BinaryOperation.map_dimension_apply (operation : BinaryOperation)
    (first second : Quantity) :
    (operation.apply first second).map Quantity.dimension =
      operation.dimension first.dimension second.dimension := by
  cases operation with
  | add => exact Quantity.map_dimension_compare _ _ first second
  | sub => exact Quantity.map_dimension_compare _ _ first second
  | mul => exact Quantity.map_dimension_withDimension _ _
  | div => exact Quantity.map_dimension_withDimension _ _

/-- The dimension of the value of a formula is found without its magnitude, and so is the error when
there is no value. -/
theorem Formula.map_dimension_evaluate (formula : Formula) (assignment : Assignment) :
    (formula.evaluate assignment).map Quantity.dimension =
      formula.dimension assignment.dimension := by
  induction formula with
  | named name => rfl
  | unary operation operand ih =>
    rw [evaluate, dimension, ← ih]
    cases operand.evaluate assignment with
    | error error => rfl
    | ok value => exact operation.map_dimension_apply assignment.number value
  | binary operation order first second ihFirst ihSecond =>
    rw [evaluate, dimension, ← ihFirst, ← ihSecond]
    exact OperandOrder.map_bind operation.map_dimension_apply

/-! ### Dimensions are found by the rules on exact exponents -/

/-- Exponents that an operation makes of those of a dimension are a dimension when they are in
range. -/
theorem Dimension.exists_exponent_eq (identifiers : List Text) {exponent : Text → Int}
    (habsent : ∀ identifier, identifier ∉ identifiers → exponent identifier = 0)
    (hrange : ∀ identifier, InExponentRange (exponent identifier)) :
    ∃ dimension : Dimension, ∀ identifier, dimension.exponent identifier = exponent identifier := by
  obtain ⟨dimension, hdimension⟩ := (exists_ofExponents_eq_ok_iff habsent).mpr hrange
  exact ⟨dimension, (ofExponents_eq_ok_iff_of_absent habsent).mp hdimension⟩

namespace UnaryOperation

/-- The root of an order has the exponents of its operand, exactly divided by the order. -/
theorem root_eq_ok_iff {operand result : Dimension} {order : Int} :
    operand.root order = .ok result ↔
      (∀ identifier, order ≠ 0 ∧ order ∣ operand.exponent identifier) ∧
        ∀ identifier, result.exponent identifier = operand.exponent identifier / order := by
  rw [Dimension.root_eq_ok_iff]
  constructor
  · rintro ⟨hzero, hexponent⟩
    refine ⟨fun identifier ↦ ⟨hzero, ?_⟩, fun identifier ↦ ?_⟩
    · rw [hexponent]
      exact Int.dvd_mul_right _ _
    · rw [hexponent, Int.mul_ediv_cancel_left _ hzero]
  · rintro ⟨hdivides, hexponent⟩
    refine ⟨(hdivides []).1, fun identifier ↦ ?_⟩
    rw [hexponent, Int.mul_ediv_cancel' (hdivides identifier).2]

theorem dimension_eq_ok_iff {operation : UnaryOperation} {operand result : Dimension} :
    operation.dimension operand = .ok result ↔
      (∀ identifier, operation.Allows (operand.exponent identifier)) ∧
        ∀ identifier,
          result.exponent identifier = operation.exponent (operand.exponent identifier) := by
  have hsame : (Except.ok operand : Except DimensionError Dimension) = .ok result ↔
      (∀ _ : Text, True) ∧
        ∀ identifier, result.exponent identifier = operand.exponent identifier := by
    rw [Except.ok.injEq]
    constructor
    · rintro rfl
      exact ⟨fun _ ↦ trivial, fun _ ↦ rfl⟩
    · rintro ⟨_, hexponent⟩
      exact (Dimension.ext_exponent hexponent).symm
  cases operation with
  | neg | abs | scale | times | dividedBy => exact hsame
  | inverted name =>
    simpa [dimension, Allows, exponent] using @Dimension.power_eq_ok_iff operand result (-1)
  | power order =>
    simpa [dimension, Allows, exponent] using @Dimension.power_eq_ok_iff operand result order
  | root order => exact root_eq_ok_iff
  | sqrt => simpa [dimension, Allows, exponent] using @root_eq_ok_iff operand result 2
  | cbrt => simpa [dimension, Allows, exponent] using @root_eq_ok_iff operand result 3

theorem exponent_zero (operation : UnaryOperation) : operation.exponent 0 = 0 := by
  cases operation <;> simp [exponent]

/-- An operation whose rule is obeyed succeeds when the exact exponents are in range. -/
theorem exists_dimension {operation : UnaryOperation} {operand : Dimension}
    (hrule : ∀ identifier, operation.Allows (operand.exponent identifier))
    (hrange : ∀ identifier,
      InExponentRange (operation.exponent (operand.exponent identifier))) :
    ∃ result, operation.dimension operand = .ok result := by
  have habsent : ∀ identifier, identifier ∉ operand.identifiers →
      operation.exponent (operand.exponent identifier) = 0 := by
    intro identifier hnot
    rw [Dimension.exponent_eq_zero_of_not_mem hnot, exponent_zero]
  obtain ⟨result, hresult⟩ := Dimension.exists_exponent_eq operand.identifiers habsent hrange
  exact ⟨result, dimension_eq_ok_iff.mpr ⟨hrule, hresult⟩⟩

end UnaryOperation

namespace BinaryOperation

theorem common_eq_ok_iff {comparison : Comparison} {first second result : Dimension} :
    common comparison first second = .ok result ↔
      (∀ identifier, first.exponent identifier = second.exponent identifier) ∧
        ∀ identifier, result.exponent identifier = first.exponent identifier := by
  unfold common
  split
  · next heq =>
    rw [Except.ok.injEq]
    constructor
    · rintro rfl
      exact ⟨fun _ ↦ by rw [heq], fun _ ↦ rfl⟩
    · rintro ⟨_, hexponent⟩
      exact (Dimension.ext_exponent hexponent).symm
  · next hne =>
    constructor
    · intro h
      cases h
    · rintro ⟨hexponent, _⟩
      exact absurd (Dimension.ext_exponent hexponent) hne

theorem dimension_eq_ok_iff {operation : BinaryOperation} {first second result : Dimension} :
    operation.dimension first second = .ok result ↔
      (∀ identifier,
          operation.Allows (first.exponent identifier) (second.exponent identifier)) ∧
        ∀ identifier, result.exponent identifier =
          operation.exponent (first.exponent identifier) (second.exponent identifier) := by
  cases operation with
  | add => exact common_eq_ok_iff
  | sub => exact common_eq_ok_iff
  | mul =>
    simpa [dimension, Dimension.product, Allows, exponent] using
      @Dimension.combine_eq_ok_iff first second result 1
  | div =>
    simpa [dimension, Dimension.quotient, Allows, exponent, ← Int.sub_eq_add_neg] using
      @Dimension.combine_eq_ok_iff first second result (-1)

theorem exponent_zero (operation : BinaryOperation) : operation.exponent 0 0 = 0 := by
  cases operation <;> rfl

/-- An operation whose rule is obeyed succeeds when the exact exponents are in range. -/
theorem exists_dimension {operation : BinaryOperation} {first second : Dimension}
    (hrule : ∀ identifier,
      operation.Allows (first.exponent identifier) (second.exponent identifier))
    (hrange : ∀ identifier, InExponentRange
      (operation.exponent (first.exponent identifier) (second.exponent identifier))) :
    ∃ result, operation.dimension first second = .ok result := by
  have habsent : ∀ identifier, identifier ∉ first.identifiers ++ second.identifiers →
      operation.exponent (first.exponent identifier) (second.exponent identifier) = 0 := by
    intro identifier hnot
    rw [List.mem_append, not_or] at hnot
    rw [Dimension.exponent_eq_zero_of_not_mem hnot.1, Dimension.exponent_eq_zero_of_not_mem hnot.2,
      exponent_zero]
  obtain ⟨result, hresult⟩ := Dimension.exists_exponent_eq _ habsent hrange
  exact ⟨result, dimension_eq_ok_iff.mpr ⟨hrule, hresult⟩⟩

end BinaryOperation

namespace Formula

variable {dimensions : Text → Dimension} {formula : Formula}

theorem mem_nodes_self (formula : Formula) : formula ∈ formula.nodes := by
  cases formula <;> simp [nodes]

theorem inRange_of_exponent_eq {result : Dimension}
    (hexponent : ∀ identifier,
      result.exponent identifier = formula.exponent dimensions identifier) :
    formula.InRange dimensions := by
  intro identifier
  rw [← hexponent]
  exact result.inExponentRange_exponent identifier

/-- Where a dimension is found, every part obeys its rule with exponents in range, and the exponents
found are the exact ones. -/
theorem sound_of_dimension {result : Dimension}
    (hresult : formula.dimension dimensions = .ok result) :
    (∀ node ∈ formula.nodes, node.ObeysRule dimensions ∧ node.InRange dimensions) ∧
      ∀ identifier, result.exponent identifier = formula.exponent dimensions identifier := by
  induction formula generalizing result with
  | named name =>
    rw [dimension, Except.ok.injEq] at hresult
    subst hresult
    refine ⟨fun node hnode ↦ ?_, fun identifier ↦ rfl⟩
    rw [List.mem_singleton.mp hnode]
    exact ⟨trivial, inRange_of_exponent_eq fun identifier ↦ rfl⟩
  | unary operation operand ih =>
    obtain ⟨value, hoperand, hvalue⟩ := bind_eq_ok_iff.mp hresult
    obtain ⟨hnodes, hexponent⟩ := ih hoperand
    obtain ⟨hrule, hresultExponent⟩ := UnaryOperation.dimension_eq_ok_iff.mp hvalue
    simp only [hexponent] at hrule hresultExponent
    refine ⟨fun node hnode ↦ ?_, hresultExponent⟩
    rcases List.mem_cons.mp hnode with rfl | hmem
    · exact ⟨hrule, inRange_of_exponent_eq hresultExponent⟩
    · exact hnodes node hmem
  | binary operation order first second ihFirst ihSecond =>
    obtain ⟨left, right, hfirst, hsecond, hvalue⟩ := OperandOrder.bind_eq_ok_iff.mp hresult
    obtain ⟨hfirstNodes, hleft⟩ := ihFirst hfirst
    obtain ⟨hsecondNodes, hright⟩ := ihSecond hsecond
    obtain ⟨hrule, hresultExponent⟩ := BinaryOperation.dimension_eq_ok_iff.mp hvalue
    simp only [hleft, hright] at hrule hresultExponent
    refine ⟨fun node hnode ↦ ?_, hresultExponent⟩
    rcases List.mem_cons.mp hnode with rfl | hmem
    · exact ⟨hrule, inRange_of_exponent_eq hresultExponent⟩
    · rcases List.mem_append.mp hmem with hmem | hmem
      · exact hfirstNodes node hmem
      · exact hsecondNodes node hmem

/-- Where every part obeys its rule with exponents in range, a dimension is found. -/
theorem exists_dimension
    (hnodes : ∀ node ∈ formula.nodes, node.ObeysRule dimensions ∧ node.InRange dimensions) :
    ∃ result, formula.dimension dimensions = .ok result := by
  obtain ⟨hrule, hrange⟩ := hnodes formula formula.mem_nodes_self
  induction formula with
  | named name => exact ⟨_, rfl⟩
  | unary operation operand ih =>
    have hoperand : ∀ node ∈ operand.nodes, node.ObeysRule dimensions ∧ node.InRange dimensions :=
      fun node hnode ↦ hnodes node (List.mem_cons_of_mem _ hnode)
    obtain ⟨hoperandRule, hoperandRange⟩ := hoperand operand operand.mem_nodes_self
    obtain ⟨value, hvalue⟩ := ih hoperand hoperandRule hoperandRange
    have hexponent := (sound_of_dimension hvalue).2
    obtain ⟨result, hresult⟩ := @UnaryOperation.exists_dimension operation value
      (fun identifier ↦ by rw [hexponent]; exact hrule identifier)
      (fun identifier ↦ by rw [hexponent]; exact hrange identifier)
    exact ⟨result, bind_eq_ok_iff.mpr ⟨value, hvalue, hresult⟩⟩
  | binary operation order first second ihFirst ihSecond =>
    have hfirst : ∀ node ∈ first.nodes, node.ObeysRule dimensions ∧ node.InRange dimensions :=
      fun node hnode ↦ hnodes node (List.mem_cons_of_mem _ (List.mem_append_left _ hnode))
    have hsecond : ∀ node ∈ second.nodes, node.ObeysRule dimensions ∧ node.InRange dimensions :=
      fun node hnode ↦ hnodes node (List.mem_cons_of_mem _ (List.mem_append_right _ hnode))
    obtain ⟨hfirstRule, hfirstRange⟩ := hfirst first first.mem_nodes_self
    obtain ⟨hsecondRule, hsecondRange⟩ := hsecond second second.mem_nodes_self
    obtain ⟨left, hleft⟩ := ihFirst hfirst hfirstRule hfirstRange
    obtain ⟨right, hright⟩ := ihSecond hsecond hsecondRule hsecondRange
    have hleftExponent := (sound_of_dimension hleft).2
    have hrightExponent := (sound_of_dimension hright).2
    obtain ⟨result, hresult⟩ := @BinaryOperation.exists_dimension operation left right
      (fun identifier ↦ by rw [hleftExponent, hrightExponent]; exact hrule identifier)
      (fun identifier ↦ by rw [hleftExponent, hrightExponent]; exact hrange identifier)
    exact ⟨result, OperandOrder.bind_eq_ok_iff.mpr ⟨left, right, hleft, hright, hresult⟩⟩

/-- Finding a dimension fails exactly where some part breaks its rule or leaves the range. -/
theorem exists_dimension_eq_error_iff :
    (∃ error, formula.dimension dimensions = .error error) ↔
      ∃ node ∈ formula.nodes, ¬ node.ObeysRule dimensions ∨ ¬ node.InRange dimensions := by
  constructor
  · rintro ⟨error, herror⟩
    refine Classical.byContradiction fun hnone ↦ ?_
    have hnodes : ∀ node ∈ formula.nodes,
        node.ObeysRule dimensions ∧ node.InRange dimensions := by
      intro node hnode
      refine Classical.byContradiction fun hbroken ↦ hnone ⟨node, hnode, ?_⟩
      exact Classical.not_and_iff_not_or_not.mp hbroken
    obtain ⟨result, hresult⟩ := exists_dimension hnodes
    rw [hresult] at herror
    cases herror
  · rintro ⟨node, hnode, hbroken⟩
    cases hdimension : formula.dimension dimensions with
    | error error => exact ⟨error, rfl⟩
    | ok result =>
      obtain ⟨hrule, hrange⟩ := (sound_of_dimension hdimension).1 node hnode
      exact hbroken.elim (absurd hrule) (absurd hrange)

theorem evaluate_eq_error_iff {assignment : Assignment} {error : DimensionError} :
    formula.evaluate assignment = .error error ↔
      formula.dimension assignment.dimension = .error error := by
  rw [← map_dimension_evaluate, map_eq_error_iff]

/-- Two results with the same dimension in place of the value are values of one dimension or the
same error. -/
theorem agree_of_map_eq {first second : Except DimensionError Quantity}
    (hsame : first.map Quantity.dimension = second.map Quantity.dimension) :
    (∃ left right, first = .ok left ∧ second = .ok right ∧ left.dimension = right.dimension) ∨
      ∃ error, first = .error error ∧ second = .error error := by
  cases first with
  | ok left =>
    obtain ⟨right, rfl, hright⟩ := map_eq_ok_iff.mp hsame.symm
    exact .inl ⟨left, right, rfl, rfl, hright.symm⟩
  | error error => exact .inr ⟨error, rfl, map_eq_error_iff.mp hsame.symm⟩

/-- For every formula and any two assignments that give each named quantity the same dimension, and
any magnitudes and numbers. Both evaluations succeed, with values of the same dimension, or both
fail with the same error, and so with the same message and dimensions. The exponents of a value are
those of the rules on exact integers. Evaluation fails exactly where some part of the formula breaks
the rule of its operation or has an exponent out of range. -/
theorem evaluate_spec (formula : Formula) (first second : Assignment)
    (hsame : ∀ name, (first.quantity name).dimension = (second.quantity name).dimension) :
    ((∃ left right, formula.evaluate first = .ok left ∧ formula.evaluate second = .ok right ∧
          left.dimension = right.dimension) ∨
        ∃ error, formula.evaluate first = .error error ∧
          formula.evaluate second = .error error) ∧
      (∀ result, formula.evaluate first = .ok result → ∀ identifier,
        result.dimension.exponent identifier = formula.exponent first.dimension identifier) ∧
      ((∃ error, formula.evaluate first = .error error) ↔
        ∃ node ∈ formula.nodes,
          ¬ node.ObeysRule first.dimension ∨ ¬ node.InRange first.dimension) := by
  refine ⟨agree_of_map_eq ?_, fun result hresult ↦ ?_, ?_⟩
  · have hdimensions : first.dimension = second.dimension := funext hsame
    rw [map_dimension_evaluate, map_dimension_evaluate, hdimensions]
  · have hdimension := map_dimension_evaluate formula first
    rw [hresult] at hdimension
    exact (sound_of_dimension hdimension.symm).2
  · simp only [evaluate_eq_error_iff]
    exact exists_dimension_eq_error_iff

/-- The longest side of a right triangle with sides `a` and `b`. -/
def hypotenuse : Formula :=
  .unary .sqrt (.binary .add .leftFirst (.unary (.power 2) (.named (utf8 "a")))
    (.unary (.power 2) (.named (utf8 "b"))))

/-- Every named quantity is a length, and there are two of them. -/
def sides (a b : Float) : Assignment where
  quantity name := ⟨if name = utf8 "a" then a else b, SI.Kind.length⟩
  number _ := 1.0

theorem evaluate_spec_hypotenuse :
    (∀ name, ((sides 3.0 4.0).quantity name).dimension =
        ((sides 5.0 12.0).quantity name).dimension) ∧
      ∃ left right, hypotenuse.evaluate (sides 3.0 4.0) = .ok left ∧
        hypotenuse.evaluate (sides 5.0 12.0) = .ok right ∧ left.dimension = right.dimension := by
  have hsame : ∀ name, ((sides 3.0 4.0).quantity name).dimension =
      ((sides 5.0 12.0).quantity name).dimension := fun _ ↦ rfl
  have hdimension : hypotenuse.dimension (sides 3.0 4.0).dimension = .ok SI.Kind.length :=
    rfl
  refine ⟨hsame, (evaluate_spec hypotenuse _ _ hsame).1.resolve_right ?_⟩
  rintro ⟨error, herror, _⟩
  rw [evaluate_eq_error_iff, hdimension] at herror
  cases herror

end Formula

end Metrology
