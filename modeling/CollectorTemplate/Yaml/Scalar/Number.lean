/-
How YAML writes numbers.

* `Scalar.number` : the decisions on floating-point numbers.
-/
import CollectorTemplate.Decimal.Format

namespace CollectorTemplate.Yaml.Scalar

/-- Numbers are written with all their places between 10⁻⁵ and 10¹⁶, and otherwise with an exponent
that has no sign unless it is negative. -/
def number : NumberFormat where
  plainFrom := -5
  plainBelow := 16
  exponentPlus := false
  nan := ".nan"
  infinity := ".inf"
  negativeInfinity := "-.inf"

end CollectorTemplate.Yaml.Scalar
