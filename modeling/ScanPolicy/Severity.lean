/-!
# Severity

Overrides apply from a severity on. A threshold that is not positive is a marker and stands for
itself alone.

- `Severity.reaches`: whether a severity reaches a threshold.
-/

namespace ScanPolicy.Severity

/-- Whether a severity reaches a threshold: no severity reaches any, and every severity reaches a
missing threshold. -/
def reaches (value threshold : Option Float) : Bool :=
  match value, threshold with
  | none, _ => false
  | some _, none => true
  | some v, some t => if t ≤ 0 then v == t else t ≤ v

end ScanPolicy.Severity
