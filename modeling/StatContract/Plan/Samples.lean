import StatContract.Decimal.Layout
import StatContract.Plan.Quantile

/-!
# Sample sizes

How many trials a binomial test needs to tell a claimed probability `p0` from
one that is `delta` away, at significance `alpha` and power `1 - beta`.
-/

namespace StatContract.Plan

/-- Why no sample size can be given. -/
inductive PlanError where
  /-- A number outside of its interval, which may include its ends. -/
  | outOfRange (name : String) (closed : Bool) (value : Float)
  | tails (n : Nat)

def PlanError.message : PlanError → String
  | outOfRange name closed value =>
    name ++ " must lie in " ++ (if closed then "[0, 1]" else "(0, 1)") ++ ", got "
      ++ Layout.plain.write value
  | tails n => "tails must be 1 or 2, got " ++ toString n

/-- Refuses a number that is not strictly between zero and one. -/
def requireOpenUnit (name : String) (x : Float) : Except PlanError Unit :=
  if 0.0 < x && x < 1.0 then .ok () else .error (.outOfRange name false x)

/-- Refuses a number that is not between zero and one. -/
def requireUnit (name : String) (x : Float) : Except PlanError Unit :=
  if 0.0 ≤ x && x ≤ 1.0 then .ok () else .error (.outOfRange name true x)

/-- The probability that a test has to tell from `p0`: `delta` further away
from the nearer end. -/
def shifted (p0 delta : Float) : Float := if p0 > 0.5 then p0 - delta else p0 + delta

/-- The number of trials as a real number, by the normal approximation with
continuity correction. -/
def sampleSize (alpha beta delta : Float) (tails : Nat) (p0 : Float) : Float :=
  let pa := shifted p0 delta
  let zAlpha := quantile (1.0 - alpha / Float.ofNat tails)
  let zBeta := quantile (1.0 - beta)
  let spread := zAlpha * (p0 * (1.0 - p0)).sqrt + zBeta * (pa * (1.0 - pa)).sqrt
  let scaled := spread / delta
  scaled * scaled + 1.0 / delta

/-- The least number of trials. -/
def samplesRequired (alpha beta delta : Float) (tails : Nat) (p0 : Float) :
    Except PlanError UInt64 := do
  requireOpenUnit "alpha" alpha
  requireOpenUnit "beta" beta
  requireOpenUnit "delta" delta
  unless tails = 1 ∨ tails = 2 do throw (.tails tails)
  requireUnit "p0" p0
  requireUnit "p0 shifted by delta" (shifted p0 delta)
  return (sampleSize alpha beta delta tails p0).ceil.toUInt64

end StatContract.Plan
