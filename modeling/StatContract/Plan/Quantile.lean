/-!
# Quantiles of the normal distribution

The inverse of the standard normal distribution function, as a rational
function on each of three regions: the middle, and two stretches of the tails
in the variable `√(-ln r)`, where `r` is the distance to the nearer end. The
relative error is of the order of the rounding of doubles.
-/

namespace StatContract.Plan

/-- The value of a polynomial, coefficients from the constant term on. -/
def polynomial (coefficients : List Float) (x : Float) : Float :=
  coefficients.foldr (fun c sum => c + x * sum) 0.0

/-- The quotient of two polynomials. -/
def ratio (numerator denominator : List Float) (x : Float) : Float :=
  polynomial numerator x / polynomial denominator x

/-- The quantile at `1/2 + q`, divided by `q`, as a function of
`0.425² - q²`. -/
def middle : Float → Float := ratio
  [3.3871328727963666080e0, 1.3314166789178437745e+2, 1.9715909503065514427e+3,
   1.3731693765509461125e+4, 4.5921953931549871457e+4, 6.7265770927008700853e+4,
   3.3430575583588128105e+4, 2.5090809287301226727e+3]
  [1.0, 4.2313330701600911252e+1, 6.8718700749205790830e+2, 5.3941960214247511077e+3,
   2.1213794301586595867e+4, 3.9307895800092710610e+4, 2.8729085735721942674e+4,
   5.2264952788528545610e+3]

/-- The distance of a quantile in the near tail from zero, as a function of
`√(-ln r) - 1.6`. -/
def nearTail : Float → Float := ratio
  [1.42343711074968357734e0, 4.63033784615654529590e0, 5.76949722146069140550e0,
   3.64784832476320460504e0, 1.27045825245236838258e0, 2.41780725177450611770e-1,
   2.27238449892691845833e-2, 7.74545014278341407640e-4]
  [1.0, 2.05319162663775882187e0, 1.67638483018380384940e0, 6.89767334985100004550e-1,
   1.48103976427480074590e-1, 1.51986665636164571966e-2, 5.47593808499534494600e-4,
   1.05075007164441684324e-9]

/-- The distance of a quantile in the far tail from zero, as a function of
`√(-ln r) - 5`. -/
def farTail : Float → Float := ratio
  [6.65790464350110377720e0, 5.46378491116411436990e0, 1.78482653991729133580e0,
   2.96560571828504891230e-1, 2.65321895265761230930e-2, 1.24266094738807843860e-3,
   2.71155556874348757815e-5, 2.01033439929228813265e-7]
  [1.0, 5.99832206555887937690e-1, 1.36929880922735805310e-1, 1.48753612908506148525e-2,
   7.86869131145613259100e-4, 1.84631831751005468180e-5, 1.42151175831644588870e-7,
   2.04426310338993978564e-15]

/-- The standard normal quantile at a probability. -/
def quantile (p : Float) : Float :=
  let q := p - 0.5
  if q.abs ≤ 0.425 then q * middle (0.180625 - q * q)
  else
    let r := if q < 0.0 then p else 1.0 - p
    let s := (-r.log).sqrt
    let distance :=
      if s.isInf then s
      else if s ≤ 5.0 then nearTail (s - 1.6)
      else farTail (s - 5.0)
    if q < 0.0 then -distance else distance

end StatContract.Plan
