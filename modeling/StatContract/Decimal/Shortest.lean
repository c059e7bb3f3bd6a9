/-!
# The shortest decimal of a double

A finite double is `m · 2 ^ q`. The reals that round to it form an interval
around it, closed at both ends exactly when `m` is even. `Binary.shortest`
finds the decimal with the fewest digits in that interval, and of several with
that many digits the nearest one. When the value lies halfway between two of
them, a `Tie` decides.

The search is over decimal grids: on the grid `10 ^ g` the two neighbours of
the value are tested, in exact integer arithmetic. Grids with one digit come
first, and seventeen digits always suffice for a double.
-/

namespace StatContract

/-- The number `digits · 10 ^ exponent`. -/
structure Decimal where
  digits : Nat
  exponent : Int
  deriving DecidableEq, Repr

/-- Which of two equally near decimals is taken. -/
inductive Tie where
  | up
  | toEven
  deriving DecidableEq, Repr

/-- The one of `n` and `n + 1` that a tie between them goes to. -/
def Tie.pick : Tie → Nat → Nat
  | up, n => n + 1
  | toEven, n => if n % 2 = 0 then n else n + 1

/-- A positive number `significand · 2 ^ exponent` of a binary format. The gap
to the next smaller number is half as wide when `narrowBelow` holds. -/
structure Binary where
  significand : Nat
  exponent : Int
  narrowBelow : Bool
  deriving DecidableEq, Repr

namespace Binary

/-- The magnitude of a finite double, read from its bits. -/
def ofBits (bits : UInt64) : Binary :=
  let n := bits.toNat
  let fraction : Nat := n % Nat.pow 2 52
  let biased : Nat := n / Nat.pow 2 52 % Nat.pow 2 11
  if biased = 0 then ⟨fraction, -1074, false⟩
  else ⟨Nat.pow 2 52 + fraction, (biased : Int) - 1075, fraction = 0 && biased > 1⟩

/-- The number `x · 2 ^ (b.exponent - 2)` in units of `10 ^ g`, as a numerator
over `unitDen b g`. The value itself is at `x = 4 · b.significand`. -/
def unitNum (b : Binary) (g : Int) (x : Nat) : Nat :=
  x * Nat.pow 2 (b.exponent - 2).toNat * Nat.pow 10 (-g).toNat

/-- The denominator that goes with `unitNum`. -/
def unitDen (b : Binary) (g : Int) : Nat :=
  Nat.pow 2 (2 - b.exponent).toNat * Nat.pow 10 g.toNat

/-- Whether `d · 10 ^ g` rounds to `b`. -/
def holds (b : Binary) (g : Int) (d : Nat) : Bool :=
  let low := b.unitNum g (4 * b.significand - if b.narrowBelow then 1 else 2)
  let high := b.unitNum g (4 * b.significand + 2)
  let point := d * b.unitDen g
  if b.significand % 2 = 0 then low ≤ point && point ≤ high
  else low < point && point < high

/-- The number of decimal digits before the point, negative for a value with
zeros after it. -/
def magnitude (b : Binary) : Int :=
  let scaled := b.unitNum (-400) (4 * b.significand) / b.unitDen (-400)
  ((Nat.toDigits 10 scaled).length : Int) - 400

/-- The nearer of the two neighbours of `b` on the grid `10 ^ g`, among those
that round to `b`. -/
def onGrid? (tie : Tie) (b : Binary) (g : Int) : Option Nat :=
  let value := b.unitNum g (4 * b.significand)
  let unit := b.unitDen g
  let below := value / unit
  match b.holds g below, b.holds g (below + 1) with
  | true, false => some below
  | false, true => some (below + 1)
  | true, true =>
    let middle := (2 * below + 1) * unit
    if 2 * value < middle then some below
    else if 2 * value = middle then some (tie.pick below)
    else some (below + 1)
  | false, false => none

/-- Removes the trailing zeros of a digit string. -/
def stripZeros : Nat → Nat → Int → Decimal
  | 0, d, e => ⟨d, e⟩
  | fuel + 1, d, e =>
    if d ≠ 0 && d % 10 = 0 then stripZeros fuel (d / 10) (e + 1) else ⟨d, e⟩

/-- The decimal with the fewest digits that rounds to `b`. -/
def shortest (tie : Tie) (b : Binary) : Decimal :=
  let k := b.magnitude
  let found := (List.range 17).findSome? fun i =>
    let g := k - (i + 1 : Nat)
    (b.onGrid? tie g).map fun d => stripZeros 17 d g
  found.getD ⟨b.significand, b.exponent⟩

end Binary

end StatContract
