import StatContract.Decimal.Reader
import StatContract.Json.Basic

/-!
# JSON number literals

A literal without fraction and exponent is an integer when it fits into 64
bits. Every other literal is a double, formed as a 64-bit significand scaled
by one power of ten: digits that no longer fit into the significand only count
towards the exponent. The result is exact for literals of up to fifteen
digits and of moderate size, which is what the format promises.
-/

namespace StatContract.Json

/-- The parts of a number literal. -/
structure Literal where
  negative : Bool
  whole : List Char
  /-- The digits after the point, if there is one. -/
  fraction : Option (List Char)
  /-- The sign (true for minus) and the digits of the exponent, if any. -/
  exponent : Option (Bool × List Char)

namespace Literal

/-- The fraction of a literal and what follows it. -/
def readFraction? : List Char → Option (Option (List Char) × List Char)
  | '.' :: cs =>
    let (ds, rest) := Decimal.spanDigits cs
    if ds.isEmpty then none else some (some ds, rest)
  | cs => some (none, cs)

/-- The exponent of a literal and what follows it. -/
def readExponent? : List Char → Option (Option (Bool × List Char) × List Char)
  | [] => some (none, [])
  | c :: cs =>
    if c = 'e' || c = 'E' then
      let (negative, cs) := Decimal.splitSign cs
      let (ds, rest) := Decimal.spanDigits cs
      if ds.isEmpty then none else some (some (negative, ds), rest)
    else some (none, c :: cs)

/-- The literal that a text starts with, as long as it can be, and what follows
it. A leading zero stands alone, and a point or an exponent mark is followed by
digits. -/
def read? (cs : List Char) : Option (Literal × List Char) := do
  let (negative, cs) := match cs with
    | '-' :: cs => (true, cs)
    | cs => (false, cs)
  let (whole, rest) := Decimal.spanDigits cs
  guard (!whole.isEmpty && (whole.length = 1 || whole.head? != some '0'))
  let (fraction, rest) ← readFraction? rest
  let (exponent, rest) ← readExponent? rest
  pure (⟨negative, whole, fraction, exponent⟩, rest)

/-- Appends digits to a significand for as long as it stays below `2 ^ 64`.
Gives the significand, the number of digits used and the digits left. -/
def absorb (significand : Nat) : List Char → Nat × Nat × List Char
  | [] => (significand, 0, [])
  | c :: cs =>
    let next := 10 * significand + (c.toNat - '0'.toNat)
    if next < UInt64.size then
      let (s, used, rest) := absorb next cs
      (s, used + 1, rest)
    else (significand, 0, c :: cs)

/-- The power `10 ^ k` as a double, for `k` up to 308. -/
def powerOfTen (k : Nat) : Float := Float.ofScientific 1 false k

/-- The significand times `10 ^ e` in double arithmetic, unless it
overflows. -/
def scale? (significand : Nat) (e : Int) : Option Float :=
  let x := Float.ofScientific significand false 0
  if 0 ≤ e then
    if significand = 0 then some 0.0
    else if e > 308 then none
    else
      let y := x * powerOfTen e.toNat
      if y.isInf then none else some y
  else
    let k := e.natAbs
    if k ≤ 308 then some (x / powerOfTen k)
    else if k ≤ 616 then some (x / powerOfTen 308 / powerOfTen (k - 308))
    else some 0.0

/-- The double that a literal stands for, unless it is too large. -/
def float? (l : Literal) : Option Float :=
  let (significand, _, overflow) := absorb 0 l.whole
  let (significand, used, _) := absorb significand (l.fraction.getD [])
  let start : Int := (overflow.length : Int) - used
  let magnitude := match l.exponent with
    | none => scale? significand start
    | some (negative, ds) =>
      let e := Decimal.digitsValue ds
      if e ≥ UInt32.size / 2 then
        if significand ≠ 0 && !negative then none else some 0.0
      else scale? significand (if negative then start - e else start + e)
  magnitude.map fun x => if l.negative then -x else x

/-- The value of a literal; a gap when it is beyond the largest double. -/
def value (l : Literal) : Json :=
  let float : Json := match l.float? with
    | some x => .number (.float x)
    | none => .gap
  if l.fraction.isSome || l.exponent.isSome then float
  else
    let n := Decimal.digitsValue l.whole
    if l.negative then
      if 0 < n && n ≤ UInt64.size / 2 then .number (.negative n) else float
    else if n < UInt64.size then .number (.nat n) else float

end Literal

end StatContract.Json
