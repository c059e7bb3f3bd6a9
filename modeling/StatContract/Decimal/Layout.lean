import StatContract.Decimal.Shortest

/-!
# Writing a double

Every number text of the program shows the shortest decimal of a double. What
differs between them is only the layout: which of two equally near decimals is
shown, up to which size the number is written without an exponent, whether a
whole number keeps a decimal point, and how the values that are no numbers are
spelled. A `Layout` collects these decisions.
-/

namespace StatContract

/-- The decisions that turn a shortest decimal into text. -/
structure Layout where
  /-- Which of two equally near decimals is shown. -/
  tie : Tie
  /-- Whether to write without an exponent, given the number of digits before
  the decimal point. -/
  positional : Int → Bool
  /-- What follows the digits of a whole number. -/
  wholeMark : String
  nan : String
  infinity : String
  negativeInfinity : String

namespace Layout

/-- Messages and generated code: never an exponent, no mark on whole
numbers. -/
def plain : Layout where
  tie := .up
  positional _ := true
  wholeMark := ""
  nan := "NaN"
  infinity := "inf"
  negativeInfinity := "-inf"

/-- Settings in a message about their shape: as `plain`, but a whole number
shows that it is no integer. -/
def pointed : Layout := { plain with wholeMark := ".0" }

/-- JSON numbers: an exponent below `10 ^ -5` and from `10 ^ 16` on. What is
no number is written `null`. -/
def json : Layout where
  tie := .toEven
  positional k := -5 < k && k ≤ 16
  wholeMark := ".0"
  nan := "null"
  infinity := "null"
  negativeInfinity := "null"

/-- A row of zeros. -/
def zeros (n : Nat) : String := String.ofList (List.replicate n '0')

/-- The text of a positive decimal. An exponent always shows its sign. -/
def magnitude (l : Layout) (d : Decimal) : String :=
  let ds := Nat.toDigits 10 d.digits
  let k : Int := ds.length + d.exponent
  if l.positional k then
    if 0 ≤ d.exponent then
      String.ofList ds ++ zeros d.exponent.toNat ++ l.wholeMark
    else if 0 < k then
      String.ofList (ds.take k.toNat) ++ "." ++ String.ofList (ds.drop k.toNat)
    else "0." ++ zeros (-k).toNat ++ String.ofList ds
  else
    let fraction := if ds.length = 1 then "" else "." ++ String.ofList (ds.drop 1)
    let power := k - 1
    String.ofList (ds.take 1) ++ fraction ++ "e" ++ (if power < 0 then "-" else "+")
      ++ String.ofList (Nat.toDigits 10 power.natAbs)

/-- The text of a double. -/
def write (l : Layout) (x : Float) : String :=
  let bits := x.toBits
  let negative := bits.toNat ≥ UInt64.size / 2
  if x.isNaN then l.nan
  else if x.isInf then if negative then l.negativeInfinity else l.infinity
  else
    let text :=
      if bits.toNat % (UInt64.size / 2) = 0 then "0" ++ l.wholeMark
      else l.magnitude ((Binary.ofBits bits).shortest l.tie)
    if negative then "-" ++ text else text

end Layout

end StatContract
