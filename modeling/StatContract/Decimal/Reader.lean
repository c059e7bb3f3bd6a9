import StatContract.Text.Blank

/-!
# Reading numbers

Two readers of number texts: `readFloat?` for decimal fractions, rounded to
the nearest double, and `readWord?` for whole numbers of 32 bits. Both take
the whole text or nothing. Single digits can also be hexadecimal.
-/

namespace StatContract.Decimal

/-- The value of a row of decimal digits. -/
def digitsValue (ds : List Char) : Nat :=
  ds.foldl (fun n c => 10 * n + (c.toNat - '0'.toNat)) 0

/-- The value of a hexadecimal digit. -/
def hexDigit? (c : Char) : Option Nat :=
  if c.isDigit then some (c.toNat - '0'.toNat)
  else if 'a' ≤ c && c ≤ 'f' then some (c.toNat - 'a'.toNat + 10)
  else if 'A' ≤ c && c ≤ 'F' then some (c.toNat - 'A'.toNat + 10)
  else none

/-- The longest row of decimal digits at the front, and what follows it. -/
def spanDigits (cs : List Char) : List Char × List Char :=
  (cs.takeWhile Char.isDigit, cs.dropWhile Char.isDigit)

/-- The double nearest to `m · 10 ^ e`. Exponents out of every double's reach
are settled first, so no huge power is formed. -/
def nearest (m : Nat) (e : Int) : Float :=
  if m = 0 then 0.0
  else
    let size : Int := (Nat.toDigits 10 m).length + e
    if size > 400 then Float.ofBits 0x7FF0000000000000
    else if size < -400 then 0.0
    else Float.ofScientific m (e < 0) e.natAbs

/-- The sign in front of a number (true for minus), and what follows it. -/
def splitSign : List Char → Bool × List Char
  | '+' :: cs => (false, cs)
  | '-' :: cs => (true, cs)
  | cs => (false, cs)

/-- The exponent part of a number, when the text ends with it. -/
def readExponent? : List Char → Option Int
  | [] => some 0
  | c :: cs =>
    if c = 'e' || c = 'E' then
      let (negative, ds) := splitSign cs
      if ds.isEmpty || !ds.all Char.isDigit then none
      else some (if negative then -(digitsValue ds : Int) else digitsValue ds)
    else none

/-- An unsigned decimal number: digits with at most one point among or around
them, then an optional exponent. -/
def readMagnitude? (cs : List Char) : Option Float :=
  let (whole, rest) := spanDigits cs
  let (fraction, rest) := match rest with
    | '.' :: rest => spanDigits rest
    | rest => ([], rest)
  if whole.isEmpty && fraction.isEmpty then none
  else (readExponent? rest).map fun e =>
    nearest (digitsValue (whole ++ fraction)) (e - fraction.length)

/-- A double: an optional sign, then a decimal number, `inf`, `infinity` or
`nan`, the words in any case. -/
def readFloat? (cs : List Char) : Option Float :=
  let (negative, cs) := splitSign cs
  let word := String.ofList (cs.map Char.toLower)
  let magnitude :=
    if word = "inf" || word = "infinity" then some (Float.ofBits 0x7FF0000000000000)
    else if word = "nan" then some (Float.ofBits 0x7FF8000000000000)
    else readMagnitude? cs
  magnitude.map fun x => if negative then -x else x

/-- A whole number below `2 ^ 32`: an optional plus sign, then decimal
digits. -/
def readWord? (cs : List Char) : Option Nat :=
  let ds := match cs with
    | '+' :: ds => ds
    | ds => ds
  if ds.isEmpty || !ds.all Char.isDigit then none
  else if digitsValue ds < UInt32.size then some (digitsValue ds) else none

end StatContract.Decimal
