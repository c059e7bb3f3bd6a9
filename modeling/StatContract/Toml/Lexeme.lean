import StatContract.Decimal.Reader
import StatContract.Toml.Basic

/-!
# TOML lexemes

Blanks, comments, line ends, keys, strings and numbers. Each reader works at
the front of the remaining text.
-/

namespace StatContract.Toml

/-- Whether a character is a blank inside a line. -/
def isBlank (c : Char) : Bool := c = ' ' || c = '\t'

/-- Skips blanks. -/
def skipBlanks (cs : List Char) : List Char := cs.dropWhile isBlank

/-- Whether a character may stand in a comment or a string as it is: no
control character but the tab. -/
def isTextChar (c : Char) : Bool :=
  c = '\t' || (0x20 ≤ c.toNat && c.toNat ≠ 0x7F)

/-- Skips a comment, if there is one. -/
def skipComment : List Char → List Char
  | '#' :: cs => cs.dropWhile isTextChar
  | cs => cs

/-- The text after a line break. -/
def newline? : List Char → Option (List Char)
  | '\n' :: cs => some cs
  | '\r' :: '\n' :: cs => some cs
  | _ => none

/-- The text after the end of a line, which may hold a comment. The last line
needs no line break. -/
def lineEnd? (cs : List Char) : Option (List Char) :=
  match skipComment (skipBlanks cs) with
  | [] => some []
  | cs => newline? cs

/-- The character that a one-letter escape stands for. -/
def escape? : Char → Option Char
  | 'b' => some '\x08'
  | 't' => some '\t'
  | 'n' => some '\n'
  | 'f' => some '\x0c'
  | 'r' => some '\r'
  | '"' => some '"'
  | '\\' => some '\\'
  | _ => none

/-- The value of a row of digits to a base. -/
def digits? (base : Nat) (ds : List Char) : Option Nat :=
  ds.foldlM (fun n c => do
    let d ← Decimal.hexDigit? c
    if d < base then some (base * n + d) else none) 0

/-- The character with the given code in hexadecimal digits. -/
def codePoint? (ds : List Char) : Option Char := do
  let n ← digits? 16 ds
  if n.isValidChar then some (Char.ofNat n) else none

/-- Puts a character in front of what was read. -/
def push (c : Char) : Option (List Char × List Char) → Option (List Char × List Char) :=
  Option.map fun (text, rest) => (c :: text, rest)

/-- The rest of a string on one line that escapes can stand in. -/
def basicBody : Parser (List Char)
  | [] => none
  | '"' :: rest => some ([], rest)
  | '\\' :: 'u' :: a :: b :: c :: d :: rest => do
    let x ← codePoint? [a, b, c, d]
    push x (basicBody rest)
  | '\\' :: 'U' :: a :: b :: c :: d :: e :: f :: g :: h :: rest => do
    let x ← codePoint? [a, b, c, d, e, f, g, h]
    push x (basicBody rest)
  | '\\' :: c :: rest => do
    let x ← escape? c
    push x (basicBody rest)
  | c :: rest => if isTextChar c && c ≠ '\\' then push c (basicBody rest) else none

/-- Whether only blanks stand before the next line break. -/
def continues (cs : List Char) : Bool := (newline? (skipBlanks cs)).isSome

/-- The rest of a string on several lines that escapes can stand in. A
backslash at the end of a line removes the blanks and line breaks after it;
`trimming` says that this is going on. Up to two quotes may stand directly
before the closing ones. -/
def longBasicBody (trimming : Bool) : Parser (List Char)
  | [] => none
  | '"' :: '"' :: '"' :: '"' :: '"' :: rest => some (['"', '"'], rest)
  | '"' :: '"' :: '"' :: '"' :: rest => some (['"'], rest)
  | '"' :: '"' :: '"' :: rest => some ([], rest)
  | '\\' :: 'u' :: a :: b :: c :: d :: rest => do
    let x ← codePoint? [a, b, c, d]
    push x (longBasicBody false rest)
  | '\\' :: 'U' :: a :: b :: c :: d :: e :: f :: g :: h :: rest => do
    let x ← codePoint? [a, b, c, d, e, f, g, h]
    push x (longBasicBody false rest)
  | '\\' :: c :: rest =>
    match escape? c with
    | some x => push x (longBasicBody false rest)
    | none => if continues (c :: rest) then longBasicBody true rest else none
  | '\r' :: '\n' :: rest =>
    if trimming then longBasicBody true rest else push '\n' (longBasicBody false rest)
  | c :: rest =>
    if trimming && (isBlank c || c = '\n') then longBasicBody true rest
    else if c = '\n' || (isTextChar c && c ≠ '\\') then push c (longBasicBody false rest)
    else none

/-- The rest of a string on one line without escapes. -/
def literalBody : Parser (List Char)
  | [] => none
  | c :: rest =>
    if c = '\'' then some ([], rest)
    else if isTextChar c then push c (literalBody rest)
    else none

/-- The rest of a string on several lines without escapes. -/
def longLiteralBody : Parser (List Char)
  | [] => none
  | '\'' :: '\'' :: '\'' :: '\'' :: '\'' :: rest => some (['\'', '\''], rest)
  | '\'' :: '\'' :: '\'' :: '\'' :: rest => some (['\''], rest)
  | '\'' :: '\'' :: '\'' :: rest => some ([], rest)
  | '\r' :: '\n' :: rest => push '\n' (longLiteralBody rest)
  | c :: rest =>
    if c = '\n' || isTextChar c then push c (longLiteralBody rest) else none

/-- Skips the line break that may follow the opening quotes of a long
string. -/
def skipFirstBreak (cs : List Char) : List Char := (newline? cs).getD cs

/-- A string of any of the four kinds. -/
def string? (cs : List Char) : Option (String × List Char) :=
  let read := match cs with
    | '"' :: '"' :: '"' :: rest => longBasicBody false (skipFirstBreak rest)
    | '"' :: rest => basicBody rest
    | '\'' :: '\'' :: '\'' :: rest => longLiteralBody (skipFirstBreak rest)
    | '\'' :: rest => literalBody rest
    | _ => none
  read.map fun (text, rest) => (String.ofList text, rest)

/-- Whether a character can stand in a key without quotes. -/
def isKeyChar (c : Char) : Bool := c.isAlphanum || c = '_' || c = '-'

/-- One part of a key. -/
def keyPart? (cs : List Char) : Option (String × List Char) :=
  match cs with
  | '"' :: rest => (basicBody rest).map fun (text, rest) => (String.ofList text, rest)
  | '\'' :: rest => (literalBody rest).map fun (text, rest) => (String.ofList text, rest)
  | cs =>
    let part := cs.takeWhile isKeyChar
    if part.isEmpty then none else some (String.ofList part, cs.dropWhile isKeyChar)

/-- The largest number of parts of a key, and of levels of nested values. -/
def depthLimit : Nat := 80

/-- A key of at most the given number of parts, joined by points, with blanks
around each part. -/
def keyUpTo : Nat → Parser (List String)
  | 0, _ => none
  | n + 1, cs => do
    let (part, rest) ← keyPart? (skipBlanks cs)
    match skipBlanks rest with
    | '.' :: rest => do
      let (parts, rest) ← keyUpTo n rest
      some (part :: parts, rest)
    | rest => some ([part], rest)

/-- A key. -/
def key? : Parser (List String) := keyUpTo (depthLimit - 1)

/-- Removes underscores between digits; they may stand nowhere else. -/
def plainDigits? (isDigit : Char → Bool) : List Char → Option (List Char)
  | [] => none
  | [c] => if isDigit c then some [c] else none
  | c :: '_' :: rest =>
    if isDigit c then (plainDigits? isDigit rest).map (c :: ·) else none
  | c :: rest => if isDigit c then (plainDigits? isDigit rest).map (c :: ·) else none

/-- Digits in front of a number, with the underscores among them. -/
def spanDigits (cs : List Char) : List Char × List Char :=
  (cs.takeWhile fun c => c.isDigit || c = '_', cs.dropWhile fun c => c.isDigit || c = '_')

/-- The digits before the point or exponent of a number: no leading zero. -/
def wholeDigits? (cs : List Char) : Option (List Char) := do
  let ds ← plainDigits? Char.isDigit cs
  if cs.length = 1 || cs.head? ≠ some '0' then some ds else none

/-- The exponent of a float, which ends it; zero if there is none. -/
def floatExponent? : List Char → Option Int
  | [] => some 0
  | c :: cs =>
    if c = 'e' || c = 'E' then do
      let (negative, cs) := Decimal.splitSign cs
      let ds ← plainDigits? Char.isDigit cs
      let n := Decimal.digitsValue ds
      some (if negative then -(n : Int) else n)
    else none

/-- A float without its sign: a number with a fraction or an exponent. -/
def floatMagnitude? (cs : List Char) : Option Float := do
  let (whole, rest) := spanDigits cs
  let whole ← wholeDigits? whole
  match rest with
  | [] => none
  | '.' :: rest => do
    let (fraction, rest) := spanDigits rest
    let fraction ← plainDigits? Char.isDigit fraction
    let e ← floatExponent? rest
    some (Decimal.nearest (Decimal.digitsValue (whole ++ fraction)) (e - fraction.length))
  | rest => do
    let e ← floatExponent? rest
    some (Decimal.nearest (Decimal.digitsValue whole) e)

/-- A float. One that is too large is refused, unless it is negative. -/
def float? (cs : List Char) : Option Float := do
  let (negative, cs) := Decimal.splitSign cs
  let x ← match String.ofList cs with
    | "inf" => some (Float.ofBits 0x7FF0000000000000)
    | "nan" => some (Float.ofBits 0x7FF8000000000000)
    | _ => do
      let x ← floatMagnitude? cs
      if x.isInf && !negative then none else some x
  some (if negative then -x else x)

/-- An integer of 64 bits, in decimal with a sign or to another base without
one. -/
def integer? (cs : List Char) : Option Int := do
  let based (base : Nat) (ds : List Char) : Option Int := do
    let ds ← plainDigits? (fun c => (Decimal.hexDigit? c).isSome) ds
    let n ← digits? base ds
    some (n : Int)
  let n ← match cs with
    | '0' :: 'x' :: ds => based 16 ds
    | '0' :: 'o' :: ds => based 8 ds
    | '0' :: 'b' :: ds => based 2 ds
    | cs => do
      let (negative, cs) := Decimal.splitSign cs
      let ds ← wholeDigits? cs
      let n := Decimal.digitsValue ds
      some (if negative then -(n : Int) else n)
  if Int64.minValue.toInt ≤ n && n ≤ Int64.maxValue.toInt then some n else none

/-- Whether a character can stand in a number or a word. -/
def isWordChar (c : Char) : Bool := c.isAlphanum || c = '+' || c = '-' || c = '.' || c = '_'

/-- A number or a truth value. -/
def word? (cs : List Char) : Option (Toml × List Char) :=
  let w := cs.takeWhile isWordChar
  let value : Option Toml := match String.ofList w with
    | "true" => some (.boolean true)
    | "false" => some (.boolean false)
    | _ => ((float? w).map .float) <|> ((integer? w).map .integer)
  value.map (·, cs.dropWhile isWordChar)

end StatContract.Toml
