import StatContract.Json.Number

/-!
# JSON tokens

The first pass over a JSON text. The scanner is a machine that takes one
character at a time: it is between tokens, inside a string, inside a word or
number, or it has stopped at text that is no token. A text that goes wrong
still has tokens, up to a last one that marks the fault, so a reader can say
what it met first.
-/

namespace StatContract.Json

/-- A piece of JSON text. -/
inductive Token where
  /-- One of the six structural characters. -/
  | mark (c : Char)
  /-- A literal: a string, a number, or one of the three words. -/
  | scalar (v : Json)
  /-- A string with half of a surrogate pair, which no text belongs to. -/
  | unpaired
  /-- Text that is no token. Nothing follows it. -/
  | fault

namespace Token

/-- A character of a string, or one half of a surrogate pair. -/
inductive Part where
  | char (c : Char)
  | half (n : Nat)

/-- The value of four hexadecimal digits. -/
def hex4? (a b c d : Char) : Option Nat := do
  let a ← Decimal.hexDigit? a
  let b ← Decimal.hexDigit? b
  let c ← Decimal.hexDigit? c
  let d ← Decimal.hexDigit? d
  pure (4096 * a + 256 * b + 16 * c + d)

/-- The character that a one-letter escape stands for. -/
def escape? : Char → Option Char
  | '"' => some '"'
  | '\\' => some '\\'
  | '/' => some '/'
  | 'b' => some '\x08'
  | 'f' => some '\x0c'
  | 'n' => some '\n'
  | 'r' => some '\r'
  | 't' => some '\t'
  | _ => none

/-- The parts of a string, from the text between its quotes. -/
def parts? : List Char → Option (List Part)
  | [] => some []
  | '\\' :: 'u' :: a :: b :: c :: d :: rest => do
    let n ← hex4? a b c d
    let part := if 0xD800 ≤ n && n ≤ 0xDFFF then Part.half n else .char (Char.ofNat n)
    (parts? rest).map (part :: ·)
  | '\\' :: c :: rest => do
    let c ← escape? c
    (parts? rest).map (.char c :: ·)
  | c :: rest => if c = '\\' then none else (parts? rest).map (.char c :: ·)

/-- Joins the halves of surrogate pairs; a half without its partner leaves no
text. -/
def join? : List Part → Option (List Char)
  | [] => some []
  | .char c :: rest => (join? rest).map (c :: ·)
  | .half high :: .half low :: rest =>
    if high < 0xDC00 && 0xDC00 ≤ low then
      let n := 0x10000 + 0x400 * (high - 0xD800) + (low - 0xDC00)
      (join? rest).map (Char.ofNat n :: ·)
    else none
  | .half _ :: _ => none

/-- A string token, from the text between its quotes. -/
def ofString (cs : List Char) : Token :=
  match parts? cs with
  | none => fault
  | some parts => match join? parts with
    | none => unpaired
    | some text => scalar (.string (String.ofList text))

/-- The word or number that a text starts with, and what follows it. -/
def literal? : List Char → Option (Json × List Char)
  | 'n' :: 'u' :: 'l' :: 'l' :: rest => some (.null, rest)
  | 't' :: 'r' :: 'u' :: 'e' :: rest => some (.bool true, rest)
  | 'f' :: 'a' :: 'l' :: 's' :: 'e' :: rest => some (.bool false, rest)
  | cs => (Literal.read? cs).map fun (l, rest) => (l.value, rest)

/-- What the scanner is inside of. -/
inductive Place where
  | between
  /-- Inside a string: the characters so far, last first, and whether the last
  one is a backslash that escapes the next. -/
  | string (rev : List Char) (escaped : Bool)
  /-- Inside a word or number: its characters so far, last first. -/
  | word (rev : List Char)
  | stopped

/-- The scanner: the tokens so far, last first, and its place. -/
structure Scanner where
  tokens : List Token := []
  place : Place := .between

/-- Whether a character separates tokens. -/
def isSpace (c : Char) : Bool := c = ' ' || c = '\n' || c = '\t' || c = '\r'

/-- Whether a character is structural. -/
def isMark (c : Char) : Bool :=
  c = '\x7b' || c = '\x7d' || c = '[' || c = ']' || c = ',' || c = ':'

/-- Whether a character can stand in a word or number. -/
def isWordChar (c : Char) : Bool :=
  c.isAlphanum || c = '-' || c = '+' || c = '.'

/-- Ends a word or number. A literal with more behind it is a token of its own,
and the fault is what comes after it. -/
def endWord (tokens : List Token) (cs : List Char) : Scanner :=
  match literal? cs with
  | none => ⟨.fault :: tokens, .stopped⟩
  | some (v, []) => ⟨.scalar v :: tokens, .between⟩
  | some (v, _ :: _) => ⟨.fault :: .scalar v :: tokens, .stopped⟩

/-- Ends a string. -/
def endString (tokens : List Token) (cs : List Char) : Scanner :=
  match ofString cs with
  | .fault => ⟨.fault :: tokens, .stopped⟩
  | t => ⟨t :: tokens, .between⟩

/-- Takes a character that starts something new. -/
def start (tokens : List Token) (c : Char) : Scanner :=
  if isSpace c then ⟨tokens, .between⟩
  else if isMark c then ⟨.mark c :: tokens, .between⟩
  else if c = '"' then ⟨tokens, .string [] false⟩
  else if isWordChar c then ⟨tokens, .word [c]⟩
  else ⟨.fault :: tokens, .stopped⟩

/-- Takes one character. -/
def step (s : Scanner) (c : Char) : Scanner :=
  match s.place with
  | .between => start s.tokens c
  | .string rev true => ⟨s.tokens, .string (c :: rev) false⟩
  | .string rev false =>
    if c = '"' then endString s.tokens rev.reverse
    else if c.toNat < 0x20 then ⟨.fault :: s.tokens, .stopped⟩
    else ⟨s.tokens, .string (c :: rev) (c = '\\')⟩
  | .word rev =>
    if isWordChar c then ⟨s.tokens, .word (c :: rev)⟩
    else match endWord s.tokens rev.reverse with
      | ⟨tokens, .between⟩ => start tokens c
      | stopped => stopped
  | .stopped => s

/-- The tokens of a text. -/
def scan (cs : List Char) : List Token :=
  let s := cs.foldl step {}
  let tokens : List Token := match s.place with
    | .string _ _ => .fault :: s.tokens
    | .word rev => (endWord s.tokens rev.reverse).tokens
    | _ => s.tokens
  tokens.reverse

end Token

end StatContract.Json
