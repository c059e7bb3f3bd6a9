import StatContract.Decimal.Layout
import StatContract.Json.Basic
import StatContract.Text.Padding

/-!
# Writing JSON

Two layouts of the same text: `compact` on one line, and `pretty` with one
member or item per line and two spaces per level. Empty arrays and objects are
closed at once in both. Only what must be escaped in a string is escaped.
-/

namespace StatContract.Json

/-- A character inside a string literal. -/
def stringChar (c : Char) : String :=
  match c with
  | '"' => "\\\""
  | '\\' => "\\\\"
  | '\x08' => "\\b"
  | '\x0c' => "\\f"
  | '\n' => "\\n"
  | '\r' => "\\r"
  | '\t' => "\\t"
  | c =>
    if c.toNat < 0x20 then
      (if c.toNat < 0x10 then "\\u000" else "\\u00")
        ++ String.ofList (Nat.toDigits 16 c.toNat)
    else c.toString

/-- A string literal. -/
def stringText (s : String) : String :=
  "\"" ++ String.join (s.toList.map stringChar) ++ "\""

/-- A number literal. -/
def Number.text : Number → String
  | .nat n => toString n
  | .negative n => "-" ++ toString n
  | .float x => Layout.json.write x

mutual

/-- A value on one line. Where there is no value, `null` is written. -/
def compact : Json → String
  | null | gap | cut | nameless => "null"
  | bool b => if b then "true" else "false"
  | number n => n.text
  | string s => stringText s
  | array items => "[" ++ ",".intercalate (compactItems items) ++ "]"
  | object members => "\x7b" ++ ",".intercalate (compactMembers members) ++ "\x7d"

def compactItems : List Json → List String
  | [] => []
  | v :: vs => v.compact :: compactItems vs

def compactMembers : List (String × Json) → List String
  | [] => []
  | (name, v) :: rest => (stringText name ++ ":" ++ v.compact) :: compactMembers rest

end

/-- A bracketed list with an entry per line. -/
def block (depth : Nat) (opening closing : String) (entries : List String) : String :=
  match entries with
  | [] => opening ++ closing
  | _ =>
    opening ++ "\n"
      ++ ",\n".intercalate (entries.map (Text.indent (depth + 1) ++ ·))
      ++ "\n" ++ Text.indent depth ++ closing

mutual

/-- A value on several lines, when its first line is indented to `depth`. -/
def prettyAt (depth : Nat) : Json → String
  | null | gap | cut | nameless => "null"
  | bool b => if b then "true" else "false"
  | number n => n.text
  | string s => stringText s
  | array items => block depth "[" "]" (prettyItems (depth + 1) items)
  | object members => block depth "\x7b" "\x7d" (prettyMembers (depth + 1) members)

def prettyItems (depth : Nat) : List Json → List String
  | [] => []
  | v :: vs => prettyAt depth v :: prettyItems depth vs

def prettyMembers (depth : Nat) : List (String × Json) → List String
  | [] => []
  | (name, v) :: rest =>
    (stringText name ++ ": " ++ prettyAt depth v) :: prettyMembers depth rest

end

/-- A value with one member or item per line. -/
def pretty (v : Json) : String := prettyAt 0 v

end StatContract.Json
