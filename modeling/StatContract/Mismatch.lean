import StatContract.Text.Quoted

/-!
# Data of the wrong shape

Specification trees and settings are read from general data formats. A value
that is well formed there can still have the wrong shape for the place it
stands in. `Mismatch` lists the ways in which it can, whatever the format, and
`Mismatch.message` gives the wording.
-/

namespace StatContract

/-- What was found in a place where something else was expected. -/
inductive Found where
  | null
  | boolean (b : Bool)
  | integer (n : Int)
  /-- A number that is no integer, as the data format writes it. -/
  | float (digits : String)
  | text (s : String)
  | sequence
  | map
  /-- An alternative written without its content. -/
  | bareVariant

/-- The wording for what was found. -/
def Found.message : Found → String
  | null => "null"
  | boolean b => "boolean `" ++ (if b then "true" else "false") ++ "`"
  | integer n => "integer `" ++ toString n ++ "`"
  | float digits => "floating point `" ++ digits ++ "`"
  | text s => "string " ++ Text.quoted s
  | sequence => "sequence"
  | map => "map"
  | bareVariant => "unit variant"

/-- A way in which a value has the wrong shape. -/
inductive Mismatch where
  | missingField (name : String)
  | duplicateField (name : String)
  | unknownField (name : String) (known : List String)
  | unknownVariant (name : String) (known : List String)
  | invalidType (found : Found) (expected : String)
  | invalidValue (found : Found) (expected : String)
  | invalidLength (length : Nat) (expected : String)

namespace Mismatch

/-- A list of admissible names. -/
def oneOf : List String → String
  | [a, b] => "`" ++ a ++ "` or `" ++ b ++ "`"
  | [a] => "`" ++ a ++ "`"
  | names => "one of " ++ ", ".intercalate (names.map fun n => "`" ++ n ++ "`")

/-- The wording of a mismatch. -/
def message : Mismatch → String
  | missingField name => "missing field `" ++ name ++ "`"
  | duplicateField name => "duplicate field `" ++ name ++ "`"
  | unknownField name known =>
    "unknown field `" ++ name ++ "`, expected " ++ oneOf known
  | unknownVariant name known =>
    "unknown variant `" ++ name ++ "`, expected " ++ oneOf known
  | invalidType found expected =>
    "invalid type: " ++ found.message ++ ", expected " ++ expected
  | invalidValue found expected =>
    "invalid value: " ++ found.message ++ ", expected " ++ expected
  | invalidLength length expected =>
    "invalid length " ++ toString length ++ ", expected " ++ expected

end Mismatch

end StatContract
