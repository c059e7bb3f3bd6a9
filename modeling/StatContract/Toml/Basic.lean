/-!
# TOML values

The values that a settings file can hold. Tables keep their entries in the
order in which they were completed, and their keys are distinct, which the
reader sees to. Dates and times have no use in settings and are not read.
-/

namespace StatContract

/-- A TOML value. -/
inductive Toml where
  | string (s : String)
  | integer (n : Int)
  | float (x : Float)
  | boolean (b : Bool)
  | array (items : List Toml)
  | table (entries : List (String × Toml))

instance : Inhabited Toml := ⟨.boolean false⟩

namespace Toml

/-- A step of reading: what was read and the text after it, unless the text is
not TOML. -/
abbrev Parser (α : Type) := List Char → Option (α × List Char)

end Toml

end StatContract
