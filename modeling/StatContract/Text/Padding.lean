/-!
# Columns and indentation

Texts of a fixed least width. Width counts characters; a text that is already
wide enough is left as it is. Nested text is indented by two blanks a level.
-/

namespace StatContract.Text

/-- A row of blanks. -/
def blanks (n : Nat) : String := String.ofList (List.replicate n ' ')

/-- The indentation at a depth. -/
def indent (depth : Nat) : String := blanks (2 * depth)

/-- A text at the left of a column. -/
def padRight (width : Nat) (s : String) : String := s ++ blanks (width - s.length)

/-- A text at the right of a column. -/
def padLeft (width : Nat) (s : String) : String := blanks (width - s.length) ++ s

/-- A line across a table. -/
def rule (width : Nat) : String := String.ofList (List.replicate width '-')

end StatContract.Text
