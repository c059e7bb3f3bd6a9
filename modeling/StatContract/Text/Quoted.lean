import StatContract.Text.Blank
import StatContract.Text.Mark
import StatContract.Text.Unassigned

/-!
# Quoted texts

A text as it is shown inside a message: in double quotes, with the quote, the
backslash and the usual control characters escaped by a letter, and every
other character that shows nothing on its own written by its code.
-/

namespace StatContract.Text

/-- Control characters. -/
def controls : CharTable := [(0x0, 0x1F), (0x7F, 0x9F)]

/-- Characters that steer how others are laid out, such as joiners and marks
of direction. -/
def formatControls : CharTable :=
  [(0xAD, 0xAD), (0x600, 0x605), (0x61C, 0x61C), (0x6DD, 0x6DD), (0x70F, 0x70F), (0x890, 0x891),
   (0x8E2, 0x8E2), (0x180E, 0x180E), (0x200B, 0x200F), (0x202A, 0x202E), (0x2060, 0x2064),
   (0x2066, 0x206F), (0xFEFF, 0xFEFF), (0xFFF9, 0xFFFB), (0x110BD, 0x110BD), (0x110CD, 0x110CD),
   (0x13430, 0x1343F), (0x1BCA0, 0x1BCA3), (0x1D173, 0x1D17A), (0xE0001, 0xE0001),
   (0xE0020, 0xE007F)]

/-- Characters with the Unicode property `Default_Ignorable_Code_Point`: they
take no room where they have no effect, such as fillers and selectors of a
variant. -/
def ignorable : CharTable :=
  [(0xAD, 0xAD), (0x34F, 0x34F), (0x61C, 0x61C), (0x115F, 0x1160), (0x17B4, 0x17B5),
   (0x180B, 0x180F), (0x200B, 0x200F), (0x202A, 0x202E), (0x2060, 0x206F), (0x3164, 0x3164),
   (0xFE00, 0xFE0F), (0xFEFF, 0xFEFF), (0xFFA0, 0xFFA0), (0xFFF0, 0xFFF8), (0x1BCA0, 0x1BCA3),
   (0x1D173, 0x1D17A), (0xE0000, 0xE0FFF)]

/-- Characters whose meaning is left to private agreement. -/
def privateUse : CharTable := [(0xE000, 0xF8FF), (0xF0000, 0xFFFFD), (0x100000, 0x10FFFD)]

/-- Whether a character shows nothing on its own, so that a quoted text has its
code instead. The space counts as shown, every other blank does not. -/
def isHidden (c : Char) : Bool :=
  (isBlank c && c != ' ') || controls.contains c || formatControls.contains c
    || ignorable.contains c || privateUse.contains c || extendingMarks.contains c
    || unassigned.contains c

/-- A character inside a quoted text. -/
def quoteChar (c : Char) : String :=
  match c with
  | '"' => "\\\""
  | '\\' => "\\\\"
  | '\n' => "\\n"
  | '\r' => "\\r"
  | '\t' => "\\t"
  | '\x00' => "\\0"
  | c =>
    if isHidden c then
      "\\u\x7b" ++ String.ofList (Nat.toDigits 16 c.toNat) ++ "\x7d"
    else c.toString

/-- A text in double quotes. -/
def quoted (s : String) : String :=
  "\"" ++ String.join (s.toList.map quoteChar) ++ "\""

end StatContract.Text
