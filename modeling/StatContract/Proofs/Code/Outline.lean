import Mathlib.Data.List.TakeWhile
import StatContract.Code.Layout

/-!
# Blocks and indentation

The layout of statements shows what is in which block by indentation alone. Here the way back is
taken: lines are grouped by their indentation, each line with the lines below it that are indented
further (`Outline.group`, `Outline.runs`), and compared with the statements that they come from.

An `Outline` is a line with the block below it, so a statement is one outline or, with a handler,
two. Grouping gives outlines back if each level is indented two blanks further than the one above
it (`Outline.AllAt`) and no line has blanks of its own in front of it. The first always holds for
statements. The second depends on how their strings start, and also on whether there is something
before the first blank that the layout itself puts into a line: an assignment to nothing starts
with that blank, and can end up in the block of the statement above it.
-/

namespace StatContract

namespace Text

/-- Whether a character ends a line. -/
def isLineBreak (c : Char) : Bool := c = '\n' || c = '\r'

/-- The lines of a text. -/
def lines (s : String) : List String := (s.toList.splitOnP isLineBreak).map String.ofList

/-- The number of blanks at the start of a line. -/
def indentation (line : String) : Nat := (line.toList.takeWhile (· = ' ')).length

/-- A line without the blanks at its start. -/
def content (line : String) : String := String.ofList (line.toList.dropWhile (· = ' '))

/-- A text with blanks in front of it. -/
def indented (width : Nat) (s : String) : String := blanks width ++ s

/-- A text does not start with a blank. -/
def Flush (s : String) : Prop := s.toList.head? ≠ some ' '

/-- A text has no line breaks. -/
def Unbroken (s : String) : Prop := ∀ c ∈ s.toList, isLineBreak c = false

instance (s : String) : Decidable (Flush s) := inferInstanceAs (Decidable (_ ≠ _))

instance (s : String) : Decidable (Unbroken s) := List.decidableBAll _ s.toList

theorem flush_append {a b : String} : Flush (a ++ b) ↔ Flush a ∧ (a = "" → Flush b) := by
  rw [Flush, Flush, Flush, ← String.toList_eq_nil_iff, String.toList_append]
  cases a.toList <;> simp

theorem unbroken_append {a b : String} : Unbroken (a ++ b) ↔ Unbroken a ∧ Unbroken b := by
  simp [Unbroken, or_imp, forall_and]

theorem unbroken_intercalate {sep : String} {ss : List String} (hsep : Unbroken sep)
    (h : ∀ s ∈ ss, Unbroken s) : Unbroken (sep.intercalate ss) := by
  induction ss with
  | nil => simp [Unbroken]
  | cons s ss ih =>
      obtain ⟨hs, hss⟩ := List.forall_mem_cons.1 h
      cases ss with
      | nil => simpa using hs
      | cons s' ss =>
          rw [String.intercalate_cons_cons]
          exact unbroken_append.2 ⟨unbroken_append.2 ⟨hs, hsep⟩, ih hss⟩

theorem unbroken_indented {s : String} (h : Unbroken s) (width : Nat) :
    Unbroken (indented width s) := by
  refine unbroken_append.2 ⟨?_, h⟩
  simp [Unbroken, isLineBreak, blanks]

/-- Lines without line breaks can be told apart in the text that they are joined to. -/
theorem lines_intercalate {ls : List String} (hne : ls ≠ []) (h : ∀ l ∈ ls, Unbroken l) :
    lines ("\n".intercalate ls) = ls := by
  induction ls with
  | nil => contradiction
  | cons l ls ih =>
      obtain ⟨hl, hls⟩ := List.forall_mem_cons.1 h
      cases ls with
      | nil => simp [lines, List.splitOnP_eq_singleton hl]
      | cons l' ls =>
          have hrest := ih (by simp) hls
          rw [String.intercalate_cons_cons]
          simp only [lines, String.toList_append, List.append_assoc] at hrest ⊢
          rw [show "\n".toList = ['\n'] from rfl, List.singleton_append,
            List.splitOnP_append_cons_of_forall_mem hl _ rfl, List.map_cons, hrest,
            String.ofList_toList]

theorem indentation_indented (width : Nat) (s : String) :
    indentation (indented width s) = width + indentation s := by
  simp [indentation, indented, blanks]

theorem indentation_eq_zero_iff {s : String} : indentation s = 0 ↔ Flush s := by
  rw [indentation, List.length_eq_zero_iff, Flush]
  cases s.toList <;> simp

theorem indentation_of_flush {s : String} (h : Flush s) (width : Nat) :
    indentation (indented width s) = width := by
  rw [indentation_indented, indentation_eq_zero_iff.2 h, Nat.add_zero]

theorem content_of_flush {s : String} (h : Flush s) (width : Nat) :
    content (indented width s) = s := by
  have hdrop : s.toList.dropWhile (· = ' ') = s.toList := by
    rw [Flush] at h
    cases hs : s.toList with
    | nil => rfl
    | cons c cs =>
        rw [hs] at h
        exact List.dropWhile_cons_of_neg (by simpa using h)
  simp [content, indented, blanks, hdrop]

end Text

open Text

/-- A line, by its indentation and its content, with the block below it. -/
inductive Outline where
  | mk (width : Nat) (text : String) (block : List Outline)

namespace Outline

def width : Outline → Nat
  | mk width _ _ => width

mutual

/-- The lines of an outline, each by its indentation and its content. -/
def rows : Outline → List (Nat × String)
  | mk width text block => (width, text) :: rowsOfAll block

def rowsOfAll : List Outline → List (Nat × String)
  | [] => []
  | o :: rest => o.rows ++ rowsOfAll rest

end

@[simp] theorem rowsOfAll_append (a b : List Outline) :
    rowsOfAll (a ++ b) = rowsOfAll a ++ rowsOfAll b := by
  induction a with
  | nil => rfl
  | cons o a ih => simp [rowsOfAll, ih]

/-- The lines of outlines. -/
def lines (os : List Outline) : List String := (rowsOfAll os).map fun r => indented r.1 r.2

@[simp] theorem lines_nil : lines [] = [] := rfl

@[simp] theorem lines_append (a b : List Outline) : lines (a ++ b) = lines a ++ lines b := by
  simp [lines]

theorem lines_cons (width : Nat) (text : String) (block rest : List Outline) :
    lines (mk width text block :: rest) = indented width text :: (lines block ++ lines rest) := by
  simp [lines, rowsOfAll, rows]

mutual

/-- The lines of an outline, each with the lines of the block below it, if there is one. -/
def sections : Outline → List (String × Option (List String))
  | mk width text block =>
    (indented width text, if block.isEmpty then none else some (lines block))
      :: sectionsOfAll block

def sectionsOfAll : List Outline → List (String × Option (List String))
  | [] => []
  | o :: rest => o.sections ++ sectionsOfAll rest

end

@[simp] theorem sectionsOfAll_append (a b : List Outline) :
    sectionsOfAll (a ++ b) = sectionsOfAll a ++ sectionsOfAll b := by
  induction a with
  | nil => rfl
  | cons o a ih => simp [sectionsOfAll, ih]

/-- Puts a line in front of outlines: those that are indented further become its block. -/
def place (line : String) (os : List Outline) : List Outline :=
  mk (indentation line) (content line) (os.takeWhile (indentation line < ·.width))
    :: os.dropWhile (indentation line < ·.width)

/-- Groups lines by their indentation. -/
def group (ls : List String) : List Outline := ls.foldr place []

/-- Each line with the lines below it up to the first that is not indented further. -/
def runs : List String → List (String × List String)
  | [] => []
  | line :: rest => (line, rest.takeWhile (indentation line < indentation ·)) :: runs rest

mutual

/-- The outline is indented for a depth, and the outlines in it for the depths below. -/
def At (depth : Nat) : Outline → Prop
  | mk width _ block => width = 2 * depth ∧ AllAt (depth + 1) block

def AllAt (depth : Nat) : List Outline → Prop
  | [] => True
  | o :: rest => o.At depth ∧ AllAt depth rest

end

/-- The contents of all lines in the outlines have a property. -/
def Have (P : String → Prop) (os : List Outline) : Prop := ∀ r ∈ rowsOfAll os, P r.2

section Have

variable {P : String → Prop} {width : Nat} {text : String} {block rest a b : List Outline}

@[simp] theorem have_nil : Have P [] := by simp [Have, rowsOfAll]

@[simp] theorem have_append : Have P (a ++ b) ↔ Have P a ∧ Have P b := by
  simp [Have, or_imp, forall_and]

@[simp] theorem have_cons :
    Have P (mk width text block :: rest) ↔ P text ∧ Have P block ∧ Have P rest := by
  simp [Have, rowsOfAll, rows, or_imp, forall_and]

theorem have_singleton : Have P [mk width text block] ↔ P text ∧ Have P block := by simp

end Have

variable {depth : Nat} {os : List Outline}

@[simp] theorem allAt_append {a b : List Outline} :
    AllAt depth (a ++ b) ↔ AllAt depth a ∧ AllAt depth b := by
  induction a with
  | nil => simp [AllAt]
  | cons o a ih => simp [AllAt, ih, and_assoc]

theorem AllAt.width_eq (h : AllAt depth os) : ∀ o ∈ os, o.width = 2 * depth := by
  induction os with
  | nil => simp
  | cons o os ih =>
      obtain ⟨ho, hos⟩ := h
      refine List.forall_mem_cons.2 ⟨?_, ih hos⟩
      cases o with
      | mk => exact ho.1

theorem AllAt.le_indentation {depth : Nat} {os : List Outline} (h : AllAt depth os) :
    ∀ line ∈ lines os, 2 * depth ≤ indentation line := by
  match os with
  | [] => simp
  | mk width text block :: os =>
      obtain ⟨⟨rfl, hblock⟩, hos⟩ := h
      rw [lines_cons, List.forall_mem_cons, List.forall_mem_append]
      refine ⟨?_, fun line hline => ?_, hos.le_indentation⟩
      · rw [indentation_indented]
        exact Nat.le_add_right _ _
      · exact Nat.le_trans (by omega) (hblock.le_indentation line hline)

theorem AllAt.exists_first (h : AllAt depth os) (hflush : Have Flush os) (hne : os ≠ []) :
    ∃ first rest, lines os = first :: rest ∧ indentation first = 2 * depth := by
  match os with
  | mk width text block :: os =>
      obtain ⟨⟨rfl, -⟩, -⟩ := h
      exact ⟨_, _, lines_cons .., indentation_of_flush (have_cons.1 hflush).1 _⟩

/-- What is taken from the front stops where the first part ends. -/
theorem span_append {α : Type} {p : α → Bool} {a b : List α} (ha : ∀ x ∈ a, p x = true)
    (hb : ∀ x ∈ b.head?, p x = false) :
    (a ++ b).takeWhile p = a ∧ (a ++ b).dropWhile p = b := by
  rw [List.takeWhile_append_of_pos ha, List.dropWhile_append_of_pos ha]
  cases b with
  | nil => simp
  | cons x b => simp [hb x rfl]

/-- A line takes over the outlines that are indented further, up to the first that is not. -/
theorem place_append {width : Nat} {text : String} (htext : Flush text) {block rest : List Outline}
    (hblock : ∀ o ∈ block, width < o.width) (hrest : ∀ o ∈ rest.head?, o.width ≤ width) :
    place (indented width text) (block ++ rest) = mk width text block :: rest := by
  have hspan : (block ++ rest).takeWhile (width < ·.width) = block ∧
      (block ++ rest).dropWhile (width < ·.width) = rest :=
    span_append (by simpa using hblock) fun o ho => decide_eq_false (hrest o ho).not_gt
  rw [place, indentation_of_flush htext, content_of_flush htext, hspan.1, hspan.2]

/-- Lines are put in front of outlines that are not indented further, from the last to the first:
each finds the outlines of its block, and after them one that is not in its block. -/
theorem AllAt.foldr_place_lines {depth : Nat} {os : List Outline} (h : AllAt depth os)
    (hflush : Have Flush os) {rest : List Outline}
    (hrest : ∀ o ∈ rest.head?, o.width ≤ 2 * depth) :
    (lines os).foldr place rest = os ++ rest := by
  match os with
  | [] => rfl
  | mk width text block :: os =>
      obtain ⟨⟨rfl, hblock⟩, hos⟩ := h
      obtain ⟨htext, hblockFlush, hosFlush⟩ := have_cons.1 hflush
      have hdeeper : ∀ o ∈ block, 2 * depth < o.width := fun o ho => by
        rw [hblock.width_eq o ho]
        omega
      have hnext : ∀ o ∈ (os ++ rest).head?, o.width ≤ 2 * depth := by
        cases os with
        | nil => exact hrest
        | cons o os =>
            rintro _ ⟨⟩
            exact (hos.width_eq o List.mem_cons_self).le
      rw [lines_cons, List.foldr_cons, List.foldr_append, hos.foldr_place_lines hosFlush hrest,
        hblock.foldr_place_lines hblockFlush fun o ho => (hnext o ho).trans (by omega),
        place_append htext hdeeper hnext]
      rfl

/-- The lines below a line that are indented further, up to the first that is not, are those of
its block. -/
theorem AllAt.runs_lines {depth : Nat} {os : List Outline} (h : AllAt depth os)
    (hflush : Have Flush os) {rest : List String}
    (hrest : ∀ line ∈ rest.head?, indentation line ≤ 2 * depth) :
    runs (lines os ++ rest) =
      (sectionsOfAll os).map (fun p => (p.1, p.2.getD [])) ++ runs rest := by
  match os with
  | [] => rfl
  | mk width text block :: os =>
      obtain ⟨⟨rfl, hblock⟩, hos⟩ := h
      obtain ⟨htext, hblockFlush, hosFlush⟩ := have_cons.1 hflush
      have hdeeper : ∀ line ∈ lines block, 2 * depth < indentation line := fun line hline =>
        Nat.lt_of_lt_of_le (by omega) (hblock.le_indentation line hline)
      have hnext : ∀ line ∈ (lines os ++ rest).head?, indentation line ≤ 2 * depth := by
        by_cases hnil : os = []
        · rwa [hnil, lines_nil, List.nil_append]
        · obtain ⟨first, more, hlines, hfirst⟩ := hos.exists_first hosFlush hnil
          rw [hlines]
          rintro _ ⟨⟩
          exact hfirst.le
      have hrun : (lines block ++ (lines os ++ rest)).takeWhile (2 * depth < indentation ·) =
          lines block :=
        (span_append (by simpa using hdeeper) fun line hline =>
          decide_eq_false (hnext line hline).not_gt).1
      rw [lines_cons, List.cons_append, List.append_assoc, runs, indentation_of_flush htext,
        hrun, hblock.runs_lines hblockFlush fun line hline => (hnext line hline).trans (by omega),
        hos.runs_lines hosFlush hrest]
      cases block <;> simp [sectionsOfAll, sections]

/-- A block is not empty, and its first line is one level deeper than the line that opens it. -/
theorem AllAt.of_mem_sections {depth : Nat} {os : List Outline} (h : AllAt depth os)
    (hflush : Have Flush os) : ∀ p ∈ sectionsOfAll os, ∀ inner ∈ p.2, ∃ first rest,
      inner = first :: rest ∧ indentation first = indentation p.1 + 2 := by
  match os with
  | [] => simp [sectionsOfAll]
  | mk width text block :: os =>
      obtain ⟨⟨rfl, hblock⟩, hos⟩ := h
      obtain ⟨htext, hblockFlush, hosFlush⟩ := have_cons.1 hflush
      rw [sectionsOfAll, sections, List.cons_append, List.forall_mem_cons, List.forall_mem_append]
      refine ⟨?_, hblock.of_mem_sections hblockFlush, hos.of_mem_sections hosFlush⟩
      cases block with
      | nil => simp
      | cons o block =>
          rintro _ ⟨⟩
          rw [indentation_of_flush htext]
          exact hblock.exists_first hblockFlush (List.cons_ne_nil o block)

/-- Grouping keeps the lines and their order. -/
theorem rowsOfAll_group (ls : List String) :
    rowsOfAll (group ls) = ls.map fun line => (indentation line, content line) := by
  induction ls with
  | nil => rfl
  | cons line ls ih =>
      rw [group, List.foldr_cons, ← group, place, rowsOfAll, rows, List.cons_append,
        ← rowsOfAll_append, List.takeWhile_append_dropWhile, ih, List.map_cons]

/-- Grouping the lines of outlines gives them back exactly if no line has more blanks in front of
it than its outline says. -/
theorem AllAt.group_lines_iff (h : AllAt depth os) : group (lines os) = os ↔ Have Flush os := by
  constructor
  · intro hgroup r hr
    have hrows := rowsOfAll_group (lines os)
    rw [hgroup, lines, List.map_map] at hrows
    have hrow := List.map_inj_left.1 (hrows.symm.trans (List.map_id _).symm) r hr
    have hwidth : indentation (indented r.1 r.2) = r.1 := congrArg Prod.fst hrow
    rw [indentation_indented] at hwidth
    exact indentation_eq_zero_iff.1 (by omega)
  · intro hflush
    have hplace := @AllAt.foldr_place_lines _ _ h hflush [] (by simp)
    rwa [List.append_nil] at hplace

end Outline

namespace Stmt

mutual

/-- A statement and all statements in it. -/
def parts : Stmt → List Stmt
  | s@(forIn _ _ body) | s@(ifTrue _ body) | s@(define _ _ body) => s :: partsOfAll body
  | s@(attempt body _ handler) => s :: (partsOfAll body ++ partsOfAll handler)
  | s@(assign ..) | s@(update ..) | s@(append ..) | s@(eval _) | s@(breakUnless _)
  | s@(ret _) => [s]

/-- The statements of a block and all statements in them. -/
def partsOfAll : List Stmt → List Stmt
  | [] => []
  | s :: rest => s.parts ++ partsOfAll rest

end

/-- The strings of a statement, apart from those of the statements in it. -/
def strings : Stmt → List String
  | assign target value | update target _ value => [target.text, value.text]
  | append list value => [list.text, value.text]
  | eval value | ret value => [value.text]
  | forIn var source _ => [var, source.text]
  | ifTrue condition _ | breakUnless condition => [condition.text]
  | define name params _ => name :: params
  | attempt _ errors _ => errors

/-- What a statement assigns to. -/
def targets : Stmt → List String
  | assign target _ | update target _ _ => [target.text]
  | _ => []

/-- The first line of a statement, without its indentation. -/
def heading : Stmt → String
  | assign target value => target.text ++ " = " ++ value.text
  | update target op value => target.text ++ " " ++ op.symbol ++ "= " ++ value.text
  | append list value => list.text ++ ".append(" ++ value.text ++ ")"
  | eval value => value.text
  | forIn var source _ => "for " ++ var ++ " in " ++ source.text ++ ":"
  | ifTrue condition _ => "if " ++ condition.text ++ ":"
  | breakUnless condition => "if not " ++ condition.text ++ ":"
  | ret value => "return " ++ value.text
  | define name params _ => "def " ++ name ++ "(" ++ ",".intercalate params ++ "):"
  | attempt _ _ _ => "try:"

/-- The lines of a statement that are in none of its blocks, without their indentation. -/
def headings : Stmt → List String
  | s@(attempt _ errors _) => [s.heading, "except" ++ errorList errors ++ ":"]
  | s@(assign ..) | s@(update ..) | s@(append ..) | s@(eval _) | s@(forIn ..) | s@(ifTrue ..)
  | s@(breakUnless _) | s@(ret _) | s@(define ..) => [s.heading]

mutual

/-- The outlines of a statement at a depth. -/
def outline (depth : Nat) : Stmt → List Outline
  | s@(forIn _ _ body) | s@(ifTrue _ body) | s@(define _ _ body) =>
    [.mk (2 * depth) s.heading (outlineOfBlock (depth + 1) body)]
  | s@(breakUnless _) => [.mk (2 * depth) s.heading [.mk (2 * (depth + 1)) "break" []]]
  | s@(attempt body errors handler) =>
    [.mk (2 * depth) s.heading (outlineOfBlock (depth + 1) body),
      .mk (2 * depth) ("except" ++ errorList errors ++ ":") (outlineOfBlock (depth + 1) handler)]
  | s@(assign ..) | s@(update ..) | s@(append ..) | s@(eval _) | s@(ret _) =>
    [.mk (2 * depth) s.heading []]

/-- The outlines of a block. -/
def outlineOfBlock (depth : Nat) : List Stmt → List Outline
  | [] => [.mk (2 * depth) "pass" []]
  | s :: rest => outline depth s ++ outlineOfAll depth rest

def outlineOfAll (depth : Nat) : List Stmt → List Outline
  | [] => []
  | s :: rest => outline depth s ++ outlineOfAll depth rest

end

mutual

/-- The lines of a statement at a depth, each with the lines of the block that it opens, if it
opens one. -/
def sections (depth : Nat) : Stmt → List (String × Option (List String))
  | s@(forIn _ _ body) | s@(ifTrue _ body) | s@(define _ _ body) =>
    (indent depth ++ s.heading, some (block (depth + 1) body)) :: sectionsOfBlock (depth + 1) body
  | s@(breakUnless _) =>
    [(indent depth ++ s.heading, some [indent (depth + 1) ++ "break"]), (indent (depth + 1) ++ "break", none)]
  | s@(attempt body errors handler) =>
    (indent depth ++ s.heading, some (block (depth + 1) body)) :: (sectionsOfBlock (depth + 1) body
      ++ (indent depth ++ ("except" ++ errorList errors ++ ":"), some (block (depth + 1) handler))
        :: sectionsOfBlock (depth + 1) handler)
  | s@(assign ..) | s@(update ..) | s@(append ..) | s@(eval _) | s@(ret _) =>
    [(indent depth ++ s.heading, none)]

def sectionsOfBlock (depth : Nat) : List Stmt → List (String × Option (List String))
  | [] => [(indent depth ++ "pass", none)]
  | s :: rest => sections depth s ++ sectionsOfAll depth rest

def sectionsOfAll (depth : Nat) : List Stmt → List (String × Option (List String))
  | [] => []
  | s :: rest => sections depth s ++ sectionsOfAll depth rest

end

theorem mem_partsOfAll {p : Stmt} {body : List Stmt} :
    p ∈ partsOfAll body ↔ ∃ s ∈ body, p ∈ s.parts := by
  induction body with
  | nil => simp [partsOfAll]
  | cons s body ih => simp [partsOfAll, ih]

theorem indent_append (depth : Nat) (s : String) : indent depth ++ s = indented (2 * depth) s :=
  rfl

/-! ### The lines of statements are those of their outlines -/

mutual

theorem lines_eq_outline (depth : Nat) (s : Stmt) :
    s.lines depth = Outline.lines (s.outline depth) := by
  match s with
  | assign .. | update .. | append .. | eval _ | ret _ | breakUnless _ =>
      simp [lines, outline, heading, Outline.lines_cons, ← indent_append, String.append_assoc]
  | forIn _ _ body | ifTrue _ body | define _ _ body =>
      simp [lines, outline, heading, Outline.lines_cons, ← indent_append, String.append_assoc,
        block_eq_outline (depth + 1) body]
  | attempt body _ handler =>
      simp [lines, outline, heading, Outline.lines_cons, ← indent_append, String.append_assoc,
        block_eq_outline (depth + 1) body, block_eq_outline (depth + 1) handler]

theorem block_eq_outline (depth : Nat) (body : List Stmt) :
    block depth body = Outline.lines (outlineOfBlock depth body) := by
  match body with
  | [] => simp [block, outlineOfBlock, Outline.lines_cons, ← indent_append]
  | s :: rest =>
      simp [block, outlineOfBlock, lines_eq_outline depth s, linesOfAll_eq_outline depth rest]

theorem linesOfAll_eq_outline (depth : Nat) (body : List Stmt) :
    linesOfAll depth body = Outline.lines (outlineOfAll depth body) := by
  match body with
  | [] => rfl
  | s :: rest =>
      simp [linesOfAll, outlineOfAll, lines_eq_outline depth s, linesOfAll_eq_outline depth rest]

end

mutual

theorem allAt_outline (depth : Nat) (s : Stmt) : Outline.AllAt depth (s.outline depth) := by
  match s with
  | assign .. | update .. | append .. | eval _ | ret _ | breakUnless _ =>
      simp [outline, Outline.AllAt, Outline.At]
  | forIn _ _ body | ifTrue _ body | define _ _ body =>
      simp [outline, Outline.AllAt, Outline.At, allAt_outlineOfBlock (depth + 1) body]
  | attempt body _ handler =>
      simp [outline, Outline.AllAt, Outline.At, allAt_outlineOfBlock (depth + 1) body,
        allAt_outlineOfBlock (depth + 1) handler]

theorem allAt_outlineOfBlock (depth : Nat) (body : List Stmt) :
    Outline.AllAt depth (outlineOfBlock depth body) := by
  match body with
  | [] => simp [outlineOfBlock, Outline.AllAt, Outline.At]
  | s :: rest => simp [outlineOfBlock, allAt_outline depth s, allAt_outlineOfAll depth rest]

theorem allAt_outlineOfAll (depth : Nat) (body : List Stmt) :
    Outline.AllAt depth (outlineOfAll depth body) := by
  match body with
  | [] => simp [outlineOfAll, Outline.AllAt]
  | s :: rest => simp [outlineOfAll, allAt_outline depth s, allAt_outlineOfAll depth rest]

end

theorem outline_ne_nil (depth : Nat) (s : Stmt) : s.outline depth ≠ [] := by
  cases s <;> simp [outline]

theorem outlineOfBlock_ne_nil (depth : Nat) (body : List Stmt) :
    outlineOfBlock depth body ≠ [] := by
  cases body <;> simp [outlineOfBlock, outline_ne_nil]

mutual

theorem sections_eq_outline (depth : Nat) (s : Stmt) :
    s.sections depth = Outline.sectionsOfAll (s.outline depth) := by
  match s with
  | assign .. | update .. | append .. | eval _ | ret _ | breakUnless _ =>
      simp [sections, outline, Outline.sectionsOfAll, Outline.sections, Outline.lines_cons,
        indent_append]
  | forIn _ _ body | ifTrue _ body | define _ _ body =>
      simp [sections, outline, Outline.sectionsOfAll, Outline.sections, indent_append,
        outlineOfBlock_ne_nil, block_eq_outline, sectionsOfBlock_eq_outline (depth + 1) body]
  | attempt body _ handler =>
      simp [sections, outline, Outline.sectionsOfAll, Outline.sections, indent_append,
        outlineOfBlock_ne_nil, block_eq_outline, sectionsOfBlock_eq_outline (depth + 1) body,
        sectionsOfBlock_eq_outline (depth + 1) handler]

theorem sectionsOfBlock_eq_outline (depth : Nat) (body : List Stmt) :
    sectionsOfBlock depth body = Outline.sectionsOfAll (outlineOfBlock depth body) := by
  match body with
  | [] =>
      simp [sectionsOfBlock, outlineOfBlock, Outline.sectionsOfAll, Outline.sections, indent_append]
  | s :: rest =>
      simp [sectionsOfBlock, outlineOfBlock, sections_eq_outline depth s,
        sectionsOfAll_eq_outline depth rest]

theorem sectionsOfAll_eq_outline (depth : Nat) (body : List Stmt) :
    sectionsOfAll depth body = Outline.sectionsOfAll (outlineOfAll depth body) := by
  match body with
  | [] => rfl
  | s :: rest =>
      simp [sectionsOfAll, outlineOfAll, sections_eq_outline depth s,
        sectionsOfAll_eq_outline depth rest]

end

/-! ### How lines start -/

mutual

theorem have_outline_iff {P : String → Prop} (hpass : P "pass") (hbreak : P "break") (depth : Nat)
    (s : Stmt) : Outline.Have P (s.outline depth) ↔ ∀ p ∈ s.parts, ∀ x ∈ p.headings, P x := by
  match s with
  | assign .. | update .. | append .. | eval _ | ret _ | breakUnless _ =>
      simp [outline, parts, headings, hbreak]
  | forIn _ _ body | ifTrue _ body | define _ _ body =>
      rw [outline, parts, Outline.have_singleton,
        have_outlineOfBlock_iff hpass hbreak (depth + 1) body, List.forall_mem_cons]
      exact and_congr_left' List.forall_mem_singleton.symm
  | attempt body errors handler =>
      rw [outline, parts, Outline.have_cons, Outline.have_singleton,
        have_outlineOfBlock_iff hpass hbreak (depth + 1) body,
        have_outlineOfBlock_iff hpass hbreak (depth + 1) handler, List.forall_mem_cons,
        List.forall_mem_append, headings, List.forall_mem_cons, List.forall_mem_singleton,
        ← and_assoc, and_and_and_comm]

theorem have_outlineOfBlock_iff {P : String → Prop} (hpass : P "pass") (hbreak : P "break")
    (depth : Nat) (body : List Stmt) :
    Outline.Have P (outlineOfBlock depth body) ↔
      ∀ p ∈ partsOfAll body, ∀ x ∈ p.headings, P x := by
  match body with
  | [] => simp [outlineOfBlock, partsOfAll, hpass]
  | s :: rest =>
      rw [outlineOfBlock, partsOfAll, List.forall_mem_append, Outline.have_append,
        have_outline_iff hpass hbreak depth s, have_outlineOfAll_iff hpass hbreak depth rest]

theorem have_outlineOfAll_iff {P : String → Prop} (hpass : P "pass") (hbreak : P "break")
    (depth : Nat) (body : List Stmt) :
    Outline.Have P (outlineOfAll depth body) ↔
      ∀ p ∈ partsOfAll body, ∀ x ∈ p.headings, P x := by
  match body with
  | [] => simp [outlineOfAll, partsOfAll]
  | s :: rest =>
      rw [outlineOfAll, partsOfAll, List.forall_mem_append, Outline.have_append,
        have_outline_iff hpass hbreak depth s, have_outlineOfAll_iff hpass hbreak depth rest]

end

/-- The lines of a statement start with a blank only where it assigns to nothing. -/
theorem flush_headings_iff {s : Stmt} (h : ∀ x ∈ s.strings, Flush x) :
    (∀ x ∈ s.headings, Flush x) ↔ "" ∉ s.targets := by
  cases s with
  | assign target value | update target op value =>
      have htarget : Flush target.text := h _ (by simp [strings])
      have hempty : target.text ≠ "" ↔ "" ∉ [target.text] :=
        ne_comm.trans (not_congr List.mem_singleton).symm
      rw [targets, ← hempty, headings, List.forall_mem_singleton]
      simp only [heading, String.append_assoc, flush_append, htarget, true_and]
      exact ⟨fun hflush hnil => absurd (hflush hnil).1 (by decide), fun hne hnil => absurd hnil hne⟩
  | append list value =>
      have hlist : Flush list.text := h _ (by simp [strings])
      simp only [headings, heading, List.forall_mem_singleton, targets, String.append_assoc,
        flush_append, hlist, true_and]
      exact iff_of_true (fun _ => ⟨by decide, by simp⟩) (by simp)
  | eval value =>
      rw [headings, heading]
      exact iff_of_true (List.forall_mem_singleton.2 (h _ (by simp [strings]))) (by simp [targets])
  | _ => simp [headings, heading, targets, Flush]

theorem unbroken_headings {s : Stmt} (h : ∀ x ∈ s.strings, Unbroken x) :
    ∀ x ∈ s.headings, Unbroken x := by
  cases s with
  | define name params body =>
      obtain ⟨hname, hparams⟩ := List.forall_mem_cons.1 h
      simp only [headings, heading, List.forall_mem_singleton, unbroken_append]
      exact ⟨⟨⟨⟨by decide, hname⟩, by decide⟩, unbroken_intercalate (by decide) hparams⟩, by decide⟩
  | attempt body errors handler =>
      refine List.forall_mem_cons.2 ⟨by rw [heading]; decide, List.forall_mem_singleton.2 ?_⟩
      rw [unbroken_append, unbroken_append]
      refine ⟨⟨by decide, ?_⟩, by decide⟩
      unfold errorList
      split
      · decide
      · next error => exact unbroken_append.2 ⟨by decide, h error (by simp [strings])⟩
      · rw [unbroken_append, unbroken_append]
        exact ⟨⟨by decide, unbroken_intercalate (by decide) h⟩, by decide⟩
  | update target op value =>
      simp_all only [headings, heading, strings, List.forall_mem_cons, unbroken_append]
      cases op <;> decide
  | eval value => exact h
  | _ =>
      simp_all only [headings, heading, strings, List.forall_mem_cons, unbroken_append]
      decide

/-- The text of a block at a depth shows which statements are in which block. -/
structure ShowsBlocks (depth : Nat) (body : List Stmt) : Prop where
  /-- The lines of the block can be told apart in its text. -/
  text : Text.lines ("\n".intercalate (block depth body)) = block depth body
  floor : ∀ line ∈ block depth body, 2 * depth ≤ indentation line
  starts : ∀ s ∈ body, ∃ first rest, s.lines depth = first :: rest ∧ indentation first = 2 * depth
  /-- The lines below a line that are indented further are those of the block that it opens. -/
  runs : Outline.runs (block depth body) =
    (sectionsOfBlock depth body).map fun p => (p.1, p.2.getD [])
  opens : ∀ p ∈ sectionsOfBlock depth body, ∀ inner ∈ p.2, ∃ first rest,
    inner = first :: rest ∧ indentation first = indentation p.1 + 2
  tree : Outline.group (block depth body) = outlineOfBlock depth body

/-- Let the strings of a block have no line breaks, and let none of them start with a blank. Then
its text shows which statements are in which block exactly if no statement in it assigns to the
empty string. -/
theorem block_shows_blocks_iff {body : List Stmt}
    (h : ∀ s ∈ partsOfAll body, ∀ x ∈ s.strings, Unbroken x ∧ Flush x) (depth : Nat) :
    ShowsBlocks depth body ↔ ∀ s ∈ partsOfAll body, "" ∉ s.targets := by
  have hall := allAt_outlineOfBlock depth body
  have hheadings : (∀ s ∈ partsOfAll body, ∀ x ∈ s.headings, Flush x) ↔
      ∀ s ∈ partsOfAll body, "" ∉ s.targets :=
    forall₂_congr fun s hs => flush_headings_iff fun x hx => (h s hs x hx).2
  rw [← hheadings]
  constructor
  · intro hshows
    -- A line that starts with a blank is grouped one block too deep.
    have htree := hshows.tree
    rw [block_eq_outline, hall.group_lines_iff] at htree
    exact (have_outlineOfBlock_iff (by decide) (by decide) depth body).1 htree
  · intro hflush
    have hblock := (have_outlineOfBlock_iff (by decide) (by decide) depth body).2 hflush
    refine ⟨?_, ?_, fun s hs => ?_, ?_, ?_, ?_⟩
    · have hunbroken : Outline.Have Unbroken (outlineOfBlock depth body) :=
        (have_outlineOfBlock_iff (by decide) (by decide) depth body).2 fun s hs =>
          unbroken_headings fun x hx => (h s hs x hx).1
      obtain ⟨first, rest, hlines, -⟩ :=
        hall.exists_first hblock (outlineOfBlock_ne_nil depth body)
      rw [block_eq_outline]
      refine Text.lines_intercalate (hlines ▸ List.cons_ne_nil first rest) ?_
      exact List.forall_mem_map.2 fun r hr => unbroken_indented (hunbroken r hr) r.1
    · rw [block_eq_outline]
      exact hall.le_indentation
    · have hs : Outline.Have Flush (s.outline depth) :=
        (have_outline_iff (by decide) (by decide) depth s).2 fun p hp =>
          hflush p (mem_partsOfAll.2 ⟨s, hs, hp⟩)
      rw [lines_eq_outline]
      exact (allAt_outline depth s).exists_first hs (outline_ne_nil depth s)
    · have hruns := @Outline.AllAt.runs_lines _ _ hall hblock [] (by simp)
      rwa [List.append_nil, Outline.runs, List.append_nil, ← block_eq_outline,
        ← sectionsOfBlock_eq_outline] at hruns
    · rw [sectionsOfBlock_eq_outline]
      exact hall.of_mem_sections hblock
    · rw [block_eq_outline]
      exact hall.group_lines_iff.2 hblock

/-- Loops, definitions and handlers inside of each other, with an empty block among them. -/
def nestedBlocks : List Stmt :=
  [.forIn "x" (.name "Input")
    [.breakUnless (.name "ok"),
      .attempt [.append (.name "xs") (.name "x")] ["KeyError", "TypeError"] []],
    .define "first" ["a", "b"] [.ret (.name "a")],
    .update (.name "n") .add (.verbatim "1")]

theorem block_shows_blocks_nestedBlocks :
    block 1 nestedBlocks =
      ["  for x in Input:", "    if not ok:", "      break", "    try:", "      xs.append(x)",
        "    except (KeyError, TypeError):", "      pass", "  def first(a,b):", "    return a",
        "  n += 1"] ∧
    (∀ s ∈ partsOfAll nestedBlocks, ∀ x ∈ s.strings, Unbroken x ∧ Flush x) ∧
    ShowsBlocks 1 nestedBlocks := by
  have hstrings : ∀ s ∈ partsOfAll nestedBlocks, ∀ x ∈ s.strings, Unbroken x ∧ Flush x := by
    decide
  exact ⟨by decide, hstrings, (block_shows_blocks_iff hstrings 1).2 (by decide)⟩

/-- An empty block, and an assignment to nothing below it. -/
def emptyTarget : List Stmt :=
  [.ifTrue (.name "ok") [], .assign (.verbatim "") (.verbatim "1")]

/-- The assignment starts with a blank and so ends up in the block above it. -/
theorem block_misplaces_emptyTarget :
    (∀ s ∈ partsOfAll emptyTarget, ∀ x ∈ s.strings, Unbroken x ∧ Flush x) ∧
    Outline.runs (block 0 emptyTarget) =
      [("if ok:", ["  pass", " = 1"]), ("  pass", []), (" = 1", [])] ∧
    ¬ ShowsBlocks 0 emptyTarget := by
  refine ⟨by decide, by decide, fun h => ?_⟩
  have hruns := h.runs
  revert hruns
  decide

end Stmt

end StatContract
