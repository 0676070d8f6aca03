import DhrWorkbench.Catalog

/-!
# Completion

Every construct of the catalog is a candidate, in the order of the catalog and wherever the cursor
stands; matching candidates against what was typed is left to the editor.
-/

namespace DhrWorkbench

/-- The characters after which an editor asks for completion again. -/
def Completion.triggers : List Text := [".", "("]

/-- What is offered for insertion. -/
structure Candidate where
  label : Text
  kind : Text
  detail : Text
  documentation : Text
  insertText : Text
  plainText : Text
  category : Text

/-- Where completion was asked for. -/
structure QueryContext where
  cursorOffset : Nat := 0
  trigger : Option Text := none
  documentStart : Text := []

namespace Candidate

def ofEntry (e : Entry) : Candidate where
  label := e.label
  kind := e.icon
  detail := e.description
  documentation := "**" ++ e.label ++ "** - " ++ e.description
  insertText := e.template.text
  plainText := e.template.plain
  category := e.category.name

/-- The candidate as the editor receives it. -/
def toItem (c : Candidate) : Value := .object [
  ("label", .str c.label), ("insert_text", .str c.insertText), ("plain_text", .str c.plainText),
  ("kind", .str c.kind), ("detail", .str c.detail), ("documentation", .str c.documentation),
  ("category", .str c.category), ("source", .str "dhrlang"), ("source_scope", .str "language"),
  ("is_snippet", .bool true)]

end Candidate

/-- The candidates for a place; they do not depend on it. -/
def Catalog.complete (c : Catalog) (_context : QueryContext) : List Candidate :=
  c.entries.map Candidate.ofEntry

end DhrWorkbench
