import DhrWorkbench.Text

/-!
# Blanks

The code points that count as white space (Unicode 14), among them the four information
separators U+001C to U+001F, and the trimming of a text.
-/

namespace DhrWorkbench

namespace Text

/-- The ranges of white space. -/
def blankBounds : List Nat :=
  [9, 14, 28, 33, 133, 134, 160, 161, 5760, 5761, 8192, 8203, 8232, 8234, 8239, 8240, 8287,
   8288, 12288, 12289]

def isBlank (c : CodePoint) : Bool := within blankBounds c.val

/-- A text without the blanks at its two ends. -/
def strip (t : Text) : Text := trim isBlank t

end Text

end DhrWorkbench
