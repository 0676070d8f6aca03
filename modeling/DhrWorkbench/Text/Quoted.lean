import DhrWorkbench.Text
import DhrWorkbench.Text.Printable

/-!
# Quoted texts

A quoted text shows a text on one line of printable code points. It stands in single quotes,
unless the text has a single quote and no double one; the quote in use and the backslash get a
backslash, tab, newline and carriage return their letters, and every other code point that is not
printable its number in the fewest of two, four or eight hexadecimal digits.
-/

namespace DhrWorkbench

namespace Text

/-- The quote a text is put in. -/
def quoteFor (t : Text) : CodePoint :=
  if t.any (· = '\'') && !t.any (· = '"') then '"' else '\''

/-- The form of one code point between quotes. -/
def escaped (quote c : CodePoint) : Text :=
  if c = quote ∨ c = '\\' then ['\\', c]
  else if c = '\t' then "\\t"
  else if c = '\n' then "\\n"
  else if c = '\r' then "\\r"
  else if isPrintable c then [c]
  else if c.val < 0x100 then "\\x" ++ hex 2 c.val
  else if c.val < 0x10000 then "\\u" ++ hex 4 c.val
  else "\\U" ++ hex 8 c.val

def quoted (t : Text) : Text :=
  [quoteFor t] ++ t.flatMap (escaped (quoteFor t)) ++ [quoteFor t]

end Text

end DhrWorkbench
