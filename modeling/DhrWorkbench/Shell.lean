import DhrWorkbench.Text

/-!
# Shell text

A word is written for a shell as it is when all its code points are plain, and between single
quotes otherwise; a single quote inside is written between double quotes. So a shell reads back
the words that were written and finds nothing to expand.
-/

namespace DhrWorkbench

namespace Shell

def isAsciiWord (c : CodePoint) : Bool :=
  Text.within [48, 58, 65, 91, 95, 96, 97, 123] c.val

/-- The code points that mean nothing to a shell. -/
def isPlain (c : CodePoint) : Bool := isAsciiWord c || Text.has "@%+=:,./-" c

/-- One code point between single quotes. -/
def inQuotes (c : CodePoint) : Text := if c = '\'' then "'\"'\"'" else [c]

/-- A word as a shell reads it. -/
def quote (word : Text) : Text :=
  if word.isEmpty then "''"
  else if word.all isPlain then word
  else "'" ++ word.flatMap inQuotes ++ "'"

/-- A command as a shell reads it. -/
def command (words : List Text) : Text := Text.join " " (words.map quote)

/-- Two commands for a terminal: change the folder, then run. -/
def block (words : List Text) (folder : Text) : Text :=
  Text.join "\n" ["cd " ++ quote folder, command words]

end Shell

end DhrWorkbench
