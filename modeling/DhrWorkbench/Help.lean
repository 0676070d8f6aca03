import DhrWorkbench.Catalog

/-!
# The help page

A page in Markdown: the constructs of the catalog by category, each category with constructs under
a title of its own, then an example program, the keyboard shortcuts and the first steps.
-/

namespace DhrWorkbench

namespace Help

/-- The title of a category's section. -/
def title : Category → Text
  | .entryPoint => "Program Entry - प्रोग्राम की शुरुआत"
  | .builtin => "Builtins - अंतर्निहित फ़ंक्शन"
  | .control => "Basic Keywords - मूलभूत शब्द"
  | .type => "Data Types - डेटा प्रकार"
  | .oop => "OOP Keywords - OOP शब्द"

def shortcuts : List (Text × Text) := [
  ("Run File - फ़ाइल चलाएं", "Ctrl+F5"),
  ("Compile File - फ़ाइल कंपाइल करें", "Ctrl+Shift+B"),
  ("Auto-completion - ऑटो-कंप्लीशन", "Ctrl+Space")]

def exampleProgram : List Text := [
  "// Simple DhrLang Program",
  "मुख्य() \x7b",
  "    संख्या age = 25;",
  "    स्ट्रिंग name = \"राहुल\";",
  "",
  "    प्रिंट(\"नाम: \" + name);",
  "    प्रिंट(\"उम्र: \" + age);",
  "",
  "    अगर (age >= 18) \x7b",
  "        प्रिंट(\"आप वयस्क हैं!\");",
  "    \x7d नहीं तो \x7b",
  "        प्रिंट(\"आप अभी बच्चे हैं!\");",
  "    \x7d",
  "\x7d"]

/-- The line of one construct. -/
def bullet (e : Entry) : Text := "- `" ++ e.label ++ "` - " ++ e.description

/-- The heading of a section. -/
def heading (name : Text) : List Text := ["## " ++ name, ""]

/-- The lines of a category's section, none when the catalog has no construct of it. -/
def sectionOf (catalog : Catalog) (category : Category) : List Text :=
  match catalog.ofCategory category with
  | [] => []
  | entries => heading (title category) ++ entries.map bullet ++ [[]]

def opening : List Text := [
  "# DhrLang Help - सहायता", "", "Programming in Hindi - हिंदी में प्रोग्रामिंग", ""]

def fence : Text := "```"

def shortcutLine (s : Text × Text) : Text := "- " ++ s.1 ++ ": `" ++ s.2 ++ "`"

def firstSteps : List Text := [
  "1. Create a new file with the `.dhr` extension",
  "2. Type `मुख्य` and accept the completion for the main function template",
  "3. Write your DhrLang code using Hindi keywords",
  "4. Press Ctrl+F5 to run your program"]

def closing : List Text :=
  heading "Example Program - उदाहरण प्रोग्राम" ++ [fence] ++ exampleProgram ++ [fence, []]
    ++ heading "Keyboard Shortcuts - कीबोर्ड शॉर्टकट" ++ shortcuts.map shortcutLine ++ [[]]
    ++ heading "Getting Started - शुरुआत करें" ++ firstSteps

/-- The lines of the page. -/
def lines (catalog : Catalog) : List Text :=
  opening ++ Category.all.flatMap (sectionOf catalog) ++ closing

end Help

/-- The help page of a catalog. -/
def Catalog.helpPage (catalog : Catalog) : Text :=
  (Help.lines catalog).flatMap fun line => line ++ "\n"

end DhrWorkbench
