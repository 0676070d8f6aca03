import DhrWorkbench.Shell
import Mathlib.Data.List.Basic

/-!
# Shell text is read back as it was meant

`commandsOf` reads a text as a shell does before it expands anything: blanks end words, newlines end
commands, a backslash and both kinds of quotes keep what they cover from the shell. It remembers of
each code point whether it was covered. What `block` writes is read as two commands, the change of
the folder and the command itself, and whatever a shell could act on is covered (`block_read_back`).
-/

namespace DhrWorkbench

namespace Shell

/-! ## How a shell reads -/

/-- A code point of a word and whether it is kept from the shell. -/
structure Glyph where
  point : CodePoint
  covered : Bool
  deriving DecidableEq

/-- A word before anything in it is expanded. -/
abbrev Word := List Glyph

def Word.text (w : Word) : Text := w.map Glyph.point

/-- What the reader stands in. -/
inductive Quoting
  | bare
  | escaped
  | single
  | double
  | doubleEscaped
  | comment
  deriving DecidableEq

/-- A shell that has read a part of a text: the commands and words it has finished, and the word it
is in, if any. -/
structure Reader where
  commands : List (List Word)
  words : List Word
  word : Option Word
  quoting : Quoting

namespace Reader

def start : Reader := ⟨[], [], none, .bare⟩

def enter (r : Reader) (quoting : Quoting) : Reader := { r with quoting }

/-- Begins a word unless the reader is in one. -/
def begin (r : Reader) : Reader := { r with word := some (r.word.getD []) }

def add (r : Reader) (c : CodePoint) (covered : Bool) : Reader :=
  { r with word := some (r.word.getD [] ++ [⟨c, covered⟩]) }

def endWord (r : Reader) : Reader :=
  match r.word with
  | none => r
  | some w => { r with words := r.words ++ [w], word := none }

/-- Ends the command, if there is one. -/
def endCommand (r : Reader) : Reader :=
  let r := r.endWord
  if r.words.isEmpty then r else { r with commands := r.commands ++ [r.words], words := [] }

def stepBare (r : Reader) (c : CodePoint) : Reader :=
  if c = ' ' ∨ c = '\t' then r.endWord
  else if c = '\n' then r.endCommand
  else if c = '\'' then r.begin.enter .single
  else if c = '"' then r.begin.enter .double
  else if c = '\\' then r.enter .escaped
  else if c = '#' ∧ r.word = none then r.enter .comment
  else r.add c false

/-- Reads one code point. Between double quotes a dollar sign and a backquote still act, and a
backslash covers only what would act there. -/
def step (r : Reader) (c : CodePoint) : Reader :=
  match r.quoting with
  | .bare => r.stepBare c
  | .escaped => if c = '\n' then r.enter .bare else (r.add c true).enter .bare
  | .single => if c = '\'' then r.enter .bare else r.add c true
  | .double =>
    if c = '"' then r.enter .bare
    else if c = '\\' then r.enter .doubleEscaped
    else r.add c (!Text.has "$`" c)
  | .doubleEscaped =>
    if c = '\n' then r.enter .double
    else if Text.has "$`\"\\" c then (r.add c true).enter .double
    else ((r.add '\\' true).add c true).enter .double
  | .comment => if c = '\n' then r.endCommand.enter .bare else r

def run (r : Reader) (t : Text) : Reader := t.foldl step r

/-- The commands of a text that has been read, unless it ends between quotes. -/
def finish (r : Reader) : Option (List (List Word)) :=
  match r.quoting with
  | .bare | .comment => some r.endCommand.commands
  | _ => none

end Reader

/-- The commands of a text, each the list of its words. -/
def commandsOf (t : Text) : Option (List (List Word)) := (Reader.start.run t).finish

example : (commandsOf "a \"$b\" c#d\\\ne\n\n# f 'g\nh").map (·.map (·.map Word.text))
    = some [["a", "$b", "c#de"].map Text.ofString, ["h"].map Text.ofString] := by decide

example : commandsOf "a 'b" = none := by decide

/-- The code points on which a shell acts unless they are covered: those that separate, that join
commands, that quote, and that begin an expansion or a comment. -/
def active : Text := " \t\n|&;<>()$`\\\"'*?[]#~!\x7b\x7d^"

/-! ## Words -/

/-- What a shell reads where a word was written: all of it is covered or nothing. -/
def glyphs (word : Text) : Word := word.map fun c => ⟨c, !word.all isPlain⟩

theorem text_glyphs (word : Text) : (glyphs word).text = word := by
  simp [glyphs, Word.text, Function.comp_def]

theorem notMem_active {c : CodePoint} (h : isPlain c) : c ∉ active := by
  have hall : active.all (!isPlain ·) := by decide
  intro hc
  have hplain := List.all_eq_true.1 hall c hc
  simp [h] at hplain

/-- In a word that was written, what is not covered is plain. -/
theorem covered_of_mem_active {word : Text} {g : Glyph} (hg : g ∈ glyphs word)
    (ha : g.point ∈ active) : g.covered := by
  obtain ⟨c, hc, rfl⟩ := List.mem_map.1 hg
  by_contra hcovered
  have hall : word.all isPlain := by simpa using hcovered
  exact notMem_active (List.all_eq_true.1 hall c hc) ha

namespace Reader

theorem run_append (r : Reader) (s t : Text) : r.run (s ++ t) = (r.run s).run t :=
  List.foldl_append

theorem run_cons (r : Reader) (c : CodePoint) (t : Text) : r.run (c :: t) = (r.step c).run t := rfl

/-- The reader with a text added to its word. -/
def extend (r : Reader) (t : Text) (covered : Bool) : Reader :=
  { r with word := some (r.word.getD [] ++ t.map fun c => ⟨c, covered⟩) }

theorem extend_add (r : Reader) (c : CodePoint) (t : Text) (covered : Bool) :
    (r.add c covered).extend t covered = r.extend (c :: t) covered := by
  simp [extend, add]

theorem step_plain {r : Reader} (hr : r.quoting = .bare) {c : CodePoint} (hc : isPlain c) :
    r.step c = r.add c false := by
  have hne : ∀ d : Char, CodePoint.ofChar d ∈ active → c ≠ CodePoint.ofChar d := by
    rintro d hd rfl
    exact notMem_active hc hd
  unfold step
  rw [hr]
  change r.stepBare c = _
  unfold stepBare
  rw [if_neg (not_or.2 ⟨hne ' ' (by decide), hne '\t' (by decide)⟩),
    if_neg (hne '\n' (by decide)), if_neg (hne '\'' (by decide)), if_neg (hne '"' (by decide)),
    if_neg (hne '\\' (by decide)), if_neg (fun h => hne '#' (by decide) h.1)]

theorem run_plain : ∀ {t : Text} {r : Reader}, r.quoting = .bare → t ≠ [] → t.all isPlain →
    r.run t = r.extend t false
  | [], _, _, hne, _ => absurd rfl hne
  | [c], r, hr, _, hall => by
    have hc : isPlain c := by simpa using hall
    rw [run_cons, step_plain hr hc]
    rfl
  | c :: d :: t, r, hr, _, hall => by
    obtain ⟨hc, hrest⟩ : isPlain c ∧ (d :: t).all isPlain := by simpa using hall
    rw [run_cons, step_plain hr hc, run_plain (r := r.add c false) hr (by simp) hrest, extend_add]

/-- A code point between single quotes is added to the word, covered, whether it is written as it
is or is itself a single quote and leaves the quotes for a while. -/
theorem run_inQuotes {r : Reader} (hr : r.quoting = .single) (c : CodePoint) :
    r.run (inQuotes c) = r.add c true := by
  obtain ⟨commands, words, word, quoting⟩ := r
  obtain rfl : quoting = .single := hr
  unfold inQuotes
  split
  · rename_i hc
    subst hc
    rfl
  · rename_i hc
    change (if c = '\'' then _ else _) = _
    rw [if_neg hc]

theorem run_flatMap_inQuotes : ∀ {t : Text} {r : Reader}, r.quoting = .single →
    r.begin.run (t.flatMap inQuotes) = r.extend t true
  | [], r, _ => by simp [run, begin, extend]
  | c :: t, r, hr => by
    have ih := run_flatMap_inQuotes (t := t) (r := r.add c true) hr
    rw [extend_add] at ih
    rw [List.flatMap_cons, run_append, run_inQuotes (r := r.begin) hr]
    exact ih

/-- A written word is read as one word. -/
theorem run_quote {r : Reader} (hr : r.quoting = .bare) (hword : r.word = none) (word : Text) :
    r.run (quote word) = { r with word := some (glyphs word) } := by
  obtain ⟨commands, words, _, _⟩ := r
  subst hr hword
  unfold quote
  split_ifs with hempty hall
  · obtain rfl : word = [] := by simpa using hempty
    rfl
  · rw [run_plain rfl (by simpa using hempty) hall]
    simp [extend, glyphs, hall]
  · have hopen : Reader.run ⟨commands, words, none, .bare⟩ (Text.ofString "'")
        = Reader.begin ⟨commands, words, none, .single⟩ := rfl
    have hcovered : glyphs word = word.map fun c => ⟨c, true⟩ := by simp [glyphs, hall]
    rw [run_append, run_append, hopen, run_flatMap_inQuotes rfl, hcovered]
    rfl

theorem quoting_endWord (r : Reader) : r.endWord.quoting = r.quoting := by
  unfold endWord
  split <;> rfl

theorem run_space {r : Reader} (hr : r.quoting = .bare) :
    r.run (Text.ofString " ") = r.endWord := by
  obtain ⟨commands, words, word, quoting⟩ := r
  obtain rfl : quoting = .bare := hr
  rfl

theorem run_newline {r : Reader} (hr : r.quoting = .bare) :
    r.run (Text.ofString "\n") = r.endCommand := by
  obtain ⟨commands, words, word, quoting⟩ := r
  obtain rfl : quoting = .bare := hr
  rfl

/-- A written command is read as its words, of which the last has yet to end. -/
theorem endWord_run_command (commands : List (List Word)) :
    ∀ (words : List Text) (done : List Word),
      (run ⟨commands, done, none, .bare⟩ (command words)).endWord
        = ⟨commands, done ++ words.map glyphs, none, .bare⟩
  | [], done => by simp [command, Text.join, run, endWord]
  | [word], done => by
    have hword := run_quote (r := ⟨commands, done, none, .bare⟩) rfl rfl word
    simp [command, Text.join, hword, endWord]
  | word :: next :: rest, done => by
    have hword := run_quote (r := ⟨commands, done, none, .bare⟩) rfl rfl word
    have ih := endWord_run_command commands (next :: rest) (done ++ [glyphs word])
    have hjoin : command (word :: next :: rest)
        = quote word ++ (Text.ofString " " ++ command (next :: rest)) := rfl
    rw [hjoin, run_append, hword, run_append, run_space rfl]
    change (run ⟨commands, done ++ [glyphs word], none, .bare⟩ _).endWord = _
    rw [ih]
    simp

theorem quoting_run_command (commands : List (List Word)) (words : List Text) :
    (run ⟨commands, [], none, .bare⟩ (command words)).quoting = .bare := by
  rw [← quoting_endWord, endWord_run_command]

theorem endCommand_run_command (commands : List (List Word)) (words : List Text)
    (hwords : words ≠ []) : (run ⟨commands, [], none, .bare⟩ (command words)).endCommand
      = ⟨commands ++ [words.map glyphs], [], none, .bare⟩ := by
  unfold endCommand
  rw [endWord_run_command]
  simp [hwords]

end Reader

/-! ## The text for a terminal -/

theorem block_eq (words : List Text) (folder : Text) :
    block words folder = command ["cd", folder] ++ (Text.ofString "\n" ++ command words) := rfl

theorem commandsOf_block {words : List Text} (hwords : words ≠ []) (folder : Text) :
    commandsOf (block words folder)
      = some [[Text.ofString "cd", folder].map glyphs, words.map glyphs] := by
  have hfirst := Reader.endCommand_run_command [] ["cd", folder] (by simp)
  have hsecond :=
    Reader.endCommand_run_command [[Text.ofString "cd", folder].map glyphs] words hwords
  unfold commandsOf
  rw [block_eq, Reader.run_append, Reader.run_append, Reader.start,
    Reader.run_newline (Reader.quoting_run_command _ _), hfirst, Reader.finish,
    List.nil_append, Reader.quoting_run_command]
  simp only [hsecond]
  rfl

/-- What is written for a terminal is read as two commands, the change of the folder and the
command, word for word, and all in them that a shell acts on is covered. -/
theorem block_read_back (words : List Text) (folder : Text) (hwords : words ≠ []) :
    ∃ commands, commandsOf (block words folder) = some commands
      ∧ commands.map (·.map Word.text) = [[Text.ofString "cd", folder], words]
      ∧ ∀ c ∈ commands, ∀ w ∈ c, ∀ g ∈ w, g.point ∈ active → g.covered := by
  refine ⟨_, commandsOf_block hwords folder, ?_, fun c hc w hw g hg ha => ?_⟩
  · simp [Function.comp_def, text_glyphs]
  · obtain ⟨word, rfl⟩ : ∃ word, w = glyphs word := by
      rcases List.mem_cons.1 hc with rfl | hc
      · obtain ⟨word, -, rfl⟩ := List.mem_map.1 hw
        exact ⟨word, rfl⟩
      · obtain rfl := List.mem_singleton.1 hc
        obtain ⟨word, -, rfl⟩ := List.mem_map.1 hw
        exact ⟨word, rfl⟩
    exact covered_of_mem_active hg ha

/-- A command with an empty word and with words that a shell would take apart or expand. -/
def trickyWords : List Text := ["java", "", "it's $HOME; `ls`\n#", "\"~\"", "घर"]

def trickyFolder : Text := "~/a 'b'"

theorem trickyWords_read_back : trickyWords ≠ []
    ∧ ∃ commands, commandsOf (block trickyWords trickyFolder) = some commands
      ∧ commands.map (·.map Word.text) = [[Text.ofString "cd", trickyFolder], trickyWords]
      ∧ ∀ c ∈ commands, ∀ w ∈ c, ∀ g ∈ w, g.point ∈ active → g.covered :=
  ⟨by simp [trickyWords], block_read_back trickyWords trickyFolder (by simp [trickyWords])⟩

end Shell

end DhrWorkbench
