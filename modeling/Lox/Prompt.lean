import Lox.Unicode.Classes

/-!
# The interactive prompt

Lines are collected into entries, and an entry is run as a whole.  A line that is indented or
starts with a word that opens a block keeps its entry open; any other line, a blank line or the
end of input closes it.
-/

namespace Lox

/-- The words that open a block. -/
def blockWords : List String := ["def", "class", "if", "elseif", "else", "fun"]

def isBlankText (text : List Char) : Bool := text.all Unicode.isWhitespace

/-- The word characters at the front of a line. -/
def firstWord (line : List Char) : List Char :=
  line.takeWhile fun c => Unicode.isAlphanumeric c || c == '_'

def isIndented (line : List Char) : Bool :=
  (line.head?.map Unicode.isWhitespace).getD false && !isBlankText line

/-- Whether a line keeps its entry open. -/
def continuesBlock (line : List Char) : Bool :=
  isIndented line || blockWords.contains (String.ofList (firstWord line))

/-- What is shown before a line is read. -/
def promptText (isOpen : Bool) : String :=
  if isOpen then "... " else ">>> "

/-- A line as it was read, without the characters that end it. -/
def trimLineEnd (line : List Char) : List Char :=
  (line.reverse.dropWhile fun c => c == '\n' || c == '\r').reverse

/-- A prompt keeps the lines of the entry that is not yet closed. -/
structure Prompt where
  entry : List Char

namespace Prompt

def start : Prompt := ⟨[]⟩

def isOpen (prompt : Prompt) : Bool := !prompt.entry.isEmpty

def text (prompt : Prompt) : String := promptText prompt.isOpen

/-- The entry so far, if there is one, closed. -/
def close (prompt : Prompt) : Option (List Char) × Prompt :=
  (if prompt.isOpen then some prompt.entry else none, start)

/-- Take a line, and hand out the entry that it closes. -/
def feed (line : List Char) (prompt : Prompt) : Option (List Char) × Prompt :=
  let text := trimLineEnd line
  if isBlankText text then prompt.close
  else
    let extended : Prompt := ⟨prompt.entry ++ text ++ ['\n']⟩
    if continuesBlock text then (none, extended) else extended.close

end Prompt

end Lox
