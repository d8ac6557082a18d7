import Lox.Unicode.Classes
import Lox.Error

/-!
# From text to tokens

Source text is read from left to right.  Each step takes one piece off the front of it: a gap
(blanks or a comment), the longest token that starts there, or a character or open string that
belongs to no token.  Every step shortens the text, so reading ends, and the lines are counted
as they are passed.
-/

namespace Lox

/-- What reading text yields, in the order of the text. -/
inductive Scanned where
  | token (token : Token)
  | fault (error : Error)

namespace Scanned

def token? : Scanned → Option Token
  | token t => some t
  | fault _ => none

def error? : Scanned → Option Error
  | token _ => none
  | fault error => some error

end Scanned

namespace Token

/-- One piece off the front of a text: its item if it is no gap, what follows, and its line. -/
structure Piece where
  item : Option Scanned
  rest : List Char
  line : Nat

def isBlank (c : Char) : Bool :=
  c == ' ' || c == '\r' || c == '\t'

/-- Characters that are a token by themselves, whatever follows. -/
def single? : Char → Option Kind
  | '(' => some .leftParen
  | ')' => some .rightParen
  | '\x7b' => some .leftBrace
  | '\x7d' => some .rightBrace
  | ',' => some .comma
  | '.' => some .dot
  | '-' => some .minus
  | '+' => some .plus
  | ';' => some .semicolon
  | '*' => some .star
  | _ => none

/-- Characters that are one token alone and another when `=` follows. -/
def paired? : Char → Option (Kind × Kind)
  | '!' => some (.bang, .bangEqual)
  | '=' => some (.equal, .equalEqual)
  | '>' => some (.greater, .greaterEqual)
  | '<' => some (.less, .lessEqual)
  | _ => none

def isWordStart (c : Char) : Bool :=
  Unicode.isAlphabetic c || c == '_'

def isWordPart (c : Char) : Bool :=
  Unicode.isAlphanumeric c || c == '_'

def newlines (text : List Char) : Nat :=
  text.count '\n'

/-- The text after a line comment; the newline that ends it stays. -/
def afterLineComment (text : List Char) : List Char :=
  text.dropWhile (· != '\n')

/--
The text after a block comment inside `depth` others, and its line.  Comments nest; one that is
never closed takes the rest of the text.
-/
def afterBlockComment (depth line : Nat) : List Char → Nat × List Char
  | [] => (line, [])
  | '/' :: '*' :: rest => afterBlockComment (depth + 1) line rest
  | '*' :: '/' :: rest =>
    match depth with
    | 0 => (line, rest)
    | outer + 1 => afterBlockComment outer line rest
  | c :: rest => afterBlockComment depth (if c = '\n' then line + 1 else line) rest

/-- The value of a reserved word that is a literal. -/
def wordLiteral? : Kind → Option Literal
  | .trueWord => some (.bool true)
  | .falseWord => some (.bool false)
  | .nilWord => some .nil
  | _ => none

/-- The token of a whole word, reserved or not. -/
def ofWord (line : Nat) (word : List Char) : Token :=
  let kind := (Kind.ofWord? word).getD .identifier
  ⟨kind, String.ofList word, wordLiteral? kind, line⟩

/-- The token of a number with the given digits before the point and, if there is one, after. -/
def ofNumber (line : Nat) (whole : List Char) : Option (List Char) → Token
  | none => ⟨.number, String.ofList whole, some (.number (Decimal.ofDigits whole [])), line⟩
  | some fraction =>
    ⟨.number, String.ofList (whole ++ '.' :: fraction),
      some (.number (Decimal.ofDigits whole fraction)), line⟩

/-- The token of a string with the given characters between its quotes. -/
def ofString (line : Nat) (inside : List Char) : Token :=
  ⟨.string, String.ofList ('"' :: inside ++ ['"']), some (.string (String.ofList inside)), line⟩

/-- The piece that starts with a digit: a point belongs to it only if a digit follows. -/
def numberPiece (line : Nat) (c : Char) (rest : List Char) : Piece :=
  match rest.dropWhile Unicode.isDigit with
  | '.' :: d :: more =>
    if Unicode.isDigit d then
      ⟨some (.token (ofNumber line (c :: rest.takeWhile Unicode.isDigit)
          (some (d :: more.takeWhile Unicode.isDigit)))),
        more.dropWhile Unicode.isDigit, line⟩
    else
      ⟨some (.token (ofNumber line (c :: rest.takeWhile Unicode.isDigit) none)),
        '.' :: d :: more, line⟩
  | after => ⟨some (.token (ofNumber line (c :: rest.takeWhile Unicode.isDigit) none)), after, line⟩

/-- The piece that starts with a quote; its token carries the line of that quote. -/
def stringPiece (line : Nat) (rest : List Char) : Piece :=
  match rest.dropWhile (· != '"') with
  | [] =>
    ⟨some (.fault (.lexical (line + newlines rest) .unterminatedString)), [], line + newlines rest⟩
  | _ :: after =>
    ⟨some (.token (ofString line (rest.takeWhile (· != '"')))), after,
      line + newlines (rest.takeWhile (· != '"'))⟩

/-- The piece that starts with a slash: a comment, or the operator. -/
def slashPiece (line : Nat) : List Char → Piece
  | '/' :: rest => ⟨none, afterLineComment rest, line⟩
  | '*' :: rest =>
    match afterBlockComment 0 line rest with
    | (last, after) => ⟨none, after, last⟩
  | rest => ⟨some (.token ⟨.slash, "/", none, line⟩), rest, line⟩

/-- The piece that starts with `c`, on the given line. -/
def piece (line : Nat) (c : Char) (rest : List Char) : Piece :=
  if c = '\n' then ⟨none, rest, line + 1⟩
  else if isBlank c then ⟨none, rest, line⟩
  else match single? c with
  | some kind => ⟨some (.token ⟨kind, String.ofList [c], none, line⟩), rest, line⟩
  | none =>
    match paired? c with
    | some (alone, withEqual) =>
      match rest with
      | '=' :: after =>
        ⟨some (.token ⟨withEqual, String.ofList [c, '='], none, line⟩), after, line⟩
      | _ => ⟨some (.token ⟨alone, String.ofList [c], none, line⟩), rest, line⟩
    | none =>
      if c = '/' then slashPiece line rest
      else if c = '"' then stringPiece line rest
      else if Unicode.isDigit c then numberPiece line c rest
      else if isWordStart c then
        ⟨some (.token (ofWord line (c :: rest.takeWhile isWordPart))),
          rest.dropWhile isWordPart, line⟩
      else ⟨some (.fault (.lexical line .unexpectedCharacter)), rest, line⟩

theorem length_dropWhile_le {α : Type} (p : α → Bool) (l : List α) :
    (l.dropWhile p).length ≤ l.length :=
  (List.dropWhile_suffix p).length_le

theorem length_afterBlockComment_le (depth line : Nat) (text : List Char) :
    (afterBlockComment depth line text).2.length ≤ text.length := by
  fun_induction afterBlockComment depth line text <;> grind

theorem length_numberPiece_le (line : Nat) (c : Char) (rest : List Char) :
    (numberPiece line c rest).rest.length ≤ rest.length := by
  have whole := length_dropWhile_le Unicode.isDigit rest
  unfold numberPiece
  split
  · next d more after =>
    have fraction := length_dropWhile_le Unicode.isDigit more
    rw [after] at whole
    split <;> grind
  · exact whole

theorem length_stringPiece_le (line : Nat) (rest : List Char) :
    (stringPiece line rest).rest.length ≤ rest.length := by
  have inside := length_dropWhile_le (· != '"') rest
  unfold stringPiece
  split
  · simp
  · next after =>
    rw [after] at inside
    grind

theorem length_slashPiece_le (line : Nat) (rest : List Char) :
    (slashPiece line rest).rest.length ≤ rest.length := by
  unfold slashPiece
  split
  · have := length_dropWhile_le (· != '\n') ‹List Char›
    grind [afterLineComment]
  · have := length_afterBlockComment_le 0 line ‹List Char›
    grind
  · exact Nat.le_refl _

/-- Every piece holds at least the character that it starts with. -/
theorem length_piece_le (line : Nat) (c : Char) (rest : List Char) :
    (piece line c rest).rest.length ≤ rest.length := by
  unfold piece
  split
  · exact Nat.le_refl _
  split
  · exact Nat.le_refl _
  split
  · exact Nat.le_refl _
  split
  · split <;> simp
  split
  · exact length_slashPiece_le line rest
  split
  · exact length_stringPiece_le line rest
  split
  · exact length_numberPiece_le line c rest
  split
  · exact length_dropWhile_le isWordPart rest
  · exact Nat.le_refl _

/-- The items of a text that starts on the given line; the last is the end token. -/
def scanFrom (line : Nat) : List Char → List Scanned
  | [] => [.token (endOn line)]
  | c :: rest =>
    match _taken : piece line c rest with
    | ⟨some item, after, next⟩ => item :: scanFrom next after
    | ⟨none, after, next⟩ => scanFrom next after
termination_by text => text.length
decreasing_by
  all_goals
    have shorter := length_piece_le line c rest
    rw [_taken] at shorter
    exact Nat.lt_succ_of_le shorter

/-- Tokens and lexical faults of a source text, in order, up to its end token. -/
def scan (source : String) : List Scanned :=
  scanFrom 1 source.toList

/-- The tokens of a source text, whatever its lexical faults. -/
def ofSource (source : String) : List Token :=
  (scan source).filterMap Scanned.token?

/-- The lexical faults of a source text. -/
def lexicalErrors (source : String) : List Error :=
  (scan source).filterMap Scanned.error?

end Token

end Lox
