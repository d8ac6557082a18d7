import Mathlib.Tactic.FinCases
import Mathlib.Tactic.IntervalCases
import Lox.Proofs.Move.Scanning

/-!
# What a source text is made of

The pieces of a source text as a grammar: how the tokens of each kind are written, what is skipped
between them, and what is a fault.  A piece is told by its own characters and by those that follow
it, since of several tokens that start in one place the longest one stands there.
-/

namespace Lox

/-- How the tokens that are written with other signs than letters, digits and quotes look. -/
def Kind.symbol : Kind → List Char
  | .leftParen => ['(']
  | .rightParen => [')']
  | .leftBrace => ['\x7b']
  | .rightBrace => ['\x7d']
  | .comma => [',']
  | .dot => ['.']
  | .minus => ['-']
  | .plus => ['+']
  | .semicolon => [';']
  | .slash => ['/']
  | .star => ['*']
  | .bang => ['!']
  | .bangEqual => ['!', '=']
  | .equal => ['=']
  | .equalEqual => ['=', '=']
  | .greater => ['>']
  | .greaterEqual => ['>', '=']
  | .less => ['<']
  | .lessEqual => ['<', '=']
  | _ => []

namespace Token

/-! ## Tokens -/

/-- A word: a letter or an underscore, and then any number of these and of numerals. -/
structure IsWord (word : List Char) : Prop where
  start : word.head?.any isWordStart = true
  parts : ∀ c ∈ word.tail, isWordPart c = true

/-- Some digits, at least one. -/
structure IsDigits (digits : List Char) : Prop where
  nonempty : digits ≠ []
  all : ∀ c ∈ digits, Unicode.isDigit c = true

/-- The texts that are tokens, with the kinds of these and the values that they carry. -/
inductive Lexeme : Kind → List Char → Option Literal → Prop where
  | symbol {kind : Kind} (written : kind.symbol ≠ []) : Lexeme kind kind.symbol none
  | reserved {kind : Kind} (isWord : kind.isWord = true) :
      Lexeme kind kind.spelling (wordLiteral? kind)
  | identifier {word : List Char} (isWord : IsWord word)
      (unreserved : ∀ kind : Kind, kind.isWord = true → word ≠ kind.spelling) :
      Lexeme .identifier word none
  | whole {digits : List Char} (areDigits : IsDigits digits) :
      Lexeme .number digits (some (.number (Decimal.ofDigits digits [])))
  | decimal {whole fraction : List Char} (beforePoint : IsDigits whole)
      (afterPoint : IsDigits fraction) :
      Lexeme .number (whole ++ '.' :: fraction)
        (some (.number (Decimal.ofDigits whole fraction)))
  | string {inside : List Char} (closed : '"' ∉ inside) :
      Lexeme .string ('"' :: inside ++ ['"']) (some (.string (String.ofList inside)))

/-! ## Comments -/

/-- A text starts with a comment, and not with the sign for division. -/
def StartsComment (text : List Char) : Prop :=
  ['/', '/'] <+: text ∨ ['/', '*'] <+: text

/--
The inside of a block comment, in front of what follows.  The comments in it are closed in it, and
outside of these it neither opens nor closes a comment.
-/
inductive Enclosed : List Char → List Char → Prop where
  | nil (after : List Char) : Enclosed [] after
  | char {c : Char} {inside after : List Char} (rest : Enclosed inside after)
      (opensNone : ¬ ['/', '*'] <+: c :: (inside ++ after))
      (closesNone : ¬ ['*', '/'] <+: c :: (inside ++ after)) : Enclosed (c :: inside) after
  | comment {inner inside after : List Char}
      (nested : Enclosed inner ('*' :: '/' :: (inside ++ after))) (rest : Enclosed inside after) :
      Enclosed ('/' :: '*' :: (inner ++ '*' :: '/' :: inside)) after

/-- What is skipped, in front of what follows. -/
inductive Gap : List Char → List Char → Prop where
  | blank {c : Char} (isBlank : c ∈ [' ', '\t', '\r', '\n']) (after : List Char) : Gap [c] after
  | line {inside after : List Char} (within : '\n' ∉ inside)
      (ends : after.head?.all (· == '\n') = true) : Gap ('/' :: '/' :: inside) after
  | block {inside after : List Char} (enclosed : Enclosed inside ('*' :: '/' :: after)) :
      Gap ('/' :: '*' :: (inside ++ ['*', '/'])) after
  /-- A block comment that is not closed goes on to the end of the text. -/
  | openBlock {text : List Char} (unclosed : ∀ inside after,
      text = inside ++ '*' :: '/' :: after → ¬ Enclosed inside ('*' :: '/' :: after)) :
      Gap ('/' :: '*' :: text) []

/-! ## Pieces of a source -/

/-- A piece of a source, and the item that it yields. -/
structure Segment where
  text : List Char
  item : Option Scanned

/-- No token at the front of a text and what follows is longer than that text. -/
def Longest (text after : List Char) : Prop :=
  ∀ {kind : Kind} {longer : List Char} {literal : Option Literal},
    Lexeme kind longer literal → longer <+: text ++ after → longer.length ≤ text.length

/-- A piece is what stands in its place, between the text before and the text after it. -/
inductive Segment.Fits (before after : List Char) : Segment → Prop where
  | gap {text : List Char} (skipped : Gap text after) : Fits before after ⟨text, none⟩
  | token {text : List Char} {kind : Kind} {literal : Option Literal}
      (lexeme : Lexeme kind text literal) (longest : Longest text after)
      (noComment : ¬ StartsComment (text ++ after)) :
      Fits before after
        ⟨text, some (.token ⟨kind, String.ofList text, literal, 1 + newlines before⟩)⟩
  | unexpected {c : Char}
      (noToken : ∀ {kind : Kind} {text : List Char} {literal : Option Literal},
        Lexeme kind text literal → ¬ text <+: c :: after)
      (noGap : ∀ {text rest : List Char}, Gap text rest → text ++ rest ≠ c :: after)
      (noString : c ≠ '"') :
      Fits before after
        ⟨[c], some (.fault (.lexical (1 + newlines before) .unexpectedCharacter))⟩
  | unterminated {inside : List Char} (notClosed : '"' ∉ inside) (last : after = []) :
      Fits before after
        ⟨'"' :: inside,
          some (.fault (.lexical (1 + newlines (before ++ '"' :: inside)) .unterminatedString))⟩

/-- A source taken apart into pieces, each of which stands in its place. -/
structure Partition (source : List Char) (segments : List Segment) : Prop where
  /-- No character is lost, doubled or moved. -/
  covers : segments.flatMap Segment.text = source
  fits : ∀ front segment back, segments = front ++ segment :: back →
    segment.Fits (front.flatMap Segment.text) (back.flatMap Segment.text)

/-! ## Digits -/

theorem mem_of_isDigit {c : Char} (isDigit : Unicode.isDigit c = true) :
    c ∈ ['0', '1', '2', '3', '4', '5', '6', '7', '8', '9'] := by
  obtain ⟨least, most⟩ := Bool.and_eq_true_iff.mp isDigit
  have least : 48 ≤ c.toNat := of_decide_eq_true least
  have most : c.toNat ≤ 57 := of_decide_eq_true most
  rw [← Char.ofNat_toNat c]
  generalize c.toNat = code at least most
  interval_cases code <;> decide

theorem piece_of_isDigit {c : Char} (isDigit : Unicode.isDigit c = true) (line : Nat)
    (rest : List Char) : piece line c rest = numberPiece line c rest := by
  have digits := mem_of_isDigit isDigit
  fin_cases digits <;> rfl

/-! ## Comments are counted -/

/-- The inside of a comment is passed over at whatever depth it stands. -/
theorem Enclosed.afterBlockComment_eq {inside after : List Char} (enclosed : Enclosed inside after)
    (depth line : Nat) :
    ∃ last,
      afterBlockComment depth line (inside ++ after) = afterBlockComment depth last after := by
  induction enclosed generalizing depth line with
  | nil after => exact ⟨line, rfl⟩
  | @char c inside after rest opensNone closesNone ih =>
      obtain ⟨last, passed⟩ := ih depth (if c = '\n' then line + 1 else line)
      refine ⟨last, passed ▸ ?_⟩
      rw [List.cons_append, afterBlockComment]
      · intro more isSlash follows
        exact opensNone ⟨more, by rw [isSlash, follows]; rfl⟩
      · intro more isStar follows
        exact closesNone ⟨more, by rw [isStar, follows]; rfl⟩
  | @comment inner inside after nested rest ihNested ih =>
      obtain ⟨closing, passed⟩ := ihNested (depth + 1) line
      obtain ⟨last, passed'⟩ := ih depth closing
      refine ⟨last, ?_⟩
      simp only [List.cons_append, List.append_assoc, afterBlockComment]
      rw [passed, afterBlockComment, passed']

theorem Enclosed.closesComment_eq {inside after : List Char} (enclosed : Enclosed inside after)
    (depth : Nat) : closesComment depth (inside ++ after) = closesComment depth after := by
  induction enclosed generalizing depth with
  | nil after => rfl
  | @char c inside after rest opensNone closesNone ih =>
      rw [← ih depth, List.cons_append, closesComment]
      · intro more isSlash follows
        exact opensNone ⟨more, by rw [isSlash, follows]; rfl⟩
      · intro more isStar follows
        exact closesNone ⟨more, by rw [isStar, follows]; rfl⟩
  | @comment inner inside after nested rest ihNested ih =>
      simp only [List.cons_append, List.append_assoc, closesComment]
      rw [ihNested (depth + 1), closesComment, ih depth]

/-- A text that closes a comment starts with the inside of it. -/
theorem exists_enclosed {depth : Nat} {text : List Char}
    (closes : closesComment depth text = true) :
    ∃ inside after, text = inside ++ '*' :: '/' :: after ∧
      Enclosed inside ('*' :: '/' :: after) ∧
      ∀ outer, depth = outer + 1 → closesComment outer after = true := by
  induction size : text.length using Nat.strongRecOn generalizing depth text with
  | ind size ih =>
      subst size
      fun_cases closesComment depth text with
      | case1 => cases closes
      | case2 depth rest =>
          -- A comment inside is closed first, and then the one that is looked at.
          have closes : closesComment (depth + 1) rest = true := closes
          obtain ⟨inner, more, rfl, nested, further⟩ :=
            ih rest.length (Nat.lt_add_of_pos_right Nat.two_pos) closes rfl
          obtain ⟨inside, after, rfl, enclosed, outward⟩ :=
            ih more.length (by simp; omega) (further depth rfl) rfl
          exact ⟨_, after, by simp, .comment nested enclosed, outward⟩
      | case3 rest => exact ⟨[], rest, rfl, .nil _, fun outer isDeeper => nomatch isDeeper⟩
      | case4 rest outer =>
          refine ⟨[], rest, rfl, .nil _, fun outer' isDeeper => ?_⟩
          cases isDeeper
          exact closes
      | case5 depth c rest notOpen notClose =>
          rw [closesComment] at closes
          · obtain ⟨inside, after, rfl, enclosed, outward⟩ := ih rest.length (by simp) closes rfl
            refine ⟨c :: inside, after, rfl, .char enclosed ?_ ?_, outward⟩
            · rintro ⟨more, same⟩
              obtain ⟨isSlash, follows⟩ := List.cons.inj same
              exact notOpen more isSlash.symm follows.symm
            · rintro ⟨more, same⟩
              obtain ⟨isStar, follows⟩ := List.cons.inj same
              exact notClose more isStar.symm follows.symm
          · exact notOpen
          · exact notClose

/-- Behind a comment that is not closed nothing is left. -/
theorem afterBlockComment_of_open {depth : Nat} (line : Nat) {text : List Char}
    (isOpen : closesComment depth text = false) : (afterBlockComment depth line text).2 = [] := by
  fun_induction afterBlockComment depth line text with
  | case1 depth line => rfl
  | case2 depth line rest ih => exact ih isOpen
  | case3 line rest => cases isOpen
  | case4 line rest outer ih => exact ih isOpen
  | case5 depth line c rest notOpen notClose ih =>
      rw [closesComment] at isOpen
      · exact ih isOpen
      · exact notOpen
      · exact notClose

/-- A block comment is skipped as far as it goes, closed or not. -/
theorem gap_blockComment (line : Nat) (text : List Char) :
    ∃ comment, text = comment ++ (afterBlockComment 0 line text).2 ∧
      Gap ('/' :: '*' :: comment) (afterBlockComment 0 line text).2 := by
  cases closes : closesComment 0 text with
  | true =>
      obtain ⟨inside, after, rfl, enclosed, _⟩ := exists_enclosed closes
      obtain ⟨last, passed⟩ := enclosed.afterBlockComment_eq 0 line
      rw [passed, afterBlockComment]
      exact ⟨inside ++ ['*', '/'], by simp, .block enclosed⟩
  | false =>
      rw [afterBlockComment_of_open line closes]
      refine ⟨text, by simp, .openBlock fun inside after same enclosed => ?_⟩
      rw [same, enclosed.closesComment_eq, closesComment] at closes
      cases closes

/-- What is behind a block comment does not belong to it. -/
theorem afterBlockComment_of_gap {text after : List Char} (skipped : Gap ('/' :: '*' :: text) after)
    (line : Nat) : (afterBlockComment 0 line (text ++ after)).2 = after := by
  cases skipped with
  | @block inside after enclosed =>
      obtain ⟨last, passed⟩ := enclosed.afterBlockComment_eq 0 line
      rw [List.append_assoc, List.cons_append, List.cons_append, List.nil_append, passed,
        afterBlockComment]
  | openBlock unclosed =>
      rw [List.append_nil]
      refine afterBlockComment_of_open line (eq_false_of_ne_true fun closes => ?_)
      obtain ⟨inside, after, same, enclosed, _⟩ := exists_enclosed closes
      exact unclosed inside after same enclosed

end Token

end Lox
