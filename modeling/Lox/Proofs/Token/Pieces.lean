import Lox.Proofs.Token.Lexemes
import Lox.Proofs.Token.Rewriting

/-!
# The pieces that the scanner takes

The first character of a text tells what kind of piece the scanner takes off its front.  No token
that stands there is longer than this piece.
-/

namespace Lox.Token

/-! ## Signs -/

theorem symbol_of_single? {c : Char} {kind : Kind} (found : single? c = some kind) :
    kind.symbol = [c] := by
  unfold single? at found
  split at found <;> first | (cases found; rfl) | cases found

theorem symbol_of_paired? {c : Char} {alone withEqual : Kind}
    (found : paired? c = some (alone, withEqual)) :
    alone.symbol = [c] ∧ withEqual.symbol = [c, '='] := by
  unfold paired? at found
  split at found <;> first | (cases found; exact ⟨rfl, rfl⟩) | cases found

theorem lexeme_slash : Lexeme .slash ['/'] none :=
  Lexeme.symbol (show Kind.slash.symbol ≠ [] from List.cons_ne_nil _ _)

/-- A sign is one character, which may be one of those that `=` can be added to, or has it added. -/
inductive Sign : Kind → Prop where
  | single {c : Char} {kind : Kind} (found : single? c = some kind) : Sign kind
  | alone {c : Char} {kind withEqual : Kind} (found : paired? c = some (kind, withEqual)) :
      Sign kind
  | withEqual {c : Char} {alone kind : Kind} (found : paired? c = some (alone, kind)) : Sign kind
  | slash : Sign .slash

theorem sign_of_symbol {kind : Kind} (written : kind.symbol ≠ []) : Sign kind := by
  cases kind with
  | leftParen => exact .single (c := '(') rfl
  | rightParen => exact .single (c := ')') rfl
  | leftBrace => exact .single (c := '\x7b') rfl
  | rightBrace => exact .single (c := '\x7d') rfl
  | comma => exact .single (c := ',') rfl
  | dot => exact .single (c := '.') rfl
  | minus => exact .single (c := '-') rfl
  | plus => exact .single (c := '+') rfl
  | semicolon => exact .single (c := ';') rfl
  | star => exact .single (c := '*') rfl
  | bang => exact .alone (c := '!') rfl
  | equal => exact .alone (c := '=') rfl
  | greater => exact .alone (c := '>') rfl
  | less => exact .alone (c := '<') rfl
  | bangEqual => exact .withEqual (c := '!') rfl
  | equalEqual => exact .withEqual (c := '=') rfl
  | greaterEqual => exact .withEqual (c := '>') rfl
  | lessEqual => exact .withEqual (c := '<') rfl
  | slash => exact .slash
  | _ => exact absurd rfl written

/-! ## Pieces by their first character -/

section Pieces

variable {c : Char} (line : Nat) (rest : List Char)

theorem piece_newline : piece line '\n' rest = ⟨none, rest, line + 1⟩ := rfl

theorem piece_blank (blank : isBlank c = true) : piece line c rest = ⟨none, rest, line⟩ := by
  have different : c ≠ '\n' := by
    rintro rfl
    cases blank
  rw [piece, if_neg different, if_pos blank]

theorem piece_single {kind : Kind} (found : single? c = some kind) :
    piece line c rest = ⟨some (.token ⟨kind, String.ofList [c], none, line⟩), rest, line⟩ := by
  unfold single? at found
  split at found <;> first | (cases found; rfl) | cases found

theorem piece_withEqual {alone withEqual : Kind} (found : paired? c = some (alone, withEqual)) :
    piece line c ('=' :: rest) =
      ⟨some (.token ⟨withEqual, String.ofList [c, '='], none, line⟩), rest, line⟩ := by
  unfold paired? at found
  split at found <;> first | (cases found; rfl) | cases found

theorem piece_alone {alone withEqual : Kind} (found : paired? c = some (alone, withEqual))
    (follows : rest.head? ≠ some '=') :
    piece line c rest = ⟨some (.token ⟨alone, String.ofList [c], none, line⟩), rest, line⟩ := by
  have plain : c ≠ '\n' ∧ isBlank c = false ∧ single? c = none := by
    unfold paired? at found
    split at found <;> first | (cases found; decide) | cases found
  obtain ⟨notEnd, notBlank, notSingle⟩ := plain
  rw [piece, if_neg notEnd, if_neg (Bool.eq_false_iff.mp notBlank), notSingle]
  dsimp only
  rw [found]
  dsimp only
  split
  · exact absurd rfl follows
  · rfl

theorem piece_slash : piece line '/' rest = slashPiece line rest := rfl

theorem piece_quote : piece line '"' rest = stringPiece line rest := rfl

theorem slashPiece_sign (alone : ¬ StartsComment ('/' :: rest)) :
    slashPiece line rest = ⟨some (.token ⟨.slash, "/", none, line⟩), rest, line⟩ := by
  unfold slashPiece
  split
  · exact absurd (.inl ⟨_, rfl⟩) alone
  · exact absurd (.inr ⟨_, rfl⟩) alone
  · rfl

end Pieces

/-! ## The longest token -/

/-- Characters of a class at the front of a text are among those that are taken of the class. -/
theorem length_le_takeWhile {p : Char → Bool} {front text : List Char} (isFront : front <+: text)
    (all : ∀ c ∈ front, p c = true) : front.length ≤ (text.takeWhile p).length := by
  obtain ⟨rest, rfl⟩ := isFront
  rw [List.takeWhile_append_of_pos all, List.length_append]
  exact Nat.le_add_right _ _

theorem length_dropWhile (p : Char → Bool) (text : List Char) :
    (text.takeWhile p).length + (text.dropWhile p).length = text.length := by
  rw [← List.length_append, List.takeWhile_append_dropWhile]

theorem isWord_spelling {kind : Kind} (isWord : kind.isWord = true) : IsWord kind.spelling := by
  cases kind <;> first | exact ⟨by decide, List.all_eq_true.mp (by decide)⟩ | cases isWord

/-- Words and numbers that stand at the front of a text are no longer than the piece there. -/
theorem IsWord.length_le {c : Char} {rest word : List Char} (isWord : IsWord word)
    (front : word <+: c :: rest) (line : Nat) :
    word.length + (piece line c rest).rest.length ≤ rest.length + 1 := by
  obtain ⟨start, parts⟩ := isWord
  cases word with
  | nil => cases start
  | cons d word =>
      obtain ⟨rfl, others⟩ := List.cons_prefix_cons.mp front
      have within := length_le_takeWhile others parts
      have joined := length_dropWhile isWordPart rest
      rw [piece_word start]
      simp only [List.length_cons]
      omega

theorem IsDigits.length_le {c : Char} {rest digits : List Char} (areDigits : IsDigits digits)
    (front : digits <+: c :: rest) (line : Nat) :
    digits.length + (piece line c rest).rest.length ≤ rest.length + 1 := by
  obtain ⟨nonempty, all⟩ := areDigits
  cases digits with
  | nil => exact absurd rfl nonempty
  | cons d digits =>
      obtain ⟨rfl, others⟩ := List.cons_prefix_cons.mp front
      obtain ⟨first, all⟩ := List.forall_mem_cons.mp all
      have within := length_le_takeWhile others all
      have joined := length_dropWhile Unicode.isDigit rest
      have shorter : (numberPiece line d rest).rest.length ≤
          (rest.dropWhile Unicode.isDigit).length := by
        unfold numberPiece
        split
        · next e more after =>
            rw [after]
            split
            · exact (length_dropWhile_le _ more).trans (by simp; omega)
            · exact Nat.le_refl _
        · exact Nat.le_refl _
      rw [piece_of_isDigit first, List.length_cons]
      omega

/-- A number with a fraction, in front of any text: the fraction goes on as far as there are
digits. -/
theorem numberPiece_decimal {c d : Char} {whole fraction : List Char}
    (beforePoint : ∀ e ∈ whole, Unicode.isDigit e = true) (isDigit : Unicode.isDigit d = true)
    (line : Nat) (after : List Char) :
    numberPiece line c (whole ++ '.' :: d :: fraction ++ after) =
      ⟨some (.token (ofNumber line (c :: whole)
          (some (d :: (fraction ++ after).takeWhile Unicode.isDigit)))),
        (fraction ++ after).dropWhile Unicode.isDigit, line⟩ := by
  have stops : ('.' :: d :: (fraction ++ after)).head?.any Unicode.isDigit = false := rfl
  obtain ⟨taken, dropped⟩ := takeWhile_append_of_stops beforePoint stops
  rw [List.append_assoc, List.cons_append, List.cons_append, numberPiece_fraction dropped isDigit,
    taken]

theorem all_ne {d : Char} {text : List Char} (absent : d ∉ text) :
    ∀ c ∈ text, (c != d) = true := by
  intro c held
  have different : c ≠ d := fun same => absent (same ▸ held)
  simpa using different

/-- A string ends at the first quote that follows. -/
theorem stringPiece_closed {inside : List Char} (closed : '"' ∉ inside) (line : Nat)
    (after : List Char) :
    stringPiece line (inside ++ '"' :: after) =
      ⟨some (.token (ofString line inside)), after, line + newlines inside⟩ := by
  have stops : ('"' :: after).head?.any (· != '"') = false := rfl
  obtain ⟨taken, dropped⟩ := takeWhile_append_of_stops (all_ne closed) stops
  rw [stringPiece, dropped, taken]

/-- A string that is not closed takes the rest of the text. -/
theorem stringPiece_unclosed {rest : List Char} (notClosed : '"' ∉ rest) (line : Nat) :
    stringPiece line rest =
      ⟨some (.fault (.lexical (line + newlines rest) .unterminatedString)), [],
        line + newlines rest⟩ := by
  have dropped : (rest ++ []).dropWhile (· != '"') = [] :=
    (takeWhile_append_of_stops (all_ne notClosed) rfl).2
  rw [List.append_nil] at dropped
  rw [stringPiece, dropped]

/-- What is a token at the front of a text is no longer than the piece that is taken there. -/
theorem Lexeme.length_le {kind : Kind} {text : List Char} {literal : Option Literal}
    (lexeme : Lexeme kind text literal) {c : Char} {rest : List Char} (front : text <+: c :: rest)
    (line : Nat) : text.length + (piece line c rest).rest.length ≤ rest.length + 1 := by
  have short : text.length = 1 →
      text.length + (piece line c rest).rest.length ≤ rest.length + 1 := by
    intro single
    have := length_piece_le line c rest
    omega
  cases lexeme with
  | symbol written =>
      cases sign_of_symbol written with
      | single found => exact short (by rw [symbol_of_single? found]; rfl)
      | alone found => exact short (by rw [(symbol_of_paired? found).1]; rfl)
      | slash => exact short rfl
      | @withEqual d _ _ found =>
          rw [(symbol_of_paired? found).2] at front ⊢
          obtain ⟨after, same⟩ := front
          obtain ⟨rfl, rfl⟩ : d = c ∧ '=' :: after = rest := List.cons.inj same
          rw [piece_withEqual line after found]
          simp only [List.length_cons, List.length_nil]
          omega
  | reserved isWord => exact (isWord_spelling isWord).length_le front line
  | identifier isWord unreserved => exact isWord.length_le front line
  | whole areDigits => exact areDigits.length_le front line
  | @decimal whole fraction beforePoint afterPoint =>
      obtain ⟨after, same⟩ := front
      obtain ⟨nonempty, all⟩ := beforePoint
      obtain ⟨nonempty', all'⟩ := afterPoint
      cases whole with
      | nil => exact absurd rfl nonempty
      | cons e whole =>
          cases fraction with
          | nil => exact absurd rfl nonempty'
          | cons d fraction =>
              obtain ⟨rfl, rfl⟩ : e = c ∧ whole ++ '.' :: d :: fraction ++ after = rest :=
                List.cons.inj same
              obtain ⟨first, others⟩ := List.forall_mem_cons.mp all
              obtain ⟨first', others'⟩ := List.forall_mem_cons.mp all'
              rw [piece_of_isDigit first, numberPiece_decimal others first' line after,
                List.dropWhile_append_of_pos others']
              have := length_dropWhile_le Unicode.isDigit after
              simp only [List.length_append, List.length_cons]
              omega
  | @string inside closed =>
      obtain ⟨after, same⟩ := front
      obtain ⟨rfl, rfl⟩ : '"' = c ∧ inside ++ ['"'] ++ after = rest := List.cons.inj same
      rw [piece_quote, List.append_assoc, List.singleton_append,
        stringPiece_closed closed line after]
      simp only [List.length_append, List.length_cons, List.length_nil]
      omega

end Lox.Token
