import Lox.Proofs.Token.Partition

/-!
# Tokens with single spaces between them

A space ends every token, because only strings hold spaces and a string ends at its second quote.
So the lexemes of a source, joined by single spaces, are read as the tokens of the source, each of
them as itself, and nothing is left that could be a fault.
-/

namespace Lox.Token

/-- What a token is apart from the line that it stands on. -/
def content (token : Token) : Kind × String × Option Literal :=
  (token.kind, token.lexeme, token.literal)

/-- The tokens of a source, but for its end token. -/
def proper (source : String) : List Token :=
  (ofSource source).filter fun token => token.kind != .eof

/-- The lexemes of a source, joined by single spaces. -/
def respaced (source : String) : String :=
  " ".intercalate ((proper source).map Token.lexeme)

/-! ## Every token is written as its kind tells -/

/-- The kind, the lexeme and the value of a token belong together. -/
def IsWritten (token : Token) : Prop :=
  Lexeme token.kind token.lexeme.toList token.literal

theorem isWritten_of_placed {before : List Char} {segments : List Segment}
    (placed : Placed before segments) {token : Token}
    (held : Scanned.token token ∈ segments.filterMap Segment.item) : token.IsWritten := by
  obtain ⟨segment, among, isItem⟩ := List.mem_filterMap.mp held
  obtain ⟨front, back, split⟩ := List.append_of_mem among
  cases placed front segment back split with
  | token lexeme =>
      cases isItem
      simpa [IsWritten] using lexeme
  | _ => cases isItem

theorem isWritten_of_mem_proper {source : String} {token : Token} (held : token ∈ proper source) :
    token.IsWritten := by
  obtain ⟨scanned, notEnd⟩ := List.mem_filter.mp held
  obtain ⟨item, among, isToken⟩ := List.mem_filterMap.mp scanned
  obtain ⟨segments, _, placed, read⟩ := exists_placed 1 source.toList [] rfl
  have read : scan source = _ := read
  cases item with
  | fault error => cases isToken
  | token other =>
      cases isToken
      rw [read] at among
      rcases List.mem_append.mp among with inside | isEnd
      · exact isWritten_of_placed placed inside
      · cases List.mem_singleton.mp isEnd
        cases notEnd

/-! ## A space ends every token -/

section Spaces

variable {kind : Kind} {text : List Char} {literal : Option Literal}

theorem IsWord.space_notMem {word : List Char} (isWord : IsWord word) : ' ' ∉ word := by
  intro held
  obtain ⟨start, parts⟩ := isWord
  cases word with
  | nil => cases held
  | cons c word =>
      rcases List.mem_cons.mp held with rfl | later
      · cases start
      · cases parts ' ' later

theorem IsDigits.space_notMem {digits : List Char} (areDigits : IsDigits digits) :
    ' ' ∉ digits := fun held => absurd (areDigits.all ' ' held) (by decide)

/-- A token that holds a space is a string. -/
theorem Lexeme.eq_string_of_space (lexeme : Lexeme kind text literal) (held : ' ' ∈ text) :
    ∃ inside, '"' ∉ inside ∧ text = '"' :: inside ++ ['"'] := by
  have noSymbol : ' ' ∉ kind.symbol := by cases kind <;> decide
  cases lexeme with
  | symbol written => exact absurd held noSymbol
  | reserved isWord => exact absurd held (isWord_spelling isWord).space_notMem
  | identifier isWord unreserved => exact absurd held isWord.space_notMem
  | whole areDigits => exact absurd held areDigits.space_notMem
  | decimal beforePoint afterPoint =>
      rcases List.mem_append.mp held with inWhole | behind
      · exact absurd inWhole beforePoint.space_notMem
      · exact absurd (List.mem_of_ne_of_mem (by decide) behind) afterPoint.space_notMem
  | string closed => exact ⟨_, closed, rfl⟩

/-- A token that starts with neither a letter nor a digit is a sign or a string. -/
theorem Lexeme.symbol_or_string (lexeme : Lexeme kind text literal) {c : Char}
    (starts : text.head? = some c) (noWord : isWordStart c = false)
    (noDigit : Unicode.isDigit c = false) :
    text = kind.symbol ∨ ∃ inside, '"' ∉ inside ∧ text = '"' :: inside ++ ['"'] := by
  have notWord : ∀ {word : List Char}, IsWord word → word.head? ≠ some c := by
    intro word isWord first
    have start := isWord.start
    rw [first, Option.any_some, noWord] at start
    cases start
  have notDigits : ∀ {digits : List Char} (more : List Char), IsDigits digits →
      (digits ++ more).head? ≠ some c := by
    intro digits more areDigits first
    rw [List.head?_append_of_ne_nil _ areDigits.nonempty] at first
    have isDigit := areDigits.all c (List.mem_of_mem_head? first)
    rw [noDigit] at isDigit
    cases isDigit
  cases lexeme with
  | symbol written => exact .inl rfl
  | reserved isWord => exact absurd starts (notWord (isWord_spelling isWord))
  | identifier isWord unreserved => exact absurd starts (notWord isWord)
  | whole areDigits => exact absurd starts (List.append_nil text ▸ notDigits [] areDigits)
  | decimal beforePoint afterPoint => exact absurd starts (notDigits _ beforePoint)
  | string closed => exact .inr ⟨_, closed, rfl⟩

theorem Lexeme.eq_string_of_quote (lexeme : Lexeme kind text literal)
    (starts : text.head? = some '"') : ∃ inside, '"' ∉ inside ∧ text = '"' :: inside ++ ['"'] := by
  have noSymbol : kind.symbol.head? ≠ some '"' := by cases kind <;> decide
  rcases lexeme.symbol_or_string starts (by decide) (by decide) with rfl | isString
  · exact absurd starts noSymbol
  · exact isString

theorem Lexeme.eq_slash (lexeme : Lexeme kind text literal) (starts : text.head? = some '/') :
    text = ['/'] := by
  have alone : kind.symbol.head? = some '/' → kind.symbol = ['/'] := by cases kind <;> decide
  rcases lexeme.symbol_or_string starts (by decide) (by decide) with rfl | ⟨inside, _, rfl⟩
  · exact alone starts
  · cases starts

/-- A string ends at its second quote, so it is not the beginning of another token. -/
theorem eq_nil_of_string_append {inside more : List Char}
    (lexeme : Lexeme kind ('"' :: inside ++ ['"'] ++ more) literal) : more = [] := by
  obtain ⟨whole, closed, same⟩ := lexeme.eq_string_of_quote rfl
  rcases List.eq_nil_or_concat more with rfl | ⟨init, last, rfl⟩
  · rfl
  · have same : inside ++ '"' :: init ++ [last] = whole ++ ['"'] := by simpa using same
    obtain ⟨rfl, _⟩ := List.append_inj' same rfl
    exact absurd (List.mem_append_right inside List.mem_cons_self) closed

/-- In front of a space, and at the end of a text, every token is the longest one. -/
theorem Lexeme.longest_of_space (lexeme : Lexeme kind text literal) {after : List Char}
    (spaced : after.head?.all (· == ' ') = true) : Longest text after := by
  intro kind' longer literal' lexeme' front
  by_contra exceeds
  obtain ⟨more, rfl⟩ : text <+: longer :=
    List.prefix_of_prefix_length_le (List.prefix_append text after) front
      (Nat.le_of_not_le exceeds)
  have isSpace : more.head? = some ' ' := by
    have isFront := (List.prefix_append_right_inj text).mp front
    cases more with
    | nil => exact absurd (by simp) exceeds
    | cons c more =>
        obtain ⟨rest, rfl⟩ := isFront
        simpa using spaced
  have held : ' ' ∈ text ++ more :=
    List.mem_append_right text (List.mem_of_mem_head? isSpace)
  obtain ⟨whole, _, isString⟩ := lexeme'.eq_string_of_space held
  have quoted : text.head? = some '"' := by
    have first := congrArg List.head? isString
    rwa [List.head?_append_of_ne_nil _ lexeme.ne_nil] at first
  obtain ⟨inside, _, rfl⟩ := lexeme.eq_string_of_quote quoted
  rw [eq_nil_of_string_append lexeme'] at isSpace
  cases isSpace

/-- A token in front of a space starts no comment: the sign for division stands alone. -/
theorem Lexeme.not_startsComment_of_space (lexeme : Lexeme kind text literal) {after : List Char}
    (spaced : after.head?.all (· == ' ') = true) : ¬ StartsComment (text ++ after) := by
  intro comment
  have isSlash : text.head? = some '/' := by
    have first : (text ++ after).head? = some '/' := by
      rcases comment with ⟨more, whole⟩ | ⟨more, whole⟩ <;> rw [← whole] <;> rfl
    rwa [List.head?_append_of_ne_nil _ lexeme.ne_nil] at first
  rw [lexeme.eq_slash isSlash] at comment
  rcases comment with ⟨more, whole⟩ | ⟨more, whole⟩
  · obtain rfl : '/' :: more = after := (List.cons.inj whole).2
    cases spaced
  · obtain rfl : '*' :: more = after := (List.cons.inj whole).2
    cases spaced

end Spaces

/-! ## The text with single spaces -/

/-- The pieces of a text that is made of tokens and of single spaces between them. -/
def spacedSegments (before : List Char) : List Token → List Segment
  | [] => []
  | [token] => [⟨token.lexeme.toList, some (.token { token with line := 1 + newlines before })⟩]
  | token :: next :: tokens =>
      ⟨token.lexeme.toList, some (.token { token with line := 1 + newlines before })⟩ ::
        ⟨[' '], none⟩ ::
        spacedSegments (before ++ token.lexeme.toList ++ [' ']) (next :: tokens)

theorem spacedSegments_covers (before : List Char) (tokens : List Token) :
    (spacedSegments before tokens).flatMap Segment.text =
      (" ".intercalate (tokens.map Token.lexeme)).toList := by
  fun_induction spacedSegments before tokens with
  | case1 => rfl
  | case2 before token => simp
  | case3 before token next tokens ih =>
      rw [List.flatMap_cons, List.flatMap_cons, ih]
      simp

/-- The items of these pieces are the tokens, each on a line of its own. -/
theorem spacedSegments_items (before : List Char) (tokens : List Token) :
    ∃ moved : List Token,
      (spacedSegments before tokens).filterMap Segment.item = moved.map Scanned.token ∧
        moved.map content = tokens.map content := by
  fun_induction spacedSegments before tokens with
  | case1 => exact ⟨[], rfl, rfl⟩
  | case2 before token => exact ⟨[{ token with line := 1 + newlines before }], rfl, rfl⟩
  | case3 before token next tokens ih =>
      obtain ⟨moved, items, contents⟩ := ih
      refine ⟨{ token with line := 1 + newlines before } :: moved, ?_, ?_⟩
      · simp only [List.filterMap_cons, items, List.map_cons]
      · simpa [content] using contents

theorem fits_spaced (before : List Char) {token : Token} (written : token.IsWritten)
    {after : List Char} (spaced : after.head?.all (· == ' ') = true) :
    Segment.Fits before after
      ⟨token.lexeme.toList, some (.token { token with line := 1 + newlines before })⟩ := by
  have fits : Segment.Fits before after _ :=
    .token written (written.longest_of_space spaced) (written.not_startsComment_of_space spaced)
  rwa [String.ofList_toList] at fits

theorem placed_spacedSegments (before : List Char) (tokens : List Token)
    (written : ∀ token ∈ tokens, token.IsWritten) :
    Placed before (spacedSegments before tokens) := by
  fun_induction spacedSegments before tokens with
  | case1 before =>
      intro front segment back split
      cases front <;> cases split
  | case2 before token =>
      refine placed_cons.mpr ⟨fits_spaced before (written token List.mem_cons_self) rfl, ?_⟩
      intro front segment back split
      cases front <;> cases split
  | case3 before token next tokens ih =>
      obtain ⟨first, others⟩ := List.forall_mem_cons.mp written
      refine placed_cons.mpr ⟨fits_spaced before first rfl, placed_cons.mpr ⟨?_, ?_⟩⟩
      · exact .gap (.blank (by decide) _)
      · exact ih others

/--
Scanning is stable under re-spacing: the lexemes of a source, joined by single spaces, are scanned
as the tokens of the source, with the same kinds, lexemes and values in the same order and then
the end token, and without a fault.
-/
theorem respacing_keeps_tokens (source : String) :
    ∃ (tokens : List Token) (line : Nat),
      scan (respaced source) = tokens.map Scanned.token ++ [.token (endOn line)] ∧
        tokens.map content = (proper source).map content := by
  obtain ⟨segments, covers, placed, read⟩ := exists_placed 1 (respaced source).toList [] rfl
  have placed' : Placed [] (spacedSegments [] (proper source)) :=
    placed_spacedSegments [] _ fun _ => isWritten_of_mem_proper
  obtain rfl : segments = spacedSegments [] (proper source) :=
    placed_unique placed placed' (covers.trans (spacedSegments_covers [] _).symm)
  obtain ⟨tokens, items, contents⟩ := spacedSegments_items [] (proper source)
  exact ⟨tokens, _, items ▸ read, contents⟩

end Lox.Token
