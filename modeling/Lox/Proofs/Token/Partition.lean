import Lox.Proofs.Token.Pieces

/-!
# A source is taken apart without loss

The scanner takes one piece after another off the front of a source.  The piece that it takes is
the one that stands there, and no other piece fits in its place; so every source is taken apart in
exactly one way, and the scanner yields the items of its pieces.
-/

namespace Lox.Token

/-! ## The piece that is taken stands there -/

/-- What the pieces of a text can start with, but for blanks. -/
inductive Starts (c : Char) : Prop where
  | single {kind : Kind} (found : single? c = some kind)
  | paired {alone withEqual : Kind} (found : paired? c = some (alone, withEqual))
  | slash (isSlash : c = '/')
  | quote (isQuote : c = '"')
  | digit (isDigit : Unicode.isDigit c = true)
  | word (isStart : isWordStart c = true)

theorem Lexeme.starts {kind : Kind} {text : List Char} {literal : Option Literal}
    (lexeme : Lexeme kind text literal) {c : Char} {rest : List Char} (front : text <+: c :: rest) :
    Starts c := by
  have ofWord : ∀ {word : List Char}, IsWord word → word <+: c :: rest → Starts c := by
    rintro word ⟨start, _⟩ front
    cases word with
    | nil => cases start
    | cons d word =>
        obtain ⟨rfl, _⟩ := List.cons_prefix_cons.mp front
        exact .word start
  have ofDigits : ∀ {digits : List Char} (more : List Char), IsDigits digits →
      digits ++ more <+: c :: rest → Starts c := by
    rintro digits more ⟨nonempty, all⟩ front
    cases digits with
    | nil => exact absurd rfl nonempty
    | cons d digits =>
        obtain ⟨rfl, _⟩ := List.cons_prefix_cons.mp front
        exact .digit (all d List.mem_cons_self)
  cases lexeme with
  | symbol written =>
      cases sign_of_symbol written with
      | single found =>
          rw [symbol_of_single? found] at front
          obtain ⟨rfl, _⟩ := List.cons_prefix_cons.mp front
          exact .single found
      | alone found =>
          rw [(symbol_of_paired? found).1] at front
          obtain ⟨rfl, _⟩ := List.cons_prefix_cons.mp front
          exact .paired found
      | withEqual found =>
          rw [(symbol_of_paired? found).2] at front
          obtain ⟨rfl, _⟩ := List.cons_prefix_cons.mp front
          exact .paired found
      | slash => exact .slash (List.cons_prefix_cons.mp front).1.symm
  | reserved isWord => exact ofWord (isWord_spelling isWord) front
  | identifier isWord unreserved => exact ofWord isWord front
  | whole areDigits => exact ofDigits [] areDigits (by rwa [List.append_nil])
  | decimal beforePoint afterPoint => exact ofDigits _ beforePoint front
  | string closed => exact .quote (List.cons_prefix_cons.mp front).1.symm

theorem isBlank_iff {c : Char} : c ∈ [' ', '\t', '\r', '\n'] ↔ isBlank c = true ∨ c = '\n' := by
  simp only [List.mem_cons, List.not_mem_nil, isBlank, Bool.or_eq_true, beq_iff_eq]
  tauto

theorem Gap.starts {text after : List Char} (skipped : Gap text after) {c : Char}
    {rest : List Char} (whole : text ++ after = c :: rest) :
    isBlank c = true ∨ c = '\n' ∨ StartsComment (c :: rest) := by
  cases skipped with
  | blank isBlank =>
      obtain ⟨rfl, _⟩ := List.cons.inj whole
      exact (isBlank_iff.mp isBlank).imp_right .inl
  | line => exact .inr (.inr (.inl ⟨_, whole⟩))
  | block => exact .inr (.inr (.inr ⟨_, whole⟩))
  | openBlock => exact .inr (.inr (.inr ⟨_, whole⟩))

/-- The piece that is taken off the front of a text stands there. -/
def TakesFitting (before : List Char) (c : Char) (rest : List Char) : Prop :=
  ∃ text, text ++ (piece (1 + newlines before) c rest).rest = c :: rest ∧
    Segment.Fits before (piece (1 + newlines before) c rest).rest
      ⟨text, (piece (1 + newlines before) c rest).item⟩

section Fitting

variable {before : List Char} {c : Char} {rest text after : List Char}

theorem takesFitting_gap (text : List Char) {line : Nat}
    (taken : piece (1 + newlines before) c rest = ⟨none, after, line⟩)
    (whole : text ++ after = c :: rest) (skipped : Gap text after) :
    TakesFitting before c rest := by
  unfold TakesFitting
  rw [taken]
  exact ⟨text, whole, .gap skipped⟩

/-- A token that is taken is the longest one, since no token is longer than the piece. -/
theorem takesFitting_token (text : List Char) {kind : Kind} {literal : Option Literal} {line : Nat}
    (taken : piece (1 + newlines before) c rest =
      ⟨some (.token ⟨kind, String.ofList text, literal, 1 + newlines before⟩), after, line⟩)
    (whole : text ++ after = c :: rest) (lexeme : Lexeme kind text literal)
    (noComment : ¬ StartsComment (c :: rest)) : TakesFitting before c rest := by
  have longest : Longest text after := by
    intro kind' longer literal' lexeme' front
    rw [whole] at front
    have bounded := lexeme'.length_le front (1 + newlines before)
    have lengths := congrArg List.length whole
    rw [taken] at bounded
    rw [List.length_append, List.length_cons] at lengths
    dsimp only at bounded
    omega
  unfold TakesFitting
  rw [taken]
  exact ⟨text, whole, .token lexeme longest (whole ▸ noComment)⟩

theorem not_startsComment (other : c ≠ '/') : ¬ StartsComment (c :: rest) := by
  rintro (front | front)
  · exact other (List.cons_prefix_cons.mp front).1.symm
  · exact other (List.cons_prefix_cons.mp front).1.symm

theorem not_startsComment_of_paired {alone withEqual : Kind}
    (found : paired? c = some (alone, withEqual)) : ¬ StartsComment (c :: rest) :=
  not_startsComment fun isSlash => by
    rw [isSlash] at found
    cases found

theorem takesFitting_paired {alone withEqual : Kind}
    (found : paired? c = some (alone, withEqual)) : TakesFitting before c rest := by
  obtain ⟨isAlone, isWithEqual⟩ := symbol_of_paired? found
  by_cases follows : rest.head? = some '='
  · cases rest with
    | nil => cases follows
    | cons d rest =>
        obtain rfl := Option.some.inj follows
        exact takesFitting_token [c, '='] (piece_withEqual _ rest found) rfl
          (isWithEqual ▸ .symbol (by simp [isWithEqual])) (not_startsComment_of_paired found)
  · exact takesFitting_token [c] (piece_alone _ rest found follows) rfl
      (isAlone ▸ .symbol (by simp [isAlone])) (not_startsComment_of_paired found)

theorem takesFitting_slash : TakesFitting before '/' rest := by
  by_cases comment : StartsComment ('/' :: rest)
  · rcases comment with ⟨below, isLine⟩ | ⟨below, isBlock⟩
    · obtain rfl : '/' :: below = rest := (List.cons.inj isLine).2
      refine takesFitting_gap ('/' :: '/' :: below.takeWhile (· != '\n')) rfl
        (by simp [afterLineComment, List.takeWhile_append_dropWhile]) (.line ?_ ?_)
      · intro held
        exact absurd (List.all_eq_true.mp List.all_takeWhile _ held) (by decide)
      · have stops := any_head?_dropWhile (· != '\n') below
        unfold afterLineComment
        cases head : (below.dropWhile (· != '\n')).head? with
        | none => rfl
        | some d =>
            rw [head] at stops
            simpa using stops
    · obtain rfl : '*' :: below = rest := (List.cons.inj isBlock).2
      obtain ⟨comment, whole, skipped⟩ := gap_blockComment (1 + newlines before) below
      exact takesFitting_gap ('/' :: '*' :: comment) rfl (by simp [← whole]) skipped
  · exact takesFitting_token ['/']
      ((piece_slash _ rest).trans (slashPiece_sign _ rest comment)) rfl
      lexeme_slash comment

theorem takesFitting_quote : TakesFitting before '"' rest := by
  by_cases closed : '"' ∈ rest
  · obtain ⟨inside, after, rfl, isFirst⟩ := List.eq_append_cons_of_mem closed
    exact takesFitting_token ('"' :: inside ++ ['"'])
      ((piece_quote _ _).trans (stringPiece_closed isFirst _ after)) (by simp) (.string isFirst)
      (not_startsComment (by decide))
  · have taken : piece (1 + newlines before) '"' rest =
        ⟨some (.fault (.lexical (1 + newlines (before ++ '"' :: rest)) .unterminatedString)), [],
          1 + newlines before + newlines rest⟩ := by
      rw [piece_quote, stringPiece_unclosed closed, newlines_append,
        newlines_cons_of_ne (by decide), Nat.add_assoc]
    unfold TakesFitting
    rw [taken]
    exact ⟨'"' :: rest, by simp, .unterminated closed rfl⟩

theorem takesFitting_digit (isDigit : Unicode.isDigit c = true) : TakesFitting before c rest := by
  have noComment : ¬ StartsComment (c :: rest) := not_startsComment fun isSlash => by
    rw [isSlash] at isDigit
    cases isDigit
  have all : ∀ d ∈ c :: rest.takeWhile Unicode.isDigit, Unicode.isDigit d = true :=
    List.forall_mem_cons.mpr ⟨isDigit, List.all_eq_true.mp List.all_takeWhile⟩
  have joined := List.takeWhile_append_dropWhile (p := Unicode.isDigit) (l := rest)
  by_cases fraction : ∃ d more, rest.dropWhile Unicode.isDigit = '.' :: d :: more ∧
      Unicode.isDigit d = true
  · obtain ⟨d, more, follows, isDigit'⟩ := fraction
    have all' : ∀ e ∈ d :: more.takeWhile Unicode.isDigit, Unicode.isDigit e = true :=
      List.forall_mem_cons.mpr ⟨isDigit', List.all_eq_true.mp List.all_takeWhile⟩
    refine takesFitting_token _
      ((piece_of_isDigit isDigit _ rest).trans (numberPiece_fraction follows isDigit')) ?_
      (.decimal ⟨List.cons_ne_nil _ _, all⟩ ⟨List.cons_ne_nil _ _, all'⟩) noComment
    rw [follows] at joined
    simp [joined]
  · refine takesFitting_token _
      ((piece_of_isDigit isDigit _ rest).trans (numberPiece_whole fun d more follows =>
        eq_false_of_ne_true fun isDigit' => fraction ⟨d, more, follows, isDigit'⟩)) ?_
      (.whole ⟨List.cons_ne_nil _ _, all⟩) noComment
    simp [joined]

theorem ofWord?_spelling {kind : Kind} (isWord : kind.isWord = true) :
    Kind.ofWord? kind.spelling = some kind := by
  cases kind <;> first | rfl | cases isWord

/-- A whole word is a token, whether it is reserved or not. -/
theorem lexeme_word {word : List Char} (isWord : IsWord word) :
    Lexeme ((Kind.ofWord? word).getD .identifier) word
      (wordLiteral? ((Kind.ofWord? word).getD .identifier)) := by
  cases found : Kind.ofWord? word with
  | none =>
      refine .identifier isWord fun kind reserved same => ?_
      rw [same, ofWord?_spelling reserved] at found
      cases found
  | some kind =>
      obtain ⟨reserved, rfl⟩ := Kind.word_of_ofWord? found
      exact .reserved reserved

theorem takesFitting_word (starts : isWordStart c = true) : TakesFitting before c rest := by
  have isWord : IsWord (c :: rest.takeWhile isWordPart) :=
    ⟨starts, List.all_eq_true.mp List.all_takeWhile⟩
  exact takesFitting_token _ (piece_word starts _ rest) (by simp) (lexeme_word isWord)
    (not_startsComment (isWordStart_ne starts (by decide)))

/-- Where nothing starts, the character that stands there is a fault. -/
theorem piece_unexpected (notBlank : isBlank c = false) (notEnd : c ≠ '\n') (none : ¬ Starts c)
    (line : Nat) (rest : List Char) :
    piece line c rest = ⟨some (.fault (.lexical line .unexpectedCharacter)), rest, line⟩ := by
  have noSingle : single? c = .none := Option.eq_none_iff_forall_ne_some.mpr fun _ found =>
    none (.single found)
  have noPaired : paired? c = .none := Option.eq_none_iff_forall_ne_some.mpr fun _ found =>
    none (.paired found)
  rw [piece, if_neg notEnd, if_neg (Bool.eq_false_iff.mp notBlank), noSingle]
  dsimp only
  rw [noPaired]
  dsimp only
  rw [if_neg fun isSlash => none (.slash isSlash), if_neg fun isQuote => none (.quote isQuote),
    if_neg fun isDigit => none (.digit isDigit), if_neg fun isStart => none (.word isStart)]

theorem takesFitting (before : List Char) (c : Char) (rest : List Char) :
    TakesFitting before c rest := by
  by_cases isEnd : c = '\n'
  · subst isEnd
    exact takesFitting_gap ['\n'] (piece_newline _ rest) rfl (.blank (by decide) rest)
  by_cases blank : isBlank c = true
  · exact takesFitting_gap [c] (piece_blank _ rest blank) rfl
      (.blank (isBlank_iff.mpr (.inl blank)) rest)
  by_cases starts : Starts c
  · cases starts with
    | single found =>
        have isSymbol := symbol_of_single? found
        refine takesFitting_token [c] (piece_single _ rest found) rfl
          (isSymbol ▸ .symbol (by simp [isSymbol])) (not_startsComment fun isSlash => ?_)
        rw [isSlash] at found
        cases found
    | paired found => exact takesFitting_paired found
    | slash isSlash => exact isSlash ▸ takesFitting_slash
    | quote isQuote => exact isQuote ▸ takesFitting_quote
    | digit isDigit => exact takesFitting_digit isDigit
    | word isStart => exact takesFitting_word isStart
  · unfold TakesFitting
    rw [piece_unexpected (Bool.eq_false_iff.mpr blank) isEnd starts]
    refine ⟨[c], rfl, .unexpected (fun lexeme front => starts (lexeme.starts front))
      (fun skipped whole => ?_) fun isQuote => starts (.quote isQuote)⟩
    rcases skipped.starts whole with isBlank | isNewline | comment
    · exact blank isBlank
    · exact isEnd isNewline
    · exact not_startsComment (fun isSlash => starts (.slash isSlash)) comment

/-! ## No other piece fits -/

/-- A token in its place is not made longer by what follows. -/
theorem Longest.not_longer (longest : Longest text after) (more : List Char)
    (front : more <+: after) (nonempty : more ≠ []) {kind : Kind} {literal : Option Literal} :
    ¬ Lexeme kind (text ++ more) literal := by
  intro lexeme
  have bounded := longest lexeme ((List.prefix_append_right_inj text).mpr front)
  rw [List.length_append] at bounded
  have := List.length_pos_iff.mpr nonempty
  omega

/-- A class of characters that may be added to a token is not what follows it. -/
theorem Longest.stops (longest : Longest text after) {p : Char → Bool}
    (longer : ∀ d, p d = true → ∃ kind literal, Lexeme kind (text ++ [d]) literal) :
    after.head?.any p = false := by
  cases after with
  | nil => rfl
  | cons d after =>
      refine eq_false_of_ne_true fun isPart => ?_
      obtain ⟨kind, literal, lexeme⟩ := longer d isPart
      exact longest.not_longer [d] ⟨after, rfl⟩ (List.cons_ne_nil _ _) lexeme

/-- The piece that is taken off the front of a text, in place of any that fits there. -/
def Takes (before after : List Char) (segment : Segment) : Prop :=
  ∃ c rest, segment.text ++ after = c :: rest ∧
    (piece (1 + newlines before) c rest).item = segment.item ∧
    (piece (1 + newlines before) c rest).rest = after

theorem takes_gap (skipped : Gap text after) : Takes before after ⟨text, none⟩ := by
  have block : ∀ {comment : List Char}, Gap ('/' :: '*' :: comment) after →
      Takes before after ⟨'/' :: '*' :: comment, none⟩ := fun skipped =>
    ⟨'/', _, rfl, rfl, afterBlockComment_of_gap skipped (1 + newlines before)⟩
  cases skipped with
  | @blank c blank =>
      refine ⟨c, after, rfl, ?_⟩
      rcases isBlank_iff.mp blank with isBlank | rfl
      · rw [piece_blank _ after isBlank]
        exact ⟨rfl, rfl⟩
      · exact ⟨rfl, rfl⟩
  | @line inside _ within ends =>
      refine ⟨'/', '/' :: (inside ++ after), rfl, rfl, ?_⟩
      refine (takeWhile_append_of_stops (all_ne within) ?_).2
      cases after with
      | nil => rfl
      | cons d after => simpa using ends
  | block enclosed => exact block (.block enclosed)
  | openBlock unclosed => exact block (.openBlock unclosed)

theorem takes_symbol {kind : Kind} (written : kind.symbol ≠ [])
    (longest : Longest kind.symbol after) (noComment : ¬ StartsComment (kind.symbol ++ after)) :
    Takes before after
      ⟨kind.symbol,
        some (.token ⟨kind, String.ofList kind.symbol, none, 1 + newlines before⟩)⟩ := by
  cases sign_of_symbol written with
  | @single c _ found =>
      rw [symbol_of_single? found]
      refine ⟨c, after, rfl, ?_⟩
      rw [piece_single _ after found]
      exact ⟨rfl, rfl⟩
  | @alone c kind withEqual found =>
      obtain ⟨isAlone, isWithEqual⟩ := symbol_of_paired? found
      have follows : after.head? ≠ some '=' := by
        intro follows
        cases after with
        | nil => cases follows
        | cons d after =>
            obtain rfl := Option.some.inj follows
            have longer : Lexeme withEqual (kind.symbol ++ ['=']) none := by
              rw [isAlone, List.singleton_append, ← isWithEqual]
              exact .symbol (by simp [isWithEqual])
            exact longest.not_longer ['='] ⟨after, rfl⟩ (List.cons_ne_nil _ _) longer
      rw [isAlone]
      refine ⟨c, after, rfl, ?_⟩
      rw [piece_alone _ after found follows]
      exact ⟨rfl, rfl⟩
  | @withEqual c _ _ found =>
      rw [(symbol_of_paired? found).2]
      refine ⟨c, '=' :: after, rfl, ?_⟩
      rw [piece_withEqual _ after found]
      exact ⟨rfl, rfl⟩
  | slash =>
      refine ⟨'/', after, rfl, ?_⟩
      rw [piece_slash, slashPiece_sign _ after noComment]
      exact ⟨rfl, rfl⟩

theorem takes_word (isWord : IsWord text) (longest : Longest text after) :
    Takes before after ⟨text, some (.token (ofWord (1 + newlines before) text))⟩ := by
  obtain ⟨start, parts⟩ := isWord
  cases text with
  | nil => cases start
  | cons c text =>
      have stops : after.head?.any isWordPart = false := longest.stops fun d isPart => by
        refine ⟨_, _, lexeme_word ⟨start, fun e held => ?_⟩⟩
        rcases List.mem_append.mp held with inWord | isLast
        · exact parts e inWord
        · rwa [List.mem_singleton.mp isLast]
      obtain ⟨taken, dropped⟩ := takeWhile_append_of_stops parts stops
      refine ⟨c, text ++ after, rfl, ?_⟩
      rw [piece_word start]
      dsimp only
      rw [List.tail_cons] at taken dropped
      rw [taken, dropped]
      exact ⟨rfl, rfl⟩

theorem takes_whole (areDigits : IsDigits text) (longest : Longest text after) :
    Takes before after ⟨text, some (.token (ofNumber (1 + newlines before) text none))⟩ := by
  obtain ⟨nonempty, all⟩ := areDigits
  cases text with
  | nil => exact absurd rfl nonempty
  | cons c text =>
      have stops : after.head?.any Unicode.isDigit = false := longest.stops fun d isDigit => by
        refine ⟨_, _, .whole ⟨List.append_ne_nil_of_left_ne_nil nonempty _, fun e held => ?_⟩⟩
        rcases List.mem_append.mp held with inWhole | isLast
        · exact all e inWhole
        · rwa [List.mem_singleton.mp isLast]
      obtain ⟨first, others⟩ := List.forall_mem_cons.mp all
      obtain ⟨taken, dropped⟩ := takeWhile_append_of_stops others stops
      refine ⟨c, text ++ after, rfl, ?_⟩
      rw [piece_of_isDigit first, numberPiece_whole, taken, dropped]
      · exact ⟨rfl, rfl⟩
      · intro d more follows
        rw [dropped] at follows
        refine eq_false_of_ne_true fun isDigit => ?_
        exact longest.not_longer ['.', d] (follows ▸ ⟨more, rfl⟩) (List.cons_ne_nil _ _)
          (.decimal ⟨nonempty, all⟩ ⟨List.cons_ne_nil _ _, by simpa using isDigit⟩)

theorem takes_decimal {whole fraction : List Char} (beforePoint : IsDigits whole)
    (afterPoint : IsDigits fraction) (longest : Longest (whole ++ '.' :: fraction) after) :
    Takes before after ⟨whole ++ '.' :: fraction,
      some (.token (ofNumber (1 + newlines before) whole (some fraction)))⟩ := by
  obtain ⟨nonempty', all'⟩ := afterPoint
  have stops : after.head?.any Unicode.isDigit = false := longest.stops fun e isDigit => by
    rw [List.append_assoc, List.cons_append]
    refine ⟨_, _, .decimal beforePoint
      ⟨List.append_ne_nil_of_left_ne_nil nonempty' _, fun e' held => ?_⟩⟩
    rcases List.mem_append.mp held with inFraction | isLast
    · exact all' e' inFraction
    · rwa [List.mem_singleton.mp isLast]
  obtain ⟨nonempty, all⟩ := beforePoint
  cases whole with
  | nil => exact absurd rfl nonempty
  | cons c whole =>
      cases fraction with
      | nil => exact absurd rfl nonempty'
      | cons d fraction =>
          obtain ⟨first, others⟩ := List.forall_mem_cons.mp all
          obtain ⟨first', others'⟩ := List.forall_mem_cons.mp all'
          obtain ⟨taken, dropped⟩ := takeWhile_append_of_stops others' stops
          refine ⟨c, whole ++ '.' :: d :: fraction ++ after, rfl, ?_⟩
          rw [piece_of_isDigit first, numberPiece_decimal others first', taken, dropped]
          exact ⟨rfl, rfl⟩

theorem takes_token {kind : Kind} {literal : Option Literal} (lexeme : Lexeme kind text literal)
    (longest : Longest text after) (noComment : ¬ StartsComment (text ++ after)) :
    Takes before after
      ⟨text, some (.token ⟨kind, String.ofList text, literal, 1 + newlines before⟩)⟩ := by
  cases lexeme with
  | symbol written => exact takes_symbol written longest noComment
  | @reserved kind isWord =>
      have taken : Takes before after _ := takes_word (isWord_spelling isWord) longest
      rwa [ofWord, ofWord?_spelling isWord] at taken
  | identifier isWord unreserved =>
      have taken : Takes before after _ := takes_word isWord longest
      have notReserved : Kind.ofWord? text = none :=
        Option.eq_none_iff_forall_ne_some.mpr fun kind found => by
          obtain ⟨reserved, same⟩ := Kind.word_of_ofWord? found
          exact unreserved kind reserved same
      rwa [ofWord, notReserved] at taken
  | whole areDigits => exact takes_whole areDigits longest
  | decimal beforePoint afterPoint => exact takes_decimal beforePoint afterPoint longest
  | @string inside closed =>
      refine ⟨'"', inside ++ '"' :: after, by simp, ?_⟩
      rw [piece_quote, stringPiece_closed closed]
      exact ⟨rfl, rfl⟩

/-- Where anything starts, a token or a string does. -/
theorem Starts.exists_lexeme (starts : Starts c) (rest : List Char) :
    c = '"' ∨ ∃ kind text literal, Lexeme kind text literal ∧ text <+: c :: rest := by
  have front : [c] <+: c :: rest := ⟨rest, rfl⟩
  cases starts with
  | @single kind found =>
      have isSymbol := symbol_of_single? found
      exact .inr ⟨kind, [c], none, isSymbol ▸ .symbol (by simp [isSymbol]), front⟩
  | @paired alone withEqual found =>
      have isSymbol := (symbol_of_paired? found).1
      exact .inr ⟨alone, [c], none, isSymbol ▸ .symbol (by simp [isSymbol]), front⟩
  | slash isSlash =>
      subst isSlash
      exact .inr ⟨.slash, ['/'], none, lexeme_slash, front⟩
  | quote isQuote => exact .inl isQuote
  | digit isDigit =>
      exact .inr ⟨.number, [c], _, .whole ⟨List.cons_ne_nil _ _, by simpa using isDigit⟩, front⟩
  | word isStart =>
      exact .inr
        ⟨_, [c], _, lexeme_word ⟨isStart, fun _ none => (List.not_mem_nil none).elim⟩, front⟩

/-- A piece that fits is the one that is taken. -/
theorem Segment.Fits.takes {segment : Segment} (fits : segment.Fits before after) :
    Takes before after segment := by
  cases fits with
  | gap skipped => exact takes_gap skipped
  | token lexeme longest noComment => exact takes_token lexeme longest noComment
  | @unexpected c noToken noGap noString =>
      have notStarts : ¬ Starts c := fun starts => by
        rcases starts.exists_lexeme after with isQuote | ⟨kind, text, literal, lexeme, front⟩
        · exact noString isQuote
        · exact noToken lexeme front
      have noBlank : ¬ (isBlank c = true ∨ c = '\n') := fun blank =>
        noGap (.blank (isBlank_iff.mpr blank) after) rfl
      obtain ⟨notBlank, notEnd⟩ := not_or.mp noBlank
      refine ⟨c, after, rfl, ?_⟩
      rw [piece_unexpected (Bool.eq_false_iff.mpr notBlank) notEnd notStarts]
      exact ⟨rfl, rfl⟩
  | @unterminated inside notClosed last =>
      subst last
      refine ⟨'"', inside, by simp, ?_⟩
      rw [piece_quote, stringPiece_unclosed notClosed, newlines_append,
        newlines_cons_of_ne (by decide), Nat.add_assoc]
      exact ⟨rfl, rfl⟩

end Fitting

/-! ## The whole source -/

/-- Pieces that stand in their places, one after another, behind the text before them. -/
def Placed (before : List Char) (segments : List Segment) : Prop :=
  ∀ front segment back, segments = front ++ segment :: back →
    segment.Fits (before ++ front.flatMap Segment.text) (back.flatMap Segment.text)

theorem placed_cons {before : List Char} {segment : Segment} {segments : List Segment} :
    Placed before (segment :: segments) ↔
      segment.Fits before (segments.flatMap Segment.text) ∧
        Placed (before ++ segment.text) segments := by
  refine ⟨fun placed => ⟨?_, fun front other back split => ?_⟩, ?_⟩
  · simpa using placed [] segment segments rfl
  · have fits := placed (segment :: front) other back (by rw [split]; rfl)
    rwa [List.flatMap_cons, ← List.append_assoc] at fits
  · rintro ⟨fits, placed⟩ front other back split
    cases front with
    | nil =>
        obtain ⟨rfl, rfl⟩ := List.cons.inj split
        simpa using fits
    | cons first front =>
        obtain ⟨rfl, among⟩ := List.cons.inj split
        have fits := placed front other back among
        rwa [List.append_assoc, ← List.flatMap_cons] at fits

theorem placed_append {before : List Char} {front segments : List Segment}
    (placed : Placed before (front ++ segments)) :
    Placed (before ++ front.flatMap Segment.text) segments := by
  induction front generalizing before with
  | nil => simpa using placed
  | cons segment front ih =>
      have placed' := ih (placed_cons.mp placed).2
      rwa [List.append_assoc, ← List.flatMap_cons] at placed'

/-- A text is read as the items of pieces that stand in their places in it. -/
theorem exists_placed (line : Nat) (text : List Char) :
    ∀ before, line = 1 + newlines before →
      ∃ segments, segments.flatMap Segment.text = text ∧ Placed before segments ∧
        scanFrom line text = segments.filterMap Segment.item ++
          [.token (endOn (1 + newlines (before ++ text)))] := by
  induction line, text using scan_induction with
  | nil line =>
      rintro before rfl
      refine ⟨[], rfl, fun front segment back split => ?_, by rw [scanFrom, List.append_nil]; rfl⟩
      cases front <;> cases split
  | cons line c rest ih =>
      rintro before rfl
      obtain ⟨text, whole, fits⟩ := takesFitting before c rest
      have lines := lines_piece (1 + newlines before) c rest
      rw [← whole, newlines_append] at lines
      obtain ⟨segments, covers, placed, read⟩ := ih (before ++ text) (by
        rw [newlines_append]
        omega)
      refine ⟨⟨text, (piece (1 + newlines before) c rest).item⟩ :: segments, ?_, ?_, ?_⟩
      · rw [List.flatMap_cons, covers]
        exact whole
      · exact placed_cons.mpr ⟨covers ▸ fits, placed⟩
      · rw [scanFrom_cons, read, List.append_assoc, whole, ← List.append_assoc]
        cases (piece (1 + newlines before) c rest).item <;> rfl

/-- A text is made of the pieces that stand in their places in one way only. -/
theorem placed_unique {segments others : List Segment} {before : List Char}
    (placed : Placed before segments) (placed' : Placed before others)
    (same : segments.flatMap Segment.text = others.flatMap Segment.text) : segments = others := by
  induction segments generalizing others before with
  | nil =>
      cases others with
      | nil => rfl
      | cons other others =>
          obtain ⟨c, rest, whole, _⟩ := (placed_cons.mp placed').1.takes
          rw [List.flatMap_cons, whole] at same
          cases same
  | cons segment segments ih =>
      obtain ⟨fits, placed⟩ := placed_cons.mp placed
      obtain ⟨c, rest, whole, item, left⟩ := fits.takes
      cases others with
      | nil =>
          rw [List.flatMap_cons, whole] at same
          cases same
      | cons other others =>
          obtain ⟨fits', placed'⟩ := placed_cons.mp placed'
          obtain ⟨c', rest', whole', item', left'⟩ := fits'.takes
          rw [List.flatMap_cons, List.flatMap_cons, whole, whole'] at same
          obtain ⟨rfl, rfl⟩ := List.cons.inj same
          have follows := left.symm.trans left'
          rw [follows] at whole
          have text := List.append_cancel_right (whole.trans whole'.symm)
          obtain rfl : segment = other := by
            cases segment
            cases other
            cases text
            exact congrArg _ (item.symm.trans item')
          rw [ih placed placed' follows]

theorem Lexeme.ne_nil {kind : Kind} {text : List Char} {literal : Option Literal}
    (lexeme : Lexeme kind text literal) : text ≠ [] := by
  cases lexeme with
  | symbol written => exact written
  | reserved isWord =>
      rintro isEmpty
      have start := (isWord_spelling isWord).start
      rw [isEmpty] at start
      cases start
  | identifier isWord unreserved =>
      rintro rfl
      cases isWord.start
  | whole areDigits => exact areDigits.nonempty
  | decimal => exact List.append_ne_nil_of_right_ne_nil _ (List.cons_ne_nil _ _)
  | string => exact List.cons_ne_nil _ _

theorem Lexeme.ne_eof {kind : Kind} {text : List Char} {literal : Option Literal}
    (lexeme : Lexeme kind text literal) : kind ≠ .eof := by
  rintro rfl
  cases lexeme with
  | symbol written => exact written rfl
  | reserved isWord => cases isWord

/--
A source is taken apart, in one way only, into pieces that stand in their places: the longest
tokens, blanks and comments between them, and faults.  The scanner yields the items of these pieces
in their order, with the lines that they start on, and then the end token.  A string that is not
closed yields the last item before it.
-/
theorem source_is_partitioned (source : String) :
    ∃ segments : List Segment, Partition source.toList segments ∧
      (∀ others, Partition source.toList others → others = segments) ∧
      scan source = segments.filterMap Segment.item ++
        [.token (endOn (1 + newlines source.toList))] ∧
      (∀ token, Scanned.token token ∈ segments.filterMap Segment.item → token.kind ≠ .eof) ∧
      ∀ front back line, segments.filterMap Segment.item =
          front ++ .fault (.lexical line .unterminatedString) :: back →
        back = [] ∧ line = 1 + newlines source.toList := by
  obtain ⟨segments, covers, placed, read⟩ := exists_placed 1 source.toList [] rfl
  refine ⟨segments, ⟨covers, placed⟩, fun others partition => ?_, read, ?_, ?_⟩
  · have placed' : Placed [] others := partition.fits
    exact placed_unique placed' placed (partition.covers.trans covers.symm)
  · intro token held
    obtain ⟨segment, among, isItem⟩ := List.mem_filterMap.mp held
    obtain ⟨front, back, split⟩ := List.append_of_mem among
    cases placed front segment back split with
    | token lexeme =>
        cases isItem
        exact lexeme.ne_eof
    | _ => cases isItem
  · intro front back line split
    obtain ⟨_, later, rfl, _, found⟩ := List.filterMap_eq_append_iff.mp split
    obtain ⟨_, segment, behind, rfl, _, isFault, rfl⟩ := List.filterMap_eq_cons_iff.mp found
    have placed' := placed_append (List.append_assoc .. ▸ placed)
    rw [← covers, ← List.append_assoc, List.flatMap_append, List.flatMap_cons]
    obtain ⟨fits, rest⟩ := placed_cons.mp placed'
    cases fits with
    | unterminated notClosed last =>
        cases isFault
        rw [last, List.append_nil]
        refine ⟨?_, rfl⟩
        cases behind with
        | nil => rfl
        | cons other behind =>
            obtain ⟨c, more, whole, _⟩ := (placed_cons.mp rest).1.takes
            rw [List.flatMap_cons, whole] at last
            cases last
    | _ => cases isFault

end Lox.Token
