import Lox.Proofs.Move.Trees
import Lox.Proofs.Token.Words

/-!
# Scanning a text that is put below another

A text that stands on later lines is read as the same tokens on later lines.  A text that nothing
is left open at the end of, no comment and no string, does not reach into the next line; so a text
below it is read as if it stood alone.
-/

namespace Lox

def Scanned.move (m : Move) : Scanned → Scanned
  | .token t => .token (t.move m)
  | .fault e => .fault (e.move m)

namespace Token

/-- The piece of a text that stands on other lines. -/
def Piece.move (m : Move) (piece : Piece) : Piece :=
  ⟨piece.item.map (Scanned.move m), piece.rest, m.line piece.line⟩

/-! ## Later lines -/

section Lines

variable {lines : Nat}

theorem afterBlockComment_down (depth line : Nat) (text : List Char) :
    afterBlockComment depth (line + lines) text =
      ((afterBlockComment depth line text).1 + lines, (afterBlockComment depth line text).2) := by
  fun_induction afterBlockComment depth line text with
  | case1 depth line => rfl
  | case2 depth line rest ih => rw [afterBlockComment, ih]
  | case3 line rest => rw [afterBlockComment]
  | case4 line rest outer ih => rw [afterBlockComment, ih]
  | case5 depth line c rest notOpen notClose ih =>
      rw [afterBlockComment, ← ih]
      · split
        · rw [Nat.add_right_comm]
        · rfl
      · exact notOpen
      · exact notClose

theorem numberPiece_down (line : Nat) (c : Char) (rest : List Char) :
    numberPiece (line + lines) c rest = (numberPiece line c rest).move (.down lines) := by
  unfold numberPiece
  split
  · split <;> rfl
  · rfl

theorem stringPiece_down (line : Nat) (rest : List Char) :
    stringPiece (line + lines) rest = (stringPiece line rest).move (.down lines) := by
  unfold stringPiece
  split
  · simp only [Piece.move, Option.map_some, Scanned.move, Error.lexical, Error.move, Move.down,
      Nat.add_right_comm]
  · simp only [Piece.move, Option.map_some, Scanned.move, ofString, Token.move, Move.down,
      Nat.add_right_comm]

theorem slashPiece_down (line : Nat) (rest : List Char) :
    slashPiece (line + lines) rest = (slashPiece line rest).move (.down lines) := by
  unfold slashPiece
  split
  · rfl
  · rw [afterBlockComment_down]
    rfl
  · rfl

/-- The first piece of a text does not depend on its line, but for the lines that it tells of. -/
theorem piece_down (line : Nat) (c : Char) (rest : List Char) :
    piece (line + lines) c rest = (piece line c rest).move (.down lines) := by
  unfold piece
  split
  · simp only [Piece.move, Option.map_none, Move.down, Nat.add_right_comm]
  split
  · rfl
  split
  · rfl
  split
  · split <;> rfl
  split
  · exact slashPiece_down line rest
  split
  · exact stringPiece_down line rest
  split
  · exact numberPiece_down line c rest
  split
  · rfl
  · rfl

/-- A text on later lines is read as the text is, on later lines. -/
theorem scanFrom_down (line : Nat) (text : List Char) :
    scanFrom (line + lines) text = (scanFrom line text).map (Scanned.move (.down lines)) := by
  induction line, text using scan_induction with
  | nil line => rw [scanFrom, scanFrom]; rfl
  | cons line c rest ih =>
      rw [scanFrom_cons, scanFrom_cons, piece_down, List.map_append, ← ih]
      obtain ⟨item, after, next⟩ := piece line c rest
      cases item <;> rfl

end Lines

/-! ## Lines are counted -/

theorem newlines_cons_of_ne {c : Char} (other : c ≠ '\n') (rest : List Char) :
    newlines (c :: rest) = newlines rest := List.count_cons_of_ne other

theorem newlines_append (text rest : List Char) :
    newlines (text ++ rest) = newlines text + newlines rest := List.count_append

/-- Characters that are taken, none of which ends a line, leave all ends of lines. -/
theorem newlines_dropWhile {p : Char → Bool} (stops : p '\n' = false) (text : List Char) :
    newlines (text.dropWhile p) = newlines text := by
  have taken : newlines (text.takeWhile p) = 0 := by
    refine List.count_eq_zero.mpr fun held => ?_
    have isTaken := List.all_eq_true.mp List.all_takeWhile _ held
    rw [stops] at isTaken
    cases isTaken
  have joined := newlines_append (text.takeWhile p) (text.dropWhile p)
  rw [List.takeWhile_append_dropWhile, taken, Nat.zero_add] at joined
  exact joined.symm

theorem lines_afterBlockComment (depth line : Nat) (text : List Char) :
    (afterBlockComment depth line text).1 + newlines (afterBlockComment depth line text).2 =
      line + newlines text := by
  fun_induction afterBlockComment depth line text with
  | case1 depth line => rfl
  | case2 depth line rest ih => simpa [newlines] using ih
  | case3 line rest => simp [newlines]
  | case4 line rest outer ih => simpa [newlines] using ih
  | case5 depth line c rest _ _ ih =>
      rw [ih]
      by_cases isEnd : c = '\n'
      · simp [isEnd, newlines]
        omega
      · rw [if_neg isEnd, newlines_cons_of_ne isEnd]

theorem lines_numberPiece (line : Nat) (c : Char) (rest : List Char) :
    (numberPiece line c rest).line + newlines (numberPiece line c rest).rest =
      line + newlines rest := by
  have whole := newlines_dropWhile (p := Unicode.isDigit) (by decide) rest
  unfold numberPiece
  split
  · next d more after =>
      rw [after] at whole
      split
      · next isDigit =>
          have notEnd : d ≠ '\n' := by
            rintro rfl
            cases isDigit
          have fraction := newlines_dropWhile (p := Unicode.isDigit) (by decide) more
          rw [newlines_cons_of_ne (by decide), newlines_cons_of_ne notEnd] at whole
          dsimp only
          rw [fraction, whole]
      · exact congrArg _ whole
  · exact congrArg _ whole

theorem lines_stringPiece (line : Nat) (rest : List Char) :
    (stringPiece line rest).line + newlines (stringPiece line rest).rest =
      line + newlines rest := by
  have joined := newlines_append (rest.takeWhile (· != '"')) (rest.dropWhile (· != '"'))
  rw [List.takeWhile_append_dropWhile] at joined
  unfold stringPiece
  split
  · rfl
  · next quote after found =>
      have isQuote : quote = '"' := by
        have stopped := List.head?_dropWhile_not (· != '"') rest
        rw [found] at stopped
        simpa using stopped
      rw [found, isQuote, newlines_cons_of_ne (by decide)] at joined
      dsimp only
      omega

theorem lines_slashPiece (line : Nat) (rest : List Char) :
    (slashPiece line rest).line + newlines (slashPiece line rest).rest = line + newlines rest := by
  unfold slashPiece
  split
  · next rest =>
      rw [newlines_cons_of_ne (by decide)]
      exact congrArg _ (newlines_dropWhile (by decide) rest)
  · next rest =>
      rw [newlines_cons_of_ne (by decide)]
      exact lines_afterBlockComment 0 line rest
  · rfl

/-- The line behind a piece is told by the ends of lines in front of it. -/
theorem lines_piece (line : Nat) (c : Char) (rest : List Char) :
    (piece line c rest).line + newlines (piece line c rest).rest = line + newlines (c :: rest) := by
  by_cases isEnd : c = '\n'
  · subst isEnd
    simp [piece, newlines]
    omega
  rw [newlines_cons_of_ne isEnd]
  unfold piece
  rw [if_neg isEnd]
  split
  · rfl
  split
  · rfl
  split
  · split
    · next after => rw [newlines_cons_of_ne (by decide)]
    · rfl
  split
  · exact lines_slashPiece line rest
  split
  · exact lines_stringPiece line rest
  split
  · exact lines_numberPiece line c rest
  split
  · exact congrArg _ (newlines_dropWhile (by decide) rest)
  · rfl

/-! ## The seam of two texts -/

/-- Whether a block comment, inside `depth` others, is closed before the text ends. -/
def closesComment (depth : Nat) : List Char → Bool
  | [] => false
  | '/' :: '*' :: rest => closesComment (depth + 1) rest
  | '*' :: '/' :: rest =>
    match depth with
    | 0 => true
    | outer + 1 => closesComment outer rest
  | _ :: rest => closesComment depth rest

/-- Whether a text starts with a block comment that is never closed. -/
def startsOpenComment : List Char → Bool
  | '/' :: '*' :: rest => !closesComment 0 rest
  | _ => false

/-- Whether the end of a text is inside a block comment. -/
def endsInComment (line : Nat) : List Char → Bool
  | [] => false
  | c :: rest =>
    startsOpenComment (c :: rest) ||
      endsInComment (piece line c rest).line (piece line c rest).rest
termination_by text => text.length
decreasing_by exact Nat.lt_succ_of_le (length_piece_le line c rest)

/-- The text in front of a line, and that line and those below it. -/
def above (text below : List Char) : List Char := text ++ '\n' :: below

theorem takeWhile_above {p : Char → Bool} (stops : p '\n' = false) (text below : List Char) :
    (above text below).takeWhile p = text.takeWhile p := by
  induction text with
  | nil => simp [above, stops]
  | cons c text ih =>
      unfold above at ih
      simp [above, List.takeWhile_cons, ih]

theorem dropWhile_above {p : Char → Bool} (stops : p '\n' = false) (text below : List Char) :
    (above text below).dropWhile p = above (text.dropWhile p) below := by
  induction text with
  | nil => simp [above, stops]
  | cons c text ih =>
      unfold above at ih
      simp only [above, List.cons_append, List.dropWhile_cons, ih]
      split <;> rfl

theorem afterBlockComment_above {depth : Nat} (line : Nat) {text : List Char} (below : List Char)
    (closed : closesComment depth text = true) :
    afterBlockComment depth line (above text below) =
      ((afterBlockComment depth line text).1, above (afterBlockComment depth line text).2 below) := by
  fun_induction afterBlockComment depth line text with
  | case1 depth line => cases closed
  | case2 depth line rest ih =>
      unfold above at ih ⊢
      exact ih closed
  | case3 line rest => rfl
  | case4 line rest outer ih =>
      unfold above at ih ⊢
      exact ih closed
  | case5 depth line c rest notOpen notClose ih =>
      have closed : closesComment depth rest = true := by
        rw [closesComment] at closed
        · exact closed
        · exact notOpen
        · exact notClose
      unfold above at ih ⊢
      rw [List.cons_append, afterBlockComment, ih closed]
      · intro after isOpen follows
        cases rest with
        | nil => cases follows
        | cons d rest =>
            cases follows
            exact notOpen _ isOpen rfl
      · intro after isClose follows
        cases rest with
        | nil => cases follows
        | cons d rest =>
            cases follows
            exact notClose _ isClose rfl

/-- A piece that may be followed by more text: what is behind it goes on with the text below. -/
def Piece.above (piece : Piece) (below : List Char) : Piece :=
  { piece with rest := Token.above piece.rest below }

/-- A number without a fraction ends where its digits do. -/
theorem numberPiece_whole {line : Nat} {c : Char} {rest : List Char}
    (whole : ∀ d more, rest.dropWhile Unicode.isDigit = '.' :: d :: more →
      Unicode.isDigit d = false) :
    numberPiece line c rest =
      ⟨some (.token (ofNumber line (c :: rest.takeWhile Unicode.isDigit) none)),
        rest.dropWhile Unicode.isDigit, line⟩ := by
  unfold numberPiece
  split
  · next d more after =>
      rw [if_neg (Bool.eq_false_iff.mp (whole d more after)), after]
  · rfl

theorem numberPiece_fraction {line : Nat} {c d : Char} {rest more : List Char}
    (after : rest.dropWhile Unicode.isDigit = '.' :: d :: more) (isDigit : Unicode.isDigit d) :
    numberPiece line c rest =
      ⟨some (.token (ofNumber line (c :: rest.takeWhile Unicode.isDigit)
          (some (d :: more.takeWhile Unicode.isDigit)))),
        more.dropWhile Unicode.isDigit, line⟩ := by
  rw [numberPiece, after]
  exact if_pos isDigit

theorem numberPiece_above (line : Nat) (c : Char) (rest below : List Char) :
    numberPiece line c (above rest below) = (numberPiece line c rest).above below := by
  have stops : Unicode.isDigit '\n' = false := by decide
  have digits := dropWhile_above stops rest below
  have whole := takeWhile_above stops rest below
  by_cases fraction : ∃ d more, rest.dropWhile Unicode.isDigit = '.' :: d :: more ∧
      Unicode.isDigit d = true
  · obtain ⟨d, more, after, isDigit⟩ := fraction
    have digits : (above rest below).dropWhile Unicode.isDigit =
        '.' :: d :: above more below := by
      rw [digits, after]
      rfl
    rw [numberPiece_fraction after isDigit, numberPiece_fraction digits isDigit, whole,
      dropWhile_above stops, takeWhile_above stops]
    rfl
  · have noFraction : ∀ d more, rest.dropWhile Unicode.isDigit = '.' :: d :: more →
        Unicode.isDigit d = false :=
      fun d more after => eq_false_of_ne_true fun isDigit => fraction ⟨d, more, after, isDigit⟩
    rw [numberPiece_whole noFraction, numberPiece_whole ?_, digits, whole]
    · rfl
    · intro d more after
      rw [digits] at after
      rcases found : rest.dropWhile Unicode.isDigit with _ | ⟨e, _ | ⟨e', others⟩⟩
      · rw [found] at after
        cases after
      · rw [found] at after
        cases after
        exact stops
      · rw [found] at after
        cases after
        exact noFraction _ _ found

/-- A string that ends in the text above ends there also if more text is below. -/
theorem stringPiece_above {line : Nat} {rest : List Char} (below : List Char)
    (ended : rest.dropWhile (· != '"') ≠ []) :
    stringPiece line (above rest below) = (stringPiece line rest).above below := by
  have inside : (above rest below).takeWhile (· != '"') = rest.takeWhile (· != '"') ∧
      (above rest below).dropWhile (· != '"') = above (rest.dropWhile (· != '"')) below := by
    induction rest with
    | nil => exact absurd rfl ended
    | cons c rest ih =>
        unfold above at ih ⊢
        simp only [List.cons_append, List.takeWhile_cons, List.dropWhile_cons] at ended ⊢
        split
        · next inside =>
            rw [if_pos inside] at ended
            obtain ⟨taken, dropped⟩ := ih ended
            exact ⟨congrArg _ taken, dropped⟩
        · exact ⟨rfl, rfl⟩
  unfold stringPiece
  rw [inside.1, inside.2]
  cases found : rest.dropWhile (· != '"') with
  | nil => exact absurd found ended
  | cons quote after => rfl

theorem slashPiece_above {line : Nat} {rest : List Char} (below : List Char)
    (closed : startsOpenComment ('/' :: rest) = false) :
    slashPiece line (above rest below) = (slashPiece line rest).above below := by
  rcases rest with _ | ⟨c, rest⟩
  · rfl
  · by_cases isLine : c = '/'
    · subst isLine
      have comment := dropWhile_above (p := (· != '\n')) (by decide) rest below
      exact congrArg (fun after => (⟨none, after, line⟩ : Piece)) comment
    by_cases isBlock : c = '*'
    · subst isBlock
      have closes : closesComment 0 rest = true := by simpa [startsOpenComment] using closed
      have comment := afterBlockComment_above line below closes
      unfold above at comment
      simp only [above, List.cons_append, slashPiece, comment, Piece.above]
    · simp only [above, List.cons_append]
      unfold slashPiece
      split
      · next same =>
          cases same
          exact absurd rfl isLine
      · next same =>
          cases same
          exact absurd rfl isBlock
      · split
        · next same =>
            cases same
            exact absurd rfl isLine
        · next same =>
            cases same
            exact absurd rfl isBlock
        · rfl

/-- A string that does not end is a fault. -/
theorem stringPiece_open (line : Nat) {rest : List Char} (open' : rest.dropWhile (· != '"') = []) :
    ∃ error, (stringPiece line rest).item = some (.fault error) := by
  unfold stringPiece
  rw [open']
  exact ⟨_, rfl⟩

/--
The first piece of a text is the same if more text is below, unless it is a comment or a string
that is left open.
-/
theorem piece_above {line : Nat} {c : Char} {rest : List Char} (below : List Char)
    (closed : startsOpenComment (c :: rest) = false)
    (sound : ∀ error, (piece line c rest).item ≠ some (.fault error)) :
    piece line c (above rest below) = (piece line c rest).above below := by
  unfold piece at sound ⊢
  split
  · rfl
  split
  · rfl
  split
  · rfl
  split
  · rcases rest with _ | ⟨d, rest⟩
    · rfl
    · by_cases isEqual : d = '='
      · subst isEqual
        rfl
      · simp only [above, List.cons_append]
        split
        · next same =>
            cases same
            exact absurd rfl isEqual
        · split
          · next same =>
              cases same
              exact absurd rfl isEqual
          · rfl
  split
  · next isSlash =>
      subst isSlash
      exact slashPiece_above below closed
  split
  · next notEnd notBlank _ single _ paired notSlash isQuote =>
      refine stringPiece_above below fun unended => ?_
      obtain ⟨error, isFault⟩ := stringPiece_open line unended
      refine sound error ?_
      rw [if_neg notEnd, if_neg notBlank, single]
      dsimp only
      rw [paired]
      dsimp only
      rw [if_neg notSlash, if_pos isQuote]
      exact isFault
  split
  · exact numberPiece_above line c rest below
  split
  · have stops : isWordPart '\n' = false := by decide
    rw [takeWhile_above stops, dropWhile_above stops]
    rfl
  · rfl

theorem scanFrom_ne_nil (line : Nat) (text : List Char) : scanFrom line text ≠ [] := by
  induction line, text using scan_induction with
  | nil line =>
      rw [scanFrom]
      exact List.cons_ne_nil _ _
  | cons line c rest ih =>
      rw [scanFrom_cons]
      exact List.append_ne_nil_of_right_ne_nil _ ih

/--
A text below another one is read as it is on its own, on later lines, if nothing is left open at
the end of the text above it.  Only the end token of the text above is not read any more.
-/
theorem scanFrom_above {line : Nat} {text : List Char} (below : List Char)
    (closed : endsInComment line text = false)
    (sound : ∀ error, Scanned.fault error ∉ scanFrom line text) :
    scanFrom line (above text below) =
      (scanFrom line text).dropLast ++ scanFrom (line + newlines text + 1) below := by
  induction line, text using scan_induction with
  | nil line =>
      rw [above, List.nil_append, scanFrom_cons, scanFrom.eq_1]
      rfl
  | cons line c rest ih =>
      rw [endsInComment, Bool.or_eq_false_iff] at closed
      rw [scanFrom_cons] at sound
      have first : ∀ error, (piece line c rest).item ≠ some (.fault error) :=
        fun error isFault => sound error (by simp [isFault])
      have later := ih closed.2 fun error held => sound error (List.mem_append_right _ held)
      have split : above (c :: rest) below = c :: above rest below := rfl
      rw [split, scanFrom_cons, piece_above below closed.1 first, scanFrom_cons,
        List.dropLast_append_of_ne_nil (scanFrom_ne_nil _ _), ← lines_piece line c rest,
        List.append_assoc, ← later]
      rfl

/-! ## Whole texts -/

theorem single?_ne_eof (c : Char) : single? c ≠ some .eof := by
  unfold single?
  split <;> exact fun found => by cases found

theorem paired?_ne_eof {c : Char} {alone withEqual : Kind}
    (found : paired? c = some (alone, withEqual)) : alone ≠ .eof ∧ withEqual ≠ .eof := by
  unfold paired? at found
  split at found <;> first | (cases found; exact ⟨nofun, nofun⟩) | cases found

theorem kind_ofWord_ne_eof (line : Nat) (word : List Char) : (ofWord line word).kind ≠ .eof := by
  have word? : Kind.ofWord? word ≠ some .eof := fun found => by
    cases (Kind.word_of_ofWord? found).1
  unfold ofWord
  cases found : Kind.ofWord? word with
  | none => exact nofun
  | some kind => exact fun isEof => word? (found.trans (congrArg some isEof))

theorem numberPiece_item (line : Nat) (c : Char) (rest : List Char) :
    ∃ fraction, (numberPiece line c rest).item =
      some (.token (ofNumber line (c :: rest.takeWhile Unicode.isDigit) fraction)) := by
  unfold numberPiece
  split
  · split
    · exact ⟨_, rfl⟩
    · exact ⟨_, rfl⟩
  · exact ⟨_, rfl⟩

/-- Only the end of a text is read as an end token. -/
theorem kind_ne_eof_of_piece {line : Nat} {c : Char} {rest : List Char} {token : Token}
    (found : (piece line c rest).item = some (.token token)) : token.kind ≠ .eof := by
  unfold piece at found
  split at found
  · cases found
  split at found
  · cases found
  split at found
  · next kind single =>
      cases found
      exact fun isEof => single?_ne_eof c (single.trans (congrArg some isEof))
  split at found
  · next alone withEqual paired =>
      obtain ⟨notAlone, notWithEqual⟩ := paired?_ne_eof paired
      split at found
      · cases found
        exact notWithEqual
      · cases found
        exact notAlone
  split at found
  · unfold slashPiece at found
    split at found
    · cases found
    · cases found
    · cases found
      exact fun isEof => by cases isEof
  split at found
  · unfold stringPiece at found
    split at found
    · cases found
    · cases found
      exact fun isEof => by cases isEof
  split at found
  · obtain ⟨fraction, isNumber⟩ := numberPiece_item line c rest
    cases isNumber.symm.trans found
    cases fraction <;> exact fun isEof => by cases isEof
  split at found
  · cases found
    exact kind_ofWord_ne_eof line _
  · cases found

/-- The last token of a text is its end token, and no other is one. -/
theorem exists_scanFrom_eq (line : Nat) (text : List Char) :
    ∃ items, scanFrom line text = items ++ [.token (endOn (line + newlines text))] ∧
      ∀ token, Scanned.token token ∈ items → token.kind ≠ .eof := by
  induction line, text using scan_induction with
  | nil line => exact ⟨[], scanFrom.eq_1 line, fun _ none => (List.not_mem_nil none).elim⟩
  | cons line c rest ih =>
      obtain ⟨items, scanned, inside⟩ := ih
      refine ⟨(piece line c rest).item.toList ++ items, ?_, fun token held => ?_⟩
      · rw [scanFrom_cons, scanned, lines_piece, List.append_assoc]
      · rcases List.mem_append.mp held with first | later
        · exact kind_ne_eof_of_piece (Option.mem_toList.mp first)
        · exact inside token later

/-- The tokens of a source and, behind them, its end token. -/
theorem exists_ofSource_eq (source : String) :
    ∃ body, ofSource source = body ++ [endOn (1 + newlines source.toList)] ∧
      ∀ token ∈ body, token.kind ≠ .eof := by
  obtain ⟨items, scanned, inside⟩ := exists_scanFrom_eq 1 source.toList
  refine ⟨items.filterMap Scanned.token?, ?_, fun token held => ?_⟩
  · unfold ofSource scan
    rw [scanned, List.filterMap_append]
    rfl
  · obtain ⟨item, held, isToken⟩ := List.mem_filterMap.mp held
    cases item with
    | token other =>
        cases isToken
        exact inside token held
    | fault error => cases isToken

theorem tokens_move (m : Move) (items : List Scanned) :
    (items.map (Scanned.move m)).filterMap Scanned.token? =
      (items.filterMap Scanned.token?).map (Token.move m) := by
  rw [List.filterMap_map, List.map_filterMap]
  congr 1
  funext item
  cases item <;> rfl

theorem errors_move (m : Move) (items : List Scanned) :
    (items.map (Scanned.move m)).filterMap Scanned.error? =
      (items.filterMap Scanned.error?).map (Error.move m) := by
  rw [List.filterMap_map, List.map_filterMap]
  congr 1
  funext item
  cases item <;> rfl

/-- A text with empty lines above it. -/
def lowered (lines : Nat) (source : String) : String :=
  String.ofList (List.replicate lines '\n') ++ source

/-- Lines are counted from one, so nothing stands on line 0. -/
theorem scan_move_under (lines offset : Nat) (source : String) :
    (scan source).map (Scanned.move (.under lines offset)) =
      (scan source).map (Scanned.move (.down lines)) := by
  have counted : scan source = (scanFrom 0 source.toList).map (Scanned.move (.down 1)) := by
    rw [← scanFrom_down]
    rfl
  rw [counted, List.map_map, List.map_map]
  congr 1
  funext item
  rcases item with token | ⟨line, place, fault⟩ | _ | _ | _ <;> rfl

/-- A text below empty lines is read as it is on its own, on later lines. -/
theorem scan_lowered (lines offset : Nat) (source : String) :
    scan (lowered lines source) = (scan source).map (Scanned.move (.under lines offset)) := by
  have passed : ∀ line, scanFrom line (List.replicate lines '\n' ++ source.toList) =
      scanFrom (line + lines) source.toList := by
    induction lines with
    | zero => exact fun line => rfl
    | succ lines ih =>
        intro line
        rw [List.replicate_succ, List.cons_append, scanFrom_cons]
        refine (ih (line + 1)).trans ?_
        rw [Nat.add_assoc, Nat.add_comm 1]
  rw [scan, lowered, String.toList_append, String.toList_ofList, passed, scanFrom_down,
    scan_move_under]
  rfl

/--
A source that is put below another one, on a line of its own, is read as it is below empty lines,
if nothing is left open at the end of the source above it.
-/
theorem scan_joined {source : String} (below : String)
    (closed : endsInComment 1 source.toList = false) (sound : lexicalErrors source = []) :
    scan (source ++ "\n" ++ below) =
      (scan source).dropLast ++ scan (lowered (newlines source.toList + 1) below) := by
  have split : (source ++ "\n" ++ below).toList = above source.toList below.toList := by
    simp [above]
  have faultless : ∀ error, Scanned.fault error ∉ scanFrom 1 source.toList := by
    intro error held
    have isError : error ∈ lexicalErrors source := List.mem_filterMap.mpr ⟨_, held, rfl⟩
    rw [sound] at isError
    exact List.not_mem_nil isError
  rw [scan, split, scanFrom_above below.toList closed faultless, Nat.add_assoc, scanFrom_down,
    scan_lowered _ 0, scan_move_under]
  rfl

/-- The tokens of both sources, but for the end of the one above, and the faults of both. -/
theorem ofSource_joined {source : String} (below : String)
    (closed : endsInComment 1 source.toList = false) (sound : lexicalErrors source = []) :
    ofSource (source ++ "\n" ++ below) =
        (ofSource source).dropLast ++ ofSource (lowered (newlines source.toList + 1) below) ∧
      lexicalErrors (source ++ "\n" ++ below) =
        lexicalErrors (lowered (newlines source.toList + 1) below) := by
  obtain ⟨items, scanned, _⟩ := exists_scanFrom_eq 1 source.toList
  have scanned : scan source = items ++ [.token (endOn (1 + newlines source.toList))] := scanned
  have faultless := sound
  unfold lexicalErrors at faultless
  rw [scanned, List.filterMap_append, List.append_eq_nil_iff] at faultless
  have joined := scan_joined below closed sound
  rw [scanned, List.dropLast_concat] at joined
  constructor
  · unfold ofSource
    rw [joined, List.filterMap_append, scanned, List.filterMap_append]
    exact congrArg (· ++ _) List.dropLast_concat.symm
  · unfold lexicalErrors
    rw [joined, List.filterMap_append, faultless.1, List.nil_append]

end Token

end Lox
