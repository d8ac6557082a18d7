import Lox.Proofs.Token.Words

/-!
# Rewriting identifiers

A text is rewritten by putting another word in place of some of its identifiers, told by the
numbers of their tokens, and leaving all else as it is.  What follows a piece of text bears on
the piece only by how it starts, and one word starts like another; so the rewritten text is read
as the same tokens, with the new word in place of the old ones.
-/

namespace Lox.Token

/-- A word that is read as an identifier. -/
structure IsName (word : List Char) : Prop where
  start : ∃ c rest, word = c :: rest ∧ isWordStart c = true ∧ ∀ d ∈ rest, isWordPart d = true
  unreserved : Kind.ofWord? word = none

/-- Whether the token with a number is an identifier that is to be replaced. -/
def isReplaced (places : List Nat) (index : Nat) (token : Token) : Bool :=
  decide (index ∈ places) && token.kind == .identifier

/-- A token, the next one with the given number, with the word in its place if it is replaced. -/
def rewritten (places : List Nat) (word : List Char) (index : Nat) (token : Token) : Token :=
  if token.isReplaced places index then { token with lexeme := String.ofList word } else token

/-- The characters of a text that are in front of what follows. -/
def inFront (text after : List Char) : List Char := text.take (text.length - after.length)

/-- A text, the first token of which has the given number, with the word in the given places. -/
def rewriteFrom (places : List Nat) (word : List Char) (index line : Nat) :
    List Char → List Char
  | [] => []
  | c :: rest =>
    match _taken : piece line c rest with
    | ⟨some (.token token), after, next⟩ =>
      (if token.isReplaced places index then word else inFront (c :: rest) after) ++
        rewriteFrom places word (index + 1) next after
    | ⟨_, after, next⟩ =>
      inFront (c :: rest) after ++ rewriteFrom places word index next after
termination_by text => text.length
decreasing_by
  all_goals
    have shorter := length_piece_le line c rest
    rw [_taken] at shorter
    exact Nat.lt_succ_of_le shorter

/-- A source text with the word in the places of the identifiers with the given numbers. -/
def rewrite (places : List Nat) (word : String) (source : String) : String :=
  String.ofList (rewriteFrom places word.toList 0 1 source.toList)

/-! ## Characters that words start with -/

theorem isWordStart_ne {c d : Char} (starts : isWordStart c = true)
    (other : isWordStart d = false) : c ≠ d := by
  rintro rfl
  rw [starts] at other
  cases other

theorem isWordPart_of_isWordStart {c : Char} (starts : isWordStart c = true) :
    isWordPart c = true := by
  rcases Bool.or_eq_true_iff.mp starts with alphabetic | underscore
  · simp [isWordPart, Unicode.isAlphanumeric_of_isAlphabetic alphabetic]
  · simp [isWordPart, underscore]

theorem le_iff_toNat_le (c d : Char) : c ≤ d ↔ c.toNat ≤ d.toNat := by
  rw [Char.le_def, UInt32.le_iff_toNat_le]
  rfl

theorem isDigit_of_isWordStart {c : Char} (starts : isWordStart c = true) :
    Unicode.isDigit c = false := by
  refine eq_false_of_ne_true fun isDigit => ?_
  simp only [Unicode.isDigit, Bool.and_eq_true, decide_eq_true_eq, le_iff_toNat_le] at isDigit
  have zero : '0'.toNat = 48 := rfl
  have nine : '9'.toNat = 57 := rfl
  have ascii : c.toNat < 0x80 := by omega
  have notLetter : Unicode.isAsciiLetter c = false := by
    have a : 'a'.toNat = 97 := rfl
    have A : 'A'.toNat = 65 := rfl
    simp only [Unicode.isAsciiLetter, Bool.or_eq_false_iff, Bool.and_eq_false_iff,
      decide_eq_false_iff_not, le_iff_toNat_le]
    omega
  have notUnderscore : c ≠ '_' := by
    rintro rfl
    exact absurd isDigit (by decide)
  simp [isWordStart, Unicode.isAlphabetic, ascii, notLetter, notUnderscore] at starts

/-- A piece that starts as a word does is that word. -/
theorem piece_word {c : Char} (starts : isWordStart c = true) (line : Nat) (rest : List Char) :
    piece line c rest =
      ⟨some (.token (ofWord line (c :: rest.takeWhile isWordPart))),
        rest.dropWhile isWordPart, line⟩ := by
  have other : ∀ {d : Char}, isWordStart d = false → c ≠ d := isWordStart_ne starts
  have notBlank : isBlank c = false := by
    simp [isBlank, other (d := ' ') (by decide), other (d := '\r') (by decide),
      other (d := '\t') (by decide)]
  have notSingle : single? c = none := by
    unfold single?
    split <;> first | rfl | exact absurd starts (by decide)
  have notPaired : paired? c = none := by
    unfold paired?
    split <;> first | rfl | exact absurd starts (by decide)
  simp [piece, other (d := '\n') (by decide), notBlank, notSingle, notPaired,
    other (d := '/') (by decide), other (d := '"') (by decide), isDigit_of_isWordStart starts,
    starts]

/-! ## What a piece sees of the text after it -/

/-- Two characters, if there are any, that are the same or both start a word. -/
def StartsAlike (x y : Option Char) : Prop :=
  x = y ∨ ∃ c d, x = some c ∧ y = some d ∧ isWordStart c = true ∧ isWordStart d = true

/-- Two texts that no piece in front of them tells apart. -/
structure FollowsAlike (after after' : List Char) : Prop where
  first : StartsAlike after.head? after'.head?
  /-- After a point a number may go on. -/
  second : after.head? = some '.' → StartsAlike after.tail.head? after'.tail.head?

namespace StartsAlike

variable {x y : Option Char}

theorem refl (x : Option Char) : StartsAlike x x := .inl rfl

/-- A character that starts no word is the same in both texts. -/
theorem eq_some (alike : StartsAlike x y) {c : Char} (plain : isWordStart c = false) :
    x = some c ↔ y = some c := by
  rcases alike with rfl | ⟨a, b, rfl, rfl, starts, starts'⟩
  · exact Iff.rfl
  · simp [isWordStart_ne starts plain, isWordStart_ne starts' plain]

theorem eq_none (alike : StartsAlike x y) : x = none ↔ y = none := by
  rcases alike with rfl | ⟨a, b, rfl, rfl, _, _⟩
  · exact Iff.rfl
  · simp

/-- Whether a character belongs to a class is the same if all starts of words agree on it. -/
theorem any_eq (alike : StartsAlike x y) {p : Char → Bool} {answer : Bool}
    (uniform : ∀ c, isWordStart c = true → p c = answer) : x.any p = y.any p := by
  rcases alike with rfl | ⟨a, b, rfl, rfl, starts, starts'⟩
  · rfl
  · simp [uniform a starts, uniform b starts']

end StartsAlike

/-- Characters of a class in front of a text that does not start with one. -/
theorem takeWhile_append_of_stops {p : Char → Bool} {inside after : List Char}
    (all : ∀ c ∈ inside, p c = true) (stops : after.head?.any p = false) :
    (inside ++ after).takeWhile p = inside ∧ (inside ++ after).dropWhile p = after := by
  induction inside with
  | nil =>
      cases after with
      | nil => exact ⟨rfl, rfl⟩
      | cons c after =>
          have other : p c = false := by simpa using stops
          simp [other]
  | cons c inside ih =>
      obtain ⟨first, others⟩ := List.forall_mem_cons.mp all
      obtain ⟨taken, dropped⟩ := ih others
      simp [first, taken, dropped]

/-- What is left does not start with a character of the class. -/
theorem any_head?_dropWhile (p : Char → Bool) (text : List Char) :
    (text.dropWhile p).head?.any p = false := by
  have stops := List.head?_dropWhile_not p text
  cases head : (text.dropWhile p).head? with
  | none => rfl
  | some c =>
      rw [head] at stops
      simpa using stops

/-- A class of characters takes the same from two texts that go on alike. -/
theorem span_alike {p : Char → Bool} {answer : Bool}
    (uniform : ∀ c, isWordStart c = true → p c = answer) {text after' : List Char}
    (alike : FollowsAlike (text.dropWhile p) after') :
    (text.takeWhile p ++ after').takeWhile p = text.takeWhile p ∧
      (text.takeWhile p ++ after').dropWhile p = after' := by
  refine takeWhile_append_of_stops (List.all_eq_true.mp List.all_takeWhile) ?_
  rw [← alike.first.any_eq uniform]
  exact any_head?_dropWhile p text

/-! ## Pieces are read alike -/

/-- A way of reading takes a text apart, and reads it alike in front of all that follows alike. -/
def ReadsAlike (read : List Char → Piece) (text : List Char) : Prop :=
  ∃ inside, text = inside ++ (read text).rest ∧
    ∀ after', FollowsAlike (read text).rest after' →
      read (inside ++ after') = ⟨(read text).item, after', (read text).line⟩

/-- The piece that starts with a character to which `=` may be added. -/
theorem readsAlike_pairedPiece (line : Nat) (c : Char) (alone withEqual : Kind)
    (text : List Char) :
    ReadsAlike (fun rest =>
      match rest with
      | '=' :: after =>
        ⟨some (.token ⟨withEqual, String.ofList [c, '='], none, line⟩), after, line⟩
      | _ => ⟨some (.token ⟨alone, String.ofList [c], none, line⟩), rest, line⟩) text := by
  unfold ReadsAlike
  dsimp only
  split
  · exact ⟨['='], rfl, fun _ _ => rfl⟩
  · next other =>
      refine ⟨[], rfl, fun after' alike => ?_⟩
      rw [List.nil_append]
      split
      · next after =>
          obtain ⟨rest, starts⟩ := List.head?_eq_some_iff.mp
            ((alike.first.eq_some (c := '=') (by decide)).mpr rfl)
          exact absurd starts (other rest)
      · rfl

theorem afterBlockComment_alike (depth line : Nat) (text : List Char) :
    ∃ inside, text = inside ++ (afterBlockComment depth line text).2 ∧
      (inside = [] → text = []) ∧
      ∀ after', FollowsAlike (afterBlockComment depth line text).2 after' →
        afterBlockComment depth line (inside ++ after') =
          ((afterBlockComment depth line text).1, after') := by
  fun_induction afterBlockComment depth line text with
  | case1 depth line =>
      refine ⟨[], rfl, fun _ => rfl, fun after' alike => ?_⟩
      obtain rfl : after' = [] := List.head?_eq_none_iff.mp (alike.first.eq_none.mp rfl)
      rfl
  | case2 depth line rest ih =>
      obtain ⟨inside, split, _, alike⟩ := ih
      exact ⟨'/' :: '*' :: inside, congrArg (fun text => '/' :: '*' :: text) split, by simp,
        fun after' follows => alike after' follows⟩
  | case3 line rest =>
      exact ⟨['*', '/'], rfl, by simp, fun after' follows => rfl⟩
  | case4 line rest outer ih =>
      obtain ⟨inside, split, _, alike⟩ := ih
      exact ⟨'*' :: '/' :: inside, congrArg (fun text => '*' :: '/' :: text) split, by simp,
        fun after' follows => alike after' follows⟩
  | case5 depth line c rest notOpen notClose ih =>
      obtain ⟨inside, split, empty, alike⟩ := ih
      refine ⟨c :: inside, by rw [List.cons_append, ← split], by simp, fun after' follows => ?_⟩
      have same : ∀ d more, inside ++ after' = d :: more → ∃ more', rest = d :: more' := by
        intro d more starts
        cases inside with
        | nil =>
            obtain rfl := empty rfl
            obtain rfl : after' = [] := List.head?_eq_none_iff.mp (follows.first.eq_none.mp rfl)
            cases starts
        | cons e inside =>
            obtain ⟨rfl, _⟩ := List.cons.inj starts
            exact ⟨_, split⟩
      rw [List.cons_append, afterBlockComment, alike after' follows]
      · intro other isSlash starts
        obtain ⟨more, rfl⟩ := same _ _ starts
        exact notOpen more isSlash rfl
      · intro other isStar starts
        obtain ⟨more, rfl⟩ := same _ _ starts
        exact notClose more isStar rfl

theorem readsAlike_slashPiece (line : Nat) (text : List Char) :
    ReadsAlike (slashPiece line) text := by
  unfold ReadsAlike slashPiece
  split
  · next rest =>
      refine ⟨'/' :: rest.takeWhile (· != '\n'), ?_, fun after' alike => ?_⟩
      · rw [List.cons_append, afterLineComment, List.takeWhile_append_dropWhile]
      · have uniform : ∀ c, isWordStart c = true → (c != '\n') = true := fun c starts =>
          bne_iff_ne.mpr (isWordStart_ne starts (by decide))
        exact congrArg (fun rest => Piece.mk none rest line) (span_alike uniform alike).2
  · next rest =>
      obtain ⟨inside, parts, _, alike⟩ := afterBlockComment_alike 0 line rest
      refine ⟨'*' :: inside, ?_, fun after' follows => ?_⟩
      · exact congrArg (List.cons '*') parts
      · simp only [List.cons_append, alike after' follows]
  · next notLine notBlock =>
      refine ⟨[], rfl, fun after' alike => ?_⟩
      rw [List.nil_append]
      split
      · next rest =>
          obtain ⟨rest, starts⟩ := List.head?_eq_some_iff.mp
            ((alike.first.eq_some (c := '/') (by decide)).mpr rfl)
          exact absurd starts (notLine rest)
      · next rest =>
          obtain ⟨rest, starts⟩ := List.head?_eq_some_iff.mp
            ((alike.first.eq_some (c := '*') (by decide)).mpr rfl)
          exact absurd starts (notBlock rest)
      · rfl

theorem readsAlike_stringPiece (line : Nat) (text : List Char) :
    ReadsAlike (stringPiece line) text := by
  unfold ReadsAlike stringPiece
  split
  · next ended =>
      refine ⟨text, (List.append_nil _).symm, fun after' alike => ?_⟩
      obtain rfl : after' = [] := List.head?_eq_none_iff.mp (alike.first.eq_none.mp rfl)
      rw [List.append_nil, ended]
  · next quote after closed =>
      have joined := List.takeWhile_append_dropWhile (p := (· != '"')) (l := text)
      rw [closed] at joined
      have stops := List.head?_dropWhile_not (· != '"') text
      rw [closed] at stops
      refine ⟨text.takeWhile (· != '"') ++ [quote], ?_, fun after' alike => ?_⟩
      · rw [List.append_assoc]
        exact joined.symm
      · have quoted : (quote :: after').head?.any (· != '"') = false := by simpa using stops
        obtain ⟨taken, dropped⟩ := takeWhile_append_of_stops
          (List.all_eq_true.mp (List.all_takeWhile (l := text))) quoted
        rw [List.append_assoc, List.singleton_append, taken, dropped]

theorem readsAlike_numberPiece (line : Nat) (c : Char) (text : List Char) :
    ReadsAlike (numberPiece line c) text := by
  have joined := List.takeWhile_append_dropWhile (p := Unicode.isDigit) (l := text)
  have uniform : ∀ c, isWordStart c = true → Unicode.isDigit c = false :=
    fun c => isDigit_of_isWordStart
  -- The digits before the point are read alike, whatever follows that starts with no digit.
  have whole : ∀ after' : List Char, after'.head?.any Unicode.isDigit = false →
      (text.takeWhile Unicode.isDigit ++ after').takeWhile Unicode.isDigit =
          text.takeWhile Unicode.isDigit ∧
        (text.takeWhile Unicode.isDigit ++ after').dropWhile Unicode.isDigit = after' :=
    fun after' stops => takeWhile_append_of_stops (List.all_eq_true.mp List.all_takeWhile) stops
  unfold ReadsAlike numberPiece
  split
  · next d more starts =>
      rw [starts] at joined
      split
      · next isDigit =>
          refine ⟨text.takeWhile Unicode.isDigit ++ '.' :: d :: more.takeWhile Unicode.isDigit,
            ?_, fun after' alike => ?_⟩
          · simp [joined]
          · obtain ⟨taken, dropped⟩ :=
              whole ('.' :: d :: (more.takeWhile Unicode.isDigit ++ after')) rfl
            obtain ⟨taken', dropped'⟩ := span_alike uniform alike
            simp only [List.append_assoc, List.cons_append, taken, dropped, isDigit, if_true,
              taken', dropped']
      · next notDigit =>
          refine ⟨text.takeWhile Unicode.isDigit, joined.symm, fun after' alike => ?_⟩
          obtain ⟨more', rfl⟩ := List.head?_eq_some_iff.mp
            ((alike.first.eq_some (c := '.') (by decide)).mp rfl)
          obtain ⟨taken, dropped⟩ := whole ('.' :: more') rfl
          have same := (alike.second rfl).any_eq uniform
          rw [taken, dropped]
          cases more' with
          | nil => rfl
          | cons e more' =>
              have notDigit' : Unicode.isDigit e = false := by
                simpa [eq_false_of_ne_true notDigit] using same
              simp [notDigit']
  · next other =>
      refine ⟨text.takeWhile Unicode.isDigit, joined.symm, fun after' alike => ?_⟩
      obtain ⟨taken, dropped⟩ := span_alike uniform alike
      rw [taken, dropped]
      split
      · next d more =>
          obtain ⟨rest, starts⟩ := List.head?_eq_some_iff.mp
            ((alike.first.eq_some (c := '.') (by decide)).mpr rfl)
          have second := alike.second (by rw [starts]; rfl)
          rw [starts] at second
          cases rest with
          | nil => cases second.eq_none.mp rfl
          | cons e rest => exact absurd starts (other e rest)
      · rfl

theorem readsAlike_piece (line : Nat) (c : Char) (text : List Char) :
    ReadsAlike (piece line c) text := by
  unfold ReadsAlike piece
  split
  · exact ⟨[], rfl, fun _ _ => rfl⟩
  split
  · exact ⟨[], rfl, fun _ _ => rfl⟩
  split
  · exact ⟨[], rfl, fun _ _ => rfl⟩
  split
  · next alone withEqual _ => exact readsAlike_pairedPiece line c alone withEqual text
  split
  · exact readsAlike_slashPiece line text
  split
  · exact readsAlike_stringPiece line text
  split
  · exact readsAlike_numberPiece line c text
  split
  · refine ⟨text.takeWhile isWordPart, (List.takeWhile_append_dropWhile).symm, fun after' alike => ?_⟩
    obtain ⟨taken, dropped⟩ := span_alike (fun c => isWordPart_of_isWordStart) alike
    rw [taken, dropped]
  · exact ⟨[], rfl, fun _ _ => rfl⟩

/-! ## The rewritten text -/

/-- The text in front of what follows starts with its first character. -/
theorem inFront_piece (line : Nat) (c : Char) (text : List Char) :
    ∃ inside, inFront (c :: text) (piece line c text).rest = c :: inside ∧
      text = inside ++ (piece line c text).rest ∧
      ∀ after', FollowsAlike (piece line c text).rest after' →
        piece line c (inside ++ after') =
          ⟨(piece line c text).item, after', (piece line c text).line⟩ := by
  obtain ⟨inside, joined, alike⟩ := readsAlike_piece line c text
  refine ⟨inside, ?_, joined, alike⟩
  have length := congrArg List.length joined
  rw [List.length_append] at length
  have before : text.length + 1 - (piece line c text).rest.length = inside.length + 1 := by omega
  rw [inFront, List.length_cons, before, List.take_succ_cons]
  generalize (piece line c text).rest = after at joined
  subst joined
  rw [List.take_left]

/-- An identifier starts as words do. -/
theorem isWordStart_of_isReplaced {places : List Nat} {index line : Nat} {c : Char}
    {text : List Char} {token : Token} (found : (piece line c text).item = some (.token token))
    (replaced : token.isReplaced places index = true) :
    isWordStart c = true ∧ token = ofWord line (c :: text.takeWhile isWordPart) := by
  have isIdentifier : token.kind = .identifier :=
    eq_of_beq (Bool.and_eq_true_iff.mp replaced).2
  rcases plain_or_word found with plain | word
  · rw [isIdentifier] at plain
    cases plain
  · exact word

end Lox.Token
