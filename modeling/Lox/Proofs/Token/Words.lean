import Lox.Token.Scan

/-!
# The spelling of words

A token that the scanner makes of a word is spelled as its kind tells: a reserved word as that
word, and an identifier as none of them.
-/

namespace Lox

/-- Whether a kind is that of a reserved word. -/
def Kind.isWord : Kind → Bool
  | .andWord | .classWord | .elseWord | .falseWord | .funWord | .forWord | .ifWord
  | .includeWord | .nilWord | .orWord | .printWord | .returnWord | .superWord | .thisWord
  | .trueWord | .varWord | .whileWord => true
  | _ => false

/-- Whether the tokens of a kind are words, reserved or not. -/
def Kind.isSpelled (kind : Kind) : Bool := kind.isWord || kind == .identifier

/-- How a reserved word is spelled. -/
def Kind.spelling : Kind → List Char
  | .andWord => "and".toList
  | .classWord => "class".toList
  | .elseWord => "else".toList
  | .falseWord => "false".toList
  | .forWord => "for".toList
  | .funWord => "fun".toList
  | .ifWord => "if".toList
  | .includeWord => "include".toList
  | .nilWord => "nil".toList
  | .orWord => "or".toList
  | .printWord => "print".toList
  | .returnWord => "return".toList
  | .superWord => "super".toList
  | .thisWord => "this".toList
  | .trueWord => "true".toList
  | .varWord => "var".toList
  | .whileWord => "while".toList
  | _ => []

/-- A word that is reserved is the one that its kind spells. -/
theorem Kind.word_of_ofWord? {word : List Char} {kind : Kind}
    (found : Kind.ofWord? word = some kind) : kind.isWord = true ∧ word = kind.spelling := by
  unfold Kind.ofWord? at found
  split at found <;> first | (cases found; exact ⟨rfl, rfl⟩) | cases found

namespace Token

/-- The first piece of a text is read, and then the others. -/
theorem scanFrom_cons (line : Nat) (c : Char) (rest : List Char) :
    scanFrom line (c :: rest) = (piece line c rest).item.toList ++
      scanFrom (piece line c rest).line (piece line c rest).rest := by
  rw [scanFrom]
  split
  · next item after next taken => rw [taken]; rfl
  · next after next taken => rw [taken]; rfl

/-- What holds of the empty text, and of a text if it holds behind its first piece. -/
theorem scan_induction {motive : Nat → List Char → Prop} (nil : ∀ line, motive line [])
    (cons : ∀ line c rest, motive (piece line c rest).line (piece line c rest).rest →
      motive line (c :: rest)) (line : Nat) (text : List Char) : motive line text := by
  induction size : text.length using Nat.strongRecOn generalizing line text with
  | ind size ih =>
      cases text with
      | nil => exact nil line
      | cons c rest =>
          have shorter := length_piece_le line c rest
          rw [List.length_cons] at size
          exact cons line c rest (ih _ (by omega) _ _ rfl)

/-- A token of a word is spelled as its kind tells. -/
structure Faithful (token : Token) : Prop where
  unreserved : token.kind = .identifier → Kind.ofWord? token.lexeme.toList = none
  reserved : token.kind.isWord = true → Kind.ofWord? token.lexeme.toList = some token.kind

/-- A token that is no word is spelled in any way. -/
theorem Faithful.of_plain {token : Token} (plain : token.kind.isSpelled = false) :
    token.Faithful := by
  obtain ⟨notWord, notIdentifier⟩ := Bool.or_eq_false_iff.mp plain
  refine ⟨fun isIdentifier => ?_, fun isWord => ?_⟩
  · rw [isIdentifier] at notIdentifier
    cases notIdentifier
  · rw [notWord] at isWord
    cases isWord

theorem faithful_ofWord (line : Nat) (word : List Char) : (ofWord line word).Faithful := by
  unfold ofWord
  cases found : Kind.ofWord? word with
  | none =>
      refine ⟨fun _ => ?_, fun isWord => ?_⟩
      · simpa using found
      · cases isWord
  | some kind =>
      have isWord := (Kind.word_of_ofWord? found).1
      refine ⟨fun isIdentifier => ?_, fun _ => ?_⟩
      · simp only [Option.getD_some] at isIdentifier
        rw [isIdentifier] at isWord
        cases isWord
      · simpa using found

theorem plain_of_single? {c : Char} {kind : Kind} (found : single? c = some kind) :
    kind.isSpelled = false := by
  unfold single? at found
  split at found <;> first | (cases found; rfl) | cases found

theorem plain_of_paired? {c : Char} {alone withEqual : Kind}
    (found : paired? c = some (alone, withEqual)) :
    alone.isSpelled = false ∧ withEqual.isSpelled = false := by
  unfold paired? at found
  split at found <;> first | (cases found; exact ⟨rfl, rfl⟩) | cases found

/-- The token of a piece is no word, or the piece starts as words do and is the whole word. -/
theorem plain_or_word {line : Nat} {c : Char} {rest : List Char} {token : Token}
    (found : (piece line c rest).item = some (.token token)) :
    token.kind.isSpelled = false ∨
      (isWordStart c = true ∧ token = ofWord line (c :: rest.takeWhile isWordPart)) := by
  unfold piece at found
  split at found
  · cases found
  split at found
  · cases found
  split at found
  · next kind single =>
      cases found
      exact .inl (plain_of_single? single)
  split at found
  · next alone withEqual paired =>
      obtain ⟨plainAlone, plainWithEqual⟩ := plain_of_paired? paired
      split at found
      · cases found
        exact .inl plainWithEqual
      · cases found
        exact .inl plainAlone
  split at found
  · unfold slashPiece at found
    split at found
    · cases found
    · cases found
    · cases found
      exact .inl rfl
  split at found
  · unfold stringPiece at found
    split at found
    · cases found
    · cases found
      exact .inl rfl
  split at found
  · unfold numberPiece at found
    split at found
    · split at found
      · cases found
        exact .inl rfl
      · cases found
        exact .inl rfl
    · cases found
      exact .inl rfl
  split at found
  · next starts =>
      cases found
      exact .inr ⟨starts, rfl⟩
  · cases found

/-- The token of a piece, if it has one, is spelled as its kind tells. -/
theorem faithful_piece {line : Nat} {c : Char} {rest : List Char} {token : Token}
    (found : (piece line c rest).item = some (.token token)) : token.Faithful := by
  rcases plain_or_word found with plain | ⟨_, rfl⟩
  · exact .of_plain plain
  · exact faithful_ofWord line _

theorem faithful_scanFrom (line : Nat) (text : List Char) :
    ∀ token, Scanned.token token ∈ scanFrom line text → token.Faithful := by
  fun_induction scanFrom line text with
  | case1 line =>
      intro token scanned
      rw [List.mem_singleton] at scanned
      cases scanned
      exact .of_plain rfl
  | case2 line c rest item after next taken ih =>
      intro token scanned
      rcases List.mem_cons.mp scanned with first | later
      · exact faithful_piece (by rw [taken, first])
      · exact ih token later
  | case3 line c rest after next taken ih => exact ih

/-- Every token of a source text is spelled as its kind tells. -/
theorem faithful_ofSource (source : String) : ∀ token ∈ ofSource source, token.Faithful := by
  intro token held
  obtain ⟨scanned, inScan, isToken⟩ := List.mem_filterMap.mp held
  cases scanned with
  | fault error => cases isToken
  | token other =>
      cases isToken
      exact faithful_scanFrom 1 source.toList token inScan

/-- A token of one of the given kinds, spelled as its kind tells. -/
structure IsOf (kinds : List Kind) (token : Token) : Prop where
  kind : token.kind ∈ kinds
  faithful : token.Faithful

theorem IsOf.mono {kinds more : List Kind} {token : Token} (isOf : token.IsOf kinds)
    (among : kinds ⊆ more) : token.IsOf more := ⟨among isOf.kind, isOf.faithful⟩

namespace IsOf

variable {token : Token}

theorem lexeme_this (isThis : token.IsOf [.thisWord]) : token.lexeme = "this" := by
  have kind := List.mem_singleton.mp isThis.kind
  have word := isThis.faithful.reserved (by rw [kind]; rfl)
  rw [kind] at word
  exact String.toList_injective (Kind.word_of_ofWord? word).2

/-- A name that programs may declare or read is not one of those that the machine binds. -/
theorem lexeme_ne (isName : token.IsOf [.identifier, .printWord]) :
    token.lexeme ≠ "this" ∧ token.lexeme ≠ "super" := by
  have word : Kind.ofWord? token.lexeme.toList ∈ [none, some Kind.printWord] := by
    rcases List.mem_cons.mp isName.kind with isIdentifier | isPrint
    · rw [isName.faithful.unreserved isIdentifier]
      exact List.mem_cons_self
    · have isPrint := List.mem_singleton.mp isPrint
      rw [isName.faithful.reserved (by rw [isPrint]; rfl), isPrint]
      exact List.mem_cons_of_mem _ List.mem_cons_self
  refine ⟨?_, ?_⟩
  · intro isThis
    rw [isThis] at word
    revert word
    decide
  · intro isSuper
    rw [isSuper] at word
    revert word
    decide

end IsOf

end Token

end Lox
