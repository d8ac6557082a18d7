import Lox.Proofs.Token.Rewriting

/-!
# Reading a rewritten text

A rewritten text is read as the tokens of the text that it was made of, those in the given places
with the new word.  Faults and lines stay as they were.
-/

namespace Lox.Token

variable {places : List Nat} {word : List Char}

/-- What is read of a text, the first token of which has the given number, with the word in place. -/
def rewrittenAll (places : List Nat) (word : List Char) : Nat → List Scanned → List Scanned
  | _, [] => []
  | index, .token token :: items =>
      .token (token.rewritten places word index) :: rewrittenAll places word (index + 1) items
  | index, .fault error :: items => .fault error :: rewrittenAll places word index items

/-- The number of the token after a piece. -/
def numberAfter (index : Nat) : Option Scanned → Nat
  | some (.token _) => index + 1
  | _ => index

/-- Whether the token of a piece is replaced. -/
def replaces (places : List Nat) (index : Nat) : Option Scanned → Bool
  | some (.token token) => token.isReplaced places index
  | _ => false

theorem rewrittenAll_append (index : Nat) (item : Option Scanned) (items : List Scanned) :
    rewrittenAll places word index (item.toList ++ items) =
      rewrittenAll places word index item.toList ++
        rewrittenAll places word (numberAfter index item) items := by
  rcases item with _ | token | error <;> rfl

/-- The first piece of a text is rewritten, and then the others. -/
theorem rewriteFrom_cons (index line : Nat) (c : Char) (rest : List Char) :
    rewriteFrom places word index line (c :: rest) =
      (if replaces places index (piece line c rest).item then word
        else inFront (c :: rest) (piece line c rest).rest) ++
      rewriteFrom places word (numberAfter index (piece line c rest).item)
        (piece line c rest).line (piece line c rest).rest := by
  rw [rewriteFrom]
  split
  · next token after next taken => rw [taken]; rfl
  · next item after next notToken taken =>
      rw [taken]
      rcases item with _ | token | error
      · rfl
      · exact absurd rfl (notToken token)
      · rfl

/-- A piece that is replaced is a word. -/
theorem word_of_replaces {index line : Nat} {c : Char} {rest : List Char}
    (replaced : replaces places index (piece line c rest).item = true) :
    isWordStart c = true ∧
      (ofWord line (c :: rest.takeWhile isWordPart)).isReplaced places index = true := by
  unfold replaces at replaced
  split at replaced
  · next token found =>
      obtain ⟨starts, rfl⟩ := isWordStart_of_isReplaced found replaced
      exact ⟨starts, replaced⟩
  · cases replaced

/-- Pieces in front of a text do not tell it from the rewritten one. -/
theorem followsAlike_rewriteFrom (isName : IsName word) (index line : Nat) (text : List Char) :
    FollowsAlike text (rewriteFrom places word index line text) := by
  have first : ∀ (text : List Char) (index line : Nat),
      StartsAlike text.head? (rewriteFrom places word index line text).head? := by
    intro text index line
    cases text with
    | nil => rw [rewriteFrom]; exact .refl _
    | cons c rest =>
        rw [rewriteFrom_cons]
        split
        · next replaced =>
            obtain ⟨w, ws, rfl, starts, _⟩ := isName.start
            exact .inr ⟨c, w, rfl, rfl, (word_of_replaces replaced).1, starts⟩
        · obtain ⟨inside, isFront, _⟩ := inFront_piece line c rest
          rw [isFront]
          exact .refl _
  refine ⟨first text index line, fun isPoint => ?_⟩
  obtain ⟨rest, rfl⟩ := List.head?_eq_some_iff.mp isPoint
  have point : piece line '.' rest =
      ⟨some (.token ⟨.dot, ".", none, line⟩), rest, line⟩ := rfl
  rw [rewriteFrom_cons, point]
  have kept : replaces places index (some (.token ⟨.dot, ".", none, line⟩)) = false := by
    simp [replaces, isReplaced]
  rw [kept]
  have alone : inFront ('.' :: rest) rest = ['.'] := by simp [inFront]
  rw [if_neg Bool.false_ne_true, alone]
  exact first rest _ line

/-- The new word is read as the token that it replaces, but for the spelling. -/
theorem ofWord_eq_rewritten (isName : IsName word) {index line : Nat} {old : List Char}
    (replaced : (ofWord line old).isReplaced places index = true) :
    ofWord line word = (ofWord line old).rewritten places word index := by
  have isIdentifier : (ofWord line old).kind = .identifier :=
    eq_of_beq (Bool.and_eq_true_iff.mp replaced).2
  have isIdentifier : (Kind.ofWord? old).getD .identifier = .identifier := isIdentifier
  rw [rewritten, if_pos replaced]
  simp [ofWord, isName.unreserved, isIdentifier]

/-- A rewritten text is read as the text that it was made of, with the word in its places. -/
theorem scanFrom_rewriteFrom (isName : IsName word) (index line : Nat) (text : List Char) :
    scanFrom line (rewriteFrom places word index line text) =
      rewrittenAll places word index (scanFrom line text) := by
  induction size : text.length using Nat.strongRecOn generalizing index line text with
  | ind size ih =>
  cases text with
  | nil =>
      have kept : (endOn line).isReplaced places index = false := by simp [isReplaced, endOn]
      rw [rewriteFrom, scanFrom, rewrittenAll, rewrittenAll, rewritten, if_neg (by simp [kept])]
  | cons c rest =>
      have shorter := length_piece_le line c rest
      rw [List.length_cons] at size
      have others := ih _ (by omega) (numberAfter index (piece line c rest).item)
        (piece line c rest).line (piece line c rest).rest rfl
      have follows := @followsAlike_rewriteFrom places _ isName
        (numberAfter index (piece line c rest).item) (piece line c rest).line
        (piece line c rest).rest
      rw [rewriteFrom_cons, scanFrom_cons line c rest, rewrittenAll_append, ← others]
      split
      · next replaced =>
          obtain ⟨starts, isReplaced⟩ := word_of_replaces replaced
          have isPiece := piece_word starts line rest
          obtain ⟨w, ws, rfl, starts', parts⟩ := isName.start
          have stops : (rewriteFrom places (w :: ws) (index + 1) line
              (rest.dropWhile isWordPart)).head?.any isWordPart = false := by
            have alike := follows.first
            rw [isPiece] at alike
            refine (alike.any_eq fun c => isWordPart_of_isWordStart).symm.trans ?_
            exact any_head?_dropWhile isWordPart rest
          obtain ⟨taken, dropped⟩ := takeWhile_append_of_stops parts stops
          rw [isPiece, List.cons_append, scanFrom_cons, piece_word starts']
          simp only [numberAfter, taken, dropped]
          rw [ofWord_eq_rewritten isName isReplaced]
          rfl
      · next kept =>
          obtain ⟨inside, isFront, _, alike⟩ := inFront_piece line c rest
          rw [isFront, List.cons_append, scanFrom_cons, alike _ follows]
          dsimp only
          congr 1
          revert kept
          rcases (piece line c rest).item with _ | token | error
          · exact fun _ => rfl
          · intro kept
            have kept : ¬ token.isReplaced places index = true := kept
            rw [Option.toList_some, rewrittenAll, rewrittenAll, rewritten, if_neg kept]
          · exact fun _ => rfl

theorem token?_rewrittenAll (index : Nat) (items : List Scanned) :
    (rewrittenAll places word index items).filterMap Scanned.token? =
      (items.filterMap Scanned.token?).mapIdx fun offset token =>
        token.rewritten places word (index + offset) := by
  induction items generalizing index with
  | nil => rfl
  | cons item items ih =>
      cases item with
      | fault error => exact ih index
      | token token =>
          have next : ∀ offset, index + 1 + offset = index + (offset + 1) := by omega
          simp only [rewrittenAll, List.filterMap_cons, Scanned.token?, ih, List.mapIdx_cons, next,
            Nat.add_zero]

theorem error?_rewrittenAll (index : Nat) (items : List Scanned) :
    (rewrittenAll places word index items).filterMap Scanned.error? =
      items.filterMap Scanned.error? := by
  induction items generalizing index with
  | nil => rfl
  | cons item items ih =>
      cases item with
      | fault error => simp only [rewrittenAll, List.filterMap_cons, Scanned.error?, ih]
      | token token => simp only [rewrittenAll, List.filterMap_cons, Scanned.error?, ih]

theorem scan_rewrite {word : String} (isName : IsName word.toList) (places : List Nat)
    (source : String) :
    scan (rewrite places word source) = rewrittenAll places word.toList 0 (scan source) := by
  rw [scan, rewrite, String.toList_ofList, scanFrom_rewriteFrom isName]
  rfl

/-- The tokens of a rewritten source are those of the source, with the word in its places. -/
theorem ofSource_rewrite {word : String} (isName : IsName word.toList) (places : List Nat)
    (source : String) :
    ofSource (rewrite places word source) =
      (ofSource source).mapIdx fun index token => token.rewritten places word.toList index := by
  rw [ofSource, scan_rewrite isName, token?_rewrittenAll]
  simp only [Nat.zero_add]
  rfl

/-- A rewritten source has the lexical faults of the source. -/
theorem lexicalErrors_rewrite {word : String} (isName : IsName word.toList) (places : List Nat)
    (source : String) : lexicalErrors (rewrite places word source) = lexicalErrors source := by
  rw [lexicalErrors, scan_rewrite isName, error?_rewrittenAll]
  rfl

end Lox.Token
