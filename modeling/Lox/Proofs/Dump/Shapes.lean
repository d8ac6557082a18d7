import Lox.Proofs.Decimal.Texts
import Lox.Proofs.Token.Respacing

/-!
# Texts with parentheses

A dumped tree is a text in which parentheses enclose a head and the parts behind it, with single
spaces between them.  Names may follow what stands there, each behind a dot.  No two shapes have the
same text: a shape ends at the first space or closing parenthesis that is neither in parentheses of
its own nor between quotes.
-/

namespace Lox

open Token

/-! ## Shapes -/

/-- What a text shows, and the names behind it, the last of them first. -/
inductive Shape where
  | leaf (text : List Char) (names : List (List Char))
  | form (head : Shape) (parts : List Shape) (names : List (List Char))

/-- Names behind dots. -/
def namesText (names : List (List Char)) : List Char := names.reverse.flatMap ('.' :: ·)

mutual
def Shape.text : Shape → List Char
  | .leaf text names => text ++ namesText names
  | .form head parts names => '(' :: (head.text ++ (partsText parts ++ ')' :: namesText names))

/-- Parts behind a head, each after a space. -/
def partsText : List Shape → List Char
  | [] => []
  | part :: parts => ' ' :: (part.text ++ partsText parts)
end

/-- Whether a token of a kind can stand in a shape as it is. -/
def Kind.isPlain (kind : Kind) : Bool := kind ∉ [.leftParen, .rightParen, .dot]

/-- The texts that stand without parentheses: those of tokens, and negative numerals. -/
inductive IsLeaf : List Char → Prop where
  | token {kind : Kind} {text : List Char} {literal : Option Literal}
      (lexeme : Lexeme kind text literal) (plain : kind.isPlain = true) : IsLeaf text
  | negative {text : List Char} {x : ℚ} (numeral : Decimal.Numeral text x) : IsLeaf ('-' :: text)

mutual
/-- Shapes of leaves and words. -/
def Shape.Legible : Shape → Prop
  | .leaf text names => IsLeaf text ∧ ∀ name ∈ names, IsWord name
  | .form head parts names => head.Legible ∧ LegibleParts parts ∧ ∀ name ∈ names, IsWord name

def LegibleParts : List Shape → Prop
  | [] => True
  | part :: parts => part.Legible ∧ LegibleParts parts
end

/-! ## Leaves -/

/-- What may follow a shape. -/
def Stops (after : List Char) : Prop := after.head?.all (fun c => c == ' ' || c == ')') = true

/-- What may follow a leaf: names may, but no further digits. -/
def EndsLeaf (after : List Char) : Prop :=
  Stops after ∨ ∃ c rest, after = '.' :: c :: rest ∧ isWordStart c = true

/-- What follows starts with a sign that ends leaves. -/
theorem EndsLeaf.starts {c : Char} {rest : List Char} (ends : EndsLeaf (c :: rest)) :
    c ∈ [' ', ')', '.'] := by
  rcases ends with stops | ⟨d, more, same, _⟩
  · have isSign : c = ' ' ∨ c = ')' := by simpa [Stops] using stops
    rcases isSign with rfl | rfl <;> decide
  · cases same
    decide

section Signs

variable {c : Char} (sign : c ∈ [' ', ')', '.'])

include sign

theorem Token.IsWord.sign_notMem {word : List Char} (isWord : IsWord word) : c ∉ word := by
  intro held
  obtain ⟨start, parts⟩ := isWord
  cases word with
  | nil => cases held
  | cons d word =>
      have isSign : c = ' ' ∨ c = ')' ∨ c = '.' := by simpa using sign
      rcases List.mem_cons.mp held with rfl | later
      · rcases isSign with rfl | rfl | rfl <;> cases start
      · rcases isSign with rfl | rfl | rfl <;> cases parts _ later

theorem Token.IsDigits.sign_notMem {digits : List Char} (areDigits : IsDigits digits) :
    c ∉ digits := by
  intro held
  have isSign : c = ' ' ∨ c = ')' ∨ c = '.' := by simpa using sign
  rcases isSign with rfl | rfl | rfl <;> cases areDigits.all _ held

theorem symbol_sign_notMem {kind : Kind} (plain : kind.isPlain = true) : c ∉ kind.symbol := by
  have isSign : c = ' ' ∨ c = ')' ∨ c = '.' := by simpa using sign
  rcases isSign with rfl | rfl | rfl <;> cases kind <;> first | decide | cases plain

end Signs

/-- A sign in a numeral is the point, before a digit. -/
theorem numeral_sign {text front behind : List Char} {c : Char} {x : ℚ}
    (numeral : Decimal.Numeral text x) (split : text = front ++ c :: behind)
    (sign : c ∈ [' ', ')', '.']) : c = '.' ∧ IsDigits behind := by
  cases numeral with
  | whole areDigits =>
      refine absurd ?_ (areDigits.sign_notMem sign)
      rw [split]
      exact List.mem_append_right _ List.mem_cons_self
  | decimal beforePoint afterPoint =>
      rcases List.append_eq_append_iff.mp split with ⟨bs, rfl, same⟩ | ⟨bs, rfl, same⟩
      · cases bs with
        | nil =>
            obtain ⟨rfl, rfl⟩ := List.cons.inj same
            exact ⟨rfl, afterPoint⟩
        | cons b bs =>
            refine absurd ?_ (afterPoint.sign_notMem sign)
            rw [(List.cons.inj same).2]
            exact List.mem_append_right _ List.mem_cons_self
      · cases bs with
        | nil =>
            obtain ⟨rfl, rfl⟩ := List.cons.inj same
            exact ⟨rfl, afterPoint⟩
        | cons b bs =>
            refine absurd ?_ (beforePoint.sign_notMem sign)
            rw [(List.cons.inj same).1]
            exact List.mem_append_right _ List.mem_cons_self

/-- What follows a leaf is no point before a digit. -/
theorem EndsLeaf.not_digits {behind after : List Char} (ends : EndsLeaf ('.' :: (behind ++ after))) :
    ¬ IsDigits behind := by
  intro areDigits
  obtain ⟨d, behind, rfl⟩ := List.exists_cons_of_ne_nil areDigits.nonempty
  have isDigit := areDigits.all d List.mem_cons_self
  rcases ends with stops | ⟨c, rest, same, starts⟩
  · cases stops
  · cases same
    rw [isDigit_of_isWordStart starts] at isDigit
    cases isDigit

namespace IsLeaf

theorem numeral {text : List Char} {x : ℚ} (numeral : Decimal.Numeral text x) : IsLeaf text := by
  cases numeral with
  | whole areDigits => exact .token (.whole areDigits) rfl
  | decimal beforePoint afterPoint => exact .token (.decimal beforePoint afterPoint) rfl

theorem ne_nil {text : List Char} (isLeaf : IsLeaf text) : text ≠ [] := by
  cases isLeaf with
  | token lexeme plain => exact lexeme.ne_nil
  | negative numeral => exact List.cons_ne_nil _ _

theorem eq_string_of_quote {text : List Char} (isLeaf : IsLeaf text)
    (starts : text.head? = some '"') : ∃ inside, '"' ∉ inside ∧ text = '"' :: inside ++ ['"'] := by
  cases isLeaf with
  | token lexeme plain => exact lexeme.eq_string_of_quote starts
  | negative numeral => cases starts

/-- A leaf goes on as long as it can. -/
theorem eq_nil_of_append {text more after : List Char} (isLeaf : IsLeaf text)
    (longer : IsLeaf (text ++ more)) (ends : EndsLeaf (more ++ after)) : more = [] := by
  cases more with
  | nil => rfl
  | cons c more =>
      have sign := ends.starts
      exfalso
      generalize whole : text ++ c :: more = text' at longer
      have held : c ∈ text' := whole ▸ List.mem_append_right text List.mem_cons_self
      have noNumeral : ∀ {front digits : List Char} {x : ℚ}, Decimal.Numeral digits x →
          digits ≠ front ++ c :: more := by
        intro front digits x numeral split
        obtain ⟨rfl, areDigits⟩ := numeral_sign numeral split sign
        exact ends.not_digits areDigits
      cases longer with
      | token lexeme plain =>
          cases lexeme with
          | symbol written => exact symbol_sign_notMem sign plain held
          | reserved isWord => exact (isWord_spelling isWord).sign_notMem sign held
          | identifier isWord unreserved => exact isWord.sign_notMem sign held
          | whole areDigits => exact areDigits.sign_notMem sign held
          | decimal beforePoint afterPoint =>
              exact noNumeral (.decimal beforePoint afterPoint) whole.symm
          | @string inside closed =>
              have starts : text.head? = some '"' := by
                rw [← List.head?_append_of_ne_nil text isLeaf.ne_nil, whole]
                rfl
              obtain ⟨inside', _, rfl⟩ := isLeaf.eq_string_of_quote starts
              have lexeme := Lexeme.string closed
              rw [← whole] at lexeme
              exact absurd (eq_nil_of_string_append lexeme) (List.cons_ne_nil _ _)
      | negative numeral =>
          obtain ⟨d, text, rfl⟩ := List.exists_cons_of_ne_nil isLeaf.ne_nil
          exact noNumeral numeral (List.cons.inj whole).2.symm

/-- Two leaves in front of what may follow them are the same. -/
theorem unique {text text' after after' : List Char} (isLeaf : IsLeaf text)
    (isLeaf' : IsLeaf text') (ends : EndsLeaf after) (ends' : EndsLeaf after')
    (same : text ++ after = text' ++ after') : text = text' ∧ after = after' := by
  rcases List.append_eq_append_iff.mp same with ⟨more, rfl, rfl⟩ | ⟨more, rfl, rfl⟩
  · obtain rfl := isLeaf.eq_nil_of_append isLeaf' ends
    exact ⟨(List.append_nil text).symm, rfl⟩
  · obtain rfl := isLeaf'.eq_nil_of_append isLeaf ends'
    exact ⟨List.append_nil text', rfl⟩

theorem head_ne {text : List Char} (isLeaf : IsLeaf text) : text.head? ≠ some '(' := by
  intro starts
  cases isLeaf with
  | @token kind _ _ lexeme plain =>
      rcases lexeme.symbol_or_string starts (by decide) (by decide) with rfl | ⟨inside, _, rfl⟩
      · cases kind <;> first | exact absurd plain (by decide) | cases starts
      · cases starts
  | negative numeral => cases starts

/-- A leaf does not start with a parenthesis, as a form does. -/
theorem not_opens {text rest inside : List Char} (isLeaf : IsLeaf text)
    (same : text ++ rest = '(' :: inside) : False := by
  refine isLeaf.head_ne ?_
  rw [← List.head?_append_of_ne_nil text isLeaf.ne_nil, same]
  rfl

theorem word {word : List Char} (isWord : IsWord word) : IsLeaf word := by
  refine .token (lexeme_word isWord) ?_
  cases found : Kind.ofWord? word with
  | none => rfl
  | some kind =>
      have reserved := (Kind.word_of_ofWord? found).1
      cases kind <;> first | rfl | cases reserved

end IsLeaf

/-! ## Shapes are told by their texts -/

/-- Behind a shape there are no names. -/
theorem not_stops_point (after : List Char) : ¬ Stops ('.' :: after) := nofun

theorem ends_names {names : List (List Char)} (words : ∀ name ∈ names, IsWord name)
    {after : List Char} (stops : Stops after) : EndsLeaf (names.flatMap ('.' :: ·) ++ after) := by
  cases names with
  | nil => exact .inl stops
  | cons name names =>
      have start := (words name List.mem_cons_self).start
      cases name with
      | nil => cases start
      | cons c name => exact .inr ⟨c, _, rfl, start⟩

/-- Names behind a shape, in the order in which they are written. -/
theorem names_unique {names names' : List (List Char)} {after after' : List Char}
    (words : ∀ name ∈ names, IsWord name) (words' : ∀ name ∈ names', IsWord name)
    (stops : Stops after) (stops' : Stops after')
    (same : names.flatMap ('.' :: ·) ++ after = names'.flatMap ('.' :: ·) ++ after') :
    names = names' ∧ after = after' := by
  induction names generalizing names' with
  | nil =>
      cases names' with
      | nil => exact ⟨rfl, same⟩
      | cons name' names' =>
          rw [show after = _ from same] at stops
          exact (not_stops_point _ stops).elim
  | cons name names ih =>
      cases names' with
      | nil =>
          rw [show after' = _ from same.symm] at stops'
          exact (not_stops_point _ stops').elim
      | cons name' names' =>
          obtain ⟨isWord, others⟩ := List.forall_mem_cons.mp words
          obtain ⟨isWord', others'⟩ := List.forall_mem_cons.mp words'
          have behind : name ++ (names.flatMap ('.' :: ·) ++ after) =
              name' ++ (names'.flatMap ('.' :: ·) ++ after') := by simpa using same
          obtain ⟨rfl, rest⟩ := (IsLeaf.word isWord).unique (.word isWord')
            (ends_names others stops) (ends_names others' stops') behind
          obtain ⟨rfl, rfl⟩ := ih others others' rest
          exact ⟨rfl, rfl⟩

theorem namesText_unique {names names' : List (List Char)} {after after' : List Char}
    (words : ∀ name ∈ names, IsWord name) (words' : ∀ name ∈ names', IsWord name)
    (stops : Stops after) (stops' : Stops after')
    (same : namesText names ++ after = namesText names' ++ after') :
    names = names' ∧ after = after' := by
  obtain ⟨reversed, rest⟩ := names_unique (fun name held => words name (List.mem_reverse.mp held))
    (fun name held => words' name (List.mem_reverse.mp held)) stops stops' same
  exact ⟨List.reverse_injective reversed, rest⟩

theorem ends_namesText {names : List (List Char)} (words : ∀ name ∈ names, IsWord name)
    {after : List Char} (stops : Stops after) : EndsLeaf (namesText names ++ after) :=
  ends_names (fun name held => words name (List.mem_reverse.mp held)) stops

/-- Parts in parentheses are followed by a space or by the closing parenthesis. -/
theorem stops_parts (parts : List Shape) (after : List Char) :
    Stops (partsText parts ++ ')' :: after) := by
  cases parts <;> rfl

mutual
/-- Two shapes in front of what may follow them are the same. -/
theorem Shape.text_unique {after after' : List Char} (shape shape' : Shape)
    (legible : shape.Legible) (legible' : shape'.Legible) (stops : Stops after)
    (stops' : Stops after') (same : shape.text ++ after = shape'.text ++ after') :
    shape = shape' ∧ after = after' := by
  cases shape with
  | leaf text names =>
      obtain ⟨isLeaf, words⟩ := legible
      cases shape' with
      | leaf text' names' =>
          obtain ⟨isLeaf', words'⟩ := legible'
          rw [Shape.text, Shape.text, List.append_assoc, List.append_assoc] at same
          obtain ⟨rfl, rest⟩ := isLeaf.unique isLeaf' (ends_namesText words stops)
            (ends_namesText words' stops') same
          obtain ⟨rfl, rfl⟩ := namesText_unique words words' stops stops' rest
          exact ⟨rfl, rfl⟩
      | form head' parts' names' =>
          rw [Shape.text, List.append_assoc] at same
          exact (isLeaf.not_opens same).elim
  | form head parts names =>
      obtain ⟨legibleHead, legibleParts, words⟩ := legible
      cases shape' with
      | leaf text' names' =>
          have opens := same.symm
          rw [Shape.text, List.append_assoc] at opens
          exact (legible'.1.not_opens opens).elim
      | form head' parts' names' =>
          obtain ⟨legibleHead', legibleParts', words'⟩ := legible'
          have inside : head.text ++ (partsText parts ++ ')' :: (namesText names ++ after)) =
              head'.text ++ (partsText parts' ++ ')' :: (namesText names' ++ after')) := by
            simpa [Shape.text] using same
          obtain ⟨rfl, others⟩ := head.text_unique head' legibleHead legibleHead'
            (stops_parts parts _) (stops_parts parts' _) inside
          obtain ⟨rfl, rest⟩ := partsText_unique parts parts' legibleParts legibleParts' others
          obtain ⟨rfl, rfl⟩ := namesText_unique words words' stops stops' rest
          exact ⟨rfl, rfl⟩

theorem partsText_unique {after after' : List Char} (parts parts' : List Shape)
    (legible : LegibleParts parts) (legible' : LegibleParts parts')
    (same : partsText parts ++ ')' :: after = partsText parts' ++ ')' :: after') :
    parts = parts' ∧ after = after' := by
  cases parts with
  | nil =>
      cases parts' with
      | nil => exact ⟨rfl, (List.cons.inj same).2⟩
      | cons part' parts' => cases same
  | cons part parts =>
      cases parts' with
      | nil => cases same
      | cons part' parts' =>
          have inside : part.text ++ (partsText parts ++ ')' :: after) =
              part'.text ++ (partsText parts' ++ ')' :: after') := by
            simpa [partsText] using same
          obtain ⟨rfl, others⟩ := part.text_unique part' legible.1 legible'.1
            (stops_parts parts after) (stops_parts parts' after') inside
          obtain ⟨rfl, rfl⟩ := partsText_unique parts parts' legible.2 legible'.2 others
          exact ⟨rfl, rfl⟩
end

end Lox
