import Lox.Proofs.Dump.Derivations
import Lox.Proofs.Dump.Reading
import Lox.Proofs.Parse.Exactness

/-!
# A dump tells the tree

Nothing is lost in the dump of a program but the lines of its tokens and the numbers of its
references.  The text of each statement is that of one shape, and from the shape the statement is
read back.
-/

namespace Lox

open Token Grammar

/-- A number that was too large for a double. -/
def Literal.overflows : Literal → Bool
  | .number x => x.isInf
  | _ => false

/-- A source that names nothing `block`, and none of whose numbers overflows. -/
structure Dumpable (source : String) : Prop where
  noBlock : ∀ token ∈ ofSource source, token.kind = .identifier → token.lexeme ≠ "block"
  noOverflow : ∀ token ∈ ofSource source, token.value.overflows = false

/-! ## The tokens of a source are clear -/

/-- No word is reserved for blocks, and no other token is written as a word. -/
theorem Token.IsWritten.isIdentifier_of_block {token : Token} (written : token.IsWritten)
    (isBlock : token.lexeme = "block") : token.kind = .identifier := by
  have lexeme : Lexeme token.kind token.lexeme.toList token.literal := written
  rw [isBlock] at lexeme
  generalize token.kind = kind, token.literal = literal at lexeme ⊢
  generalize isText : "block".toList = text at lexeme
  cases lexeme with
  | symbol written => cases kind <;> cases isText
  | reserved isWord => cases kind <;> cases isText
  | identifier isWord unreserved => rfl
  | whole areDigits => subst isText; exact absurd (areDigits.all 'b' List.mem_cons_self) (by decide)
  | @decimal whole fraction beforePoint afterPoint =>
      have point : '.' ∈ "block".toList := isText ▸ List.mem_append_right _ List.mem_cons_self
      exact absurd point (by decide)
  | string closed => cases isText

theorem Token.IsWritten.isNaN_eq_false {token : Token} (written : token.IsWritten) {x : Float}
    (isNumber : token.literal = some (.number x)) : x.isNaN = false := by
  have lexeme : Lexeme token.kind token.lexeme.toList token.literal := written
  rw [isNumber] at lexeme
  generalize token.kind = kind, token.lexeme.toList = text at lexeme
  generalize isLiteral : some (Literal.number x) = literal at lexeme
  cases lexeme with
  | reserved isWord => cases kind <;> cases isLiteral
  | whole areDigits => cases isLiteral; exact Decimal.isNaN_ofDigits _ _
  | decimal beforePoint afterPoint => cases isLiteral; exact Decimal.isNaN_ofDigits _ _
  | _ => cases isLiteral

theorem Dumpable.clear {source : String} (dumpable : Dumpable source) {token : Token}
    (held : token ∈ proper source) : token.Clear where
  written := isWritten_of_mem_proper held
  noBlock isBlock := dumpable.noBlock token (List.mem_of_mem_filter held)
    ((isWritten_of_mem_proper held).isIdentifier_of_block isBlock) isBlock
  finite x isNumber := by
    have notInf := dumpable.noOverflow token (List.mem_of_mem_filter held)
    rw [value, isNumber] at notInf
    exact Decimal.isFinite_of notInf ((isWritten_of_mem_proper held).isNaN_eq_false isNumber)

/-- The statements of a source are spelled as the grammar has them. -/
theorem Dumpable.spelled {source : String} (dumpable : Dumpable source) {first : Nat}
    (parsed : (Parse.program first (ofSource source)).errors = []) :
    SpelledBody (Parse.program first (ofSource source)).stmts := by
  obtain ⟨body, tokens, only⟩ := exists_ofSource_eq source
  have isProper : ∀ token ∈ body, token ∈ proper source := fun token held =>
    List.mem_filter.mpr ⟨tokens ▸ List.mem_append_left _ held, by simpa using only token held⟩
  rw [tokens] at parsed ⊢
  refine Sequence.spelledBody (Parse.derivable_of_program rfl only parsed) fun token held => ?_
  refine dumpable.clear (isProper _ ?_)
  rw [← Parse.map_name_numberedFrom first body]
  exact List.mem_map_of_mem held

/-! ## One dump, one tree -/

theorem Stmt.bare_of_dump {stmt stmt' : Stmt} (spelled : stmt.Spelled) (spelled' : stmt'.Spelled)
    (same : stmt.dump = stmt'.dump) : stmt.bare = stmt'.bare := by
  have texts : stmt.shape.text ++ [] = stmt'.shape.text ++ [] := by
    rw [stmt.text_shape, stmt'.text_shape, same]
  have stops : Stops [] := rfl
  obtain ⟨shapes, _⟩ := Shape.text_unique _ _ (stmt.legible spelled) (stmt'.legible spelled')
    stops stops texts
  rw [← stmt.stmt_shape spelled, shapes, stmt'.stmt_shape spelled']

theorem bare_of_dumps {stmts stmts' : List Stmt} (spelled : SpelledBody stmts)
    (spelled' : SpelledBody stmts') (same : stmts.map Stmt.dump = stmts'.map Stmt.dump) :
    stmts.map Stmt.bare = stmts'.map Stmt.bare := by
  induction stmts generalizing stmts' with
  | nil =>
      cases stmts' with
      | nil => rfl
      | cons stmt' stmts' => cases same
  | cons stmt stmts ih =>
      cases stmts' with
      | nil => cases same
      | cons stmt' stmts' =>
          obtain ⟨first, others⟩ := List.cons.inj same
          rw [List.map_cons, List.map_cons, Stmt.bare_of_dump spelled.1 spelled'.1 first,
            ih spelled.2 spelled'.2 others]

/--
The dump of a program tells its tree: two sources that are read without a fault, and whose
statements are dumped as the same texts, have the same statements, apart from the lines of tokens
and the numbers of references.
-/
theorem dump_tells_tree {source other : String} {first first' : Nat} (dumpable : Dumpable source)
    (dumpable' : Dumpable other)
    (parsed : (Parse.program first (ofSource source)).errors = [])
    (parsed' : (Parse.program first' (ofSource other)).errors = [])
    (same : (Parse.program first (ofSource source)).stmts.map Stmt.dump =
      (Parse.program first' (ofSource other)).stmts.map Stmt.dump) :
    (Parse.program first (ofSource source)).stmts.map Stmt.bare =
      (Parse.program first' (ofSource other)).stmts.map Stmt.bare :=
  bare_of_dumps (dumpable.spelled parsed) (dumpable'.spelled parsed') same

/-- A variable of the name `block` is dumped as an empty block is. -/
example : (Stmt.expression (.var ⟨0, ⟨.identifier, "block", none, 1⟩⟩)).dump =
    (Stmt.block []).dump := by decide +kernel

/-- A loop over two lines, and with other gaps between its tokens. -/
theorem dump_tells_tree_of_loop :
    let source := "while (a.b >= -1.50)\n\x7b print \"(x\"; \x7d"
    let other := "while(a . b>=-1.5)\x7b\nprint \"(x\";\x7d"
    (Parse.program 0 (ofSource source)).stmts.map Stmt.bare =
      (Parse.program 7 (ofSource other)).stmts.map Stmt.bare :=
  dump_tells_tree ⟨by decide +kernel, by decide +kernel⟩ ⟨by decide +kernel, by decide +kernel⟩
    (by decide +kernel) (by decide +kernel) (by decide +kernel)

end Lox
