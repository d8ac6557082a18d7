import Lox.Proofs.Parse.Soundness
import Lox.Proofs.Parse.StatementCompleteness

/-!
# The parser reads exactly the grammar

A sequence of tokens is read without a fault if and only if it is derivable, and the statements
answered are those of the derivation.
-/

namespace Lox.Parse

open Grammar

section Program

variable {first : Nat} {body : List Token} {eof : Token}

/-- Before any token is read, those before the only end token are left. -/
theorem State.rest_start (isEof : eof.kind = .eof) (only : ∀ token ∈ body, token.kind ≠ .eof) :
    (State.start first (body ++ [eof])).rest = body := by
  have inside : ∀ token ∈ body, (token.kind != .eof) = true := by simpa using only
  rw [State.rest, State.start, List.takeWhile_append_of_pos inside,
    List.takeWhile_cons_of_neg (by simp [isEof]), List.append_nil]

theorem State.text_start (isEof : eof.kind = .eof) (only : ∀ token ∈ body, token.kind ≠ .eof) :
    (State.start first (body ++ [eof])).text = numberedFrom first body := by
  rw [State.text, rest_start isEof only]
  rfl

/-- All the tokens are consumed if none of those left stops the reading. -/
theorem Consumes.whole {s t : State} {text : Text} (consumes : Consumes s text t)
    (stops : text.length < s.rest.length → (t.front?.getD .eof == .eof) = true) :
    text = s.text := by
  have rest : t.rest = [] := by
    cases left : t.rest with
    | nil => rfl
    | cons token rest =>
        have length := consumes.length
        have front : t.front? = some token.kind := by rw [State.front?, left]; rfl
        rw [left, List.length_cons] at length
        have isEof := stops (by omega)
        rw [front] at isEof
        exact absurd (beq_iff_eq.mp isEof) (State.kind_of_mem_rest (left ▸ List.mem_cons_self))
  rw [consumes.parts, State.text, rest]
  exact (List.append_nil text).symm

theorem program_of_derivable (isEof : eof.kind = .eof) (only : ∀ token ∈ body, token.kind ≠ .eof)
    {stmts : List Stmt} (isProgram : IsProgram (numberedFrom first body) stmts) :
    program first (body ++ [eof]) = ⟨stmts, []⟩ := by
  have items (bound : Nat) : Takes (manyUntil (· == .eof) (declaration bound) bound) bound
      (numberedFrom first body) _ stmts :=
    takes_manyUntil (takes_statement_and_declaration bound).2 (fun _ _ => IsDecl.begins)
      (by unfold EndsStmt; decide) (by rintro _ stops - rfl; cases stops) isProgram
      (Nat.le_refl _) (Nat.le_refl _)
  have whole : Consumes (State.start first (body ++ [eof])) (numberedFrom first body)
      ⟨[eof], first + body.length, endAfter (.endOn 1) body, kind_endAfter rfl body, #[], none⟩ := by
    refine ⟨?_, ?_, rfl⟩
    · rw [map_name_numberedFrom]
      exact ⟨rfl, only, rfl, rfl, rfl⟩
    · rw [map_name_numberedFrom]
      rfl
  have atEnd : (endAfter (.endOn 1) body).kind = .eof := kind_endAfter rfl body
  have few : (State.start first (body ++ [eof])).rest.length ≤ (body ++ [eof]).length := by
    rw [State.rest_start isEof only, List.length_append]
    exact Nat.le_add_right _ _
  unfold program
  dsimp only
  rw [items _ _ _ rfl whole few ?_]
  rw [State.front?, State.rest, List.takeWhile_cons_of_neg (by simp [isEof])]
  rfl

theorem derivable_of_program (isEof : eof.kind = .eof) (only : ∀ token ∈ body, token.kind ≠ .eof)
    (faultless : (program first (body ++ [eof])).errors = []) :
    IsProgram (numberedFrom first body) (program first (body ++ [eof])).stmts := by
  have items (bound : Nat) := yields_manyUntil (· == .eof) (yields_statement_and_declaration bound).2
    (fun _ _ isDecl => isDecl.begins.ne_nil) bound (State.start first (body ++ [eof])) rfl
  have few : (State.start first (body ++ [eof])).rest.length < (body ++ [eof]).length := by
    rw [State.rest_start isEof only, List.length_append]
    exact Nat.lt_succ_self _
  unfold program at faultless ⊢
  dsimp only at faultless ⊢
  have items := items (body ++ [eof]).length
  revert items faultless
  cases manyUntil (· == .eof) (declaration (body ++ [eof]).length) (body ++ [eof]).length
    (State.start first (body ++ [eof])) with
  | error error t => exact fun faultless => by simp at faultless
  | ok stmts t =>
      rintro faultless ⟨_, more | ⟨text, consumes, isProgram, stops⟩⟩
      · have none : t.errors = #[] := Array.toList_eq_nil_iff.mp faultless
        exact absurd more (by simp [none])
      · rw [← State.text_start isEof only, ← consumes.whole fun fewer => stops (by omega)]
        exact isProgram

/--
A sequence that ends in its only end token is read without a fault if and only if the tokens
before that one are derivable, and the statements it is read as are those of the derivation, of
which there is one.

An expression whose leftmost operand was read before has that operand there, whatever follows.
The operand waits in the state, and is taken once: nothing is read of the expression before a
primary is, which takes the operand and consumes nothing, and all that follows is read as if no
operand had ever waited, by parsers that leave any that does where it is.  So none is left over,
neither by an expression nor by the declaration around it.
-/
theorem program_exact (first : Nat) (body : List Token) (eof : Token) (isEof : eof.kind = .eof)
    (only : ∀ token ∈ body, token.kind ≠ .eof) :
    ((program first (body ++ [eof])).errors = [] ↔
      ∃ stmts, IsProgram (numberedFrom first body) stmts) ∧
    (∀ stmts, program first (body ++ [eof]) = ⟨stmts, []⟩ ↔
      IsProgram (numberedFrom first body) stmts) ∧
    (∀ bound inner s value t, expressionFrom bound (.grouping inner) s = .ok value t →
      LeadsWith (.grouping inner) value) ∧
    (∀ (bound : Nat) (operand : Expr) (s : State), s.seed = none →
      plant operand s = .ok () (s.reseed (some operand)) ∧
      primary (expression bound) (s.reseed (some operand)) = .ok operand s ∧
      expression (bound + 1) (s.reseed (some operand)) =
        (primary (expression bound) >>= behind (bound + 1)) (s.reseed (some operand)) ∧
      ∀ seed, Unseeded seed (expression (bound + 1) (s.reseed (some operand)))
        (Plain.behind (bound + 1) operand (s.reseed seed))) ∧
    ∀ (bound : Nat) (s : State), s.seed = none →
      match declaration bound s with
      | .ok _ t | .error _ t => t.seed = none := by
  refine ⟨⟨fun faultless => ⟨_, derivable_of_program isEof only faultless⟩, ?_⟩, fun stmts =>
    ⟨fun isRead => ?_, program_of_derivable isEof only⟩, fun bound inner =>
      answers_expressionFrom bound inner, fun bound operand s unseeded => ?_,
      fun bound s unseeded => ?_⟩
  · rintro ⟨stmts, isProgram⟩
    rw [program_of_derivable isEof only isProgram]
  · have isProgram := derivable_of_program isEof only (congrArg Parsed.errors isRead)
    rwa [isRead] at isProgram
  · have taken : primary (expression bound) (s.reseed (some operand)) = .ok operand s := by
      rw [primary_seeded rfl]
      exact congrArg _ (State.reseed_self unseeded)
    refine ⟨rfl, taken, expression_seeded rfl, fun seed => ?_⟩
    have follows := readsPlain_behind (bound + 1) operand s seed unseeded
    have read := expression_reseed (bound + 1) operand s
    rw [State.reseed_self unseeded] at read
    rwa [← read] at follows
  · have kept := (yields_statement_and_declaration bound).2.keeps unseeded
    revert kept
    cases declaration bound s with
    | ok stmt t => exact And.left
    | error error t => exact And.left

/-- The tokens of `print (nil) == nil;`, but for the end token. -/
def comparedPrint : List Token :=
  [⟨.printWord, "print", none, 1⟩, ⟨.leftParen, "(", none, 1⟩, ⟨.nilWord, "nil", some .nil, 1⟩,
    ⟨.rightParen, ")", none, 1⟩, ⟨.equalEqual, "==", none, 1⟩, ⟨.nilWord, "nil", some .nil, 1⟩,
    ⟨.semicolon, ";", none, 1⟩]

/-- The parentheses are no list of arguments, and the grouping is an operand. -/
theorem program_exact_comparedPrint :
    IsProgram (numberedFrom 0 comparedPrint)
      [.print (.binary (.grouping (.literal .nil)) ⟨.equalEqual, "==", none, 1⟩ (.literal .nil))] ∧
    (∀ stmts, IsProgram (numberedFrom 0 comparedPrint) stmts → stmts.length = 1) ∧
    ∃ t, primary (expression 2) ((State.start 4 (comparedPrint.drop 4)).reseed
        (some (.grouping (.literal .nil)))) = .ok (.grouping (.literal .nil)) t ∧
      t.tokens = comparedPrint.drop 4 ∧ t.seed = none := by
  have exact' := program_exact 0 comparedPrint (.endOn 1) rfl (by decide)
  have isRead : program 0 (comparedPrint ++ [.endOn 1]) =
      ⟨[.print (.binary (.grouping (.literal .nil)) ⟨.equalEqual, "==", none, 1⟩
        (.literal .nil))], []⟩ := rfl
  obtain ⟨_, taken, _⟩ := exact'.2.2.2.1 2 (.grouping (.literal .nil))
    (State.start 4 (comparedPrint.drop 4)) rfl
  refine ⟨(exact'.2.1 _).mp isRead, fun stmts isProgram => ?_, ⟨_, taken, rfl, rfl⟩⟩
  have same := (exact'.2.1 stmts).mpr isProgram
  rw [isRead] at same
  cases same
  rfl

end Program

end Lox.Parse
