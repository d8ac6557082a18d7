import Lox.Proofs.Parse.Statements
import Lox.Token.Scan

/-!
# Where reading goes on after a fault

A declaration that fails leaves the tokens in front of which it failed.  Recovery drops the first
of them, whatever it is, and then all up to the next boundary: past a semicolon, or before a word
that starts a statement.  So such a word is only ever lost if the fault was found at it.
-/

namespace Lox.Parse

/-- What recovery makes of the tokens in front of which a declaration failed. -/
structure Resumes (tokens dropped rest : List Token) : Prop where
  parts : tokens = dropped ++ rest
  /-- The first token goes, whatever it is. -/
  progress : tokens ≠ [] → dropped ≠ []
  /-- No other token that goes starts a statement. -/
  spared : ∀ token ∈ dropped.tail, startsStatement token.kind = false
  /-- No token goes after a semicolon. -/
  unended : ∀ token ∈ dropped.dropLast, token.kind ≠ .semicolon
  /-- Reading goes on at a boundary, or there is nothing left. -/
  boundary : rest = [] ∨ (∃ token, dropped.getLast? = some token ∧ token.kind = .semicolon) ∨
    ∃ token, rest.head? = some token ∧ startsStatement token.kind = true

namespace Resumes

variable {tokens dropped rest : List Token} {first : Token}

theorem nil : Resumes [] [] [] := ⟨rfl, fun some => some, by simp, by simp, .inl rfl⟩

/-- Recovery may stop after one token at a boundary. -/
theorem single
    (boundary : first.kind = .semicolon ∨
      ∃ token, rest.head? = some token ∧ startsStatement token.kind = true) :
    Resumes (first :: rest) [first] rest := by
  refine ⟨rfl, by simp, by simp, by simp, .inr ?_⟩
  rcases boundary with ended | starts
  · exact .inl ⟨first, rfl, ended⟩
  · exact .inr starts

/-- One more token goes in front of those that are no boundary. -/
theorem cons (resumes : Resumes tokens dropped rest) (unended : first.kind ≠ .semicolon)
    (plain : ∀ token, tokens.head? = some token → startsStatement token.kind = false) :
    Resumes (first :: tokens) (first :: dropped) rest := by
  obtain ⟨rfl, progress, spared, before, boundary⟩ := resumes
  refine ⟨rfl, by simp, fun token held => ?_, fun token held => ?_, ?_⟩
  · cases dropped with
    | nil => cases held
    | cons second dropped =>
        rcases List.mem_cons.mp held with rfl | later
        · exact plain token rfl
        · exact spared token later
  · cases dropped with
    | nil => cases held
    | cons second dropped =>
        rcases List.mem_cons.mp held with rfl | later
        · exact unended
        · exact before token later
  · rcases boundary with ended | ⟨token, last, semicolon⟩ | starts
    · exact .inl ended
    · refine .inr (.inl ⟨token, ?_, semicolon⟩)
      rw [List.getLast?_cons, last]
      rfl
    · exact .inr (.inr starts)

/-- All words that start statements are spared, unless the fault was found at one. -/
theorem spares_iff (resumes : Resumes tokens dropped rest) :
    (∀ token ∈ dropped, startsStatement token.kind = false) ↔
      ∀ token, tokens.head? = some token → startsStatement token.kind = false := by
  obtain ⟨rfl, progress, spared, _, _⟩ := resumes
  cases dropped with
  | nil =>
      cases rest with
      | nil => simp
      | cons token rest => exact absurd rfl (progress (by simp))
  | cons first dropped =>
      refine ⟨fun all token found => ?_, fun plain token held => ?_⟩
      · cases found
        exact all _ List.mem_cons_self
      · rcases List.mem_cons.mp held with rfl | later
        · exact plain token rfl
        · exact spared token later

end Resumes

theorem resumes_skipCount (tokens : List Token) :
    Resumes tokens (tokens.take (skipCount tokens)) (tokens.drop (skipCount tokens)) := by
  induction tokens with
  | nil => exact .nil
  | cons first tokens ih =>
      unfold skipCount
      split
      · next stops =>
          refine .single (stops.imp_right fun starts => ?_)
          cases tokens with
          | nil => cases starts
          | cons second tokens => exact ⟨second, rfl, starts⟩
      · next goesOn =>
          obtain ⟨unended, plain⟩ := not_or.mp goesOn
          refine ih.cons unended fun token found => ?_
          rw [found] at plain
          exact eq_false_of_ne_true plain

/-- Recovery drops tokens as told, and changes nothing else. -/
theorem State.skipToStatement_resumes (s : State) :
    ∃ dropped, Advances s dropped s.skipToStatement ∧ s.skipToStatement.errors = s.errors ∧
      Resumes s.rest dropped s.skipToStatement.rest := by
  obtain ⟨advances, errors⟩ := s.advances_skipToStatement
  have resumes := resumes_skipCount s.rest
  have left : s.skipToStatement.rest = s.rest.drop (skipCount s.rest) :=
    List.append_cancel_left (advances.rest.symm.trans (List.take_append_drop _ _).symm)
  exact ⟨_, advances, errors, left ▸ resumes⟩

/-- What a declaration tries to read, before a fault in it is recorded. -/
def attempt : Nat → Parser Stmt
  | 0 => expressionStatement 0
  | bound + 1 =>
    declarationForms (statementForms (statement bound) (declaration bound) (bound + 1))
      (declaration bound) (bound + 1)

theorem declaration_eq_recovering (bound : Nat) : declaration bound = recovering (attempt bound) := by
  cases bound <;> rfl

/--
A declaration that fails, at top level or in a body at any depth, records its fault, and reading
goes on at the first boundary behind the token in front of which it failed.  Words that start a
statement are all spared exactly if that token is none of them.
-/
theorem recovery_resumes_behind_fault (bound : Nat) (s t : State)
    (failed : declaration bound s = .ok none t) :
    ∃ error after dropped, attempt bound s = .error error after ∧
      t.errors = after.errors.push error ∧ Advances after dropped t ∧
      Resumes after.rest dropped t.rest ∧
      ((∀ token ∈ dropped, startsStatement token.kind = false) ↔
        ∀ token, after.rest.head? = some token → startsStatement token.kind = false) := by
  rw [declaration_eq_recovering] at failed
  unfold recovering at failed
  cases tried : attempt bound s with
  | ok stmt after =>
      rw [tried] at failed
      cases failed
  | error error after =>
      rw [tried] at failed
      obtain ⟨dropped, advances, errors, resumes⟩ := (after.record error).skipToStatement_resumes
      cases failed
      exact ⟨error, after, dropped, rfl, errors, (after.advances_record error).trans advances,
        resumes, resumes.spares_iff⟩

/-- A `print` without its semicolon, before a declaration that lacks its name. -/
def unended : List Token :=
  [⟨.printWord, "print", none, 1⟩, ⟨.nilWord, "nil", some .nil, 1⟩, ⟨.varWord, "var", none, 2⟩,
    ⟨.equal, "=", none, 2⟩, ⟨.nilWord, "nil", some .nil, 2⟩, ⟨.semicolon, ";", none, 2⟩]

/-- The fault is found at `var`, and `var` is lost. -/
theorem recovery_resumes_behind_var :
    ∃ t error after dropped, declaration 6 (.start 0 unended) = .ok none t ∧
      attempt 6 (.start 0 unended) = .error error after ∧
      after.rest.head? = some ⟨.varWord, "var", none, 2⟩ ∧ Resumes after.rest dropped t.rest ∧
      ¬ ∀ token ∈ dropped, startsStatement token.kind = false := by
  have failed : declaration 6 (.start 0 unended) =
      .ok none ⟨[], 6, .endOn 2, rfl, #[.static 2 (.at "var") (.expected .valueEnd)], none⟩ := rfl
  have tried : attempt 6 (.start 0 unended) =
      .error (.static 2 (.at "var") (.expected .valueEnd))
        ⟨unended.drop 2, 2, .endOn 1, rfl, #[], none⟩ := rfl
  obtain ⟨error, after, dropped, tried', _, _, resumes, spared⟩ :=
    recovery_resumes_behind_fault 6 _ _ failed
  rw [tried] at tried'
  cases tried'
  refine ⟨_, _, _, dropped, failed, tried, rfl, resumes, fun all => ?_⟩
  have plain := spared.mp all ⟨.varWord, "var", none, 2⟩ rfl
  cases plain

/-- A declaration without a name is a fault, but not behind a statement without its semicolon. -/
theorem missing_semicolon_hides_fault :
    (program 0 (Token.ofSource "print 1\nvar = 2;")).errors.map Error.text =
        ["[line 2] Error at 'var': Expect ';' after value."] ∧
      (program 0 (Token.ofSource "var = 2;")).errors.map Error.text =
        ["[line 1] Error at '=': Expect variable name."] := by
  decide +kernel

end Lox.Parse
