import Lox.Proofs.Move.Programs

/-!
# Faults of texts are static

All that a text is rejected for is found before it runs: the scanner, the parser and the analysis
report static errors and no others.
-/

namespace Lox

namespace Token

theorem stringPiece_static {line : Nat} {rest : List Char} {error : Error}
    (faulty : (stringPiece line rest).item = some (.fault error)) : error.isStatic = true := by
  unfold stringPiece at faulty
  split at faulty
  · cases faulty
    rfl
  · cases faulty

theorem piece_static {line : Nat} {c : Char} {rest : List Char} {error : Error}
    (faulty : (piece line c rest).item = some (.fault error)) : error.isStatic = true := by
  unfold piece at faulty
  split at faulty
  · cases faulty
  split at faulty
  · cases faulty
  split at faulty
  · cases faulty
  split at faulty
  · split at faulty <;> cases faulty
  split at faulty
  · unfold slashPiece at faulty
    split at faulty <;> cases faulty
  split at faulty
  · exact stringPiece_static faulty
  split at faulty
  · unfold numberPiece at faulty
    split at faulty
    · split at faulty <;> cases faulty
    · cases faulty
  split at faulty
  · cases faulty
  · cases faulty
    rfl

theorem scanFrom_static (line : Nat) (text : List Char) :
    ∀ error ∈ (scanFrom line text).filterMap Scanned.error?, error.isStatic = true := by
  fun_induction scanFrom line text with
  | case1 line => exact fun _ none => (List.not_mem_nil none).elim
  | case2 line c rest item after next taken ih =>
      intro error held
      cases item with
      | token token => exact ih error held
      | fault fault =>
          rcases List.mem_cons.mp held with rfl | later
          · exact piece_static (congrArg Piece.item taken)
          · exact ih error later
  | case3 line c rest after next taken ih => exact ih

end Token

theorem Event.fault?_static {event : Event} {error : Error} (faulty : event.fault? = some error) :
    error.isStatic = true := by
  unfold fault? at faulty
  split at faulty
  · split at faulty <;> cases faulty
    rfl
  · split at faulty <;> cases faulty
    rfl
  · split at faulty <;> cases faulty <;> rfl
  · split at faulty <;> cases faulty
    rfl
  · split at faulty <;> cases faulty
    rfl
  · split at faulty <;> cases faulty
    rfl
  · cases faulty

theorem analyze_static (stmts : List Stmt) :
    ∀ error ∈ (analyze stmts).errors.toList, error.isStatic = true := by
  intro error held
  rw [analyze_errors 0 stmts] at held
  obtain ⟨event, _, faulty⟩ := List.mem_filterMap.mp held
  exact Event.fault?_static faulty

namespace Program

variable {first : Nat} {source : String} {errors : List Error}

/-- A text is rejected for at least one error, and for static ones only. -/
theorem compile_static (rejected : compile first source = .error errors) :
    errors ≠ [] ∧ ∀ error ∈ errors, error.isStatic = true := by
  unfold compile at rejected
  dsimp only at rejected
  split at rejected
  · split at rejected
    · cases rejected
    · next found =>
        cases rejected
        exact ⟨found, analyze_static _⟩
  · next found =>
      cases rejected
      refine ⟨found, fun error held => ?_⟩
      rcases List.mem_append.mp held with lexical | parsed
      · exact Token.scanFrom_static 1 source.toList error lexical
      · exact Parse.program_static first (Token.exists_eof source) error parsed

end Program

end Lox
