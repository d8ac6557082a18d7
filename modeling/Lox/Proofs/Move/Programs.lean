import Lox.Proofs.Compiled
import Lox.Proofs.Move.Parsing
import Lox.Proofs.Move.Scanning
import Lox.Proofs.Parse.Exactness

/-!
# Programs of texts that are moved or joined

A source whose tokens are moved is compiled to the moved program, or rejected with the moved
diagnostics.  Two programs in one source, one below the other, are compiled to the statements of
the first and then those of the second.
-/

namespace Lox

open Token (endsInComment newlines lowered)

@[simp] theorem Token.move_renumber (offset : Nat) (token : Token) :
    token.move (.renumber offset) = token := rfl

@[simp] theorem Error.move_renumber (offset : Nat) (error : Error) :
    error.move (.renumber offset) = error := by
  cases error <;> rfl

theorem Token.exists_eof (source : String) :
    ∃ eof ∈ Token.ofSource source, eof.kind = .eof := by
  obtain ⟨body, tokens, _⟩ := Token.exists_ofSource_eq source
  rw [tokens]
  exact ⟨_, List.mem_concat_self, rfl⟩

namespace Program

/-- A program whose text is moved. -/
def move (m : Move) (program : Program) : Program :=
  ⟨moveBody m program.stmts, program.hops.map fun entry => (entry.1 + m.offset, entry.2),
    program.width⟩

/-- What compiling comes to if the text is moved. -/
def moveCompiled (m : Move) : Except (List Error) Program → Except (List Error) Program
  | .ok program => .ok (program.move m)
  | .error errors => .error (errors.map (Error.move m))

/-- One program and then another, in one text. -/
def followedBy (program other : Program) : Program :=
  ⟨program.stmts ++ other.stmts, program.hops ++ other.hops, program.width - 1 + other.width⟩

/-- A source that is scanned as another one is, but moved, is compiled as that one is. -/
theorem compile_move {m : Move} {first : Nat} {source moved : String}
    (scanned : Token.scan moved = (Token.scan source).map (Scanned.move m)) :
    compile (first + m.offset) moved = moveCompiled m (compile first source) := by
  have parsed : Parse.program (first + m.offset) ((Token.ofSource source).map (Token.move m)) =
      ⟨moveBody m (Parse.program first (Token.ofSource source)).stmts,
        (Parse.program first (Token.ofSource source)).errors.map (Error.move m)⟩ := by
    have read : Parse.program (first + (Parse.Relabelling.ofMove m).offset) _ = _ :=
      Parse.program_move first (Token.exists_eof source)
    exact read
  unfold compile
  dsimp only
  rw [scanned, Token.tokens_move, Token.errors_move]
  unfold Token.ofSource at parsed
  rw [parsed]
  dsimp only
  rw [← List.map_append]
  cases (Token.scan source).filterMap Scanned.error? ++
      (Parse.program first ((Token.scan source).filterMap Scanned.token?)).errors with
  | cons error errors => rfl
  | nil =>
      dsimp only [List.map_nil]
      rw [analyze_move]
      dsimp only [Analysis.move]
      rw [Array.toList_map, Array.toList_map]
      cases (analyze (Parse.program first
          ((Token.scan source).filterMap Scanned.token?)).stmts).errors.toList with
      | cons error errors => rfl
      | nil =>
          dsimp only [List.map_nil, moveCompiled, move]
          rw [List.length_map]
          rfl

/-- With which number a text starts makes no difference but for the numbers of its tokens. -/
theorem compile_renumber (first offset : Nat) (source : String) :
    compile (first + offset) source = moveCompiled (.renumber offset) (compile first source) := by
  have same : ∀ item : Scanned, item.move (.renumber offset) = item := by
    intro item
    cases item with
    | token token => rfl
    | fault error => exact congrArg _ (Error.move_renumber offset error)
  refine compile_move (m := .renumber offset) ?_
  rw [List.map_congr_left fun item _ => same item, List.map_id']

/-- Empty lines above a source make no difference but for the lines of its tokens. -/
theorem compile_lowered (first lines : Nat) (source : String) :
    compile first (lowered lines source) =
      moveCompiled (.under lines first) (compile 0 source) := by
  have moved : compile (0 + first) (lowered lines source) =
      moveCompiled (.under lines first) (compile 0 source) :=
    compile_move (Token.scan_lowered lines first source)
  rwa [Nat.zero_add] at moved

end Program

/-! ## Statements after each other -/

/-- At the top level no scope is open, before a statement and after it. -/
theorem Spot.afterBody_root (stmts : List Stmt) : Spot.root.afterBody stmts = .root := by
  have scopes : (Spot.root.afterBody stmts).scopes = [] :=
    List.map_eq_nil_iff.mp (Spot.afterBody_sites stmts .root)
  have around := Spot.afterBody_around stmts .root
  revert scopes around
  generalize Spot.root.afterBody stmts = p
  obtain ⟨scopes, around⟩ := p
  rintro rfl rfl
  rfl

theorem analyzeBody_append (s : Surroundings) (stmts others : List Stmt) (a : Analysis) :
    analyzeBody s (stmts ++ others) a = analyzeBody s others (analyzeBody s stmts a) := by
  induction stmts generalizing a with
  | nil => rfl
  | cons stmt stmts ih => exact ih (stmt.analyze s a)

/-- Statements at the top level are analyzed one after another. -/
theorem analyze_append (stmts others : List Stmt) :
    (analyze (stmts ++ others)).errors.toList =
        (analyze stmts).errors.toList ++ (analyze others).errors.toList ∧
      (analyze (stmts ++ others)).hops.toList =
        (analyze stmts).hops.toList ++ (analyze others).hops.toList := by
  have joined : analyze (stmts ++ others) =
      ((Analysis.start.record (walkProgram 0 stmts)).record (walkProgram 0 others)).atSpot .root := by
    have second := analyzeBody_atSpot [0] .root 0 (Analysis.start.record (walkProgram 0 stmts)) others
    rw [Spot.afterBody_root] at second
    rw [analyze, analyzeBody_append]
    refine Eq.trans (congrArg (analyzeBody .topLevel others) ?_) second
    exact (analyze_eq_record 0 stmts).trans (by rw [Spot.afterBody_root])
  rw [joined, analyze_errors 0 stmts, analyze_errors 0 others, analyze_hops 0 stmts,
    analyze_hops 0 others]
  constructor
  · refine (Analysis.record_errors _ _).trans ?_
    rw [Analysis.record_errors]
    rfl
  · refine (Analysis.record_hops _ _).trans ?_
    rw [Analysis.record_hops]
    rfl

theorem Grammar.Sequence.append {α : Type} {item : Grammar.Text → α → Prop}
    {text others : Grammar.Text} {as bs : List α} (isFirst : Grammar.Sequence item text as)
    (isSecond : Grammar.Sequence item others bs) :
    Grammar.Sequence item (text ++ others) (as ++ bs) := by
  induction isFirst with
  | nil => exact isSecond
  | cons isFirst _ ih =>
      rw [List.append_assoc]
      exact .cons isFirst ih

/-- Two texts without faults are parsed one after the other. -/
theorem Parse.program_append {first : Nat} {body others : List Token} {eof eof' : Token}
    (isEof : eof.kind = .eof) (only : ∀ token ∈ body, token.kind ≠ .eof)
    (isEof' : eof'.kind = .eof) (only' : ∀ token ∈ others, token.kind ≠ .eof)
    (faultless : (Parse.program first (body ++ [eof])).errors = [])
    (faultless' : (Parse.program (first + body.length) (others ++ [eof'])).errors = []) :
    Parse.program first (body ++ others ++ [eof']) =
      ⟨(Parse.program first (body ++ [eof])).stmts ++
        (Parse.program (first + body.length) (others ++ [eof'])).stmts, []⟩ := by
  have isFirst := Parse.derivable_of_program isEof only faultless
  have isSecond := Parse.derivable_of_program isEof' only' faultless'
  refine Parse.program_of_derivable isEof' (fun token held => ?_) ?_
  · rcases List.mem_append.mp held with inFirst | inSecond
    · exact only token inFirst
    · exact only' token inSecond
  · rw [Parse.numberedFrom_append]
    exact isFirst.append isSecond

namespace Program

/-- Two compiled sources that stand one below the other are compiled one after the other. -/
theorem compile_joined {first : Nat} {source below : String} {program other : Program}
    (closed : endsInComment 1 source.toList = false)
    (compiled : compile first source = .ok program) (compiledBelow : compile 0 below = .ok other) :
    compile first (source ++ "\n" ++ below) =
      .ok (program.followedBy (other.move
        (.under (newlines source.toList + 1) (first + (program.width - 1))))) := by
  obtain ⟨lexical, parsed, analyzed, rfl⟩ := compile_ok compiled
  have isLowered := compile_lowered (first + ((Token.ofSource source).length - 1))
    (newlines source.toList + 1) below
  rw [compiledBelow] at isLowered
  obtain ⟨lexical', parsed', analyzed', isProgram⟩ := compile_ok isLowered
  obtain ⟨readTokens, readErrors⟩ := Token.ofSource_joined below closed lexical
  obtain ⟨body, tokens, inside⟩ := Token.exists_ofSource_eq source
  obtain ⟨others, tokens', inside'⟩ :=
    Token.exists_ofSource_eq (Token.lowered (newlines source.toList + 1) below)
  have width : (Token.ofSource source).length - 1 = body.length := by
    rw [tokens, List.length_append]
    rfl
  rw [tokens, tokens', List.dropLast_concat, ← List.append_assoc] at readTokens
  rw [width] at parsed' analyzed' isProgram
  rw [tokens] at parsed analyzed
  rw [tokens'] at parsed' analyzed' isProgram
  have read := Parse.program_append rfl inside rfl inside' parsed parsed'
  rw [← readTokens] at read
  have joined := analyze_append
    (Parse.program first (body ++ [.endOn (1 + newlines source.toList)])).stmts
    (Parse.program (first + body.length) (others ++ [.endOn (1 + newlines
      (Token.lowered (newlines source.toList + 1) below).toList)])).stmts
  rw [analyzed, analyzed'] at joined
  dsimp only
  rw [width, isProgram]
  refine (compile_eq_ok (readErrors.trans lexical') ?_ ?_).trans ?_
  · rw [read]
  · rw [read]
    exact Array.toList_eq_nil_iff.mp joined.1
  · rw [read, readTokens, tokens]
    dsimp only [followedBy]
    rw [joined.2]
    simp

end Program

end Lox
