import Lox.Proofs.Activations
import Lox.Proofs.Leads
import Lox.Proofs.Limit.Doubles
import Lox.Proofs.Move.Programs
import Lox.Proofs.Token.Lexemes

/-!
# Counting down by recursion

A function calls itself with one less until its argument is zero.  Each call is one level below the
call that made it, so how far it gets is told by the number that it starts with.
-/

namespace Lox

open Doubles

/-! ## The texts -/

/-- The function, in the language. -/
def countingDown : String :=
  "fun down(n) \x7b if (n == 0) return 0; return down(n - 1) + 1; \x7d"

/-- A call of it with a number that is written out. -/
def callDown (n : Nat) : String := "down(" ++ String.ofList (Nat.toDigits 10 n) ++ ");"

namespace Countdown

/-- A token of the first line, but for numbers. -/
def mark (kind : Kind) (lexeme : String) : Token := ⟨kind, lexeme, none, 1⟩

/-- The token of a number that is written out. -/
def figure (n : Nat) : Token :=
  ⟨.number, String.ofList (Nat.toDigits 10 n), some (.number (numeral n)), 1⟩

def parameter : Token := mark .identifier "n"

def name : Token := mark .identifier "down"

def paren : Token := mark .rightParen ")"

/-- The comparison with zero, in a text that starts with the given number. -/
def test (first : Nat) : Expr :=
  .binary (.var ⟨first + 8, parameter⟩) (mark .equalEqual "==") (.literal (.number (numeral 0)))

/-- The parameter less one. -/
def less (first : Nat) : Expr :=
  .binary (.var ⟨first + 18, parameter⟩) (mark .minus "-") (.literal (.number (numeral 1)))

/-- The function of one less, and one. -/
def recursion (first : Nat) : Expr :=
  .binary (.call (.var ⟨first + 16, name⟩) paren [less first]) (mark .plus "+")
    (.literal (.number (numeral 1)))

def body (first : Nat) : List Stmt :=
  [.ifElse (test first)
    (.ret (mark .returnWord "return") (some (.literal (.number (numeral 0))))) none,
    .ret (mark .returnWord "return") (some (recursion first))]

def decl (first : Nat) : FunDecl := ⟨name, [parameter], body first⟩

/-- The call, with the given tokens. -/
def call (callee : Reference) (paren : Token) (n : Nat) : Stmt :=
  .expression (.call (.var callee) paren [.literal (.number (numeral n))])

/-! ### The function is compiled -/

/-- The tokens of the function, for any tokens of its numbers. -/
def declTokens (zero one : Token) : List Token :=
  [mark .funWord "fun", name, mark .leftParen "(", parameter, paren, mark .leftBrace "\x7b",
    mark .ifWord "if", mark .leftParen "(", parameter, mark .equalEqual "==", zero, paren,
    mark .returnWord "return", zero, mark .semicolon ";",
    mark .returnWord "return", name, mark .leftParen "(", parameter, mark .minus "-", one, paren,
    mark .plus "+", one, mark .semicolon ";", mark .rightBrace "\x7d"]

theorem ofSource_countingDown :
    Token.ofSource countingDown = declTokens (figure 0) (figure 1) ++ [.endOn 1] := by
  decide +kernel

/-- The parser does not look at the values of numbers. -/
theorem program_declTokens (first : Nat) (zero one : Literal) :
    Parse.program first
        (declTokens ⟨.number, "0", some zero, 1⟩ ⟨.number, "1", some one, 1⟩ ++ [.endOn 1]) =
      ⟨[.funDecl ⟨name, [parameter],
        [.ifElse
          (.binary (.var ⟨first + 8, parameter⟩) (mark .equalEqual "==") (.literal zero))
          (.ret (mark .returnWord "return") (some (.literal zero))) none,
          .ret (mark .returnWord "return") (some
            (.binary
              (.call (.var ⟨first + 16, name⟩) paren
                [.binary (.var ⟨first + 18, parameter⟩) (mark .minus "-") (.literal one)])
              (mark .plus "+") (.literal one)))]⟩], []⟩ := by
  cbv

theorem parsed_countingDown (first : Nat) :
    Parse.program first (Token.ofSource countingDown) = ⟨[.funDecl (decl first)], []⟩ := by
  rw [ofSource_countingDown]
  exact program_declTokens first (.number (numeral 0)) (.number (numeral 1))

theorem compile_countingDown (first : Nat) :
    Program.compile first countingDown =
      .ok ⟨[.funDecl (decl first)], [(first + 8, 0), (first + 18, 0)], 27⟩ := by
  have parsed := parsed_countingDown first
  rw [Program.compile_eq_ok (by decide +kernel) (by rw [parsed]) (by rw [parsed]; rfl), parsed,
    ofSource_countingDown]
  rfl

/-! ### The call is compiled -/

/-- Digits in front of a parenthesis are a number. -/
theorem piece_digits {c : Char} {digits : List Char}
    (areDigits : ∀ d ∈ c :: digits, Unicode.isDigit d = true) (rest : List Char) :
    Token.piece 1 c (digits ++ ')' :: rest) =
      ⟨some (.token (Token.ofNumber 1 (c :: digits) none)), ')' :: rest, 1⟩ := by
  obtain ⟨first, others⟩ := List.forall_mem_cons.mp areDigits
  have stops : Unicode.isDigit ')' = false := by decide
  have taken : (digits ++ ')' :: rest).takeWhile Unicode.isDigit = digits := by
    rw [List.takeWhile_append_of_pos others, List.takeWhile_cons_of_neg (by simp [stops]),
      List.append_nil]
  have left : (digits ++ ')' :: rest).dropWhile Unicode.isDigit = ')' :: rest := by
    rw [List.dropWhile_append_of_pos others, List.dropWhile_cons_of_neg (by simp [stops])]
  rw [Token.piece_of_isDigit first, Token.numberPiece_whole, taken, left]
  intro d more isPoint
  rw [left] at isPoint
  cases isPoint

theorem scan_callDown (n : Nat) :
    Token.scan (callDown n) =
      [name, mark .leftParen "(", figure n, paren, mark .semicolon ";", .endOn 1].map .token := by
  obtain ⟨c, digits, isNumber⟩ := List.exists_cons_of_ne_nil (Nat.toDigits_ne_nil (n := n) (b := 10))
  have areDigits : ∀ d ∈ c :: digits, Unicode.isDigit d = true := by
    intro d held
    rw [← isNumber] at held
    exact Nat.isDigit_of_mem_toDigits (by decide) (by decide) held
  have text : (callDown n).toList =
      'd' :: 'o' :: 'w' :: 'n' :: '(' :: c :: (digits ++ [')', ';']) := by
    simp [callDown, isNumber]
  have number : Token.ofNumber 1 (c :: digits) none = figure n := by
    rw [← isNumber]
    rfl
  have callee : Token.piece 1 'd' ('o' :: 'w' :: 'n' :: '(' :: c :: (digits ++ [')', ';'])) =
      ⟨some (.token name), '(' :: c :: (digits ++ [')', ';']), 1⟩ := rfl
  have opens : Token.piece 1 '(' (c :: (digits ++ [')', ';'])) =
      ⟨some (.token (mark .leftParen "(")), c :: (digits ++ [')', ';']), 1⟩ := rfl
  have closes : Token.piece 1 ')' [';'] = ⟨some (.token paren), [';'], 1⟩ := rfl
  have ends : Token.piece 1 ';' [] = ⟨some (.token (mark .semicolon ";")), [], 1⟩ := rfl
  rw [Token.scan, text, Token.scanFrom_cons, callee, Token.scanFrom_cons, opens,
    Token.scanFrom_cons, piece_digits areDigits [';'], number, Token.scanFrom_cons, closes,
    Token.scanFrom_cons, ends, Token.scanFrom]
  rfl

theorem compile_callDown (n : Nat) :
    Program.compile 0 (callDown n) = .ok ⟨[call ⟨0, name⟩ paren n], [], 6⟩ := by
  have tokens : Token.ofSource (callDown n) =
      [name, mark .leftParen "(", figure n, paren, mark .semicolon ";", .endOn 1] := by
    rw [Token.ofSource, scan_callDown]
    rfl
  have lexical : Token.lexicalErrors (callDown n) = [] := by
    rw [Token.lexicalErrors, scan_callDown]
    rfl
  have parsed : Parse.program 0 (Token.ofSource (callDown n)) = ⟨[call ⟨0, name⟩ paren n], []⟩ := by
    rw [tokens]
    rfl
  rw [Program.compile_eq_ok lexical (by rw [parsed]) (by rw [parsed]; rfl), parsed, tokens]
  rfl

/-- The program of both texts, the call below the function. -/
def program (first n : Nat) : Program :=
  ⟨[.funDecl (decl first),
      call ⟨first + 26, { name with line := 2 }⟩ { paren with line := 2 } n],
    [(first + 8, 0), (first + 18, 0)], 32⟩

theorem compile_program (first n : Nat) :
    Program.compile first (countingDown ++ "\n" ++ callDown n) = .ok (program first n) := by
  have lines : Token.newlines countingDown.toList = 0 := by decide +kernel
  rw [Program.compile_joined (by decide +kernel) (compile_countingDown first) (compile_callDown n),
    lines]
  simp [Program.followedBy, Program.move, moveBody, call, Stmt.move, Expr.move, moveAll, program,
    Reference.move, Token.move, Move.under, name, paren, mark]

/-! ## The recursion -/

/-- The function as a value. -/
def closure (first identity : Nat) : Closure := ⟨identity, decl first, State.globals, false⟩

/-- A state in which the function can be called. -/
structure Defined (first : Nat) (s : State) : Prop where
  made : 0 < s.store.frames.size
  tested : s.hops[first + 8]? = some 0
  called : s.hops[first + 16]? = none
  lessened : s.hops[first + 18]? = some 0
  held : ∃ identity, s.store.valueIn? 0 "down" = some (.closure (closure first identity))

/-- A state in which its body is executed, at some depth, with the parameter bound to a number. -/
structure Inside (first : Nat) (x : Float) (depth : Nat) (s : State) : Prop where
  defined : Defined first s
  bound : s.store.valueIn? s.context.env.frame "n" = some (.number x)
  deep : s.context.depth = depth

/-- What waits for a call of the function inside of it. -/
def addOne : Task := .rightOperand (mark .plus "+") (.literal (.number (numeral 1)))

section Recursion

open Machine

variable (files : String → Except Failure String) {first : Nat} {x : Float} {depth : Nat}
  {s : State} (tasks : List Task)

theorem Defined.read_global (defined : Defined first s) (reference : Reference)
    (isName : reference.name.lexeme = "down") (global : s.hops[reference.id]? = none) :
    ∃ identity, s.read reference = .value (.closure (closure first identity)) := by
  obtain ⟨identity, held⟩ := defined.held
  refine ⟨identity, ?_⟩
  have has : (s.store.bindings 0).has "down" = true := by
    show ((s.store.bindings 0).find? "down").isSome = true
    rw [show (s.store.bindings 0).find? "down" = _ from held]
    rfl
  have found : s.valueOf? reference = some (.closure (closure first identity)) := by
    unfold State.valueOf?
    rw [global, isName]
    simp [Store.lookup?, Store.holder?, State.globals, Env.chain, has, held]
  rw [State.read, found]

theorem Inside.read_parameter (inside : Inside first x depth s) {id : Nat}
    (located : s.hops[id]? = some 0) : s.read ⟨id, parameter⟩ = .value (.number x) := by
  have found : s.valueOf? ⟨id, parameter⟩ = some (.number x) := by
    unfold State.valueOf?
    rw [located]
    exact inside.bound
  rw [State.read, found]

/-- The parameter is compared with zero. -/
theorem Inside.leads_test (inside : Inside first x depth s) :
    Leads files ⟨.eval (test first), tasks, s⟩
      ⟨.give (.value (.bool (x == numeral 0))), tasks, s⟩ := by
  refine .step ?_
  show Leads files ⟨.eval (.var ⟨first + 8, parameter⟩), _, s⟩ _
  refine .step ?_
  show Leads files ⟨.give (s.read ⟨first + 8, parameter⟩), _, s⟩ _
  rw [inside.read_parameter inside.defined.tested]
  exact ⟨3, rfl⟩

/-- The function is looked up, and one taken from the parameter. -/
theorem Inside.leads_call (inside : Inside first x depth s) :
    ∃ identity, Leads files ⟨.eval (recursion first), tasks, s⟩
      (Machine.call (.closure (closure first identity)) [.number (x - numeral 1)] paren
        (addOne :: tasks) s) := by
  obtain ⟨identity, isFunction⟩ :=
    inside.defined.read_global ⟨first + 16, name⟩ rfl inside.defined.called
  refine ⟨identity, .step (.step (.step ?_))⟩
  show Leads files ⟨.give (s.read ⟨first + 16, name⟩), _, s⟩ _
  rw [isFunction]
  refine .step (.step (.step ?_))
  show Leads files ⟨.give (s.read ⟨first + 18, parameter⟩), _, s⟩ _
  rw [inside.read_parameter inside.defined.lessened]
  exact ⟨4, rfl⟩

/-- The function takes one argument, so only the depth tells against a call. -/
theorem refusal?_closure (first identity depth : Nat) :
    refusal? (Value.closure (closure first identity)).arity? 1 depth =
      if maxDepth ≤ depth then some .stackOverflow else none := rfl

theorem call_of_deep (deep : maxDepth ≤ s.context.depth) (identity : Nat) (paren : Token) :
    Machine.call (.closure (closure first identity)) [.number x] paren tasks s =
      .giving (.failAt paren .stackOverflow) tasks s := by
  rw [Machine.call_eq, show [Value.number x].length = 1 from rfl, refusal?_closure, if_pos deep]

/-- The body that a call of the function enters. -/
def activation (first identity : Nat) (x : Float) (paren : Token) (tasks : List Task) (s : State) :
    Activation :=
  ⟨closure first identity, [.number x], paren.line, .result, tasks, s⟩

theorem store_activation (first identity : Nat) (x : Float) (paren : Token) (tasks : List Task)
    (s : State) :
    (activation first identity x paren tasks s).machine.state.store =
      (s.store.newFrame [("n", .number x)]).2 :=
  (activation first identity x paren tasks s).store_machine

theorem context_activation (first identity : Nat) (x : Float) (paren : Token) (tasks : List Task)
    (s : State) :
    (activation first identity x paren tasks s).machine.state.context =
      ⟨State.globals.branch s.store.frames.size, s.context.base, s.context.depth + 1⟩ := by
  rw [Activation.machine_eq]
  rfl

/-- A call of the function that is not too deep enters its body. -/
theorem Defined.call_eq (defined : Defined first s) (x : Float) (shallow : s.context.depth < maxDepth)
    (identity : Nat) (paren : Token) :
    ∃ t, Inside first x (s.context.depth + 1) t ∧
      Machine.call (.closure (closure first identity)) [.number x] paren tasks s =
        ⟨.give .nil, .body (body first) :: .finishCall s.context paren.line .result :: tasks, t⟩ := by
  have accepted : refusal? (Value.closure (closure first identity)).arity? 1 s.context.depth = none := by
    rw [refusal?_closure, if_neg (Nat.not_le.mpr shallow)]
  refine ⟨(activation first identity x paren tasks s).machine.state,
    ⟨⟨?_, defined.tested, defined.called, defined.lessened, ?_⟩, ?_, ?_⟩, ?_⟩
  · rw [store_activation, Store.frames_newFrame]
    exact Nat.succ_pos _
  · obtain ⟨identity, held⟩ := defined.held
    refine ⟨identity, ?_⟩
    rw [store_activation, Store.valueIn?, Store.bindings_newFrame_of_ne _ _ defined.made.ne]
    exact held
  · rw [store_activation, context_activation, Store.valueIn?]
    exact congrArg (Bindings.find? "n") (Store.bindings_newFrame_size _ _)
  · rw [context_activation]
  · exact Machine.call_of_accepted accepted paren tasks

/-- What comes of an evaluation of the body. -/
def Comes (files : String → Except Failure String) (first : Nat) (tasks : List Task) (s : State)
    (outcome : Outcome) : Prop :=
  ∃ t, Leads files ⟨.give .nil, .body (body first) :: tasks, s⟩ ⟨.give outcome, tasks, t⟩

/-- Of zero it is zero. -/
theorem Inside.comes_zero (inside : Inside first x depth s) (isZero : (x == numeral 0) = true) :
    Comes files first tasks s (.returned (.number (numeral 0))) := by
  refine ⟨s, .step (.step (.trans (inside.leads_test files _) ?_))⟩
  rw [isZero]
  exact ⟨5, rfl⟩

/-- Of another number it is what comes of the call with one less. -/
theorem Inside.leads_recursion (inside : Inside first x depth s)
    (notZero : (x == numeral 0) = false) :
    ∃ identity, Leads files ⟨.give .nil, .body (body first) :: tasks, s⟩
      (Machine.call (.closure (closure first identity)) [.number (x - numeral 1)] paren
        (addOne :: .ret :: .body [] :: tasks) s) := by
  obtain ⟨identity, calls⟩ := inside.leads_call files (.ret :: .body [] :: tasks)
  refine ⟨identity, .step (.step (.trans (inside.leads_test files _) ?_))⟩
  rw [notZero]
  exact .step (.step (.step calls))

/-- One more than what comes of the call is returned. -/
theorem Inside.comes_succ (inside : Inside first x depth s) (notZero : (x == numeral 0) = false)
    (shallow : depth < maxDepth)
    (below : ∀ tasks t, Inside first (x - numeral 1) (depth + 1) t →
      ∃ y, Comes files first tasks t (.returned (.number y))) :
    ∃ y, Comes files first tasks s (.returned (.number y)) := by
  obtain ⟨identity, calls⟩ := inside.leads_recursion files tasks notZero
  obtain ⟨t, entered, isCall⟩ := inside.defined.call_eq (addOne :: .ret :: .body [] :: tasks)
    (x - numeral 1) (inside.deep ▸ shallow) identity paren
  rw [inside.deep] at entered
  obtain ⟨y, u, returns⟩ := below _ t entered
  refine ⟨y + numeral 1, u.setContext s.context, calls.trans ?_⟩
  rw [isCall]
  exact returns.trans ⟨6, rfl⟩

/-- The failure of a call is passed on. -/
theorem Inside.comes_failed (inside : Inside first x depth s) (notZero : (x == numeral 0) = false)
    (below : depth < maxDepth → ∀ tasks t, Inside first (x - numeral 1) (depth + 1) t →
      Comes files first tasks t (.failed (.runtime 1 .stackOverflow))) :
    Comes files first tasks s (.failed (.runtime 1 .stackOverflow)) := by
  obtain ⟨identity, calls⟩ := inside.leads_recursion files tasks notZero
  by_cases shallow : depth < maxDepth
  · obtain ⟨t, entered, isCall⟩ := inside.defined.call_eq (addOne :: .ret :: .body [] :: tasks)
      (x - numeral 1) (inside.deep ▸ shallow) identity paren
    rw [inside.deep] at entered
    obtain ⟨u, fails⟩ := below shallow _ t entered
    refine ⟨u.setContext s.context, calls.trans ?_⟩
    rw [isCall]
    exact fails.trans ⟨4, rfl⟩
  · rw [call_of_deep _ (inside.deep ▸ Nat.le_of_not_lt shallow)] at calls
    exact ⟨s, calls.trans ⟨3, rfl⟩⟩

/-- A number that is below the limit is counted down to zero. -/
theorem comes_returned {n : Nat} (few : n < maxDepth) (left : Nat) {taken : Nat} (split : taken + left = n) :
    ∀ tasks s, Inside first (countdown n taken) (taken + 1) s →
      ∃ y, Comes files first tasks s (.returned (.number y)) := by
  have exact : maxDepth + 2 ≤ 2 ^ 53 := by decide
  induction left generalizing taken with
  | zero =>
      intro tasks s inside
      have isZero : (countdown n taken == numeral 0) = decide (taken = n) :=
        countdown_beq_zero (by omega) (by omega)
      rw [decide_eq_true (by omega)] at isZero
      exact ⟨_, inside.comes_zero files tasks isZero⟩
  | succ left ih =>
      intro tasks s inside
      have notZero : (countdown n taken == numeral 0) = decide (taken = n) :=
        countdown_beq_zero (by omega) (by omega)
      rw [decide_eq_false (by omega)] at notZero
      have later := ih (show taken + 1 + left = n by omega)
      exact inside.comes_succ files tasks notZero (by omega) later

/-- Any other number is not, for want of levels. -/
theorem comes_overflow {n : Nat} (many : maxDepth ≤ n) (left : Nat) {taken : Nat}
    (split : taken + left + 1 = maxDepth) :
    ∀ tasks s, Inside first (countdown n taken) (taken + 1) s →
      Comes files first tasks s (.failed (.runtime 1 .stackOverflow)) := by
  have exact : maxDepth + 2 ≤ 2 ^ 53 := by decide
  induction left generalizing taken with
  | zero =>
      intro tasks s inside
      have notZero : (countdown n taken == numeral 0) = decide (taken = n) :=
        countdown_beq_zero (by omega) (by omega)
      rw [decide_eq_false (by omega)] at notZero
      exact inside.comes_failed files tasks notZero fun shallow => absurd shallow (by omega)
  | succ left ih =>
      intro tasks s inside
      have notZero : (countdown n taken == numeral 0) = decide (taken = n) :=
        countdown_beq_zero (by omega) (by omega)
      rw [decide_eq_false (by omega)] at notZero
      have later := ih (show taken + 1 + left + 1 = maxDepth by omega)
      exact inside.comes_failed files tasks notZero fun _ => later

/-! ## From the top level -/

/-- The state in which the function has been declared. -/
def declared (first n : Nat) (s : State) : State :=
  let loaded := s.load (program first n)
  let (closure, made) := loaded.makeClosure (decl first) loaded.context.env false
  made.define "down" (.closure closure)

theorem leads_declared (n : Nat) :
    Leads files (.ofProgram (program first n).stmts (s.load (program first n)))
      ⟨.exec (call ⟨first + 26, { name with line := 2 }⟩ { paren with line := 2 } n), [.program []],
        declared first n s⟩ :=
  ⟨3, rfl⟩

/-- The function is declared at the top level. -/
theorem defined_declared (n : Nat) (made : 0 < s.store.frames.size)
    (unused : ∀ id, first ≤ id → s.hops[id]? = none) (isNext : s.nextReference = first)
    (top : s.context.env = State.globals) :
    Defined first (declared first n s) ∧ (declared first n s).hops[first + 26]? = none := by
  have hops (id : Nat) (late : first ≤ id) :
      (declared first n s).hops[id]? = (program first n).hop? id :=
    State.hops_load (isNext ▸ unused) (isNext ▸ late)
  have table (other : Nat) :
      (program first n).hop? (first + other) = if other = 18 ∨ other = 8 then some 0 else none := by
    have same (place : Nat) : (first + other == first + place) = decide (other = place) := by
      rw [beq_eq_decide, decide_eq_decide]
      omega
    show (match first + other == first + 18 with
      | true => some 0
      | false =>
        match first + other == first + 8 with
        | true => some 0
        | false => none) = _
    rw [same, same]
    by_cases last : other = 18
    · simp [last]
    · by_cases isFirst : other = 8 <;> simp [last, isFirst]
  have made' : 0 < s.store.newIdentity.2.frames.size := made
  have store : (declared first n s).store = s.store.newIdentity.2.define 0 "down"
      (.closure (closure first s.store.nextIdentity)) := by
    have closes := State.makeClosure_eq (decl first) (s.load (program first n)).context.env false
      (s.load (program first n))
    have isGlobal : (s.load (program first n)).context.env = State.globals := top
    unfold declared
    dsimp only
    rw [closes, isGlobal]
    show Store.define _ s.context.env.frame _ _ = _
    rw [top]
    rfl
  refine ⟨⟨?_, ?_, ?_, ?_, s.store.nextIdentity, ?_⟩, ?_⟩
  · rw [store, Store.define, Array.size_modify]
    exact made'
  · exact (hops _ (Nat.le_add_right _ _)).trans (table 8)
  · exact (hops _ (Nat.le_add_right _ _)).trans (table 16)
  · exact (hops _ (Nat.le_add_right _ _)).trans (table 18)
  · rw [store, Store.valueIn?, Store.bindings_define _ made', if_pos rfl,
      Bindings.find?_insert_self]
  · exact (hops _ (Nat.le_add_right _ _)).trans (table 26)

/-- The call at the top level comes to what its body comes to. -/
theorem leads_call_top (n : Nat) (defined : Defined first s) (callee : Reference)
    (isName : callee.name.lexeme = "down") (global : s.hops[callee.id]? = none) (paren : Token)
    (top : s.context.depth = 0) :
    ∃ t, Inside first (numeral n) 1 t ∧
      Leads files ⟨.exec (call callee paren n), tasks, s⟩
        ⟨.give .nil, .body (body first) :: .finishCall s.context paren.line .result :: tasks, t⟩ := by
  obtain ⟨identity, isFunction⟩ := defined.read_global callee isName global
  obtain ⟨t, entered, isCall⟩ :=
    defined.call_eq tasks (numeral n) (by rw [top]; decide) identity paren
  rw [top] at entered
  refine ⟨t, entered, .step (.step (.step ?_))⟩
  show Leads files ⟨.give (s.read callee), _, s⟩ _
  rw [isFunction, ← isCall]
  exact ⟨3, rfl⟩

end Recursion

end Countdown

/--
Counting down from a number that is written out succeeds if it is below the limit; otherwise the
run ends with the error of a call that is too deep.
-/
theorem Session.Ready.run_countingDown {session : Session} (ready : session.Ready) (n : Nat)
    (files : String → Except Failure String) (now : Float) :
    ∃ bound, ∀ patience, bound ≤ patience →
      (session.run ⟨files, now, patience⟩ (countingDown ++ "\n" ++ callDown n)).1 =
        .finished (if n < maxDepth then [] else [.runtime 1 .stackOverflow]) := by
  obtain ⟨w, states⟩ := ready.matches_itself now
  obtain ⟨top, shallow⟩ := ready.at_globals
  have made : 0 < (session.setClock now).state.store.frames.size :=
    (states.core.store.frames.lt states.core.store.globals).1
  obtain ⟨defined, global⟩ := Countdown.defined_declared n made states.core.unused rfl top
  obtain ⟨t, entered, calls⟩ := Countdown.leads_call_top files [.program []] n defined
    ⟨_, { Countdown.name with line := 2 }⟩ rfl global { Countdown.paren with line := 2 } shallow
  have starts : Machine.Leads files
      (session.begin now (Countdown.program session.state.nextReference n)) _ :=
    (Countdown.leads_declared files n).trans calls
  by_cases few : n < maxDepth
  · obtain ⟨y, u, returns⟩ := Countdown.comes_returned files few n (Nat.zero_add n) _ t entered
    have ends : Machine.Leads files (session.begin now (Countdown.program _ n)) ⟨.give .nil, [], _⟩ :=
      starts.trans (returns.trans ⟨2, rfl⟩)
    obtain ⟨bound, ran⟩ := session.run_of_leads (Countdown.compile_program _ n) ends
    refine ⟨bound, fun patience enough => ?_⟩
    rw [ran patience enough, if_pos few]
    rfl
  · have levels : 0 + (maxDepth - 1) + 1 = maxDepth := by decide
    obtain ⟨u, fails⟩ := Countdown.comes_overflow files (Nat.le_of_not_lt few) _ levels _ t entered
    have ends : Machine.Leads files (session.begin now (Countdown.program _ n))
        ⟨.give (.failed (.runtime 1 .stackOverflow)), [], _⟩ :=
      starts.trans (fails.trans ⟨2, rfl⟩)
    obtain ⟨bound, ran⟩ := session.run_of_leads (Countdown.compile_program _ n) ends
    refine ⟨bound, fun patience enough => ?_⟩
    rw [ran patience enough, if_neg few]
    rfl

end Lox
