import Lox.Proofs.Leads

/-!
# A function that makes an instance and calls itself

Each call is one level deeper than the one before, and makes its instance there.  So there comes a
call that makes none, for want of levels.
-/

namespace Lox

namespace Descent

/-- The class and the function, and a call that never ends by itself. -/
def text : String := "class C \x7b \x7d\nfun f() \x7b\n  C();\n  f();\n\x7d\nf();"

/-! ## The program -/

/-- A token of the text that is no literal. -/
def mark (kind : Kind) (lexeme : String) (line : Nat) : Token := ⟨kind, lexeme, none, line⟩

def tokens : List Token :=
  [mark .classWord "class" 1, mark .identifier "C" 1, mark .leftBrace "\x7b" 1,
    mark .rightBrace "\x7d" 1,
    mark .funWord "fun" 2, mark .identifier "f" 2, mark .leftParen "(" 2, mark .rightParen ")" 2,
    mark .leftBrace "\x7b" 2,
    mark .identifier "C" 3, mark .leftParen "(" 3, mark .rightParen ")" 3, mark .semicolon ";" 3,
    mark .identifier "f" 4, mark .leftParen "(" 4, mark .rightParen ")" 4, mark .semicolon ";" 4,
    mark .rightBrace "\x7d" 5,
    mark .identifier "f" 6, mark .leftParen "(" 6, mark .rightParen ")" 6, mark .semicolon ";" 6]

/-- A call without arguments, of a name that has the given number. -/
def call (id line : Nat) (name : String) : Stmt :=
  .expression (.call (.var ⟨id, mark .identifier name line⟩) (mark .rightParen ")" line) [])

def body : List Stmt := [call 9 3 "C", call 13 4 "f"]

def decl : FunDecl := ⟨mark .identifier "f" 2, [], body⟩

def program : Program :=
  ⟨[.classDecl (mark .identifier "C" 1) none [], .funDecl decl, call 18 6 "f"], [], 23⟩

theorem compile_text : Program.compile 0 text = .ok program := by
  have ofSource : Token.ofSource text = tokens ++ [.endOn 6] := by decide +kernel
  have parsed : Parse.program 0 (Token.ofSource text) = ⟨program.stmts, []⟩ := by
    rw [ofSource]
    cbv
  rw [Program.compile_eq_ok (by decide +kernel) (by rw [parsed]) (by rw [parsed]; rfl), parsed,
    ofSource]
  rfl

/-! ## The descent -/

/-- The class as a value. -/
def cls (identity : Nat) : Class := .mk identity "C" none []

/-- The function as a value. -/
def closure (identity : Nat) : Closure := ⟨identity, decl, State.globals, false⟩

/-- A state at some depth in which both can be called. -/
structure At (depth : Nat) (s : State) : Prop where
  made : 0 < s.store.frames.size
  unlocated : ∀ id : Nat, s.hops[id]? = none
  cls : ∃ identity, s.store.valueIn? 0 "C" = some (.cls (cls identity))
  function : ∃ identity, s.store.valueIn? 0 "f" = some (.closure (closure identity))
  deep : s.context.depth = depth

section Calls

open Machine

variable (files : String → Except Failure String) {depth : Nat} {s : State}

/-- The statement comes to the call of what its name is bound to. -/
theorem At.leads_call (here : At depth s) {name : String} {value : Value}
    (bound : s.store.valueIn? 0 name = some value) (id line : Nat) (tasks : List Task) :
    Leads files ⟨.exec (call id line name), tasks, s⟩
      ⟨.give (.value value), .firstArgument (mark .rightParen ")" line) [] :: tasks, s⟩ := by
  have read : s.read ⟨id, mark .identifier name line⟩ = .value value := by
    rw [State.read, State.valueOf?, here.unlocated, Store.lookup?_globals]
    dsimp only [mark]
    rw [bound]
  refine .step (.step (.step ?_))
  show Leads files ⟨.give (s.read ⟨id, mark .identifier name line⟩), _, s⟩ _
  rw [read]
  exact .refl _

/-- An instance is made, if a level is left. -/
theorem At.call_cls (here : At depth s) (shallow : depth < maxDepth) (identity : Nat) (paren : Token)
    (tasks : List Task) :
    ∃ inst t, At depth t ∧
      Machine.call (.cls (Descent.cls identity)) [] paren tasks s =
        .giving (.value (.inst inst)) tasks t := by
  have accepted : refusal? (Value.cls (Descent.cls identity)).arity? 0 s.context.depth = none := by
    show (if maxDepth ≤ s.context.depth then some RuntimeFault.stackOverflow else none) = none
    rw [here.deep, if_neg (Nat.not_le.mpr shallow)]
  refine ⟨⟨s.store.objects.size, Descent.cls identity⟩, { s with store := s.store.newObject.2 },
    ⟨here.made, here.unlocated, here.cls, here.function, here.deep⟩, ?_⟩
  rw [call_of_accepted accepted]
  show giving _ _ (s.newInstance (Descent.cls identity)).2 = _
  rw [State.newInstance_eq]

/-- The body is entered once more, one level deeper. -/
theorem At.call_function (here : At depth s) (shallow : depth < maxDepth) (identity : Nat)
    (paren : Token) (tasks : List Task) :
    ∃ waiting t, At (depth + 1) t ∧
      Machine.call (.closure (closure identity)) [] paren tasks s =
        ⟨.give .nil, .body body :: waiting, t⟩ := by
  have accepted : refusal? (Value.closure (closure identity)).arity? 0 s.context.depth = none := by
    show (if maxDepth ≤ s.context.depth then some RuntimeFault.stackOverflow else none) = none
    rw [here.deep, if_neg (Nat.not_le.mpr shallow)]
  have same (name : String) : (s.store.newFrame []).2.valueIn? 0 name = s.store.valueIn? 0 name := by
    rw [Store.valueIn?, Store.bindings_newFrame_of_ne _ _ here.made.ne]
    rfl
  rw [call_of_accepted accepted]
  refine ⟨.finishCall s.context paren.line .result :: tasks, { s with
    store := (s.store.newFrame []).2
    context := ⟨State.globals.branch s.store.frames.size, s.context.base, s.context.depth + 1⟩ },
    ⟨?_, here.unlocated, ?_, ?_, congrArg (· + 1) here.deep⟩, rfl⟩
  · exact (Store.frames_newFrame _ _).symm ▸ Nat.succ_pos _
  · obtain ⟨other, bound⟩ := here.cls
    exact ⟨other, (same "C").trans bound⟩
  · obtain ⟨other, bound⟩ := here.function
    exact ⟨other, (same "f").trans bound⟩

/-- While there are levels left, each body comes to the next one. -/
theorem At.leads_deepest (here : At depth s) (left : Nat) (levels : depth + left = maxDepth)
    (tasks : List Task) :
    ∃ waiting t, At maxDepth t ∧
      Leads files ⟨.give .nil, .body body :: tasks, s⟩ ⟨.give .nil, .body body :: waiting, t⟩ := by
  induction left generalizing depth s tasks with
  | zero =>
      obtain rfl : depth = maxDepth := levels
      exact ⟨tasks, s, here, .refl _⟩
  | succ left ih =>
      have shallow : depth < maxDepth := by omega
      obtain ⟨identity, isClass⟩ := here.cls
      obtain ⟨inst, t, there, made⟩ :=
        here.call_cls shallow identity (mark .rightParen ")" 3) (.body [call 13 4 "f"] :: tasks)
      obtain ⟨identity', isFunction⟩ := there.function
      obtain ⟨waiting, u, below, entered⟩ :=
        there.call_function shallow identity' (mark .rightParen ")" 4) (.body [] :: tasks)
      obtain ⟨waiting', v, deepest, leads⟩ := ih below (by omega) waiting
      refine ⟨waiting', v, deepest, .step (.trans (here.leads_call files isClass 9 3 _) (.step ?_))⟩
      show Leads files (Machine.call (.cls (Descent.cls identity)) [] _ _ s) _
      rw [made]
      refine .step (.trans (there.leads_call files isFunction 13 4 _) (.step ?_))
      show Leads files (Machine.call (.closure (closure identity')) [] _ _ t) _
      rw [entered]
      exact leads

end Calls

/-- Both are declared at the top level. -/
theorem leads_declared (files : String → Except Failure String) :
    ∃ s, At 0 s ∧ Machine.Leads files ((Session.fresh .unlimited .unlimited false).begin 0 program)
      ⟨.exec (call 18 6 "f"), [.program []], s⟩ := by
  refine ⟨_, ?_, 5, rfl⟩
  have unlocated (id : Nat) : (∅ : Std.TreeMap Nat Nat)[id]? = none := by simp
  exact ⟨by decide, unlocated, ⟨_, rfl⟩, ⟨_, rfl⟩, rfl⟩

/-- The program comes to call the class where no level is left. -/
theorem leads_refused (files : String → Except Failure String) :
    ∃ identity waiting t, t.context.depth = maxDepth ∧
      Machine.Leads files ((Session.fresh .unlimited .unlimited false).begin 0 program)
        ⟨.give (.value (.cls (cls identity))),
          .firstArgument (mark .rightParen ")" 3) [] :: waiting, t⟩ := by
  obtain ⟨s, here, declared⟩ := leads_declared files
  obtain ⟨identity, isFunction⟩ := here.function
  obtain ⟨waiting, t, below, entered⟩ :=
    here.call_function (by decide) identity (mark .rightParen ")" 6) [.program []]
  obtain ⟨waiting', u, deepest, leads⟩ := below.leads_deepest files (maxDepth - 1) (by decide) waiting
  obtain ⟨identity', isClass⟩ := deepest.cls
  have called := here.leads_call files isFunction 18 6 [.program []]
  refine ⟨identity', .body [call 13 4 "f"] :: waiting', u, deepest.deep,
    declared.trans (called.trans (.step ?_))⟩
  show Machine.Leads files (Machine.call (.closure (closure identity)) [] _ _ s) _
  rw [entered]
  exact leads.trans (.step (deepest.leads_call files isClass 9 3 _))

end Descent

end Lox
