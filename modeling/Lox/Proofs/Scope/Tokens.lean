import Mathlib.Data.List.Forall2
import Lox.Proofs.Parse.Phrases
import Lox.Proofs.Scope.Respelled

/-!
# The tokens of a respelled tree

What is named in a tree is written in its tokens.  A respelled tree has the tokens of the tree
that it was made of, some of them with the new spelling.  As both trees have one shape, it can
also be made by replacing tokens one by one.
-/

namespace Lox

/-! ## Replacing tokens -/

section MapTokens

variable (f : Token → Token)

mutual
theorem Expr.tokens_mapTokens (expr : Expr) : (expr.mapTokens f).tokens = expr.tokens.map f := by
  cases expr with
  | assign target value =>
      simp [Expr.mapTokens, Expr.tokens, Reference.mapTokens, value.tokens_mapTokens]
  | binary left operator right =>
      simp [Expr.mapTokens, Expr.tokens, left.tokens_mapTokens, right.tokens_mapTokens]
  | call callee paren args =>
      simp [Expr.mapTokens, Expr.tokens, callee.tokens_mapTokens, tokensAll_mapTokens args]
  | get object name => simp [Expr.mapTokens, Expr.tokens, object.tokens_mapTokens]
  | grouping inner => exact inner.tokens_mapTokens
  | literal value => rfl
  | logical left operator right =>
      simp [Expr.mapTokens, Expr.tokens, left.tokens_mapTokens, right.tokens_mapTokens]
  | set object name value =>
      simp [Expr.mapTokens, Expr.tokens, object.tokens_mapTokens, value.tokens_mapTokens]
  | super keyword method => rfl
  | this keyword => rfl
  | unary operator operand => simp [Expr.mapTokens, Expr.tokens, operand.tokens_mapTokens]
  | var name => rfl

theorem tokensAll_mapTokens (exprs : List Expr) :
    tokensAll (mapTokensAll f exprs) = (tokensAll exprs).map f := by
  cases exprs with
  | nil => rfl
  | cons expr exprs =>
      simp [mapTokensAll, tokensAll, expr.tokens_mapTokens, tokensAll_mapTokens exprs]
end

theorem tokensOptional_mapTokens (expr : Option Expr) :
    tokensOptional (mapTokensOptional f expr) = (tokensOptional expr).map f := by
  cases expr with
  | none => rfl
  | some expr => exact expr.tokens_mapTokens f

mutual
theorem Stmt.tokens_mapTokens (stmt : Stmt) : (stmt.mapTokens f).tokens = stmt.tokens.map f := by
  cases stmt with
  | block body => exact tokensBody_mapTokens body
  | classDecl name superclass methods =>
      cases superclass with
      | none => simp [Stmt.mapTokens, Stmt.tokens, tokensMethods_mapTokens methods]
      | some reference =>
          simp [Stmt.mapTokens, Stmt.tokens, Reference.mapTokens, tokensMethods_mapTokens methods]
  | expression expr => exact expr.tokens_mapTokens f
  | funDecl decl => exact decl.tokens_mapTokens
  | ifElse condition thenBranch elseBranch =>
      cases elseBranch with
      | none =>
          simp [Stmt.mapTokens, Stmt.tokens, condition.tokens_mapTokens,
            thenBranch.tokens_mapTokens]
      | some elseBranch =>
          simp [Stmt.mapTokens, Stmt.tokens, condition.tokens_mapTokens,
            thenBranch.tokens_mapTokens, elseBranch.tokens_mapTokens]
  | inclusion path => rfl
  | print value => exact value.tokens_mapTokens f
  | ret keyword value => simp [Stmt.mapTokens, Stmt.tokens, tokensOptional_mapTokens]
  | varDecl name init => simp [Stmt.mapTokens, Stmt.tokens, tokensOptional_mapTokens]
  | whileLoop condition body =>
      simp [Stmt.mapTokens, Stmt.tokens, condition.tokens_mapTokens, body.tokens_mapTokens]

theorem FunDecl.tokens_mapTokens (decl : FunDecl) :
    (decl.mapTokens f).tokens = decl.tokens.map f := by
  obtain ⟨name, params, body⟩ := decl
  simp [FunDecl.mapTokens, FunDecl.tokens, tokensBody_mapTokens body]

theorem tokensBody_mapTokens (stmts : List Stmt) :
    tokensBody (mapTokensBody f stmts) = (tokensBody stmts).map f := by
  cases stmts with
  | nil => rfl
  | cons stmt stmts =>
      simp [mapTokensBody, tokensBody, stmt.tokens_mapTokens, tokensBody_mapTokens stmts]

theorem tokensMethods_mapTokens (methods : List FunDecl) :
    tokensMethods (mapTokensMethods f methods) = (tokensMethods methods).map f := by
  cases methods with
  | nil => rfl
  | cons method methods =>
      simp [mapTokensMethods, tokensMethods, method.tokens_mapTokens,
        tokensMethods_mapTokens methods]
end

end MapTokens

/-! ## Names are those of tokens -/

mutual
/-- What is named in the walk of an expression is written in the expression. -/
theorem Expr.names_subset (expr : Expr) :
    expr.acts.flatMap Act.names ⊆ expr.tokens.map Token.lexeme := by
  cases expr with
  | assign target value =>
      have := value.names_subset
      simp only [Expr.acts, Expr.tokens]
      grind [Act.names]
  | binary left operator right =>
      have := left.names_subset
      have := right.names_subset
      simp only [Expr.acts, Expr.tokens]
      grind
  | call callee paren args =>
      have := callee.names_subset
      have := namesAll_subset args
      simp only [Expr.acts, Expr.tokens]
      grind
  | get object name =>
      have := object.names_subset
      simp only [Expr.acts, Expr.tokens]
      grind
  | grouping inner => exact inner.names_subset
  | literal value => exact List.nil_subset _
  | logical left operator right =>
      have := left.names_subset
      have := right.names_subset
      simp only [Expr.acts, Expr.tokens]
      grind
  | set object name value =>
      have := object.names_subset
      have := value.names_subset
      simp only [Expr.acts, Expr.tokens]
      grind
  | super keyword method => exact List.nil_subset _
  | this keyword => exact List.nil_subset _
  | unary operator operand =>
      have := operand.names_subset
      simp only [Expr.acts, Expr.tokens]
      grind
  | var name => exact List.Subset.refl _

theorem namesAll_subset (exprs : List Expr) :
    (actsAll exprs).flatMap Act.names ⊆ (tokensAll exprs).map Token.lexeme := by
  cases exprs with
  | nil => exact List.nil_subset _
  | cons expr exprs =>
      have := expr.names_subset
      have := namesAll_subset exprs
      simp only [actsAll, tokensAll]
      grind
end

theorem namesOptional_subset (expr : Option Expr) :
    (actsOptional expr).flatMap Act.names ⊆ (tokensOptional expr).map Token.lexeme := by
  cases expr with
  | none => exact List.nil_subset _
  | some expr => exact expr.names_subset

theorem namesParameters_subset (seen : List String) (params : List Token) :
    (actsParameters seen params).flatMap Act.names ⊆ seen ++ params.map Token.lexeme := by
  induction params generalizing seen with
  | nil => exact List.nil_subset _
  | cons param params ih =>
      have := ih (param.lexeme :: seen)
      simp only [actsParameters]
      grind [Act.names]

mutual
/-- What is named in the walk of a statement is written in the statement. -/
theorem Stmt.names_subset (stmt : Stmt) :
    stmt.acts.flatMap Act.names ⊆ stmt.tokens.map Token.lexeme := by
  cases stmt with
  | block body => exact namesBody_subset body
  | classDecl name superclass methods =>
      have := namesMethods_subset methods
      cases superclass with
      | none =>
          simp only [Stmt.acts, Stmt.tokens]
          grind [Act.names]
      | some reference =>
          simp only [Stmt.acts, Stmt.tokens]
          grind [Act.names]
  | expression expr => exact expr.names_subset
  | funDecl decl =>
      have := decl.names_subset
      have named : decl.name ∈ decl.tokens := by
        obtain ⟨name, params, body⟩ := decl
        exact List.mem_cons_self
      simp only [Stmt.acts, Stmt.tokens]
      grind [Act.names]
  | ifElse condition thenBranch elseBranch =>
      have := condition.names_subset
      have := thenBranch.names_subset
      cases elseBranch with
      | none =>
          simp only [Stmt.acts, Stmt.tokens]
          grind [Act.names]
      | some elseBranch =>
          have := elseBranch.names_subset
          simp only [Stmt.acts, Stmt.tokens]
          grind [Act.names]
  | inclusion path => exact List.nil_subset _
  | print value => exact value.names_subset
  | ret keyword value =>
      have := namesOptional_subset value
      simp only [Stmt.acts, Stmt.tokens]
      grind [Act.names]
  | varDecl name init =>
      have := namesOptional_subset init
      simp only [Stmt.acts, Stmt.tokens]
      grind [Act.names]
  | whileLoop condition body =>
      have := condition.names_subset
      have := body.names_subset
      simp only [Stmt.acts, Stmt.tokens]
      grind [Act.names]

theorem FunDecl.names_subset (decl : FunDecl) :
    decl.acts.flatMap Act.names ⊆ decl.tokens.map Token.lexeme := by
  obtain ⟨name, params, body⟩ := decl
  have := namesParameters_subset [] params
  have := namesBody_subset body
  simp only [FunDecl.acts, FunDecl.tokens]
  grind

theorem namesBody_subset (stmts : List Stmt) :
    (actsBody stmts).flatMap Act.names ⊆ (tokensBody stmts).map Token.lexeme := by
  cases stmts with
  | nil => exact List.nil_subset _
  | cons stmt stmts =>
      have := stmt.names_subset
      have := namesBody_subset stmts
      simp only [actsBody, tokensBody]
      grind

theorem namesMethods_subset (methods : List FunDecl) :
    (actsMethods methods).flatMap Act.names ⊆ (tokensMethods methods).map Token.lexeme := by
  cases methods with
  | nil => exact List.nil_subset _
  | cons method methods =>
      have := method.names_subset
      have := namesMethods_subset methods
      simp only [actsMethods, tokensMethods]
      grind
end

/-- Whatever is named at a point of the walk of a program is written in the program. -/
theorem Event.exists_token {first : Nat} {stmts : List Stmt} {event : Event}
    (walked : event ∈ walkProgram first stmts) {name : String} (named : name ∈ event.act.names) :
    ∃ token ∈ tokensBody stmts, token.lexeme = name := by
  have acts := map_act_walkBody [first] .root 0 stmts
  have isAct : event.act ∈ actsBody stmts := by
    rw [← acts]
    exact List.mem_map_of_mem walked
  exact List.mem_map.mp (namesBody_subset stmts (List.mem_flatMap.mpr ⟨event.act, isAct, named⟩))

/-! ## Respelling tokens -/

/-- A token, and that which stands in its place in a respelled tree. -/
def Respelling.Respells (r : Respelling) (token token' : Token) : Prop :=
  token' = token ∨
    (token.kind = .identifier ∧ token.lexeme = r.old ∧ token' = { token with lexeme := r.new })

namespace Respelling

variable {r : Respelling}

theorem Respells.refl (token : Token) : r.Respells token token := .inl rfl

theorem respells_refl (tokens : List Token) : List.Forall₂ r.Respells tokens tokens :=
  List.forall₂_same.mpr fun token _ => .refl token

theorem respells_declared (p : Spot) {name : Token} (isName : name.IsOf [.identifier]) :
    r.Respells name (r.declared p name) := by
  have cases : r.spellHere p name.lexeme = name.lexeme ∨
      (name.lexeme = r.old ∧ r.spellHere p name.lexeme = r.new) := by
    unfold spellHere
    split
    · exact .inl rfl
    · unfold spell
      split
      · next here => exact .inr ⟨here.2, rfl⟩
      · exact .inl rfl
  rcases cases with same | ⟨old, new⟩
  · exact .inl (by rw [declared, same])
  · exact .inr ⟨List.mem_singleton.mp isName.kind, old, by rw [declared, new]⟩

/-- A reference that is respelled is no reserved word, since a variable has its name. -/
theorem respells_referred (unreserved : Kind.ofWord? r.old.toList = none) (p : Spot)
    {reference : Reference} (isName : reference.name.IsOf [.identifier, .printWord]) :
    r.Respells reference.name (r.referred p reference).name := by
  rcases spellFound_cases (r := r) p.scopes reference.name.lexeme with same | ⟨old, new⟩
  · exact .inl (by rw [referred, same])
  · refine .inr ⟨?_, old, by rw [referred, new]⟩
    rcases List.mem_cons.mp isName.kind with isIdentifier | isPrint
    · exact isIdentifier
    · have isPrint := List.mem_singleton.mp isPrint
      have word := isName.faithful.reserved (by rw [isPrint]; rfl)
      rw [old, unreserved] at word
      cases word

end Respelling

section Respells

set_option linter.unusedSectionVars false

variable {r : Respelling} (unreserved : Kind.ofWord? r.old.toList = none)
include unreserved

open Respelling List

mutual
theorem Expr.tokens_respell {p : Spot} (expr : Expr)
    (proper : ∀ event ∈ expr.walk p, event.act.Proper) :
    Forall₂ r.Respells expr.tokens (expr.respell r p).tokens := by
  cases expr with
  | assign target value =>
      obtain ⟨inValue, here⟩ := forall_mem_append.mp proper
      exact .cons (respells_referred unreserved p (here _ mem_cons_self))
        (value.tokens_respell inValue)
  | binary left operator right =>
      obtain ⟨inLeft, inRight⟩ := forall_mem_append.mp proper
      exact rel_append (left.tokens_respell inLeft)
        (.cons (.refl operator) (right.tokens_respell inRight))
  | call callee paren args =>
      obtain ⟨inCallee, inArgs⟩ := forall_mem_append.mp proper
      exact rel_append (callee.tokens_respell inCallee)
        (rel_append (tokensAll_respell args inArgs) (respells_refl [paren]))
  | get object name => exact rel_append (object.tokens_respell proper) (respells_refl [name])
  | grouping inner => exact inner.tokens_respell proper
  | literal value => exact .nil
  | logical left operator right =>
      obtain ⟨inLeft, inRight⟩ := forall_mem_append.mp proper
      exact rel_append (left.tokens_respell inLeft)
        (.cons (.refl operator) (right.tokens_respell inRight))
  | set object name value =>
      obtain ⟨inValue, inObject⟩ := forall_mem_append.mp proper
      exact rel_append (object.tokens_respell inObject)
        (.cons (.refl name) (value.tokens_respell inValue))
  | super keyword method => exact respells_refl _
  | this keyword => exact respells_refl _
  | unary operator operand => exact .cons (.refl operator) (operand.tokens_respell proper)
  | var name => exact .cons (respells_referred unreserved p (proper _ mem_cons_self)) .nil

theorem tokensAll_respell {p : Spot} (exprs : List Expr)
    (proper : ∀ event ∈ walkAll p exprs, event.act.Proper) :
    Forall₂ r.Respells (tokensAll exprs) (tokensAll (respellAll r p exprs)) := by
  cases exprs with
  | nil => exact .nil
  | cons expr exprs =>
      obtain ⟨inFirst, inOthers⟩ := forall_mem_append.mp proper
      exact rel_append (expr.tokens_respell inFirst) (tokensAll_respell exprs inOthers)
end

theorem tokensOptional_respell {p : Spot} (expr : Option Expr)
    (proper : ∀ event ∈ walkOptional p expr, event.act.Proper) :
    Forall₂ r.Respells (tokensOptional expr) (tokensOptional (respellOptional r p expr)) := by
  cases expr with
  | none => exact .nil
  | some expr => exact expr.tokens_respell unreserved proper

omit unreserved in
theorem params_respell {p q : Spot} (seen : List String) (params : List Token)
    (proper : ∀ event ∈ walkParameters seen p params, event.act.Proper) :
    Forall₂ r.Respells params (params.map (r.declared q)) := by
  induction params generalizing p seen with
  | nil => exact .nil
  | cons param params ih =>
      obtain ⟨here, others⟩ := forall_mem_cons.mp proper
      exact .cons (respells_declared q here) (ih _ others)

mutual
theorem Stmt.tokens_respell {path : List Nat} {p : Spot} (stmt : Stmt)
    (proper : ∀ event ∈ stmt.walk path p, event.act.Proper) :
    Forall₂ r.Respells stmt.tokens (stmt.respell r path p).tokens := by
  cases stmt with
  | block body => exact tokensBody_respell 0 body proper
  | classDecl name superclass methods =>
      cases superclass with
      | none =>
          obtain ⟨_, inMethods⟩ := forall_mem_cons.mp proper
          exact .cons (.refl name) (tokensMethods_respell 0 methods inMethods)
      | some reference =>
          obtain ⟨_, others⟩ := forall_mem_cons.mp proper
          obtain ⟨_, others⟩ := forall_mem_cons.mp others
          obtain ⟨reads, inMethods⟩ := forall_mem_cons.mp others
          exact .cons (.refl name) (.cons (respells_referred unreserved _ reads)
            (tokensMethods_respell 0 methods inMethods))
  | expression expr => exact expr.tokens_respell unreserved proper
  | funDecl decl =>
      obtain ⟨_, inside⟩ := forall_mem_cons.mp proper
      exact decl.tokens_respell inside
  | ifElse condition thenBranch elseBranch =>
      cases elseBranch with
      | none =>
          obtain ⟨inCondition, others⟩ := forall_mem_append.mp proper
          obtain ⟨_, inThen⟩ := forall_mem_cons.mp others
          exact rel_append (condition.tokens_respell unreserved inCondition)
            (thenBranch.tokens_respell inThen)
      | some elseBranch =>
          obtain ⟨inCondition, others⟩ := forall_mem_append.mp proper
          obtain ⟨inThen, inElse⟩ := forall_mem_append.mp others
          obtain ⟨_, inThen⟩ := forall_mem_cons.mp inThen
          obtain ⟨_, inElse⟩ := forall_mem_cons.mp inElse
          exact rel_append (condition.tokens_respell unreserved inCondition)
            (rel_append (thenBranch.tokens_respell inThen) (elseBranch.tokens_respell inElse))
  | inclusion pathToken => exact respells_refl _
  | print value => exact value.tokens_respell unreserved proper
  | ret keyword value =>
      obtain ⟨_, inValue⟩ := forall_mem_cons.mp proper
      exact .cons (.refl keyword) (tokensOptional_respell unreserved value inValue)
  | varDecl name init =>
      obtain ⟨here, inInit⟩ := forall_mem_cons.mp proper
      exact .cons (respells_declared p here) (tokensOptional_respell unreserved init inInit)
  | whileLoop condition body =>
      obtain ⟨inCondition, others⟩ := forall_mem_append.mp proper
      obtain ⟨_, inBody⟩ := forall_mem_cons.mp others
      exact rel_append (condition.tokens_respell unreserved inCondition)
        (body.tokens_respell inBody)

theorem FunDecl.tokens_respell {path : List Nat} {p : Spot} (decl : FunDecl)
    (proper : ∀ event ∈ decl.walk path p, event.act.Proper) :
    Forall₂ r.Respells decl.tokens (decl.respell r path p).tokens := by
  obtain ⟨name, params, body⟩ := decl
  obtain ⟨atParams, inBody⟩ := forall_mem_append.mp proper
  exact .cons (.refl name) (rel_append (params_respell [] params atParams)
    (tokensBody_respell 0 body inBody))

theorem tokensBody_respell {path : List Nat} {p : Spot} (index : Nat) (stmts : List Stmt)
    (proper : ∀ event ∈ walkBody path p index stmts, event.act.Proper) :
    Forall₂ r.Respells (tokensBody stmts) (tokensBody (respellBody r path p index stmts)) := by
  cases stmts with
  | nil => exact .nil
  | cons stmt stmts =>
      obtain ⟨inFirst, inOthers⟩ := forall_mem_append.mp proper
      exact rel_append (stmt.tokens_respell inFirst) (tokensBody_respell (index + 1) stmts inOthers)

theorem tokensMethods_respell {path : List Nat} {p : Spot} (index : Nat)
    (methods : List FunDecl)
    (proper : ∀ event ∈ walkMethods path p index methods, event.act.Proper) :
    Forall₂ r.Respells (tokensMethods methods)
      (tokensMethods (respellMethods r path p index methods)) := by
  cases methods with
  | nil => exact .nil
  | cons method methods =>
      obtain ⟨inFirst, inOthers⟩ := forall_mem_append.mp proper
      exact rel_append (method.tokens_respell inFirst)
        (tokensMethods_respell (index + 1) methods inOthers)
end

/-! ## A respelled tree is told by its tokens -/

variable {f g : Token → Token}

omit unreserved in
theorem Reference.eq_mapTokens {reference other : Reference} (sameId : other.id = reference.id)
    (same : other.name = g reference.name) : other = reference.mapTokens g := by
  obtain ⟨id, name⟩ := other
  cases sameId
  cases same
  rfl

omit unreserved in
/-- Lists that are the same when they are joined are so one by one, if they are as long. -/
theorem split_map {front back : List Token} {xs ys : List Token}
    (same : xs ++ ys = (front ++ back).map g) (length : xs.length = front.length) :
    xs = front.map g ∧ ys = back.map g := by
  rw [map_append] at same
  exact append_inj same (by rw [length, length_map])

theorem Expr.length_respell {p : Spot} {expr : Expr}
    (proper : ∀ event ∈ (expr.mapTokens f).walk p, event.act.Proper) :
    ((expr.mapTokens f).respell r p).tokens.length = expr.tokens.length := by
  rw [← ((expr.mapTokens f).tokens_respell unreserved proper).length_eq, expr.tokens_mapTokens,
    length_map]

theorem length_respellAll {p : Spot} {exprs : List Expr}
    (proper : ∀ event ∈ walkAll p (mapTokensAll f exprs), event.act.Proper) :
    (tokensAll (respellAll r p (mapTokensAll f exprs))).length = (tokensAll exprs).length := by
  rw [← (tokensAll_respell unreserved (mapTokensAll f exprs) proper).length_eq,
    tokensAll_mapTokens, length_map]

mutual
/-- A respelled expression is made by replacing tokens, if its tokens are made so. -/
theorem Expr.respell_eq {p : Spot} (expr : Expr)
    (proper : ∀ event ∈ (expr.mapTokens f).walk p, event.act.Proper)
    (same : ((expr.mapTokens f).respell r p).tokens = expr.tokens.map g) :
    (expr.mapTokens f).respell r p = expr.mapTokens g := by
  cases expr with
  | assign target value =>
      obtain ⟨inValue, _⟩ := forall_mem_append.mp proper
      obtain ⟨sameTarget, sameValue⟩ := cons.inj same
      have sameTarget : r.referred p (target.mapTokens f) = target.mapTokens g :=
        Reference.eq_mapTokens rfl sameTarget
      rw [Expr.mapTokens, Expr.respell, value.respell_eq inValue sameValue, Expr.mapTokens,
        sameTarget]
  | binary left operator right =>
      obtain ⟨inLeft, inRight⟩ := forall_mem_append.mp proper
      obtain ⟨sameLeft, others⟩ := split_map same (Expr.length_respell unreserved inLeft)
      obtain ⟨sameOperator, sameRight⟩ := cons.inj others
      rw [Expr.mapTokens, Expr.respell, left.respell_eq inLeft sameLeft,
        right.respell_eq inRight sameRight, Expr.mapTokens, sameOperator]
  | call callee paren args =>
      obtain ⟨inCallee, inArgs⟩ := forall_mem_append.mp proper
      obtain ⟨sameCallee, others⟩ := split_map same (Expr.length_respell unreserved inCallee)
      obtain ⟨sameArgs, last⟩ := split_map others (length_respellAll unreserved inArgs)
      obtain ⟨sameParen, _⟩ := cons.inj last
      rw [Expr.mapTokens, Expr.respell, callee.respell_eq inCallee sameCallee,
        respellAll_eq args inArgs sameArgs, Expr.mapTokens, sameParen]
  | get object name =>
      obtain ⟨sameObject, last⟩ := split_map same (Expr.length_respell unreserved proper)
      obtain ⟨sameName, _⟩ := cons.inj last
      rw [Expr.mapTokens, Expr.respell, object.respell_eq proper sameObject, Expr.mapTokens, sameName]
  | grouping inner =>
      rw [Expr.mapTokens, Expr.respell, inner.respell_eq proper same, Expr.mapTokens]
  | literal value => rfl
  | logical left operator right =>
      obtain ⟨inLeft, inRight⟩ := forall_mem_append.mp proper
      obtain ⟨sameLeft, others⟩ := split_map same (Expr.length_respell unreserved inLeft)
      obtain ⟨sameOperator, sameRight⟩ := cons.inj others
      rw [Expr.mapTokens, Expr.respell, left.respell_eq inLeft sameLeft,
        right.respell_eq inRight sameRight, Expr.mapTokens, sameOperator]
  | set object name value =>
      obtain ⟨inValue, inObject⟩ := forall_mem_append.mp proper
      obtain ⟨sameObject, others⟩ := split_map same (Expr.length_respell unreserved inObject)
      obtain ⟨sameName, sameValue⟩ := cons.inj others
      rw [Expr.mapTokens, Expr.respell, object.respell_eq inObject sameObject,
        value.respell_eq inValue sameValue, Expr.mapTokens, sameName]
  | super keyword method =>
      obtain ⟨sameKeyword, last⟩ := cons.inj same
      obtain ⟨sameMethod, _⟩ := cons.inj last
      have sameKeyword : keyword.mapTokens f = keyword.mapTokens g :=
        Reference.eq_mapTokens rfl sameKeyword
      rw [Expr.mapTokens, Expr.respell, Expr.mapTokens, sameMethod, sameKeyword]
  | this keyword =>
      have sameKeyword : keyword.mapTokens f = keyword.mapTokens g :=
        Reference.eq_mapTokens rfl (cons.inj same).1
      rw [Expr.mapTokens, Expr.respell, Expr.mapTokens, sameKeyword]
  | unary operator operand =>
      obtain ⟨sameOperator, sameOperand⟩ := cons.inj same
      rw [Expr.mapTokens, Expr.respell, operand.respell_eq proper sameOperand, Expr.mapTokens,
        sameOperator]
  | var name =>
      have sameName : r.referred p (name.mapTokens f) = name.mapTokens g :=
        Reference.eq_mapTokens rfl (cons.inj same).1
      rw [Expr.mapTokens, Expr.respell, Expr.mapTokens, sameName]

theorem respellAll_eq {p : Spot} (exprs : List Expr)
    (proper : ∀ event ∈ walkAll p (mapTokensAll f exprs), event.act.Proper)
    (same : tokensAll (respellAll r p (mapTokensAll f exprs)) = (tokensAll exprs).map g) :
    respellAll r p (mapTokensAll f exprs) = mapTokensAll g exprs := by
  cases exprs with
  | nil => rfl
  | cons expr exprs =>
      obtain ⟨inFirst, inOthers⟩ := forall_mem_append.mp proper
      obtain ⟨sameFirst, sameOthers⟩ := split_map same (Expr.length_respell unreserved inFirst)
      rw [mapTokensAll, respellAll, expr.respell_eq inFirst sameFirst,
        respellAll_eq exprs inOthers sameOthers, mapTokensAll]
end

theorem respellOptional_eq {p : Spot} (expr : Option Expr)
    (proper : ∀ event ∈ walkOptional p (mapTokensOptional f expr), event.act.Proper)
    (same : tokensOptional (respellOptional r p (mapTokensOptional f expr)) =
      (tokensOptional expr).map g) :
    respellOptional r p (mapTokensOptional f expr) = mapTokensOptional g expr := by
  cases expr with
  | none => rfl
  | some expr => exact congrArg some (expr.respell_eq unreserved proper same)

theorem Stmt.length_respell {path : List Nat} {p : Spot} {stmt : Stmt}
    (proper : ∀ event ∈ (stmt.mapTokens f).walk path p, event.act.Proper) :
    ((stmt.mapTokens f).respell r path p).tokens.length = stmt.tokens.length := by
  rw [← ((stmt.mapTokens f).tokens_respell unreserved proper).length_eq, stmt.tokens_mapTokens,
    length_map]

theorem FunDecl.length_respell {path : List Nat} {p : Spot} {decl : FunDecl}
    (proper : ∀ event ∈ (decl.mapTokens f).walk path p, event.act.Proper) :
    ((decl.mapTokens f).respell r path p).tokens.length = decl.tokens.length := by
  rw [← ((decl.mapTokens f).tokens_respell unreserved proper).length_eq, decl.tokens_mapTokens,
    length_map]

mutual
/-- A respelled statement is made by replacing tokens, if its tokens are made so. -/
theorem Stmt.respell_eq {path : List Nat} {p : Spot} (stmt : Stmt)
    (proper : ∀ event ∈ (stmt.mapTokens f).walk path p, event.act.Proper)
    (same : ((stmt.mapTokens f).respell r path p).tokens = stmt.tokens.map g) :
    (stmt.mapTokens f).respell r path p = stmt.mapTokens g := by
  cases stmt with
  | block body =>
      rw [Stmt.mapTokens, Stmt.respell, respellBody_eq 0 body proper same, Stmt.mapTokens]
  | classDecl name superclass methods =>
      cases superclass with
      | none =>
          obtain ⟨_, inMethods⟩ := forall_mem_cons.mp proper
          obtain ⟨sameName, sameMethods⟩ := cons.inj same
          rw [Stmt.mapTokens, Stmt.respell, respellMethods_eq 0 methods inMethods sameMethods,
            Stmt.mapTokens, sameName]
      | some reference =>
          obtain ⟨_, others⟩ := forall_mem_cons.mp proper
          obtain ⟨_, others⟩ := forall_mem_cons.mp others
          obtain ⟨_, inMethods⟩ := forall_mem_cons.mp others
          obtain ⟨sameName, others⟩ := cons.inj same
          obtain ⟨sameReference, sameMethods⟩ := cons.inj others
          have sameReference :
              r.referred (p.introduce (f name).lexeme) (reference.mapTokens f) =
                reference.mapTokens g := Reference.eq_mapTokens rfl sameReference
          rw [Stmt.mapTokens, Stmt.respell, respellMethods_eq 0 methods inMethods sameMethods,
            Stmt.mapTokens, sameReference, sameName]
  | expression expr =>
      rw [Stmt.mapTokens, Stmt.respell, expr.respell_eq unreserved proper same, Stmt.mapTokens]
  | funDecl decl =>
      obtain ⟨_, inside⟩ := forall_mem_cons.mp proper
      rw [Stmt.mapTokens, Stmt.respell, decl.respell_eq inside same, Stmt.mapTokens]
  | ifElse condition thenBranch elseBranch =>
      cases elseBranch with
      | none =>
          obtain ⟨inCondition, others⟩ := forall_mem_append.mp proper
          obtain ⟨_, inThen⟩ := forall_mem_cons.mp others
          obtain ⟨sameCondition, sameThen⟩ :=
            split_map same (Expr.length_respell unreserved inCondition)
          rw [Stmt.mapTokens, Stmt.respell, condition.respell_eq unreserved inCondition sameCondition,
            thenBranch.respell_eq inThen sameThen, Stmt.mapTokens]
      | some elseBranch =>
          obtain ⟨inCondition, others⟩ := forall_mem_append.mp proper
          obtain ⟨inThen, inElse⟩ := forall_mem_append.mp others
          obtain ⟨_, inThen⟩ := forall_mem_cons.mp inThen
          obtain ⟨_, inElse⟩ := forall_mem_cons.mp inElse
          obtain ⟨sameCondition, others⟩ :=
            split_map same (Expr.length_respell unreserved inCondition)
          obtain ⟨sameThen, sameElse⟩ := split_map others (Stmt.length_respell unreserved inThen)
          rw [Stmt.mapTokens, Stmt.respell, condition.respell_eq unreserved inCondition sameCondition,
            thenBranch.respell_eq inThen sameThen, elseBranch.respell_eq inElse sameElse,
            Stmt.mapTokens]
  | inclusion pathToken =>
      rw [Stmt.mapTokens, Stmt.respell, Stmt.mapTokens, (cons.inj same).1]
  | print value =>
      rw [Stmt.mapTokens, Stmt.respell, value.respell_eq unreserved proper same, Stmt.mapTokens]
  | ret keyword value =>
      obtain ⟨_, inValue⟩ := forall_mem_cons.mp proper
      obtain ⟨sameKeyword, sameValue⟩ := cons.inj same
      rw [Stmt.mapTokens, Stmt.respell, respellOptional_eq unreserved value inValue sameValue,
        Stmt.mapTokens, sameKeyword]
  | varDecl name init =>
      obtain ⟨_, inInit⟩ := forall_mem_cons.mp proper
      obtain ⟨sameName, sameInit⟩ := cons.inj same
      rw [Stmt.mapTokens, Stmt.respell, respellOptional_eq unreserved init inInit sameInit,
        Stmt.mapTokens, sameName]
  | whileLoop condition body =>
      obtain ⟨inCondition, others⟩ := forall_mem_append.mp proper
      obtain ⟨_, inBody⟩ := forall_mem_cons.mp others
      obtain ⟨sameCondition, sameBody⟩ :=
        split_map same (Expr.length_respell unreserved inCondition)
      rw [Stmt.mapTokens, Stmt.respell, condition.respell_eq unreserved inCondition sameCondition,
        body.respell_eq inBody sameBody, Stmt.mapTokens]

theorem FunDecl.respell_eq {path : List Nat} {p : Spot} (decl : FunDecl)
    (proper : ∀ event ∈ (decl.mapTokens f).walk path p, event.act.Proper)
    (same : ((decl.mapTokens f).respell r path p).tokens = decl.tokens.map g) :
    (decl.mapTokens f).respell r path p = decl.mapTokens g := by
  obtain ⟨name, params, body⟩ := decl
  obtain ⟨_, inBody⟩ := forall_mem_append.mp proper
  obtain ⟨sameName, others⟩ := cons.inj same
  obtain ⟨sameParams, sameBody⟩ := split_map others (by rw [length_map, length_map])
  rw [FunDecl.mapTokens, FunDecl.respell, respellBody_eq 0 body inBody sameBody,
    FunDecl.mapTokens, sameParams, sameName]

theorem respellBody_eq {path : List Nat} {p : Spot} (index : Nat) (stmts : List Stmt)
    (proper : ∀ event ∈ walkBody path p index (mapTokensBody f stmts), event.act.Proper)
    (same : tokensBody (respellBody r path p index (mapTokensBody f stmts)) =
      (tokensBody stmts).map g) :
    respellBody r path p index (mapTokensBody f stmts) = mapTokensBody g stmts := by
  cases stmts with
  | nil => rfl
  | cons stmt stmts =>
      obtain ⟨inFirst, inOthers⟩ := forall_mem_append.mp proper
      obtain ⟨sameFirst, sameOthers⟩ := split_map same (Stmt.length_respell unreserved inFirst)
      rw [mapTokensBody, respellBody, stmt.respell_eq inFirst sameFirst,
        respellBody_eq (index + 1) stmts inOthers sameOthers, mapTokensBody]

theorem respellMethods_eq {path : List Nat} {p : Spot} (index : Nat) (methods : List FunDecl)
    (proper : ∀ event ∈ walkMethods path p index (mapTokensMethods f methods), event.act.Proper)
    (same : tokensMethods (respellMethods r path p index (mapTokensMethods f methods)) =
      (tokensMethods methods).map g) :
    respellMethods r path p index (mapTokensMethods f methods) = mapTokensMethods g methods := by
  cases methods with
  | nil => rfl
  | cons method methods =>
      obtain ⟨inFirst, inOthers⟩ := forall_mem_append.mp proper
      obtain ⟨sameFirst, sameOthers⟩ := split_map same (FunDecl.length_respell unreserved inFirst)
      rw [mapTokensMethods, respellMethods, method.respell_eq inFirst sameFirst,
        respellMethods_eq (index + 1) methods inOthers sameOthers, mapTokensMethods]
end

end Respells

end Lox
