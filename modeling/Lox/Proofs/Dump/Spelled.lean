import Lox.Proofs.Decimal.Literals
import Lox.Proofs.Dump.Trees

/-!
# Trees whose tokens are spelled as the grammar has them
-/

namespace Lox

open Token

/-! ## Spelling -/

/-- A token of one of the given kinds, written as its kind tells and not as a block is dumped. -/
structure Token.Stands (kinds : List Kind) (token : Token) : Prop where
  kind : token.kind ∈ kinds
  written : token.IsWritten
  noBlock : token.lexeme ≠ "block"

/-- A literal whose text can be read. -/
def Literal.Shown : Literal → Prop
  | .number x => Decimal.IsFinite x
  | .string s => '"' ∉ s.toList
  | _ => True

/-- The kinds of tokens that name variables. -/
def nameKinds : List Kind := [.identifier, .printWord]

def binaryKinds : List Kind :=
  [.bangEqual, .equalEqual, .greater, .greaterEqual, .less, .lessEqual, .minus, .plus, .slash,
    .star]

mutual
/-- The tokens of an expression stand where their kinds may. -/
def Expr.Spelled : Expr → Prop
  | .assign target value => target.name.Stands nameKinds ∧ value.Spelled
  | .binary left operator right => left.Spelled ∧ operator.Stands binaryKinds ∧ right.Spelled
  | .call callee paren args => callee.Spelled ∧ paren.Stands [.rightParen] ∧ SpelledAll args
  | .get object name => object.Spelled ∧ name.Stands [.identifier]
  | .grouping inner => inner.Spelled
  | .literal value => value.Shown
  | .logical left operator right =>
      left.Spelled ∧ operator.Stands [.andWord, .orWord] ∧ right.Spelled
  | .set object name value => object.Spelled ∧ name.Stands [.identifier] ∧ value.Spelled
  | .super keyword method => keyword.name.Stands [.superWord] ∧ method.Stands [.identifier]
  | .this keyword => keyword.name.Stands [.thisWord]
  | .unary operator operand => operator.Stands [.bang, .minus] ∧ operand.Spelled
  | .var name => name.name.Stands nameKinds

def SpelledAll : List Expr → Prop
  | [] => True
  | expr :: exprs => expr.Spelled ∧ SpelledAll exprs
end

def SpelledOptional : Option Expr → Prop
  | none => True
  | some expr => expr.Spelled

mutual
/-- The tokens of a statement stand where their kinds may. -/
def Stmt.Spelled : Stmt → Prop
  | .block body => SpelledBody body
  | .classDecl name none methods => name.Stands [.identifier] ∧ SpelledMethods methods
  | .classDecl name (some reference) methods =>
      name.Stands [.identifier] ∧ reference.name.Stands [.identifier] ∧ SpelledMethods methods
  | .expression expr => expr.Spelled
  | .funDecl decl => decl.Spelled
  | .ifElse condition thenBranch none => condition.Spelled ∧ thenBranch.Spelled
  | .ifElse condition thenBranch (some elseBranch) =>
      condition.Spelled ∧ thenBranch.Spelled ∧ elseBranch.Spelled
  | .inclusion path => path.Stands [.string]
  | .print value => value.Spelled
  | .ret keyword value => keyword.Stands [.returnWord] ∧ SpelledOptional value
  | .varDecl name init => name.Stands [.identifier] ∧ SpelledOptional init
  | .whileLoop condition body => condition.Spelled ∧ body.Spelled

def FunDecl.Spelled : FunDecl → Prop
  | ⟨name, params, body⟩ =>
      name.Stands [.identifier] ∧ (∀ param ∈ params, param.Stands [.identifier]) ∧
        SpelledBody body

def SpelledBody : List Stmt → Prop
  | [] => True
  | stmt :: stmts => stmt.Spelled ∧ SpelledBody stmts

def SpelledMethods : List FunDecl → Prop
  | [] => True
  | method :: methods => method.Spelled ∧ SpelledMethods methods
end

/-! ## Their shapes are legible -/

namespace Token.Stands

variable {kinds : List Kind} {token : Token}

theorem isLeaf (stands : token.Stands kinds) (plain : ∀ kind ∈ kinds, kind.isPlain = true) :
    IsLeaf token.lexeme.toList :=
  .token stands.written (plain _ stands.kind)

theorem legible (stands : token.Stands kinds) (plain : ∀ kind ∈ kinds, kind.isPlain = true) :
    token.shape.Legible :=
  ⟨stands.isLeaf plain, fun _ none => (List.not_mem_nil none).elim⟩

theorem isWord (stands : token.Stands [.identifier]) : IsWord token.lexeme.toList := by
  have lexeme : Lexeme token.kind token.lexeme.toList token.literal := stands.written
  rw [List.mem_singleton.mp stands.kind] at lexeme
  generalize token.lexeme.toList = text, token.literal = literal at lexeme
  generalize isIdentifier : Kind.identifier = kind at lexeme
  cases lexeme with
  | symbol written => subst isIdentifier; exact absurd rfl written
  | reserved isWord => exact isWord_spelling isWord
  | identifier isWord unreserved => exact isWord
  | _ => cases isIdentifier

end Token.Stands

theorem legible_word {text : String} (start : text.toList.head?.any isWordStart = true)
    (parts : text.toList.tail.all isWordPart = true) : (Shape.word text).Legible :=
  ⟨.word ⟨start, List.all_eq_true.mp parts⟩, fun _ none => (List.not_mem_nil none).elim⟩

theorem legible_sign (kind : Kind) (written : kind.symbol ≠ []) (plain : kind.isPlain = true) :
    (Shape.leaf kind.symbol []).Legible :=
  ⟨.token (.symbol written) plain, fun _ none => (List.not_mem_nil none).elim⟩

theorem legible_form {head : Shape} {parts : List Shape} (isHead : head.Legible)
    (areParts : LegibleParts parts) : (Shape.form head parts []).Legible :=
  ⟨isHead, areParts, fun _ none => (List.not_mem_nil none).elim⟩

theorem legible_dot {shape : Shape} {name : Token} (legible : shape.Legible)
    (stands : name.Stands [.identifier]) : (shape.dot name.lexeme).Legible := by
  cases shape with
  | leaf text names => exact ⟨legible.1, List.forall_mem_cons.mpr ⟨stands.isWord, legible.2⟩⟩
  | form head parts names =>
      exact ⟨legible.1, legible.2.1, List.forall_mem_cons.mpr ⟨stands.isWord, legible.2.2⟩⟩

theorem legibleParts_iff {parts : List Shape} :
    LegibleParts parts ↔ ∀ part ∈ parts, part.Legible := by
  induction parts with
  | nil => simp [LegibleParts]
  | cons part parts ih => rw [LegibleParts, ih, List.forall_mem_cons]

/-- A number is dumped as a numeral, with its sign if it is negative. -/
theorem isLeaf_number {x : Float} (finite : Decimal.IsFinite x) :
    IsLeaf (Decimal.text Literal.numberNames x).toList := by
  obtain ⟨_, numeral, _⟩ := Decimal.numeral_magnitudeText (Decimal.finite_magnitude finite)
  rw [Decimal.toList_text _ finite]
  split
  · exact .negative numeral
  · exact .numeral numeral

theorem Literal.Shown.legible {value : Literal} (shown : value.Shown) :
    (Shape.word value.dump).Legible := by
  cases value with
  | nil => exact legible_word rfl rfl
  | bool b => cases b <;> exact legible_word rfl rfl
  | number x => exact ⟨isLeaf_number shown, fun _ none => (List.not_mem_nil none).elim⟩
  | string s =>
      have leaf := IsLeaf.token (.string shown) rfl
      refine ⟨?_, fun _ none => (List.not_mem_nil none).elim⟩
      simpa [dump] using leaf

mutual
theorem Expr.legible (expr : Expr) (spelled : expr.Spelled) : expr.shape.Legible := by
  cases expr with
  | assign target value =>
      obtain ⟨stands, spelled⟩ := spelled
      exact legible_form (legible_sign .equal (by decide) rfl)
        ⟨stands.legible (by decide), value.legible spelled, trivial⟩
  | binary left operator right =>
      obtain ⟨spelledLeft, stands, spelledRight⟩ := spelled
      exact legible_form (stands.legible (by decide))
        ⟨left.legible spelledLeft, right.legible spelledRight, trivial⟩
  | call callee paren args =>
      obtain ⟨spelledCallee, _, spelledArgs⟩ := spelled
      exact legible_form (legible_word rfl rfl)
        ⟨callee.legible spelledCallee, legible_shapesAll args spelledArgs⟩
  | get object name => exact legible_dot (object.legible spelled.1) spelled.2
  | grouping inner => exact legible_form (legible_word rfl rfl) ⟨inner.legible spelled, trivial⟩
  | literal value => exact spelled.legible
  | logical left operator right =>
      obtain ⟨spelledLeft, stands, spelledRight⟩ := spelled
      exact legible_form (stands.legible (by decide))
        ⟨left.legible spelledLeft, right.legible spelledRight, trivial⟩
  | set object name value =>
      obtain ⟨spelledObject, stands, spelledValue⟩ := spelled
      exact legible_form (legible_word rfl rfl)
        ⟨legible_dot (object.legible spelledObject) stands, value.legible spelledValue, trivial⟩
  | super keyword method => exact legible_dot (legible_word rfl rfl) spelled.2
  | this keyword => exact legible_word rfl rfl
  | unary operator operand =>
      exact legible_form (spelled.1.legible (by decide)) ⟨operand.legible spelled.2, trivial⟩
  | var name => exact spelled.legible (by decide)

theorem legible_shapesAll (exprs : List Expr) (spelled : SpelledAll exprs) :
    LegibleParts (shapesAll exprs) := by
  cases exprs with
  | nil => trivial
  | cons expr exprs => exact ⟨expr.legible spelled.1, legible_shapesAll exprs spelled.2⟩
end

theorem legible_optional (expr : Option Expr) (spelled : SpelledOptional expr) :
    LegibleParts (expr.toList.map Expr.shape) := by
  cases expr with
  | none => trivial
  | some expr => exact ⟨expr.legible spelled, trivial⟩

mutual
theorem Stmt.legible (stmt : Stmt) (spelled : stmt.Spelled) : stmt.shape.Legible := by
  cases stmt with
  | block body => exact legible_form (legible_word rfl rfl) (legible_bodyShapes body spelled)
  | classDecl name superclass methods =>
      cases superclass with
      | none =>
          exact legible_form (legible_word rfl rfl)
            ⟨spelled.1.legible (by decide), legible_methodShapes methods spelled.2⟩
      | some reference =>
          obtain ⟨stands, standsSuper, spelled⟩ := spelled
          exact legible_form (legible_word rfl rfl) ⟨stands.legible (by decide),
            legible_sign .less (by decide) rfl, standsSuper.legible (by decide),
            legible_methodShapes methods spelled⟩
  | expression expr => exact legible_form (expr.legible spelled) trivial
  | funDecl decl => exact decl.legible spelled
  | ifElse condition thenBranch elseBranch =>
      cases elseBranch with
      | none =>
          exact legible_form (legible_word rfl rfl)
            ⟨condition.legible spelled.1, thenBranch.legible spelled.2, trivial⟩
      | some elseBranch =>
          obtain ⟨spelledCondition, spelledThen, spelledElse⟩ := spelled
          exact legible_form (legible_word rfl rfl) ⟨condition.legible spelledCondition,
            thenBranch.legible spelledThen, elseBranch.legible spelledElse, trivial⟩
  | inclusion path =>
      exact legible_form (legible_word rfl rfl) ⟨Token.Stands.legible spelled (by decide), trivial⟩
  | print value => exact legible_form (legible_word rfl rfl) ⟨value.legible spelled, trivial⟩
  | ret keyword value =>
      exact legible_form (legible_word rfl rfl) (legible_optional value spelled.2)
  | varDecl name init =>
      exact legible_form (legible_word rfl rfl)
        ⟨spelled.1.legible (by decide), legible_optional init spelled.2⟩
  | whileLoop condition body =>
      exact legible_form (legible_word rfl rfl)
        ⟨condition.legible spelled.1, body.legible spelled.2, trivial⟩

theorem FunDecl.legible (decl : FunDecl) (spelled : decl.Spelled) : decl.shape.Legible := by
  obtain ⟨name, params, body⟩ := decl
  obtain ⟨stands, areParams, spelledBody⟩ := spelled
  refine legible_form (legible_word rfl rfl) ⟨stands.legible (by decide), ?_⟩
  refine legibleParts_iff.mpr (List.forall_mem_append.mpr ⟨?_, List.forall_mem_singleton.mpr ?_⟩)
  · intro part held
    obtain ⟨param, among, rfl⟩ := List.mem_map.mp held
    exact (areParams param among).legible (by decide)
  · exact legible_form (legible_word rfl rfl) (legible_bodyShapes body spelledBody)

theorem legible_bodyShapes (stmts : List Stmt) (spelled : SpelledBody stmts) :
    LegibleParts (bodyShapes stmts) := by
  cases stmts with
  | nil => trivial
  | cons stmt stmts => exact ⟨stmt.legible spelled.1, legible_bodyShapes stmts spelled.2⟩

theorem legible_methodShapes (methods : List FunDecl) (spelled : SpelledMethods methods) :
    LegibleParts (methodShapes methods) := by
  cases methods with
  | nil => trivial
  | cons method methods =>
      exact ⟨method.legible spelled.1, legible_methodShapes methods spelled.2⟩
end

end Lox
