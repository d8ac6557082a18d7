import Lox.Proofs.Parse.Contracts
import Lox.Proofs.Parse.Seeds

/-!
# What is read without a fault is derivable

Every parser keeps the faults that are on record.  If it adds none, then the tokens that it
consumed are a phrase of the grammar, of the tree that it answers.
-/

namespace Lox.Parse

open Grammar

/-! ## Lists -/

section Lists

variable {α : Type} {item : Text → α → Prop}

/-- Items are read until one token stops them, or as many of them as the bound allows. -/
theorem yields_manyUntil (stop : Kind → Bool) {read : Parser (Option α)}
    (yields : Yields read fun text _ a => ∃ x, a = some x ∧ item text x)
    (nonempty : ∀ text a, item text a → text ≠ []) (bound : Nat) :
    Yields (manyUntil stop read bound) fun text follows as =>
      Sequence item text as ∧ (text.length < bound → stop (follows.getD .eof) = true) := by
  induction bound with
  | zero => exact .pure fun _ => ⟨.nil, fun none => by cases none⟩
  | succ bound ih =>
      unfold manyUntil
      refine yields_peek.bind fun token => ?_
      split
      · next stops =>
          refine .pure ?_
          rintro follows _ ⟨rfl, front⟩
          exact ⟨.nil, fun _ => front ▸ stops⟩
      · refine yields.bind fun first => ?_
        refine ih.bind fun others => .pure ?_
        rintro _ rest ⟨areOthers, stops⟩ text ⟨x, rfl, isFirst⟩ _ ⟨rfl, _⟩
        rw [List.append_nil, List.nil_append]
        refine ⟨.cons isFirst areOthers, fun few => stops ?_⟩
        have positive := List.length_pos_iff.mpr (nonempty _ _ isFirst)
        rw [List.length_append] at few
        omega

theorem yields_afterCommas {read : Nat → Parser α}
    (yields : ∀ count, Yields (read count) fun text _ a => item text a ∧ count < 255)
    (bound count : Nat) :
    Yields (afterCommas read bound count) fun text _ as =>
      (as = [] ∨ count + as.length ≤ 255) ∧
        ∀ first a, item first a → Separated item (first ++ text) (a :: as) := by
  have nothing : ∀ first a, item first a → Separated item (first ++ []) [a] := by
    intro first a isFirst
    rw [List.append_nil]
    exact .one isFirst
  induction bound generalizing count with
  | zero => exact .pure fun _ => ⟨.inl rfl, nothing⟩
  | succ bound ih =>
      unfold afterCommas
      refine (yields_accept? (by decide)).bind fun comma => ?_
      cases comma with
      | none =>
          refine .pure fun _ text accepted => ?_
          cases accepted with
          | no _ => exact ⟨.inl rfl, nothing⟩
      | some comma =>
          refine (yields count).bind fun next => ?_
          refine (ih (count + 1)).bind fun others => .pure ?_
          rintro _ rest ⟨few, separated⟩ text ⟨isNext, below⟩ _ accepted
          cases accepted with
          | yes isComma =>
              rw [List.append_nil]
              refine ⟨.inr ?_, fun first a isFirst => ?_⟩
              · rw [List.length_cons]
                rcases few with rfl | few
                · exact below
                · omega
              · exact .more isFirst (List.mem_singleton.mp isComma) (separated text next isNext)

theorem yields_commaSeparated {read : Nat → Parser α}
    (yields : ∀ count, Yields (read count) fun text _ a => item text a ∧ count < 255)
    (bound : Nat) :
    Yields (commaSeparated read bound) fun text _ as => Listed item text as := by
  unfold commaSeparated
  refine (yields_check (by decide)).bind fun closes => ?_
  split
  · refine .pure ?_
    rintro _ _ ⟨rfl, _⟩
    exact .none
  · refine (yields 0).bind fun first => ?_
    refine (yields_afterCommas yields bound 1).bind fun others => .pure ?_
    rintro _ rest ⟨few, separated⟩ text ⟨isFirst, _⟩ _ ⟨rfl, _⟩
    rw [List.append_nil, List.nil_append]
    refine .some (separated text first isFirst) ?_
    rw [List.length_cons]
    rcases few with rfl | few
    · simp
    · omega

end Lists

/-! ## Expressions -/

/-- A parser of expressions. -/
def YieldsExpr (read : Parser Expr) : Prop := Yields read fun text _ expr => IsExpr text expr

/--
What is read completes a phrase, the front of which was consumed before: any text that goes with
the operand which is passed on.
-/
def Completes (front : Text → Prop) (phrase : Text → Expr → Prop) :
    Text → Option Kind → Expr → Prop :=
  fun text _ expr => ∀ before, front before → phrase (before ++ text) expr

theorem YieldsExpr.completes {read : Parser Expr} {phrase : Text → Expr → Prop}
    (yields : Yields read fun text _ expr => phrase text expr) :
    Yields read (Completes (fun before => before = []) phrase) := by
  refine yields.mono fun text _ expr holds before nothing => ?_
  rw [nothing]
  exact holds

theorem yields_chain (tier : Tier) {tiers : List Tier} {operand : Parser Expr}
    (yields : Yields operand fun text _ expr => Operation IsUnary tiers text expr)
    (bound : Nat) (left : Expr) :
    Yields (chain (levelOf tier) operand bound left)
      (Completes (fun before => Operation IsUnary (tier :: tiers) before left)
        (Operation IsUnary (tier :: tiers))) := by
  have nothing : ∀ left before, Operation IsUnary (tier :: tiers) before left →
      Operation IsUnary (tier :: tiers) (before ++ []) left := by
    intro left before isLeft
    rwa [List.append_nil]
  have inside : .eof ∉ tier.operators := by cases tier <;> decide
  induction bound generalizing left with
  | zero => exact .pure fun _ => nothing left
  | succ bound ih =>
      unfold chain
      refine (yields_accept? inside).bind fun answer => ?_
      cases answer with
      | none =>
          refine .pure fun _ text accepted => ?_
          cases accepted with
          | no _ => exact nothing left
      | some operator =>
          refine yields.bind fun right => ?_
          refine (ih _).mono ?_
          rintro rest _ expr goesOn text isRight _ accepted before isLeft
          cases accepted with
          | yes joins =>
              have joined := goesOn _ (.join isLeft joins isRight)
              rw [List.append_assoc, List.cons_append] at joined
              exact joined

theorem yields_climb {operand : Parser Expr}
    (yields : Yields operand fun text _ expr => IsUnary text expr) (bound : Nat)
    {front : Text → Prop} {first : Parser Expr}
    (yieldsFirst : Yields first (Completes front IsUnary)) (tiers : List Tier) :
    Yields (climbFrom operand bound (tiers.map levelOf) first)
      (Completes front (Operation IsUnary tiers)) := by
  induction tiers generalizing front first with
  | nil =>
      exact yieldsFirst.mono fun text _ expr completes before isFront =>
        .operand (completes before isFront)
  | cons tier tiers ih =>
      rw [List.map_cons, climbFrom]
      refine (ih yieldsFirst).bind fun left => ?_
      have others := ih (YieldsExpr.completes yields)
      have tighter : Yields (climb operand bound (tiers.map levelOf))
          fun text _ expr => Operation IsUnary tiers text expr := by
        rw [climb_eq]
        exact others.mono fun text _ expr completes => completes [] rfl
      refine (yields_chain tier tighter bound left).mono ?_
      intro rest _ expr goesOn text completes before isFront
      rw [← List.append_assoc]
      exact goesOn _ (.tighter (completes before isFront))

theorem yields_argument {expr : Parser Expr} (yields : YieldsExpr expr) (count : Nat) :
    Yields (argument expr count) fun text _ arg => IsExpr text arg ∧ count < 255 := by
  unfold argument
  split
  · refine yields_peek.bind fun token => ?_
    refine (yields_recordAt token _).bind fun _ => ?_
    exact yields.mono fun text _ arg isArg others recorded => recorded.elim
  · next few =>
      refine yields.mono fun text _ arg isArg => ⟨isArg, ?_⟩
      exact Nat.lt_of_not_le few

theorem yields_finishCall {expr : Parser Expr} (yields : YieldsExpr expr) (bound : Nat)
    (callee : Expr) :
    Yields (finishCall expr bound callee) fun text _ call =>
      ∃ inside args closing, text = inside ++ [closing] ∧ Listed IsExpr inside args ∧
        closing.kind = .rightParen ∧ call = .call callee closing.name args := by
  unfold finishCall
  refine (yields_commaSeparated (yields_argument yields) bound).bind fun args => ?_
  refine (yields_expect (by decide) .argumentsEnd).bind fun closing => .pure ?_
  rintro _ _ ⟨rfl, closes⟩ inside areArgs
  exact ⟨inside, args, closing, rfl, areArgs, closes, rfl⟩

theorem yields_callChain {expr : Parser Expr} (yields : YieldsExpr expr)
    (first : Text → Expr → Prop) (bound : Nat) (callee : Expr) :
    Yields (callChain expr bound callee)
      (Completes (fun before => Chain IsExpr first before callee) (Chain IsExpr first)) := by
  have nothing : ∀ callee before, Chain IsExpr first before callee →
      Chain IsExpr first (before ++ []) callee := by
    intro callee before isCallee
    rwa [List.append_nil]
  induction bound generalizing callee with
  | zero => exact .pure fun _ => nothing callee
  | succ bound ih =>
      unfold callChain
      refine (yields_accept? (by decide)).bind fun answer => ?_
      cases answer with
      | some opening =>
          refine (yields_finishCall yields bound callee).bind fun call => ?_
          refine (ih call).mono ?_
          rintro rest _ result goesOn _ ⟨inside, args, closing, rfl, areArgs, closes, rfl⟩ _
            accepted before isCallee
          cases accepted with
          | yes isOpening =>
              have opens := List.mem_singleton.mp isOpening
              have called := goesOn _ (.call isCallee opens areArgs closes)
              rw [List.append_assoc, List.cons_append] at called
              exact called
      | none =>
          refine (yields_accept? (by decide)).bind fun answer => ?_
          cases answer with
          | some dot =>
              refine (yields_expect (by decide) .propertyName).bind fun name => ?_
              refine (ih _).mono ?_
              rintro rest _ result goesOn _ ⟨rfl, isName⟩ _ accepted _ notCalled before isCallee
              cases notCalled with
              | no _ =>
                  cases accepted with
                  | yes isDot =>
                      have got := goesOn _ (.get isCallee (List.mem_singleton.mp isDot) isName)
                      rw [List.append_assoc] at got
                      exact got
          | none =>
              refine .pure fun _ _ accepted _ notCalled => ?_
              cases accepted with
              | no _ =>
                  cases notCalled with
                  | no _ => exact nothing callee

theorem yields_primary {expr : Parser Expr} (yields : YieldsExpr expr) :
    Yields (primary expr) fun text _ result => IsPrimary text result := by
  refine Yields.congr ?_ fun _ => primary_unseeded
  unfold primaryForms
  refine (yields_accept? (by decide)).bind fun answer => ?_
  cases answer with
  | some token =>
      refine .pure fun _ _ accepted => ?_
      cases accepted with
      | yes isLiteral => exact .literal isLiteral
  | none =>
  refine (yields_accept? (by decide)).bind fun answer => ?_
  cases answer with
  | some keyword =>
      refine (yields_expect (by decide) .superDot).bind fun dot => ?_
      refine (yields_expect (by decide) .superMethod).bind fun method => .pure ?_
      rintro _ _ ⟨rfl, isMethod⟩ _ ⟨rfl, isDot⟩ _ accepted _ ⟨_⟩
      cases accepted with
      | yes isSuper => exact .super (List.mem_singleton.mp isSuper) isDot isMethod
  | none =>
  refine (yields_accept? (by decide)).bind fun answer => ?_
  cases answer with
  | some keyword =>
      refine .pure fun _ _ accepted => ?_
      rintro _ ⟨_⟩ _ ⟨_⟩
      cases accepted with
      | yes isThis => exact .this (List.mem_singleton.mp isThis)
  | none =>
  refine (yields_accept? (by decide)).bind fun answer => ?_
  cases answer with
  | some name =>
      refine .pure fun _ _ accepted => ?_
      rintro _ ⟨_⟩ _ ⟨_⟩ _ ⟨_⟩
      cases accepted with
      | yes isName => exact .var isName
  | none =>
  refine (yields_accept? (by decide)).bind fun answer => ?_
  cases answer with
  | none => exact yields_fail _
  | some opening =>
      refine yields.bind fun inner => ?_
      refine (yields_expect (by decide) .groupingEnd).bind fun closing => .pure ?_
      rintro _ _ ⟨rfl, closes⟩ text isInner _ accepted _ ⟨_⟩ _ ⟨_⟩ _ ⟨_⟩ _ ⟨_⟩
      cases accepted with
      | yes isOpening => exact .grouping (List.mem_singleton.mp isOpening) isInner closes

theorem yields_unary {expr : Parser Expr} (yields : YieldsExpr expr) (bound : Nat) :
    Yields (unary expr bound) fun text _ result => IsUnary text result := by
  induction bound with
  | zero => exact (yields_fail _).congr fun _ => seedAlone_unseeded
  | succ bound ih =>
      refine Yields.congr ?_ fun _ => unary_unseeded
      unfold unaryForms call
      refine (yields_accept? (by decide)).bind fun answer => ?_
      cases answer with
      | some operator =>
          refine ih.bind fun operand => .pure fun _ text isOperand _ accepted => ?_
          cases accepted with
          | yes isOperator =>
              rw [List.append_nil]
              exact .unary isOperator isOperand
      | none =>
          refine (yields_primary yields).bind fun callee => ?_
          refine (yields_callChain yields IsPrimary (bound + 1) callee).mono ?_
          rintro rest _ result completes text isCallee _ ⟨_⟩
          exact .chain (completes text (.first isCallee))

/-! ### Targets of assignments -/

/-- An operation that is no operator's node is a single operand. -/
theorem unary_of_operation {tiers : List Tier} {text : Text} {expr : Expr}
    (isOperation : Operation IsUnary tiers text expr)
    (plain : ∀ (tier : Tier) left operator right, expr ≠ tier.node left operator right) :
    IsUnary text expr := by
  induction isOperation with
  | operand isOperand => exact isOperand
  | tighter _ ih => exact ih plain
  | join _ _ _ _ _ => exact absurd rfl (plain _ _ _ _)

theorem chain_of_unary {text : Text} {expr : Expr} (isUnary : IsUnary text expr)
    (plain : ∀ operator operand, expr ≠ .unary operator operand) :
    Chain IsExpr IsPrimary text expr := by
  cases isUnary with
  | chain isChain => exact isChain
  | unary _ _ => exact absurd rfl (plain _ _)

theorem chain_of_var {text : Text} {name : Reference}
    (isOperation : Operation IsUnary Tier.all text (.var name)) :
    text = [name] ∧ name.kind ∈ [.identifier, .printWord] := by
  have isUnary := unary_of_operation isOperation fun tier _ _ _ => by cases tier <;> simp [Tier.node]
  cases chain_of_unary isUnary (by simp) with
  | first isFirst =>
      cases isFirst with
      | var isName => exact ⟨rfl, isName⟩

theorem chain_of_get {text : Text} {object : Expr} {name : Token}
    (isOperation : Operation IsUnary Tier.all text (.get object name)) :
    Chain IsExpr IsPrimary text (.get object name) := by
  have isUnary := unary_of_operation isOperation fun tier _ _ _ => by cases tier <;> simp [Tier.node]
  exact chain_of_unary isUnary (by simp)

theorem yields_assignment {expr : Parser Expr} (yields : YieldsExpr expr) (bound : Nat)
    {front : Text → Prop} {first : Parser Expr}
    (yieldsFirst : Yields first (Completes front IsUnary)) :
    Yields (assignmentFrom expr bound first) (Completes front IsExpr) := by
  unfold assignmentFrom assignmentTo
  rw [levels_eq]
  refine (yields_climb (yields_unary yields bound) bound yieldsFirst Tier.all).bind fun target => ?_
  refine (yields_accept? (by decide)).bind fun answer => ?_
  cases answer with
  | none =>
      refine .pure fun _ _ accepted text completes before isFront => ?_
      cases accepted with
      | no _ =>
          rw [List.append_nil, List.append_nil]
          exact .operation (completes before isFront)
  | some equals =>
      refine yields.bind fun value => ?_
      split
      · refine .pure fun _ valueText isValue _ accepted text completes before isFront => ?_
        cases accepted with
        | yes isEqual =>
            obtain ⟨alone, isName⟩ := chain_of_var (completes before isFront)
            rw [List.append_nil, ← List.append_assoc, alone]
            exact .assign isName (List.mem_singleton.mp isEqual) isValue
      · refine .pure fun _ valueText isValue _ accepted text completes before isFront => ?_
        cases accepted with
        | yes isEqual =>
            have isTarget := chain_of_get (completes before isFront)
            rw [List.append_nil, ← List.append_assoc]
            exact .set isTarget (List.mem_singleton.mp isEqual) isValue
      · refine (yields_recordAt _ _).bind fun _ => .pure ?_
        exact fun _ _ recorded => recorded.elim

theorem yields_expression (bound : Nat) : YieldsExpr (expression bound) := by
  induction bound with
  | zero => exact (yields_fail _).congr fun _ => seedAlone_unseeded
  | succ bound ih =>
      have first := YieldsExpr.completes (yields_unary ih (bound + 1))
      rw [expression, assignment_eq]
      exact (yields_assignment ih (bound + 1) first).mono fun text _ expr completes =>
        completes [] rfl

/-- The rest of an expression, the leftmost operand of which was read before. -/
theorem yields_expressionFrom (bound : Nat) (operand : Expr) :
    Yields (expressionFrom bound operand)
      (Completes (fun before => Chain IsExpr IsPrimary before operand) IsExpr) := by
  refine Yields.congr ?_ fun _ => expressionFrom_eq
  cases bound with
  | zero =>
      refine .pure fun _ before isOperand => ?_
      rw [List.append_nil]
      exact .operation (.of_unary (.chain isOperand))
  | succ bound =>
      have expr := yields_expression bound
      refine yields_assignment expr (bound + 1) ?_
      exact (yields_callChain expr IsPrimary (bound + 1) operand).mono
        fun text _ expr completes before isOperand => .chain (completes before isOperand)

/-! ### The operand that was read before -/

section Answers

variable {α β : Type}

/-- What all answers of a parser are, with faults on record or without. -/
def Answers (read : Parser α) (post : α → Prop) : Prop := ∀ s a t, read s = .ok a t → post a

variable {read : Parser α} {P : α → Prop} {Q : β → Prop}

theorem Answers.pure {a : α} (holds : P a) : Answers (Pure.pure a) P := by
  rintro s _ t ⟨_⟩
  exact holds

theorem Answers.bind {next : α → Parser β} (first : Answers read P)
    (then' : ∀ a, P a → Answers (next a) Q) : Answers (read >>= next) Q := by
  intro s b t answers
  simp only [Bind.bind, EStateM.bind] at answers
  split at answers
  · next a m reads => exact then' a (first s a m reads) m b t answers
  · cases answers

theorem Answers.anything : Answers read fun _ => True := fun _ _ _ _ => trivial

/-- What is read without a fault has also what all answers have. -/
theorem Yields.answers {post : Text → Option Kind → α → Prop} (yields : Yields read post)
    (answers : Answers read P) : Yields read fun text follows a => post text follows a ∧ P a := by
  intro s unseeded
  have outcome := yields s unseeded
  have answered := answers s
  revert outcome answered
  cases read s with
  | error e t => exact fun outcome _ => outcome
  | ok a t =>
      rintro ⟨same, more | ⟨text, consumes, holds⟩⟩ answered
      · exact ⟨same, .inl more⟩
      · exact ⟨same, .inr ⟨text, consumes, holds, answered a t rfl⟩⟩

end Answers

section Leads

variable {operand : Expr}

theorem answers_chain {tier : Tier} {read : Parser Expr} {bound : Nat} {left : Expr}
    (leads : LeadsWith operand left) :
    Answers (chain (levelOf tier) read bound left) (LeadsWith operand) := by
  induction bound generalizing left with
  | zero => exact .pure leads
  | succ bound ih =>
      refine Answers.anything.bind fun answer _ => ?_
      cases answer with
      | none => exact .pure leads
      | some operator => exact Answers.anything.bind fun right _ => ih (.node tier leads)

theorem answers_climb {read first : Parser Expr} {bound : Nat} {tiers : List Tier}
    (leads : Answers first (LeadsWith operand)) :
    Answers (climbFrom read bound (tiers.map levelOf) first) (LeadsWith operand) := by
  induction tiers with
  | nil => exact leads
  | cons tier tiers ih => exact ih.bind fun left leads => answers_chain leads

theorem answers_callChain {expr : Parser Expr} {bound : Nat} {callee : Expr}
    (leads : LeadsWith operand callee) :
    Answers (callChain expr bound callee) (LeadsWith operand) := by
  induction bound generalizing callee with
  | zero => exact .pure leads
  | succ bound ih =>
      refine Answers.anything.bind fun answer _ => ?_
      cases answer with
      | some opening =>
          have call : Answers (finishCall expr bound callee) (LeadsWith operand) :=
            Answers.anything.bind fun args _ => Answers.anything.bind fun paren _ =>
              .pure (.call leads)
          exact call.bind fun call leads => ih leads
      | none =>
          refine Answers.anything.bind fun answer _ => ?_
          cases answer with
          | some dot => exact Answers.anything.bind fun name _ => ih (.get leads)
          | none => exact .pure leads

/--
The operand that was read before is the leftmost one of the expression, whatever is read: a
grouping is not the name of a variable, which alone an assignment would take out of the tree.
-/
theorem answers_behind (bound : Nat) (inner : Expr) :
    Answers (behind bound (.grouping inner)) (LeadsWith (.grouping inner)) := by
  cases bound with
  | zero => exact .pure .refl
  | succ bound =>
  unfold behind assignmentFrom assignmentTo
  rw [levels_eq]
  refine (answers_climb (answers_callChain .refl)).bind fun target leads => ?_
  refine Answers.anything.bind fun answer _ => ?_
  cases answer with
  | none => exact .pure leads
  | some equals =>
      refine Answers.anything.bind fun value _ => ?_
      split
      · exact absurd rfl (leads.ne_var _)
      · exact .pure (.set (leads.of_get rfl))
      · exact Answers.anything.bind fun _ _ => .pure leads

theorem answers_expressionFrom (bound : Nat) (inner : Expr) :
    Answers (expressionFrom bound (.grouping inner)) (LeadsWith (.grouping inner)) := by
  intro s value t answered
  rw [expressionFrom_eq_behind] at answered
  exact answers_behind bound inner _ value t answered

end Leads

/-! ## Statements -/

/--
A parser of statements.  What it reads is closed if an `else` follows: it would have been read as
well if it could be a part of the statement.
-/
def YieldsStmt (read : Parser Stmt) : Prop :=
  Yields read fun text follows stmt =>
    ∀ closed, (closed = true → follows = some .elseWord) → IsStmt closed text stmt

/-- A parser of declarations, some of which may be dropped. -/
def YieldsDeclaration (read : Parser (Option Stmt)) : Prop :=
  Yields read fun text _ stmt => ∃ decl, stmt = some decl ∧ IsDecl text decl

/-- A declaration that is dropped leaves a fault on record. -/
theorem yields_recovering {read : Parser Stmt}
    (yields : Yields read fun text _ stmt => IsDecl text stmt) :
    YieldsDeclaration (recovering read) := by
  intro s unseeded
  have start := yields s unseeded
  unfold recovering
  revert start
  cases read s with
  | error e t =>
      rintro ⟨left, kept⟩
      obtain ⟨advances, errors⟩ := (t.record e).advances_skipToStatement
      refine ⟨advances.seed.trans left, .inl ?_⟩
      rw [errors]
      simpa [State.record] using Nat.lt_succ_of_le kept
  | ok stmt t =>
      rintro ⟨left, more | ⟨text, consumes, isDecl⟩⟩
      · exact ⟨left, .inl more⟩
      · exact ⟨left, .inr ⟨text, consumes, stmt, rfl, isDecl⟩⟩

theorem yields_blockBody {declaration : Parser (Option Stmt)}
    (yields : YieldsDeclaration declaration) (bound : Nat) :
    Yields (blockBody declaration bound) fun text _ body =>
      ∃ inside closing, text = inside ++ [closing] ∧ Sequence IsDecl inside body ∧
        closing.kind = .rightBrace := by
  unfold blockBody
  have items := yields_manyUntil closesBlock yields (fun _ _ isDecl => isDecl.begins.ne_nil) bound
  refine items.bind fun body => ?_
  refine (yields_expect (by decide) .blockEnd).bind fun closing => .pure ?_
  rintro _ _ ⟨rfl, closes⟩ inside ⟨isBody, _⟩
  exact ⟨inside, closing, rfl, isBody, closes⟩

theorem yields_parameter (count : Nat) :
    Yields (parameter count) fun text _ param => IsParam text param ∧ count < 255 := by
  have name : Yields (do let name ← expect .identifier .parameterName; pure name.name)
      fun text _ param => IsParam text param := by
    refine (yields_expect (by decide) .parameterName).bind fun name => .pure ?_
    rintro _ _ ⟨rfl, isName⟩
    exact .name isName
  unfold parameter
  split
  · refine yields_peek.bind fun token => ?_
    refine (yields_recordAt token _).bind fun _ => ?_
    exact name.mono fun text _ param isParam others recorded => recorded.elim
  · next few =>
      exact name.mono fun text _ param isParam => ⟨isParam, Nat.lt_of_not_le few⟩

theorem yields_function (kind : FunKind) {declaration : Parser (Option Stmt)}
    (yields : YieldsDeclaration declaration) (bound : Nat) :
    Yields (function kind declaration bound) fun text _ decl => IsFun text decl := by
  unfold function
  refine (yields_expect (by decide) kind.nameExpected).bind fun name => ?_
  refine (yields_expect (by decide) kind.paramsExpected).bind fun opening => ?_
  refine (yields_commaSeparated yields_parameter bound).bind fun params => ?_
  refine (yields_expect (by decide) .paramsEnd).bind fun closing => ?_
  refine (yields_expect (by decide) kind.bodyExpected).bind fun start => ?_
  refine (yields_blockBody yields bound).bind fun body => .pure ?_
  rintro _ _ ⟨text, stop, rfl, isBody, stops⟩ _ ⟨rfl, starts⟩ _ ⟨rfl, closes⟩ inside areParams
    _ ⟨rfl, opens⟩ _ ⟨rfl, isName⟩
  have isFun := IsFun.decl isName opens areParams closes starts isBody stops
  simpa using isFun

theorem yields_classDeclaration {declaration : Parser (Option Stmt)}
    (yields : YieldsDeclaration declaration) (bound : Nat) (keyword : Reference) :
    Yields (classDeclaration declaration bound) fun text _ stmt =>
      keyword.kind = .classWord → IsDecl (keyword :: text) stmt := by
  have methods : Yields (some <$> function .method declaration bound) fun text _ method =>
      ∃ decl, method = some decl ∧ IsFun text decl :=
    (yields_function .method yields bound).map fun text _ decl isFun => ⟨decl, rfl, isFun⟩
  unfold classDeclaration
  refine (yields_expect (by decide) .className).bind fun name => ?_
  have others : ∀ superclass, Yields
      (do let _ ← expect .leftBrace .classBodyStart
          let methods ← manyUntil closesBlock (some <$> function .method declaration bound) bound
          let _ ← expect .rightBrace .classBodyEnd
          pure (Stmt.classDecl name.name superclass methods))
      fun more _ stmt => ∀ inherits, IsSuperclass inherits superclass →
        name.kind = .identifier → keyword.kind = .classWord →
          IsDecl (keyword :: name :: (inherits ++ more)) stmt := by
    intro superclass
    refine (yields_expect (by decide) .classBodyStart).bind fun opening => ?_
    have items := yields_manyUntil closesBlock methods (fun _ _ isFun => isFun.begins.ne_nil) bound
    refine items.bind fun methods => ?_
    refine (yields_expect (by decide) .classBodyEnd).bind fun closing => .pure ?_
    rintro _ _ ⟨rfl, closes⟩ text ⟨areMethods, _⟩ _ ⟨rfl, opens⟩ inherits isSuperclass isName isClass
    exact .classDecl isClass isName isSuperclass opens areMethods closes
  refine (yields_accept? (by decide)).bind fun answer => ?_
  cases answer with
  | none =>
      refine (others none).mono ?_
      rintro more _ stmt isDecl _ accepted _ ⟨rfl, isName⟩
      cases accepted with
      | no _ => exact isDecl [] .none isName
  | some less =>
      have named : Yields (some <$> expect .identifier .superclassName) fun text _ superclass =>
          ∃ taken, superclass = some taken ∧ One .identifier text taken :=
        (yields_expect (by decide) .superclassName).map fun _ _ taken isTaken => ⟨taken, rfl, isTaken⟩
      refine named.bind fun superclass => (others superclass).mono ?_
      rintro more _ stmt isDecl _ ⟨taken, rfl, rfl, isTaken⟩ _ accepted _ ⟨rfl, isName⟩
      cases accepted with
      | yes isLess => exact isDecl _ (.some (List.mem_singleton.mp isLess) isTaken) isName

theorem yields_varDeclaration (bound : Nat) :
    Yields (varDeclaration bound) fun text _ stmt => IsVariable text stmt := by
  unfold varDeclaration
  refine (yields_expect (by decide) .variableName).bind fun name => ?_
  refine (yields_accept? (by decide)).bind fun answer => ?_
  cases answer with
  | none =>
      refine (yields_expect (by decide) .variableEnd).bind fun semicolon => .pure ?_
      rintro _ _ ⟨rfl, ends⟩ _ accepted _ ⟨rfl, isName⟩
      cases accepted with
      | no _ => exact .bare isName ends
  | some equals =>
      have present : Yields (some <$> expression bound) fun text _ init =>
          ∃ expr, init = some expr ∧ IsExpr text expr :=
        (yields_expression bound).map fun _ _ expr isExpr => ⟨expr, rfl, isExpr⟩
      refine present.bind fun init => ?_
      refine (yields_expect (by decide) .variableEnd).bind fun semicolon => .pure ?_
      rintro _ _ ⟨rfl, ends⟩ text ⟨expr, rfl, isExpr⟩ _ accepted _ ⟨rfl, isName⟩
      cases accepted with
      | yes isEqual => exact .initialized isName (List.mem_singleton.mp isEqual) isExpr ends

theorem yields_expressionStatement (bound : Nat) :
    Yields (expressionStatement bound) fun text _ stmt => IsExpressionStatement text stmt := by
  unfold expressionStatement
  refine (yields_expression bound).bind fun expr => ?_
  refine (yields_expect (by decide) .expressionEnd).bind fun semicolon => .pure ?_
  rintro _ _ ⟨rfl, ends⟩ text isExpr
  exact .expression isExpr ends

/-! ### `print` -/

theorem yields_printCall (keyword : Reference) (bound : Nat) :
    Yields (printCall keyword bound) fun text follows stmt =>
      opens text follows = some .leftParen → IsPrint keyword text stmt := by
  have expr := yields_expression bound
  unfold printCall
  refine (yields_accept? (by decide)).bind fun answer => ?_
  refine (yields_commaSeparated (yields_argument expr) bound).bind fun args => ?_
  refine (yields_expect (by decide) .argumentsEnd).bind fun closing => ?_
  refine (yields_accept? (by decide)).bind fun semicolon => ?_
  cases semicolon with
  | some semicolon =>
      refine .pure ?_
      rintro _ _ accepted _ ⟨rfl, closes⟩ inside areArgs _ opening isParen
      cases opening with
      | no other => exact absurd isParen (other _ List.mem_cons_self)
      | yes opens =>
          cases accepted with
          | yes ends =>
              simpa using IsPrint.call (List.mem_singleton.mp opens) areArgs closes
                (List.mem_singleton.mp ends)
  | none =>
      dsimp only
      split
      · next arg =>
          have seeded := (yields_expressionFrom bound (.grouping arg)).answers
            (answers_expressionFrom bound arg)
          refine seeded.bind fun value => ?_
          refine (yields_expect (by decide) .valueEnd).bind fun semicolon => .pure ?_
          rintro _ _ ⟨rfl, ends⟩ text ⟨completes, leads⟩ _ accepted _ ⟨rfl, closes⟩ inside areArgs _
            opening isParen
          cases opening with
          | no other => exact absurd isParen (other _ List.mem_cons_self)
          | @yes _ opening isOpening =>
          cases accepted with
          | no unfinished =>
          have more : text ≠ [] := by
            rintro rfl
            exact unfinished _ List.mem_cons_self (congrArg some ends)
          cases areArgs with
          | some separated few =>
          cases separated with
          | more _ _ areOthers => cases areOthers
          | one isArg =>
              have opens := List.mem_singleton.mp isOpening
              have isValue := completes _ (.first (.grouping opens isArg closes))
              rw [List.cons_append, List.append_assoc, List.singleton_append] at isValue
              simpa using IsPrint.grouped opens isArg closes isValue leads more ends
      · next several =>
          refine (yields_callChain expr
            (fun text callee => text = [] ∧ callee = .call (.var keyword) closing.name args)
            bound _).bind fun result => ?_
          refine (yields_expect (by decide) .expressionEnd).bind fun semicolon => .pure ?_
          rintro _ _ ⟨rfl, ends⟩ text completes _ accepted _ ⟨rfl, closes⟩ inside areArgs _ opening
            isParen
          cases opening with
          | no other => exact absurd isParen (other _ List.mem_cons_self)
          | yes opens =>
          cases accepted with
          | no _ =>
              have notOne : args.length ≠ 1 := fun one =>
                (List.length_eq_one_iff.mp one).elim several
              have isChain := completes [] (.first ⟨rfl, rfl⟩)
              simpa using IsPrint.chain (List.mem_singleton.mp opens) areArgs closes notOne isChain
                ends

theorem yields_printStatement (keyword : Reference) (bound : Nat) :
    Yields (printStatement keyword bound) fun text _ stmt => IsPrint keyword text stmt := by
  unfold printStatement
  refine (yields_check (by decide)).bind fun grouped => ?_
  split
  · next isGrouped =>
      refine (yields_printCall keyword bound).mono ?_
      rintro text follows stmt isPrint _ ⟨rfl, front⟩
      exact isPrint (front.mp isGrouped)
  · next notGrouped =>
      refine (yields_expression bound).bind fun value => ?_
      refine (yields_expect (by decide) .valueEnd).bind fun semicolon => .pure ?_
      rintro follows _ ⟨rfl, ends⟩ text isValue _ ⟨rfl, front⟩
      refine .value isValue (fun token isFirst isParen => notGrouped (front.mpr ?_)) ends
      obtain ⟨others, rfl⟩ := List.head?_eq_some_iff.mp isFirst
      exact congrArg some isParen

/-! ### Other statements -/

theorem yields_optionalExpression {stop : Kind} (inside : stop ≠ .eof) (bound : Nat) :
    Yields (optionalExpression stop bound) fun text _ expr => Optional IsExpr text expr := by
  unfold optionalExpression
  refine (yields_check inside).bind fun stops => ?_
  split
  · refine .pure ?_
    rintro _ _ ⟨rfl, _⟩
    exact .none
  · refine (yields_expression bound).map ?_
    rintro text _ expr isExpr _ ⟨rfl, _⟩
    exact .some isExpr

/-- What makes a statement of the text after its keyword, if that is one of the given kind. -/
def After (kind : Kind) (keyword : Reference) : Text → Option Kind → Stmt → Prop :=
  fun text follows stmt => keyword.kind = kind →
    ∀ closed, (closed = true → follows = some .elseWord) → IsStmt closed (keyword :: text) stmt

theorem yields_returnStatement (keyword : Reference) (bound : Nat) :
    Yields (returnStatement keyword.name bound) (After .returnWord keyword) := by
  have value : Yields (returnStatement keyword.name bound) fun text _ stmt =>
      ∃ inside value semicolon, text = inside ++ [semicolon] ∧ Optional IsExpr inside value ∧
        semicolon.kind = .semicolon ∧ stmt = .ret keyword.name value := by
    have ending : ∀ value, Yields
        (do let _ ← expect .semicolon .returnEnd
            pure (Stmt.ret keyword.name value))
        fun text _ stmt => ∃ semicolon, text = [semicolon] ∧ semicolon.kind = .semicolon ∧
          stmt = .ret keyword.name value := by
      intro value
      refine (yields_expect (by decide) .returnEnd).bind fun semicolon => .pure ?_
      rintro _ _ ⟨rfl, ends⟩
      exact ⟨semicolon, rfl, ends, rfl⟩
    unfold returnStatement
    refine (yields_check (by decide)).bind fun stops => ?_
    split
    · refine (ending none).mono ?_
      rintro _ _ stmt ⟨semicolon, rfl, ends, rfl⟩ _ ⟨rfl, _⟩
      exact ⟨[], none, semicolon, rfl, .none, ends, rfl⟩
    · have present : Yields (some <$> expression bound) fun text _ value =>
          Optional IsExpr text value := (yields_expression bound).map fun _ _ _ isExpr => .some isExpr
      refine present.bind fun value => (ending value).mono ?_
      rintro _ _ stmt ⟨semicolon, rfl, ends, rfl⟩ text isValue _ ⟨rfl, _⟩
      exact ⟨text, value, semicolon, rfl, isValue, ends, rfl⟩
  refine value.mono ?_
  rintro _ _ _ ⟨inside, value, semicolon, rfl, isValue, ends, rfl⟩ isReturn closed _
  exact .ret isReturn isValue ends

theorem yields_includeStatement (keyword : Reference) :
    Yields (includeStatement keyword.name) (After .includeWord keyword) := by
  unfold includeStatement
  refine (yields_accept? (by decide)).bind fun answer => ?_
  cases answer with
  | none => exact yields_failAt _ _
  | some path =>
      refine (yields_expect (by decide) .includeEnd).bind fun semicolon => .pure ?_
      rintro _ _ ⟨rfl, ends⟩ _ accepted isInclude closed _
      cases accepted with
      | yes isPath => exact .inclusion isInclude (List.mem_singleton.mp isPath) ends

theorem yields_ifStatement {statement : Parser Stmt} (yields : YieldsStmt statement)
    (keyword : Reference) (bound : Nat) :
    Yields (ifStatement statement bound) (After .ifWord keyword) := by
  unfold ifStatement
  refine (yields_expect (by decide) .ifStart).bind fun opening => ?_
  refine (yields_expression bound).bind fun condition => ?_
  refine (yields_expect (by decide) .ifEnd).bind fun closing => ?_
  refine yields.bind fun thenBranch => ?_
  refine (yields_accept? (by decide)).bind fun answer => ?_
  cases answer with
  | none =>
      refine .pure ?_
      rintro follows _ accepted text isThen _ ⟨rfl, closes⟩ inside isCondition _ ⟨rfl, opens⟩ isIf
        closed outside
      cases accepted with
      | no other =>
          cases closed with
          | true => exact absurd (outside rfl) (other _ List.mem_cons_self)
          | false =>
              have isThen := isThen false (by simp)
              simpa using IsStmt.ifThen isIf opens isCondition closes isThen
  | some separator =>
      have present : Yields (some <$> statement) fun text follows stmt => ∃ other, stmt = some other ∧
          ∀ closed, (closed = true → follows = some .elseWord) → IsStmt closed text other :=
        yields.map fun _ _ other isStmt => ⟨other, rfl, isStmt⟩
      refine present.bind fun elseBranch => .pure ?_
      rintro follows others ⟨other, rfl, isOther⟩ _ accepted text isThen _ ⟨rfl, closes⟩ inside
        isCondition _ ⟨rfl, opens⟩ isIf closed outside
      cases accepted with
      | yes isElse =>
          have isElse := List.mem_singleton.mp isElse
          have isThen := isThen true fun _ => congrArg some isElse
          have isOther := isOther closed outside
          simpa using IsStmt.ifElse isIf opens isCondition closes isThen isElse isOther

theorem yields_whileStatement {statement : Parser Stmt} (yields : YieldsStmt statement)
    (keyword : Reference) (bound : Nat) :
    Yields (whileStatement statement bound) (After .whileWord keyword) := by
  unfold whileStatement
  refine (yields_expect (by decide) .whileStart).bind fun opening => ?_
  refine (yields_expression bound).bind fun condition => ?_
  refine (yields_expect (by decide) .whileEnd).bind fun closing => ?_
  refine yields.bind fun body => .pure ?_
  rintro follows text isBody _ ⟨rfl, closes⟩ inside isCondition _ ⟨rfl, opens⟩ isWhile closed
    outside
  have isBody := isBody closed outside
  simpa using IsStmt.whileLoop isWhile opens isCondition closes isBody

theorem yields_forInitializer (bound : Nat) :
    Yields (forInitializer bound) fun text _ init => IsInitializer text init := by
  unfold forInitializer
  refine (yields_accept? (by decide)).bind fun answer => ?_
  cases answer with
  | some semicolon =>
      refine .pure fun _ _ accepted => ?_
      cases accepted with
      | yes ends => exact .none (List.mem_singleton.mp ends)
  | none =>
  refine (yields_accept? (by decide)).bind fun answer => ?_
  cases answer with
  | some keyword =>
      refine (yields_varDeclaration bound).bind fun init => .pure ?_
      rintro _ text isVariable _ accepted _ ⟨_⟩
      cases accepted with
      | yes isVar => simpa using IsInitializer.declared (List.mem_singleton.mp isVar) isVariable
  | none =>
      refine (yields_expressionStatement bound).bind fun init => .pure ?_
      rintro _ text isStatement _ ⟨_⟩ _ ⟨_⟩
      simpa using IsInitializer.expression isStatement

theorem yields_forStatement {statement : Parser Stmt} (yields : YieldsStmt statement)
    (keyword : Reference) (bound : Nat) :
    Yields (forStatement statement bound) (After .forWord keyword) := by
  unfold forStatement
  refine (yields_expect (by decide) .forStart).bind fun opening => ?_
  refine (yields_forInitializer bound).bind fun init => ?_
  refine (yields_optionalExpression (by decide) bound).bind fun condition => ?_
  refine (yields_expect (by decide) .forConditionEnd).bind fun semicolon => ?_
  refine (yields_optionalExpression (by decide) bound).bind fun increment => ?_
  refine (yields_expect (by decide) .forEnd).bind fun closing => ?_
  refine yields.bind fun body => .pure ?_
  rintro follows text isBody _ ⟨rfl, closes⟩ third isIncrement _ ⟨rfl, ends⟩ second isCondition
    first isInit _ ⟨rfl, opens⟩ isFor closed outside
  have isBody := isBody closed outside
  simpa using IsStmt.forLoop isFor opens isInit isCondition ends isIncrement closes isBody
    (isLoop_iff.mpr rfl)

/-- A statement that its first token tells. -/
theorem After.told {kind : Kind} {keyword : Reference} {text : Text} {follows : Option Kind}
    {stmt : Stmt} (isStmt : After kind keyword text follows stmt) {first : Text}
    {more : Option Kind} (accepted : MayTake [kind] first more (some keyword)) :
    ∀ closed, (closed = true → follows = some .elseWord) → IsStmt closed (first ++ text) stmt := by
  cases accepted with
  | yes isOf => exact isStmt (List.mem_singleton.mp isOf)

theorem yields_statementForms {statement : Parser Stmt} {declaration : Parser (Option Stmt)}
    (yields : YieldsStmt statement) (yieldsDeclaration : YieldsDeclaration declaration)
    (bound : Nat) : YieldsStmt (statementForms statement declaration bound) := by
  unfold statementForms
  refine (yields_accept? (by decide)).bind fun answer => ?_
  cases answer with
  | some keyword =>
      exact (yields_forStatement yields keyword bound).mono fun _ _ _ isStmt _ accepted =>
        isStmt.told accepted
  | none =>
  refine (yields_accept? (by decide)).bind fun answer => ?_
  cases answer with
  | some keyword =>
      refine (yields_ifStatement yields keyword bound).mono ?_
      rintro _ _ _ isStmt _ accepted _ ⟨_⟩
      exact isStmt.told accepted
  | none =>
  refine (yields_accept? (by decide)).bind fun answer => ?_
  cases answer with
  | some keyword =>
      refine (yields_includeStatement keyword).mono ?_
      rintro _ _ _ isStmt _ accepted _ ⟨_⟩ _ ⟨_⟩
      exact isStmt.told accepted
  | none =>
  refine (yields_accept? (by decide)).bind fun answer => ?_
  cases answer with
  | some keyword =>
      refine (yields_printStatement keyword bound).mono ?_
      rintro _ _ _ isRest _ accepted _ ⟨_⟩ _ ⟨_⟩ _ ⟨_⟩ closed _
      cases accepted with
      | yes isPrint => exact .print (List.mem_singleton.mp isPrint) isRest
  | none =>
  refine (yields_accept? (by decide)).bind fun answer => ?_
  cases answer with
  | some keyword =>
      refine (yields_returnStatement keyword bound).mono ?_
      rintro _ _ _ isStmt _ accepted _ ⟨_⟩ _ ⟨_⟩ _ ⟨_⟩ _ ⟨_⟩
      exact isStmt.told accepted
  | none =>
  refine (yields_accept? (by decide)).bind fun answer => ?_
  cases answer with
  | some keyword =>
      refine (yields_whileStatement yields keyword bound).mono ?_
      rintro _ _ _ isStmt _ accepted _ ⟨_⟩ _ ⟨_⟩ _ ⟨_⟩ _ ⟨_⟩ _ ⟨_⟩
      exact isStmt.told accepted
  | none =>
  refine (yields_accept? (by decide)).bind fun answer => ?_
  cases answer with
  | some opening =>
      refine (yields_blockBody yieldsDeclaration bound).bind fun body => .pure ?_
      rintro follows _ ⟨text, closing, rfl, isBody, closes⟩ _ accepted _ ⟨_⟩ _ ⟨_⟩ _ ⟨_⟩ _ ⟨_⟩ _ ⟨_⟩
        _ ⟨_⟩ closed _
      cases accepted with
      | yes opens => simpa using IsStmt.block (List.mem_singleton.mp opens) isBody closes
  | none =>
      refine (yields_expressionStatement bound).mono ?_
      rintro text follows stmt isStatement _ ⟨_⟩ _ ⟨_⟩ _ ⟨_⟩ _ ⟨other⟩ _ ⟨_⟩ _ ⟨_⟩ _ ⟨_⟩ closed _
      refine .expression (fun token isFirst isPrint => other _ List.mem_cons_self ?_) isStatement
      obtain ⟨others, rfl⟩ := List.head?_eq_some_iff.mp isFirst
      exact congrArg some isPrint

theorem yields_declarationForms {statement : Parser Stmt} {declaration : Parser (Option Stmt)}
    (yields : YieldsStmt statement) (yieldsDeclaration : YieldsDeclaration declaration)
    (bound : Nat) :
    Yields (declarationForms statement declaration bound) fun text _ stmt => IsDecl text stmt := by
  unfold declarationForms
  refine (yields_accept? (by decide)).bind fun answer => ?_
  cases answer with
  | some keyword =>
      refine (yields_classDeclaration yieldsDeclaration bound keyword).mono ?_
      rintro _ _ _ isDecl _ accepted
      cases accepted with
      | yes isClass => exact isDecl (List.mem_singleton.mp isClass)
  | none =>
  refine (yields_accept? (by decide)).bind fun answer => ?_
  cases answer with
  | some keyword =>
      refine (yields_function .function yieldsDeclaration bound).bind fun decl => .pure ?_
      rintro _ text isDecl _ accepted _ ⟨_⟩
      cases accepted with
      | yes isFun => simpa using IsDecl.funDecl (List.mem_singleton.mp isFun) isDecl
  | none =>
  refine (yields_accept? (by decide)).bind fun answer => ?_
  cases answer with
  | some keyword =>
      refine (yields_varDeclaration bound).mono ?_
      rintro _ _ _ isVariable _ accepted _ ⟨_⟩ _ ⟨_⟩
      cases accepted with
      | yes isVar => exact .varDecl (List.mem_singleton.mp isVar) isVariable
  | none =>
      refine yields.mono ?_
      rintro _ _ _ isStmt _ ⟨_⟩ _ ⟨_⟩ _ ⟨_⟩
      exact .stmt (isStmt false (by simp))

theorem yields_statement_and_declaration (bound : Nat) :
    YieldsStmt (statement bound) ∧ YieldsDeclaration (declaration bound) := by
  induction bound with
  | zero =>
      have nothing : ∀ {post}, Yields (expressionStatement 0) post := by
        intro post
        have absent : Yields (expression 0) fun _ _ _ => False :=
          (yields_fail _).congr fun _ => seedAlone_unseeded
        refine absent.bind fun expr => (yields_expect (by decide) .expressionEnd).bind fun _ =>
          .pure fun _ _ _ text none => none.elim
      exact ⟨nothing, yields_recovering nothing⟩
  | succ bound ih =>
      have forms := yields_statementForms ih.1 ih.2 (bound + 1)
      exact ⟨forms, yields_recovering (yields_declarationForms forms ih.2 (bound + 1))⟩

end Lox.Parse
