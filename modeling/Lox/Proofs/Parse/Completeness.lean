import Lox.Proofs.Parse.Contracts
import Lox.Proofs.Parse.Seeds

/-!
# What is derivable is read

In front of a token that cannot continue it, a phrase of the grammar is consumed by its parser,
which records no fault and answers its tree.
-/

namespace Lox.Parse

open Grammar

/-! ## Lists -/

/-- What comes after an item of a list in parentheses. -/
def EndsItem (follows : Option Kind) : Prop :=
  follows = some .comma ∨ follows = some .rightParen

/-- What comes after a whole expression. -/
def EndsExpr (follows : Option Kind) : Prop := follows = some .semicolon ∨ EndsItem follows

/-- The parenthesis that closes a list comes. -/
def Closes (follows : Option Kind) : Prop := follows = some .rightParen

section Lists

variable {α : Type} {item : Text → α → Prop} {limit : Nat}

theorem takes_noMoreItems (read : Nat → Parser α) (bound count : Nat) :
    Takes (afterCommas read bound count) bound [] Closes [] := by
  cases bound with
  | zero => exact .pure
  | succ bound =>
      exact .skip (by decide) (by rintro _ rfl kind listed; simp_all [opens]) .pure

theorem takes_afterCommas {read : Nat → Parser α}
    (takes : ∀ count text a, count < 255 → item text a → Takes (read count) limit text EndsItem a)
    {others : Text} {as : List α} (separated : Separated item others as) {comma : Reference}
    (isComma : comma.kind = .comma) {bound count : Nat} (few : count + as.length ≤ 255)
    (within : bound ≤ limit + 1) :
    Takes (afterCommas read bound count) bound (comma :: others) Closes as := by
  induction separated generalizing comma bound count with
  | @one text a isItem =>
      cases bound with
      | zero => exact .of_zero (List.cons_ne_nil comma text)
      | succ bound =>
          refine .accept (List.mem_singleton.mpr isComma) ?_
          refine (takes count text a few isItem).done (by omega) (fun _ => .inr) ?_
          exact ((takes_noMoreItems read bound (count + 1)).mono (by omega) fun _ => id).done
            (Nat.le_refl _) (fun _ => id) .pure
  | @more first others comma' a as isFirst isComma' areOthers ih =>
      cases bound with
      | zero => exact .of_zero (List.cons_ne_nil comma _)
      | succ bound =>
          rw [List.length_cons] at few
          refine .accept (List.mem_singleton.mpr isComma) ?_
          refine (takes count first a (by omega) isFirst).bind (by omega)
            (fun _ _ => .inl (congrArg some isComma')) ?_
          exact (ih isComma' (by omega) (by omega)).done (by omega) (fun _ => id) .pure

/-- A list in parentheses, no item of which starts with the closing one. -/
theorem takes_commaSeparated {read : Nat → Parser α} {starts : List Kind}
    (takes : ∀ count text a, count < 255 → item text a → Takes (read count) limit text EndsItem a)
    (begins : ∀ text a, item text a → Begins starts text) (apart : .rightParen ∉ starts)
    {text : Text} {as : List α} (listed : Listed item text as) {bound : Nat}
    (within : bound ≤ limit) :
    Takes (commaSeparated read bound) bound text Closes as := by
  cases listed with
  | none => exact .check true (fun _ closes => by rw [show _ = _ from closes]; rfl) .pure
  | some separated few =>
      have begun : Begins starts text := by
        cases separated with
        | one isItem => exact begins _ _ isItem
        | more isFirst _ _ => exact (begins _ _ isFirst).append _
      refine .check false (fun follows _ => front_ne begun apart follows) ?_
      cases separated with
      | one isItem =>
          refine (takes 0 _ _ (by omega) isItem).done within (fun _ => .inr) ?_
          exact ((takes_noMoreItems read bound 1).mono (by omega) fun _ => id).done
            (Nat.le_refl _) (fun _ => id) .pure
      | @more first others comma a as isFirst isComma areOthers =>
          rw [List.length_cons] at few
          refine (takes 0 _ _ (by omega) isFirst).bind within
            (fun _ _ => .inl (congrArg some isComma)) ?_
          exact (takes_afterCommas takes areOthers isComma (by omega) (by omega)).done
            (Nat.sub_le _ _) (fun _ => id) .pure

end Lists

/-! ## Expressions -/

/-- A parser that reads expressions in front of what ends them. -/
def TakesExpr (read : Parser Expr) (limit : Nat) : Prop :=
  ∀ text expr, IsExpr text expr → Takes read limit text EndsExpr expr

section Expressions

variable {expr : Parser Expr} {limit : Nat} (takes : TakesExpr expr limit)
include takes

theorem takes_argument (count : Nat) (text : Text) (arg : Expr) (few : count < 255)
    (isArg : IsExpr text arg) : Takes (argument expr count) limit text EndsItem arg := by
  unfold argument
  split
  · next many => exact absurd few (Nat.not_lt.mpr many)
  · exact (takes text arg isArg).mono (Nat.le_refl _) fun _ ends => .inr ends

theorem takes_finishCall {inside : Text} {args : List Expr} (areArgs : Listed IsExpr inside args)
    {closing : Reference} (closes : closing.kind = .rightParen) (callee : Expr) {bound : Nat}
    (within : bound ≤ limit) :
    Takes (finishCall expr bound callee) bound (inside ++ [closing]) Anything
      (.call callee closing.name args) := by
  unfold finishCall
  have args := takes_commaSeparated (takes_argument takes) (fun _ _ => IsExpr.begins) (by decide)
    areArgs within
  exact args.bind (Nat.le_refl _) (fun _ _ => congrArg some closes) (.expect closes .pure)

/-- What ends a chain of calls does not go on with it. -/
def EndsChain (follows : Option Kind) : Prop :=
  follows ≠ some .leftParen ∧ follows ≠ some .dot

theorem takes_callChain {callee result : Expr} {text : Text}
    (links : Links IsExpr callee text result) {bound : Nat} (within : bound ≤ limit + 1) :
    Takes (callChain expr bound callee) bound text EndsChain result := by
  induction links generalizing bound with
  | nil =>
      cases bound with
      | zero => exact .pure
      | succ bound =>
          refine .skip (by decide) (fun _ ends => by simpa [opens] using ends.1) ?_
          exact .skip (by decide) (fun _ ends => by simpa [opens] using ends.2) .pure
  | @call inside text callee result args opening closing opens areArgs closes _ ih =>
      cases bound with
      | zero => exact .of_zero (List.cons_ne_nil opening _)
      | succ bound =>
          refine .accept (List.mem_singleton.mpr opens) ?_
          rw [List.append_cons]
          refine (takes_finishCall takes areArgs closes callee (by omega)).bind
            (Nat.le_refl _) (fun _ _ => trivial) ?_
          exact (@ih bound (by omega)).mono (by omega) fun _ => id
  | @get text object result dot name isDot isName _ ih =>
      cases bound with
      | zero => exact .of_zero (List.cons_ne_nil dot _)
      | succ bound =>
          refine .pass (.one isDot) (by decide) ?_
          refine .accept (List.mem_singleton.mpr isDot) (.expect isName ?_)
          exact (@ih bound (by omega)).mono (by omega) fun _ => id

theorem takes_primary {text : Text} {result : Expr} (isPrimary : IsPrimary text result)
    {bound : Nat} (within : bound ≤ limit + 1) :
    Takes (primary expr) bound text Anything result := by
  refine Takes.congr ?_ fun _ => primary_unseeded
  unfold primaryForms
  cases isPrimary with
  | literal isLiteral => exact .accept isLiteral .pure
  | super isSuper isDot isMethod =>
      refine .pass (.one isSuper) (by decide) ?_
      exact .accept (List.mem_singleton.mpr isSuper) (.expect isDot (.expect isMethod .pure))
  | this isThis =>
      refine .pass (.one isThis) (by decide) (.pass (.one isThis) (by decide) ?_)
      exact .accept (List.mem_singleton.mpr isThis) .pure
  | var isName =>
      refine .pass (.cons isName) (by decide) (.pass (.cons isName) (by decide) ?_)
      refine .pass (.cons isName) (by decide) ?_
      exact .accept isName .pure
  | grouping opened isInner closes =>
      refine .pass (.one opened) (by decide) (.pass (.one opened) (by decide) ?_)
      refine .pass (.one opened) (by decide) (.pass (.one opened) (by decide) ?_)
      refine .accept (List.mem_singleton.mpr opened) ?_
      refine (takes _ _ isInner).bind (by omega) (fun _ _ => .inr (.inr (congrArg some closes))) ?_
      exact .expect closes .pure

theorem takes_unary {text : Text} {result : Expr} (isUnary : IsUnary text result) {bound : Nat}
    (within : bound ≤ limit + 1) : Takes (unary expr bound) bound text EndsChain result := by
  induction bound generalizing text result with
  | zero => exact .of_zero isUnary.begins.ne_nil
  | succ bound ih =>
      refine Takes.congr ?_ fun _ => unary_unseeded
      unfold unaryForms call
      cases isUnary with
      | unary isOperator isOperand =>
          exact .accept isOperator ((ih isOperand (by omega)).done (by omega) (fun _ => id) .pure)
      | chain isChain =>
          obtain ⟨front, callee, others, rfl, isFirst, links⟩ := Links.of_chain isChain
          refine .pass (isFirst.begins.append others) (by decide) ?_
          refine (takes_primary takes isFirst within).bind (Nat.le_refl _) (fun _ _ => trivial) ?_
          have positive := List.length_pos_iff.mpr isFirst.begins.ne_nil
          exact (takes_callChain takes links (by omega)).mono (by omega) fun _ => id

end Expressions

/-! ### Operators -/

/-- No operator ends expressions, assigns, or goes on with a chain of calls. -/
theorem operators_apart {tier : Tier} {kind : Kind} (joins : kind ∈ tier.operators) :
    kind ∉ [.semicolon, .comma, .rightParen] ++ [.equal, .leftParen, .dot, .eof] := by
  have apart : ∀ kind ∈ tier.operators,
      kind ∉ [.semicolon, .comma, .rightParen] ++ [.equal, .leftParen, .dot, .eof] := by
    cases tier <;> decide
  exact apart kind joins

/-- A text that does not start with a token that ends expressions. -/
def GoesOn (text : Text) : Prop :=
  ∀ token, text.head? = some token → token.kind ∉ [Kind.semicolon, .comma, .rightParen]

namespace GoesOn

variable {text more : Text}

theorem nil : GoesOn [] := fun _ none => by cases none

theorem cons {token : Reference} (other : token.kind ∉ [Kind.semicolon, .comma, .rightParen]) :
    GoesOn (token :: text) := by
  rintro _ ⟨_⟩
  exact other

theorem append (goesOn : GoesOn text) (goesOn' : GoesOn more) : GoesOn (text ++ more) := by
  cases text with
  | nil => exact goesOn'
  | cons token text => exact .cons (goesOn token rfl)

theorem of_begins {kinds : List Kind} (begins : Begins kinds text)
    (apart : ∀ kind ∈ kinds, kind ∉ [Kind.semicolon, .comma, .rightParen]) : GoesOn text := by
  obtain ⟨token, others, rfl, isOf⟩ := begins
  exact .cons (apart _ isOf)

end GoesOn

/-- What ends an operation of the given levels does not go on with it. -/
def EndsOperation (tiers : List Tier) (follows : Option Kind) : Prop :=
  EndsChain follows ∧ ∀ tier ∈ tiers, ∀ kind ∈ tier.operators, follows ≠ some kind

/-- Operators of a level end operations of the tighter levels. -/
def Graded (tiers : List Tier) : Prop :=
  tiers.Pairwise fun tier tighter => ∀ kind ∈ tier.operators, kind ∉ tighter.operators

theorem endsOperation_operator {tier : Tier} {tiers : List Tier} (graded : Graded (tier :: tiers))
    {kind : Kind} (joins : kind ∈ tier.operators) : EndsOperation tiers (some kind) := by
  refine ⟨?_, fun tighter listed other isOther same => ?_⟩
  · have apart := operators_apart joins
    constructor <;> rintro ⟨_⟩ <;> exact apart (by decide)
  · obtain rfl := Option.some.inj same
    exact List.rel_of_pairwise_cons graded listed kind joins isOther

/-- A parser that reads operands in front of what ends chains of calls. -/
def TakesUnary (operand : Parser Expr) (limit : Nat) : Prop :=
  ∀ text result, IsUnary text result → Takes operand limit text EndsChain result

theorem takes_chain {tier : Tier} {tiers : List Tier} (graded : Graded (tier :: tiers))
    {operand : Parser Expr} {limit : Nat}
    (takes : ∀ text right, Operation IsUnary tiers text right →
      Takes operand limit text (EndsOperation tiers) right)
    {left result : Expr} {text : Text} (joined : Joins IsUnary tier tiers left text result)
    {bound : Nat} (within : bound ≤ limit) :
    Takes (chain (levelOf tier) operand bound left) bound text (EndsOperation (tier :: tiers))
      result := by
  induction joined generalizing bound with
  | nil =>
      cases bound with
      | zero => exact .pure
      | succ bound =>
          exact .skip (fun isOperator => operators_apart isOperator (by decide))
            (fun _ ends => ends.2 tier List.mem_cons_self) .pure
  | join joins isRight others ih =>
      cases bound with
      | zero => exact .of_zero (List.cons_ne_nil _ _)
      | succ bound =>
          refine .accept joins ((takes _ _ isRight).bind (by omega) (fun follows ends => ?_) ?_)
          · cases others with
            | nil => exact ⟨ends.1, fun tighter listed => ends.2 tighter (.tail _ listed)⟩
            | join joins' _ _ => exact endsOperation_operator graded joins'
          · exact (@ih bound (by omega)).mono (by omega) fun _ => id

/--
An operation starts with an operand.  Whatever part of the operand is left to read: if a parser
reads that and answers the operand, then the operation is read from there.
-/
theorem takes_climb {operand : Parser Expr} {limit : Nat} (takes : TakesUnary operand limit)
    {tiers : List Tier} (graded : Graded tiers) {text : Text} {result : Expr}
    (isOperation : Operation IsUnary tiers text result) :
    ∃ front left others, text = front ++ others ∧ IsUnary front left ∧ GoesOn others ∧
      ∀ {first : Parser Expr} {lead : Text}, Takes first limit lead EndsChain left →
        Takes (climbFrom operand limit (tiers.map levelOf) first) limit (lead ++ others)
          (EndsOperation tiers) result := by
  induction tiers generalizing text result with
  | nil =>
      cases isOperation with
      | operand isOperand =>
          refine ⟨_, _, [], (List.append_nil _).symm, isOperand, .nil, fun first => ?_⟩
          rw [List.append_nil]
          exact first.mono (Nat.le_refl _) fun _ ends => ends.1
  | cons tier tiers ih =>
      have tighter := fun {text result} => @ih graded.tail text result
      have takesRight : ∀ text right, Operation IsUnary tiers text right →
          Takes (climb operand limit (tiers.map levelOf)) limit text (EndsOperation tiers)
            right := by
        intro text right isRight
        rw [climb_eq]
        obtain ⟨front, left, others, rfl, isFirst, _, climbs⟩ := tighter isRight
        exact climbs (takes front left isFirst)
      obtain ⟨before, middle, after, rfl, isBefore, joined⟩ := Joins.of_operation isOperation rfl
      obtain ⟨front, left, others, rfl, isFirst, goesOn, climbs⟩ := tighter isBefore
      refine ⟨front, left, others ++ after, List.append_assoc _ _ _, isFirst, goesOn.append ?_,
        fun first => ?_⟩
      · cases joined with
        | nil => exact .nil
        | join joins _ _ =>
            exact .cons fun ends =>
              operators_apart joins (List.mem_append_left [.equal, .leftParen, .dot, .eof] ends)
      rw [List.map_cons, climbFrom, ← List.append_assoc]
      refine (climbs first).bind (Nat.le_refl _) (fun follows ends => ?_) ?_
      · cases joined with
        | nil => exact ⟨ends.1, fun tighter listed => ends.2 tighter (.tail _ listed)⟩
        | join joins _ _ => exact endsOperation_operator graded joins
      · exact (takes_chain graded takesRight joined (Nat.le_refl _)).mono (Nat.sub_le _ _)
          fun _ => id

/-! ### Assignments -/

theorem graded_all : Graded Tier.all := by unfold Graded Tier.all; decide

/-- What stands behind an operand ends it, if it ends expressions or assigns to it. -/
theorem endsOperation_all {kind : Kind}
    (listed : kind ∈ .equal :: [Kind.semicolon, .comma, .rightParen]) :
    EndsOperation Tier.all (some kind) := by
  refine ⟨?_, fun tier _ other isOther same => operators_apart isOther ?_⟩
  · constructor <;> rintro ⟨_⟩ <;> revert listed <;> decide
  · cases Option.some.inj same
    revert listed
    cases kind <;> decide

theorem EndsExpr.exists {follows : Option Kind} (ends : EndsExpr follows) :
    ∃ kind ∈ [Kind.semicolon, .comma, .rightParen], follows = some kind := by
  rcases ends with rfl | rfl | rfl <;> exact ⟨_, by decide, rfl⟩

/--
An expression starts with an operand.  Whatever part of the operand is left to read: if a parser
reads that and answers the operand, then the expression is read from there.
-/
theorem takes_assignment {expr : Parser Expr} {limit bound : Nat} (takes : TakesExpr expr limit)
    (within : bound ≤ limit + 1) {text : Text} {result : Expr} (isExpr : IsExpr text result) :
    ∃ front left others, text = front ++ others ∧ IsUnary front left ∧ GoesOn others ∧
      ∀ {first : Parser Expr} {lead : Text}, Takes first bound lead EndsChain left →
        Takes (assignmentFrom expr bound first) bound (lead ++ others) EndsExpr result := by
  have operands : TakesUnary (unary expr bound) bound :=
    fun _ _ isUnary => takes_unary takes isUnary within
  obtain ⟨front, target, more, rfl, isTarget, isAssignment⟩ := Assignment.of_expr isExpr
  obtain ⟨front, left, others, rfl, isFirst, goesOn, climbs⟩ :=
    takes_climb operands graded_all isTarget
  refine ⟨front, left, others ++ more, List.append_assoc _ _ _, isFirst, goesOn.append ?_,
    fun first => ?_⟩
  · cases isAssignment with
    | none => exact .nil
    | some isEqual _ _ => exact .cons (by rw [isEqual]; decide)
  unfold assignmentFrom assignmentTo
  rw [levels_eq, ← List.append_assoc]
  refine (climbs first).bind (Nat.le_refl _) (fun follows ends => ?_) ?_
  · cases isAssignment with
    | none =>
        obtain ⟨kind, listed, rfl⟩ := ends.exists
        exact endsOperation_all (.tail _ listed)
    | some isEqual _ _ =>
        refine endsOperation_all (List.mem_cons.mpr (.inl isEqual))
  · cases isAssignment with
    | none =>
        refine .skip (by decide) (fun follows ends kind listed same => ?_) .pure
        obtain ⟨_, isEnd, rfl⟩ := ends.exists
        cases Option.some.inj same
        revert isEnd listed
        cases kind <;> decide
    | some isEqual isValue assigns =>
        refine .accept (List.mem_singleton.mpr isEqual) ?_
        cases assigns with
        | var => exact (takes _ _ isValue).done (by omega) (fun _ => id) .pure
        | set => exact (takes _ _ isValue).done (by omega) (fun _ => id) .pure

/-- Expressions of at most as many tokens as the bound says are read. -/
theorem takes_expression (bound : Nat) : TakesExpr (expression bound) bound := by
  induction bound with
  | zero => exact fun text result isExpr => .of_zero isExpr.begins.ne_nil
  | succ bound ih =>
      intro text result isExpr
      obtain ⟨front, left, others, rfl, isFirst, _, reads⟩ :=
        takes_assignment ih (Nat.le_refl (bound + 1)) isExpr
      rw [expression, assignment_eq]
      exact reads (takes_unary ih isFirst (Nat.le_refl (bound + 1)))

/-! ### Expressions that start with a grouping -/

/-- From one state only one expression is read in front of what ends it. -/
theorem expression_unique {s t u : State} {text text' : Text} {expr expr' : Expr}
    (unseeded : s.seed = none) (isExpr : IsExpr text expr) (isExpr' : IsExpr text' expr')
    (consumes : Consumes s text t) (consumes' : Consumes s text' u) (ends : EndsExpr t.front?)
    (ends' : EndsExpr u.front?) : text = text' ∧ expr = expr' ∧ t = u := by
  have reads := takes_expression s.rest.length text expr isExpr s t unseeded consumes
    (Nat.le_refl _) ends
  have reads' := takes_expression s.rest.length text' expr' isExpr' s u unseeded consumes'
    (Nat.le_refl _) ends'
  rw [reads] at reads'
  cases reads'
  exact ⟨consumes.text_unique consumes', rfl, rfl⟩

/-- What follows an opening parenthesis in an expression that starts with it. -/
theorem grouping_of_unary {opening : Reference} {text rest others : Text} {result : Expr}
    (opened : opening.kind = .leftParen) (isUnary : IsUnary text result)
    (same : opening :: rest = text ++ others) :
    ∃ inside inner closing links, IsExpr inside inner ∧ closing.kind = .rightParen ∧
      rest = inside ++ closing :: (links ++ others) ∧
      Links IsExpr (.grouping inner) links result := by
  have first : ∀ {kinds text' more}, Begins kinds text' → text = text' ++ more →
      Kind.leftParen ∈ kinds := by
    rintro kinds _ more ⟨token, others', rfl, isOf⟩ rfl
    obtain ⟨rfl, _⟩ := List.cons.inj same
    exact opened ▸ isOf
  cases isUnary with
  | unary isOperator _ =>
      exact absurd (first (.cons isOperator) (List.append_nil _).symm) (by decide)
  | chain isChain =>
      obtain ⟨front, callee, links, rfl, isFirst, linked⟩ := Links.of_chain isChain
      cases isFirst with
      | literal isLiteral => exact absurd (first (.cons isLiteral) rfl) (by decide)
      | super isSuper _ _ => exact absurd (first (.one isSuper) rfl) (by decide)
      | this isThis => exact absurd (first (.one isThis) rfl) (by decide)
      | var isName => exact absurd (first (.cons isName) rfl) (by decide)
      | grouping _ isInner closes =>
          refine ⟨_, _, _, links, isInner, closes, ?_, linked⟩
          simpa using (List.cons.inj same).2

/--
The rest of an expression, the grouping at the front of which was read before: another grouping
than this one cannot stand there.
-/
theorem takes_expressionFrom {opening closing : Reference} {inside text : Text}
    {inner value : Expr} (opened : opening.kind = .leftParen) (isInner : IsExpr inside inner)
    (closes : closing.kind = .rightParen)
    (isValue : IsExpr (opening :: (inside ++ closing :: text)) value) {s t : State}
    (unseeded : s.seed = none) (consumes : Consumes s (inside ++ closing :: text) t)
    (bound : Nat) :
    GoesOn text ∧
      Takes (expressionFrom (bound + 1) (.grouping inner)) (bound + 1) text EndsExpr value := by
  obtain ⟨front, left, others, same, isFirst, goesOn, reads⟩ :=
    takes_assignment (takes_expression bound) (Nat.le_refl (bound + 1)) isValue
  obtain ⟨inside', inner', closing', links, isInner', closes', parts, linked⟩ :=
    grouping_of_unary opened isFirst same
  obtain ⟨m, consumes₁, consumes₂⟩ := consumes.split
  obtain ⟨m', consumes₁', consumes₂'⟩ := (parts ▸ consumes).split
  obtain ⟨rfl, rfl, _⟩ := expression_unique unseeded isInner isInner' consumes₁ consumes₁'
    (consumes₂.front? ▸ .inr (.inr (congrArg some closes)))
    (consumes₂'.front? ▸ .inr (.inr (congrArg some closes')))
  obtain ⟨_, rfl⟩ := List.cons.inj (List.append_cancel_left parts)
  refine ⟨GoesOn.append ?_ goesOn, ?_⟩
  · rcases linked.nil_or_begins with ⟨rfl, _⟩ | begins
    · exact .nil
    · exact .of_begins begins (by decide)
  · exact (reads (takes_callChain (takes_expression bound) linked (Nat.le_refl _))).congr
      fun _ => expressionFrom_eq

end Lox.Parse
