import Lox.Proofs.Parse.Reading
import Lox.Proofs.Parse.Seeds

/-!
# Reading expressions alike

Each parser of expressions reads two sequences in step.  A parser that extends an expression read
before is told where that one started.
-/

namespace Lox.Parse

/-- An expression read from one stretch, and the same expression with its tokens replaced. -/
structure ReadExpr (f : Token → Token) (lo hi : Nat) (expr expr' : Expr) : Prop where
  same : expr' = expr.mapTokens f
  within : Within lo hi expr.tokens expr'.acts

/-- A parser of expressions that reads two sequences in step from everywhere. -/
def ReadsExpr (f : Token → Token) (read : Parser Expr) : Prop :=
  ∀ lo, Reads f lo read read (ReadExpr f lo)

variable {f : Token → Token}

namespace ReadExpr

variable {lo mid hi : Nat} {expr expr' : Expr}

theorem mono {lo' hi' : Nat} (isRead : ReadExpr f lo hi expr expr') (low : lo' ≤ lo)
    (high : hi ≤ hi') : ReadExpr f lo' hi' expr expr' :=
  ⟨isRead.same, isRead.within.mono low high⟩

theorem grouping (isRead : ReadExpr f lo hi expr expr') :
    ReadExpr f lo hi (.grouping expr) (.grouping expr') := by
  obtain ⟨rfl, within⟩ := isRead
  exact ⟨rfl, within⟩

end ReadExpr

namespace Taken

variable {lo : Nat} {kinds : List Kind} {taken : Reference}

/-- A token that was consumed comes from the stretch after the number at which it was. -/
theorem within_token (isTaken : Taken lo kinds taken) : Within lo (lo + 1) [taken.name] [] := by
  have line := isTaken.line
  exact .token (by omega) (by omega)

/-- A reference that was consumed and looks up its name. -/
theorem within_act (isTaken : Taken lo kinds taken) {act : Act}
    (lookup : act.id? = some taken.id) (proper : act.Proper) :
    Within lo (lo + 1) [taken.name] [act] := by
  have line := isTaken.line
  have id := isTaken.id
  refine ⟨isTaken.within_token.tokens, ?_, ?_⟩
  · rw [List.filterMap_cons_some lookup]
    exact .single (by omega) (by omega)
  · intro other held
    rw [List.mem_singleton.mp held]
    exact proper

end Taken

theorem Keeps.value (keeps : Keeps f) (token : Token) : (f token).value = token.value := by
  rw [Token.value, keeps.literal, Token.value]

theorem Items.exprs {lo hi : Nat} {exprs exprs' : List Expr}
    (items : Items (ReadExpr f) lo hi exprs exprs') :
    exprs' = mapTokensAll f exprs ∧ Within lo hi (tokensAll exprs) (actsAll exprs') := by
  induction items with
  | nil => exact ⟨rfl, .nil⟩
  | cons low first high others ih =>
      obtain ⟨rfl, within⟩ := ih
      obtain ⟨rfl, here⟩ := first
      exact ⟨rfl, (here.mono low (Nat.le_refl _)).append within (Nat.le_trans low high)
        others.ordered⟩

/-! ## Binary operators -/

/-- The nodes of the levels of operators, none of which is the end token. -/
structure Level.Plain (level : Level) : Prop where
  node : level.node = .binary ∨ level.node = .logical
  inside : .eof ∉ level.operators

theorem plain_of_mem_levels {level : Level} (listed : level ∈ levels) : level.Plain := by
  simp only [levels, List.mem_cons, List.not_mem_nil, or_false] at listed
  rcases listed with rfl | rfl | rfl | rfl | rfl | rfl
  · exact ⟨.inr rfl, by decide⟩
  · exact ⟨.inr rfl, by decide⟩
  · exact ⟨.inl rfl, by decide⟩
  · exact ⟨.inl rfl, by decide⟩
  · exact ⟨.inl rfl, by decide⟩
  · exact ⟨.inl rfl, by decide⟩

/-- An operator joins the stretches of its operands. -/
theorem Level.Plain.join {level : Level} (plain : level.Plain) {lo mid mid' hi : Nat}
    {left left' right right' : Expr} {kinds : List Kind} {operator : Reference}
    (isLeft : ReadExpr f lo mid left left') (isTaken : Taken mid kinds operator)
    (isRight : ReadExpr f mid' hi right right') (low : lo ≤ mid) (next : mid + 1 ≤ mid')
    (high : mid' ≤ hi) :
    ReadExpr f lo hi (level.node left operator.name right)
      (level.node left' (operator.mapTokens f).name right') := by
  obtain ⟨rfl, inLeft⟩ := isLeft
  obtain ⟨rfl, inRight⟩ := isRight
  have joined : Within lo hi (left.tokens ++ ([operator.name] ++ right.tokens))
      ((left.mapTokens f).acts ++ ([] ++ (right.mapTokens f).acts)) :=
    inLeft.append
      (isTaken.within_token.append (inRight.mono next (Nat.le_refl hi)) (by omega) (by omega))
      low (by omega)
  rcases plain.node with binary | logical
  · rw [binary]
    exact ⟨rfl, joined⟩
  · rw [logical]
    exact ⟨rfl, joined⟩

theorem reads_chain (keeps : Keeps f) {level : Level} (plain : level.Plain)
    {operand : Parser Expr} (reads : ReadsExpr f operand) (bound : Nat) {start lo : Nat}
    {left left' : Expr} (low : start ≤ lo) (isLeft : ReadExpr f start lo left left') :
    Reads f lo (chain level operand bound left) (chain level operand bound left')
      (ReadExpr f start) := by
  induction bound generalizing lo left left' with
  | zero => exact .pure isLeft
  | succ bound ih =>
      unfold chain
      refine (reads_accept? keeps plain.inside).bind fun mid _ _ reached accepted => ?_
      cases accepted with
      | no => exact .pure isLeft
      | yes isTaken =>
          refine (reads _).bind fun mid' right right' next isRight => ?_
          exact ih (by omega) (plain.join isLeft isTaken isRight low (Nat.le_refl _) next)

theorem reads_climb (keeps : Keeps f) {operand : Parser Expr} (reads : ReadsExpr f operand)
    (bound : Nat) {ladder : List Level} (plain : ∀ level ∈ ladder, level.Plain) {start lo : Nat}
    {first first' : Parser Expr} (low : start ≤ lo)
    (reads' : Reads f lo first first' (ReadExpr f start)) :
    Reads f lo (climbFrom operand bound ladder first) (climbFrom operand bound ladder first')
      (ReadExpr f start) := by
  induction ladder generalizing start lo first first' with
  | nil => exact reads'
  | cons level tighter ih =>
      have tighterPlain := fun other held => plain other (List.mem_cons_of_mem _ held)
      have reading : ReadsExpr f (climb operand bound tighter) := by
        intro lo
        rw [climb_eq]
        exact ih tighterPlain (Nat.le_refl lo) (reads lo)
      unfold climbFrom
      refine (ih tighterPlain low reads').bind fun mid left left' reached isLeft => ?_
      exact reads_chain keeps (plain level List.mem_cons_self) reading bound (by omega) isLeft

/-! ## Calls -/

theorem reads_argument (keeps : Keeps f) {expr : Parser Expr} (reads : ReadsExpr f expr)
    (lo count : Nat) :
    Reads f lo (argument expr count) (argument expr count) (ReadExpr f lo) := by
  unfold argument
  split
  · refine (reads_peek keeps).bind ?_
    rintro mid token token' low ⟨rfl, _⟩
    refine (reads_recordAt token token' .tooManyArguments).bind ?_
    rintro mid' _ _ low' rfl
    exact reads _
  · exact reads lo

/-- A call joins the stretches of its callee and of its arguments. -/
theorem ReadExpr.call {lo mid mid' hi : Nat} {callee callee' : Expr} {args args' : List Expr}
    {paren : Reference} {kinds : List Kind} (isCallee : ReadExpr f lo mid callee callee')
    (items : Items (ReadExpr f) mid mid' args args') (isTaken : Taken mid' kinds paren)
    (low : lo ≤ mid) (high : mid' + 1 ≤ hi) :
    ReadExpr f lo hi (.call callee paren.name args)
      (.call callee' (paren.mapTokens f).name args') := by
  obtain ⟨rfl, inCallee⟩ := isCallee
  have ordered := items.ordered
  obtain ⟨rfl, inArgs⟩ := items.exprs
  have joined := inCallee.append (inArgs.append isTaken.within_token (by omega) (by omega)) low
    (by omega)
  rw [List.append_nil] at joined
  exact ⟨rfl, joined.mono (Nat.le_refl lo) high⟩

theorem reads_finishCall (keeps : Keeps f) {expr : Parser Expr} (reads : ReadsExpr f expr)
    (bound : Nat) {start mid lo : Nat} {callee callee' : Expr} (low : start ≤ mid)
    (next : mid ≤ lo) (isCallee : ReadExpr f start mid callee callee') :
    Reads f lo (finishCall expr bound callee) (finishCall expr bound callee')
      (ReadExpr f start) := by
  unfold finishCall
  refine (reads_commaSeparated keeps (reads_argument keeps reads) bound).bind
    fun mid' args args' reached items => ?_
  refine (reads_expect keeps (by decide) .argumentsEnd).bind ?_
  rintro hi paren _ high ⟨rfl, rfl, isTaken⟩
  exact .pure (isCallee.call (items.before next) isTaken low (Nat.le_refl _))

theorem reads_callChain (keeps : Keeps f) {expr : Parser Expr} (reads : ReadsExpr f expr)
    (bound : Nat) {start lo : Nat} {callee callee' : Expr} (low : start ≤ lo)
    (isCallee : ReadExpr f start lo callee callee') :
    Reads f lo (callChain expr bound callee) (callChain expr bound callee')
      (ReadExpr f start) := by
  induction bound generalizing lo callee callee' with
  | zero => exact .pure isCallee
  | succ bound ih =>
      unfold callChain
      refine (reads_accept? keeps (by decide)).bind fun mid _ _ reached accepted => ?_
      cases accepted with
      | yes isTaken =>
          refine (reads_finishCall keeps reads bound low (Nat.le_succ lo) isCallee).bind
            fun hi call call' high isCall => ?_
          exact ih (by omega) isCall
      | no =>
          refine (reads_accept? keeps (by decide)).bind fun mid _ _ reached accepted => ?_
          cases accepted with
          | no => exact .pure isCallee
          | yes isTaken =>
              refine (reads_expect keeps (by decide) .propertyName).bind ?_
              rintro hi name _ high ⟨rfl, rfl, isName⟩
              obtain ⟨rfl, within⟩ := isCallee
              have joined := within.append (isName.within_token.mono (Nat.le_succ lo)
                (Nat.le_refl _)) low (by omega)
              rw [List.append_nil] at joined
              exact ih (by omega) ⟨rfl, joined⟩

/-! ## Operands -/

theorem reads_primary (keeps : Keeps f) {expr : Parser Expr} (reads : ReadsExpr f expr) :
    ReadsExpr f (primary expr) := by
  intro lo
  refine Reads.congr ?_ (fun _ => primary_unseeded) fun _ => primary_unseeded
  unfold primaryForms
  refine (reads_accept? keeps (by decide)).bind fun mid _ _ reached accepted => ?_
  cases accepted with
  | yes isTaken =>
      refine .pure ⟨?_, .nil⟩
      exact congrArg Expr.literal (keeps.value _)
  | no =>
  refine (reads_accept? keeps (by decide)).bind fun mid _ _ reached accepted => ?_
  cases accepted with
  | yes isTaken =>
      refine (reads_expect keeps (by decide) .superDot).bind ?_
      rintro hi dot _ next ⟨rfl, rfl, isDot⟩
      refine (reads_expect keeps (by decide) .superMethod).bind ?_
      rintro hi method _ high ⟨rfl, rfl, isMethod⟩
      refine .pure ⟨rfl, ?_⟩
      have keyword : Within lo (lo + 1) [_] [.super (Reference.mapTokens f _)] :=
        isTaken.within_act rfl (keeps.isOf isTaken.isOf)
      exact keyword.append (isMethod.within_token.mono (Nat.le_succ _) (Nat.le_refl _))
        (Nat.le_succ lo) (by omega)
  | no =>
  refine (reads_accept? keeps (by decide)).bind fun mid _ _ reached accepted => ?_
  cases accepted with
  | yes isTaken =>
      exact .pure ⟨rfl, isTaken.within_act rfl (keeps.isOf isTaken.isOf)⟩
  | no =>
  refine (reads_accept? keeps (by decide)).bind fun mid _ _ reached accepted => ?_
  cases accepted with
  | yes isTaken =>
      exact .pure ⟨rfl, isTaken.within_act rfl (keeps.isOf isTaken.isOf)⟩
  | no =>
  refine (reads_accept? keeps (by decide)).bind fun mid _ _ reached accepted => ?_
  cases accepted with
  | yes isTaken =>
      refine (reads _).bind fun mid inner inner' next isInner => ?_
      refine (reads_expect keeps (by decide) .groupingEnd).bind ?_
      rintro hi paren _ high ⟨rfl, rfl, isParen⟩
      exact .pure (isInner.grouping.mono (Nat.le_succ lo) (Nat.le_succ mid))
  | no => exact reads_fail _

theorem reads_unary (keeps : Keeps f) {expr : Parser Expr} (reads : ReadsExpr f expr)
    (bound : Nat) : ReadsExpr f (unary expr bound) := by
  induction bound with
  | zero =>
      exact fun lo => (reads_fail _).congr (fun _ => seedAlone_unseeded)
        fun _ => seedAlone_unseeded
  | succ bound ih =>
      intro lo
      refine Reads.congr ?_ (fun _ => unary_unseeded) fun _ => unary_unseeded
      unfold unaryForms call
      refine (reads_accept? keeps (by decide)).bind fun mid _ _ reached accepted => ?_
      cases accepted with
      | yes isTaken =>
          refine (ih _).bind fun hi operand operand' high isOperand => .pure ?_
          obtain ⟨rfl, within⟩ := isOperand
          exact ⟨rfl, isTaken.within_token.append within (Nat.le_succ lo) high⟩
      | no =>
          refine (reads_primary keeps reads lo).bind fun mid callee callee' low isCallee => ?_
          exact reads_callChain keeps reads (bound + 1) low isCallee

/-! ## Assignments -/

/-- What an assignment stores is read after its target. -/
theorem ReadExpr.assign {lo mid mid' hi : Nat} {name : Reference} {value value' : Expr}
    (isTarget : ReadExpr f lo mid (.var name) (.var (name.mapTokens f)))
    (isValue : ReadExpr f mid' hi value value') (low : lo ≤ mid) (next : mid ≤ mid')
    (high : mid' ≤ hi) :
    ReadExpr f lo hi (.assign name value) (.assign (name.mapTokens f) value') := by
  obtain ⟨rfl, inValue⟩ := isValue
  have target : Within lo mid [name.name] [.assign (name.mapTokens f)] := by
    obtain ⟨tokens, ids, proper⟩ := isTarget.within
    refine ⟨tokens, ids, fun act held => ?_⟩
    rw [List.mem_singleton.mp held]
    exact proper (.read (name.mapTokens f)) List.mem_cons_self
  have joined := target.append (inValue.mono next (Nat.le_refl hi)) low (by omega)
  exact ⟨rfl, joined.perm (List.Perm.refl _) List.perm_append_comm⟩

theorem ReadExpr.set {lo mid mid' hi : Nat} {object value value' : Expr} {name : Token}
    (isTarget : ReadExpr f lo mid (.get object name) (.get (object.mapTokens f) (f name)))
    (isValue : ReadExpr f mid' hi value value') (low : lo ≤ mid) (next : mid ≤ mid')
    (high : mid' ≤ hi) :
    ReadExpr f lo hi (.set object name value) (.set (object.mapTokens f) (f name) value') := by
  obtain ⟨rfl, inValue⟩ := isValue
  have joined := isTarget.within.append (inValue.mono next (Nat.le_refl hi)) low (by omega)
  refine ⟨rfl, joined.perm ?_ List.perm_append_comm⟩
  simp [Expr.tokens]

theorem reads_assignment (keeps : Keeps f) {expr : Parser Expr} (reads : ReadsExpr f expr)
    (bound : Nat) {start lo : Nat} {first first' : Parser Expr} (low : start ≤ lo)
    (readsFirst : Reads f lo first first' (ReadExpr f start)) :
    Reads f lo (assignmentFrom expr bound first) (assignmentFrom expr bound first')
      (ReadExpr f start) := by
  unfold assignmentFrom assignmentTo
  have operand := reads_unary keeps reads bound
  refine (reads_climb keeps operand bound (fun level held => plain_of_mem_levels held) low
    readsFirst).bind fun mid target target' reached isTarget => ?_
  refine (reads_accept? keeps (by decide)).bind fun mid' _ _ next accepted => ?_
  cases accepted with
  | no => exact .pure isTarget
  | yes isTaken =>
      refine (reads _).bind fun hi value value' high isValue => ?_
      have same := isTarget.same
      have kept : ReadExpr f start hi target target' :=
        isTarget.mono (Nat.le_refl start) (by omega)
      cases target with
      | var name =>
          subst same
          exact .pure (isTarget.assign isValue (by omega) (Nat.le_succ mid) high)
      | get object name =>
          subst same
          exact .pure (isTarget.set isValue (by omega) (Nat.le_succ mid) high)
      | _ =>
          subst same
          refine (reads_recordAt _ _ _).bind ?_
          rintro hi' _ _ _ rfl
          exact .pure kept

/-- Expressions are read in step. -/
theorem reads_expression (keeps : Keeps f) (bound : Nat) : ReadsExpr f (expression bound) := by
  induction bound with
  | zero =>
      exact fun lo => (reads_fail _).congr (fun _ => seedAlone_unseeded)
        fun _ => seedAlone_unseeded
  | succ bound ih =>
      intro lo
      rw [expression, assignment_eq]
      exact reads_assignment keeps ih (bound + 1) (Nat.le_refl lo)
        (reads_unary keeps ih (bound + 1) lo)

/-- So are expressions whose leftmost operand was read before. -/
theorem reads_expressionFrom (keeps : Keeps f) (bound : Nat) {start lo : Nat}
    {operand operand' : Expr} (low : start ≤ lo) (isOperand : ReadExpr f start lo operand operand') :
    Reads f lo (expressionFrom bound operand) (expressionFrom bound operand')
      (ReadExpr f start) := by
  refine Reads.congr ?_ (fun _ => expressionFrom_eq) fun _ => expressionFrom_eq
  cases bound with
  | zero => exact .pure isOperand
  | succ bound =>
      have expr := reads_expression keeps bound
      exact reads_assignment keeps expr (bound + 1) low
        (reads_callChain keeps expr (bound + 1) low isOperand)

end Lox.Parse
