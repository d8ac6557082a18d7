import Lox.Proofs.Parse.States

/-!
# Operands that were read before

An operand that was read before stands in for the next primary.  The first primary of an expression
is the first thing that is read of it, so that one takes the operand; whatever is read behind it
is read as if there had never been one.
-/

namespace Lox.Parse

/-- An operation whose first operand is read by another parser. -/
def climbFrom (operand : Parser Expr) (bound : Nat) : List Level → Parser Expr → Parser Expr
  | [], first => first
  | level :: tighter, first => do
    let left ← climbFrom operand bound tighter first
    chain level (climb operand bound tighter) bound left

/-- An expression whose first operand is read by another parser. -/
def assignmentFrom (expr : Parser Expr) (bound : Nat) (first : Parser Expr) : Parser Expr := do
  let target ← climbFrom (unary expr bound) bound levels first
  assignmentTo expr target

/-- What follows the first primary of an expression. -/
def behind : Nat → Expr → Parser Expr
  | 0, callee => pure callee
  | bound + 1, callee =>
    assignmentFrom (expression bound) (bound + 1) (callChain (expression bound) (bound + 1) callee)

section First

variable {operand expr first first' : Parser Expr} {bound : Nat} {s : State}

theorem climb_eq (operand : Parser Expr) (bound : Nat) (ladder : List Level) :
    climb operand bound ladder = climbFrom operand bound ladder operand := by
  induction ladder with
  | nil => rfl
  | cons level tighter ih => rw [climb, climbFrom, ih]

theorem assignment_eq (expr : Parser Expr) (bound : Nat) :
    assignment expr bound = assignmentFrom expr bound (unary expr bound) := by
  rw [assignment, assignmentFrom, climb_eq]

/-- The first operand is what is read first. -/
theorem climbFrom_bind {α : Type} (read : Parser α) (next : α → Parser Expr) (ladder : List Level) :
    climbFrom operand bound ladder (read >>= next) =
      read >>= fun a => climbFrom operand bound ladder (next a) := by
  induction ladder with
  | nil => rfl
  | cons level tighter ih => simp only [climbFrom, ih, bind_assoc]

theorem assignmentFrom_bind {α : Type} (read : Parser α) (next : α → Parser Expr) :
    assignmentFrom expr bound (read >>= next) =
      read >>= fun a => assignmentFrom expr bound (next a) := by
  simp only [assignmentFrom, climbFrom_bind, bind_assoc]

theorem climbFrom_congr (same : first s = first' s) (ladder : List Level) :
    climbFrom operand bound ladder first s = climbFrom operand bound ladder first' s := by
  induction ladder with
  | nil => exact same
  | cons level tighter ih => simp only [climbFrom, Bind.bind, EStateM.bind, ih]

theorem assignmentFrom_congr (same : first s = first' s) :
    assignmentFrom expr bound first s = assignmentFrom expr bound first' s := by
  simp only [assignmentFrom, Bind.bind, EStateM.bind, climbFrom_congr same]

end First

/-! ## Taking the operand -/

section Seeded

variable {expr : Parser Expr} {operand : Expr} {bound : Nat} {s : State}

/-- The same state, with another operand or none that stands in for the next primary. -/
def State.reseed (seed : Option Expr) (s : State) : State := { s with seed := seed }

theorem State.reseed_self {seed : Option Expr} (same : s.seed = seed) : s.reseed seed = s := by
  rw [← same]
  rfl

theorem takeSeed_eq (s : State) : takeSeed s = .ok s.seed (s.reseed none) := rfl

theorem primary_unseeded (unseeded : s.seed = none) : primary expr s = primaryForms expr s := by
  simp only [primary, Bind.bind, EStateM.bind, takeSeed_eq, unseeded, State.reseed_self unseeded]

/-- An operand that was read before is taken, and nothing else happens. -/
theorem primary_seeded (seeded : s.seed = some operand) :
    primary expr s = .ok operand (s.reseed none) := by
  simp only [primary, Bind.bind, EStateM.bind, takeSeed_eq, seeded]
  rfl

theorem seedAlone_unseeded (unseeded : s.seed = none) :
    seedAlone s = fail (.expected .expression) s := by
  simp only [seedAlone, Bind.bind, EStateM.bind, takeSeed_eq, unseeded, State.reseed_self unseeded]

theorem seedAlone_seeded (seeded : s.seed = some operand) :
    seedAlone s = .ok operand (s.reseed none) := by
  simp only [seedAlone, Bind.bind, EStateM.bind, takeSeed_eq, seeded]
  rfl

/-- Unary operators, or else a call chain. -/
def unaryForms (expr : Parser Expr) (bound : Nat) : Parser Expr := do
  match ← accept? [.bang, .minus] with
  | some operator =>
    let operand ← unary expr bound
    pure (.unary operator.name operand)
  | none => call expr (bound + 1)

theorem unary_unseeded (unseeded : s.seed = none) :
    unary expr (bound + 1) s = unaryForms expr bound s := by
  simp only [unary, isSeeded, Bind.bind, EStateM.bind, unseeded]
  rfl

/-- Before an operand that was read already no unary operator is read. -/
theorem unary_seeded (seeded : s.seed = some operand) :
    unary expr (bound + 1) s = call expr (bound + 1) s := by
  simp only [unary, isSeeded, Bind.bind, EStateM.bind, seeded]
  rfl

/-- The first thing that is read after an operand was planted is the primary that takes it. -/
theorem expression_seeded (seeded : s.seed = some operand) :
    expression (bound + 1) s = (primary (expression bound) >>= behind (bound + 1)) s := by
  rw [expression, assignment_eq, assignmentFrom_congr (unary_seeded seeded), call,
    assignmentFrom_bind]
  rfl

theorem expression_reseed (bound : Nat) (operand : Expr) (s : State) :
    expression bound (s.reseed (some operand)) = behind bound operand (s.reseed none) := by
  have seeded : (s.reseed (some operand)).seed = some operand := rfl
  cases bound with
  | zero => exact seedAlone_seeded seeded
  | succ bound =>
      rw [expression_seeded seeded]
      simp only [Bind.bind, EStateM.bind, primary_seeded seeded]
      rfl

theorem expressionFrom_eq_behind (bound : Nat) (operand : Expr) (s : State) :
    expressionFrom bound operand s = behind bound operand (s.reseed none) :=
  expression_reseed bound operand s

theorem expressionFrom_eq (unseeded : s.seed = none) :
    expressionFrom bound operand s = behind bound operand s := by
  rw [expressionFrom_eq_behind, State.reseed_self unseeded]

end Seeded

/-! ## Reading without operands that were read before -/

namespace Plain

/-- Unary operators before a call chain. -/
def unary (expr : Parser Expr) : Nat → Parser Expr
  | 0 => fail (.expected .expression)
  | bound + 1 => do
    match ← accept? [.bang, .minus] with
    | some operator =>
      let operand ← unary expr bound
      pure (.unary operator.name operand)
    | none =>
      let callee ← primaryForms expr
      callChain expr (bound + 1) callee

/-- An expression whose first operand is read by another parser. -/
def assignmentFrom (expr : Parser Expr) (bound : Nat) (first : Parser Expr) : Parser Expr := do
  let target ← climbFrom (unary expr bound) bound levels first
  assignmentTo expr target

/-- An expression of at most `bound` tokens, which are all that it is made of. -/
def expression : Nat → Parser Expr
  | 0 => fail (.expected .expression)
  | bound + 1 =>
    assignmentFrom (expression bound) (bound + 1) (unary (expression bound) (bound + 1))

/-- What follows the first primary of an expression. -/
def behind : Nat → Expr → Parser Expr
  | 0, callee => pure callee
  | bound + 1, callee =>
    assignmentFrom (expression bound) (bound + 1) (callChain (expression bound) (bound + 1) callee)

end Plain

/-- Results that are the same but for the operand that waits to be taken; in the first none does. -/
inductive Unseeded {α : Type} (seed : Option Expr) :
    EStateM.Result Error State α → EStateM.Result Error State α → Prop where
  | ok {a : α} {t : State} (none : t.seed = none) : Unseeded seed (.ok a t) (.ok a (t.reseed seed))
  | error {error : Error} {t : State} (none : t.seed = none) :
      Unseeded seed (.error error t) (.error error (t.reseed seed))

/--
Where no operand waits to be taken the first parser leaves none either, and reads what the second
one reads whatever operand waits: the second never takes any, nor looks whether there is one.
-/
def ReadsPlain {α : Type} (read plain : Parser α) : Prop :=
  ∀ (s : State) (seed : Option Expr), s.seed = none →
    Unseeded seed (read s) (plain (s.reseed seed))

section Rules

variable {α β : Type} {read plain : Parser α}

theorem ReadsPlain.pure (a : α) : ReadsPlain (Pure.pure a) (Pure.pure a) :=
  fun _ _ unseeded => .ok unseeded

theorem ReadsPlain.bind {next next' : α → Parser β} (first : ReadsPlain read plain)
    (then' : ∀ a, ReadsPlain (next a) (next' a)) :
    ReadsPlain (read >>= next) (plain >>= next') := by
  intro s seed unseeded
  have start := first s seed unseeded
  simp only [Bind.bind, EStateM.bind]
  revert start
  generalize read s = result
  generalize plain (s.reseed seed) = result'
  intro start
  cases start with
  | error none => exact .error none
  | @ok a t none => exact then' a t seed none

theorem ReadsPlain.congr {read' : Parser α} (reads : ReadsPlain read' plain)
    (same : ∀ s : State, s.seed = none → read s = read' s) : ReadsPlain read plain := by
  intro s seed unseeded
  rw [same s unseeded]
  exact reads s seed unseeded

theorem readsPlain_fail (fault : StaticFault) :
    ReadsPlain (fail fault : Parser α) (fail fault) := fun _ _ unseeded => .error unseeded

theorem readsPlain_peek : ReadsPlain peek peek := fun _ _ unseeded => .ok unseeded

theorem readsPlain_check (kind : Kind) : ReadsPlain (check kind) (check kind) :=
  fun _ _ unseeded => .ok unseeded

theorem readsPlain_recordAt (token : Token) (fault : StaticFault) :
    ReadsPlain (recordAt token fault) (recordAt token fault) := fun _ _ unseeded => .ok unseeded

theorem State.advance_reseed (s : State) (seed : Option Expr) :
    (s.reseed seed).advance = s.advance.reseed seed := by
  cases front : s.rest with
  | nil =>
      have front' : (s.reseed seed).rest = [] := front
      rw [advance_nil front, advance_nil front']
  | cons token others =>
      have front' : (s.reseed seed).rest = token :: others := front
      rw [advance_cons front, advance_cons front']
      rfl

theorem State.seed_advance (s : State) : s.advance.seed = s.seed := by
  cases front : s.rest with
  | nil => rw [advance_nil front]
  | cons token others => rw [advance_cons front]

theorem readsPlain_advance : ReadsPlain advance advance := by
  intro s seed unseeded
  unfold advance
  rw [s.advance_reseed seed]
  exact .ok (s.seed_advance.trans unseeded)

theorem readsPlain_accept? (kinds : List Kind) : ReadsPlain (accept? kinds) (accept? kinds) := by
  unfold accept?
  refine readsPlain_peek.bind fun token => ?_
  split
  · rw [map_eq_pure_bind]
    exact readsPlain_advance.bind fun taken => .pure (some taken)
  · exact .pure none

theorem readsPlain_expect (kind : Kind) (what : Expected) :
    ReadsPlain (expect kind what) (expect kind what) := by
  unfold expect
  refine (readsPlain_accept? [kind]).bind fun taken => ?_
  cases taken with
  | none => exact readsPlain_fail _
  | some taken => exact .pure taken

theorem readsPlain_afterCommas {item item' : Nat → Parser α}
    (reads : ∀ count, ReadsPlain (item count) (item' count)) (bound count : Nat) :
    ReadsPlain (afterCommas item bound count) (afterCommas item' bound count) := by
  induction bound generalizing count with
  | zero => exact .pure []
  | succ bound ih =>
      unfold afterCommas
      refine (readsPlain_accept? [.comma]).bind fun comma => ?_
      cases comma with
      | none => exact .pure []
      | some comma =>
          exact (reads count).bind fun next => (ih (count + 1)).bind fun others =>
            .pure (next :: others)

theorem readsPlain_commaSeparated {item item' : Nat → Parser α}
    (reads : ∀ count, ReadsPlain (item count) (item' count)) (bound : Nat) :
    ReadsPlain (commaSeparated item bound) (commaSeparated item' bound) := by
  unfold commaSeparated
  refine (readsPlain_check .rightParen).bind fun closed => ?_
  split
  · exact .pure []
  · exact (reads 0).bind fun first => (readsPlain_afterCommas reads bound 1).bind fun others =>
      .pure (first :: others)

end Rules

section Expressions

variable {expr expr' : Parser Expr} {bound : Nat}

theorem readsPlain_chain (level : Level) {operand operand' : Parser Expr}
    (reads : ReadsPlain operand operand') (bound : Nat) (left : Expr) :
    ReadsPlain (chain level operand bound left) (chain level operand' bound left) := by
  induction bound generalizing left with
  | zero => exact .pure left
  | succ bound ih =>
      unfold chain
      refine (readsPlain_accept? level.operators).bind fun operator => ?_
      cases operator with
      | none => exact .pure left
      | some operator => exact reads.bind fun right => ih _

theorem readsPlain_climbFrom {operand operand' first first' : Parser Expr}
    (readsFirst : ReadsPlain first first') (reads : ReadsPlain operand operand')
    (ladder : List Level) :
    ReadsPlain (climbFrom operand bound ladder first) (climbFrom operand' bound ladder first') := by
  induction ladder generalizing first first' with
  | nil => exact readsFirst
  | cons level tighter ih =>
      have inner := ih reads
      rw [← climb_eq, ← climb_eq] at inner
      exact (ih readsFirst).bind fun left => readsPlain_chain level inner bound left

theorem readsPlain_argument (reads : ReadsPlain expr expr') (count : Nat) :
    ReadsPlain (argument expr count) (argument expr' count) := by
  unfold argument
  split
  · exact readsPlain_peek.bind fun token => (readsPlain_recordAt token _).bind fun _ => reads
  · exact reads

theorem readsPlain_finishCall (reads : ReadsPlain expr expr') (callee : Expr) :
    ReadsPlain (finishCall expr bound callee) (finishCall expr' bound callee) :=
  (readsPlain_commaSeparated (readsPlain_argument reads) bound).bind fun _ =>
    (readsPlain_expect .rightParen .argumentsEnd).bind fun _ => .pure _

theorem readsPlain_callChain (reads : ReadsPlain expr expr') (bound : Nat) (callee : Expr) :
    ReadsPlain (callChain expr bound callee) (callChain expr' bound callee) := by
  induction bound generalizing callee with
  | zero => exact .pure callee
  | succ bound ih =>
      unfold callChain
      refine (readsPlain_accept? [.leftParen]).bind fun opening => ?_
      cases opening with
      | some opening => exact (readsPlain_finishCall reads callee).bind ih
      | none =>
          refine (readsPlain_accept? [.dot]).bind fun dot => ?_
          cases dot with
          | some dot => exact (readsPlain_expect .identifier .propertyName).bind fun name => ih _
          | none => exact .pure callee

theorem readsPlain_primaryForms (reads : ReadsPlain expr expr') :
    ReadsPlain (primaryForms expr) (primaryForms expr') := by
  unfold primaryForms
  refine (readsPlain_accept? literalKinds).bind fun token => ?_
  cases token with
  | some token => exact .pure _
  | none =>
  refine (readsPlain_accept? [.superWord]).bind fun keyword => ?_
  cases keyword with
  | some keyword =>
      exact (readsPlain_expect .dot .superDot).bind fun _ =>
        (readsPlain_expect .identifier .superMethod).bind fun _ => .pure _
  | none =>
  refine (readsPlain_accept? [.thisWord]).bind fun keyword => ?_
  cases keyword with
  | some keyword => exact .pure _
  | none =>
  refine (readsPlain_accept? [.identifier, .printWord]).bind fun name => ?_
  cases name with
  | some name => exact .pure _
  | none =>
  refine (readsPlain_accept? [.leftParen]).bind fun opening => ?_
  cases opening with
  | some opening =>
      exact reads.bind fun inner =>
        (readsPlain_expect .rightParen .groupingEnd).bind fun _ => .pure _
  | none => exact readsPlain_fail _

theorem readsPlain_unary (reads : ReadsPlain expr expr') (bound : Nat) :
    ReadsPlain (unary expr bound) (Plain.unary expr' bound) := by
  induction bound with
  | zero => exact (readsPlain_fail _).congr fun _ => seedAlone_unseeded
  | succ bound ih =>
      refine ReadsPlain.congr ?_ fun _ => unary_unseeded
      unfold unaryForms Plain.unary call
      refine (readsPlain_accept? [.bang, .minus]).bind fun operator => ?_
      cases operator with
      | some operator => exact ih.bind fun operand => .pure _
      | none =>
          exact ((readsPlain_primaryForms reads).congr fun _ => primary_unseeded).bind fun callee =>
            readsPlain_callChain reads (bound + 1) callee

theorem readsPlain_assignmentFrom (reads : ReadsPlain expr expr') {first first' : Parser Expr}
    (readsFirst : ReadsPlain first first') :
    ReadsPlain (assignmentFrom expr bound first) (Plain.assignmentFrom expr' bound first') := by
  refine (readsPlain_climbFrom readsFirst (readsPlain_unary reads bound) levels).bind
    fun target => ?_
  unfold assignmentTo
  refine (readsPlain_accept? [.equal]).bind fun equals => ?_
  cases equals with
  | none => exact .pure target
  | some equals =>
      refine reads.bind fun value => ?_
      split
      · exact .pure _
      · exact .pure _
      · exact (readsPlain_recordAt _ _).bind fun _ => .pure _

theorem readsPlain_expression (bound : Nat) :
    ReadsPlain (expression bound) (Plain.expression bound) := by
  induction bound with
  | zero => exact (readsPlain_fail _).congr fun _ => seedAlone_unseeded
  | succ bound ih =>
      rw [expression, assignment_eq]
      exact readsPlain_assignmentFrom ih (readsPlain_unary ih (bound + 1))

/-- What follows the first primary is read as if no operand had been read before. -/
theorem readsPlain_behind (bound : Nat) (callee : Expr) :
    ReadsPlain (behind bound callee) (Plain.behind bound callee) := by
  cases bound with
  | zero => exact .pure callee
  | succ bound =>
      have inner := readsPlain_expression bound
      exact readsPlain_assignmentFrom inner (readsPlain_callChain inner (bound + 1) callee)

end Expressions

end Lox.Parse
