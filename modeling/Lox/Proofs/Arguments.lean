import Lox.Proofs.Arguments.Binding
import Lox.Proofs.Arguments.Order

/-!
# Arguments are never dropped or missing

A call checks how many arguments there are against the callee, and binds them where the body is
entered, in pairs of parameters and arguments.  Both look at the same declaration, so the pairs
leave nothing over.
-/

namespace Lox

namespace Machine

/-- Of the arguments of a call each has a value or is left. -/
theorem InTurn.length_eq {callee : Value} {paren : Token} {rest : List Task} {args left : List Expr}
    {s after : State} {before : List Value}
    (inTurn : InTurn callee paren rest args s before left after) :
    before.length + left.length = args.length := by
  induction inTurn with
  | none => exact Nat.zero_add _
  | next earlier evaluated ih => exact (Nat.succ_add_eq_add_succ _ _).trans ih

end Machine

open Machine in
/--
Arguments are never dropped or missing.  Whatever a session gets to, all that waits for a callee
or an argument has waited since the step that began to evaluate it, and before an argument the
callee and then the arguments to the left of it were evaluated, each in the state that the one
before it has left.  When a call is made, all arguments of its expression have been evaluated so.
Only then it is checked, and if it is refused, it fails at its closing parenthesis in the state
that the last argument has left.  If it is let through and a function, a method or an initializer
is run, there is one argument for each parameter, no two parameters have one name, and each of
them is bound to its own argument in the frame of the body; and if a class is called that has no
initializer, not even an inherited one, there are no arguments.
-/
theorem arguments_match_parameters {past : Past} {m : Machine} (reached : Reached past m) :
    m.AsksInTurn ∧
    ∀ calling, m.calling? = some calling →
      (∃ args s, Begun calling.callee calling.paren args calling.rest s ∧
        InTurn calling.callee calling.paren calling.rest args s calling.args.reverse [] m.state ∧
        calling.args.length = args.length) ∧
      ∀ files,
        match refusal? calling.callee.arity? calling.args.length m.state.context.depth with
        | some fault =>
            m.advance files = giving (.failAt calling.paren fault) calling.rest m.state
        | none => m.LetThrough calling (m.advance files) := by
  refine ⟨asksInTurn reached, fun calling calls => ⟨?_, fun files => ?_⟩⟩
  · obtain ⟨args, s, begun, inTurn⟩ := evaluated_of_calling reached calls
    refine ⟨args, s, begun, inTurn, ?_⟩
    rw [← inTurn.length_eq, List.length_reverse]
    rfl
  · cases checked : refusal? calling.callee.arity? calling.args.length m.state.context.depth with
    | some fault => rw [advance_calling calls, call_eq, checked]
    | none => exact letThrough_of_accepted reached calls checked files

/-- A class inherits an initializer, and is called with two arguments. -/
def inheritingCall : String :=
  "class A \x7b init(x, y) \x7b\x7d \x7d class B < A \x7b\x7d B(1, nil == 2);"

/-- Whether the class is called after sixteen steps, and its call is let through. -/
def callsInheriting : Bool :=
  match Program.compile 0 inheritingCall with
  | .ok program =>
    let m := ((Session.fresh .unlimited .unlimited false).begin 0 program).stepped 16
    match m.calling? with
    | some calling => calling.args.length == 2 &&
        (Machine.refusal? calling.callee.arity? calling.args.length m.state.context.depth).isNone
    | none => false
  | .error _ => false

/-- The two arguments were evaluated in their order, and the call is let through. -/
theorem arguments_match_parameters_of_inherited :
    ∃ past m calling, Reached past m ∧ m.calling? = some calling ∧ calling.args.length = 2 ∧
      (∃ args s, Machine.Begun calling.callee calling.paren args calling.rest s ∧
        Machine.InTurn calling.callee calling.paren calling.rest args s calling.args.reverse []
          m.state ∧ calling.args.length = args.length) ∧
      m.LetThrough calling (m.stepped 1) := by
  have computed : callsInheriting = true := by decide +kernel
  unfold callsInheriting at computed
  split at computed
  · next program compiled =>
      dsimp only at computed
      split at computed
      · next calling calls =>
          have fresh : (Session.fresh .unlimited .unlimited false).Reachable := .fresh _ _ _
          obtain ⟨_, started, _⟩ := fresh.atRest.begin 0 compiled
          obtain ⟨past, reached⟩ := started.stepped 16
          generalize Machine.stepped 16 _ = m at calls computed reached
          obtain ⟨two, accepted⟩ := Bool.and_eq_true_iff.mp computed
          obtain ⟨evaluated, checked⟩ := (arguments_match_parameters reached).2 calling calls
          have through := checked fun _ => .error .missing
          rw [Option.isNone_iff_eq_none.mp accepted] at through
          exact ⟨past, _, calling, reached, calls, beq_iff_eq.mp two, evaluated, through⟩
      · cases computed
  · cases computed

end Lox
