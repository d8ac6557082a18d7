import Lox.Machine.Step

/-!
# Native functions

A native function ends the program, answers a value, or fails; it writes at most to the output.  It
does not know where it was called, so it fails without a line, and the call that it was called by
supplies its own.  A line of output that is refused fails in the same way, in a `print` statement
too.
-/

namespace Lox

namespace Outcome

/-- What comes of writing a line in a place with a line of its own, by the error of the output. -/
def writtenAt (line : Nat) : Option String → Outcome
  | none => .nil
  | some detail => .failed (.runtime line (.unwritableOutput detail))

theorem withLineIfMissing_written (line : Nat) (refusal : Option String) :
    (written refusal).withLineIfMissing line = writtenAt line refusal := by
  cases refusal <;> rfl

end Outcome

namespace Machine

variable {args : List Value} {line : Nat} {tasks : List Task} {s : State}

/-- The faults of the native functions. -/
inductive NativeFault (native : Native) (args : List Value) (s : State) : RuntimeFault → Prop where
  | clock (isClock : native = .clock) (early : s.now < 0) :
      NativeFault native args s .clockBeforeEpoch
  | exit (isExit : native = .exit) (noNumber : args.head?.bind Value.number? = none) :
      NativeFault native args s .exitCodeNotNumber
  | print {detail : String} (isPrint : native = .print)
      (refused : (s.writeLine (" ".intercalate (args.map Value.text))).1 = some detail) :
      NativeFault native args s (.unwritableOutput detail)

/-- What a native function comes to: only the output may have changed. -/
inductive NativeEnds (native : Native) (args : List Value) (s : State) : Control × State → Prop where
  | exits (code : UInt8) : NativeEnds native args s (.exited code, s)
  | answers {value : Value} (isPlain : value = .nil ∨ ∃ x, value = .number x) (output : Sink) :
      NativeEnds native args s (.give (.value value), { s with output := output })
  | fails {fault : RuntimeFault} (isFault : NativeFault native args s fault) (output : Sink) :
      NativeEnds native args s (.give (.failed (.unplaced fault)), { s with output := output })

/-- Every failure of a native function is one of its faults, without a line. -/
theorem runNative_ends (native : Native) (args : List Value) (s : State) :
    NativeEnds native args s (runNative native args s) := by
  cases native with
  | clock =>
      unfold runNative
      dsimp only
      split
      · next early => exact .fails (.clock rfl early) s.output
      · exact .answers (.inr ⟨_, rfl⟩) s.output
  | exit =>
      unfold runNative
      dsimp only
      split
      · exact .exits _
      · next noNumber => exact .fails (.exit rfl noNumber) s.output
  | print =>
      unfold runNative
      dsimp only
      rw [State.writeLine_eq]
      cases refused : (s.output.writeLine (" ".intercalate (args.map Value.text))).1 with
      | none => exact .answers (.inl rfl) _
      | some detail => exact .fails (.print rfl (by rw [State.writeLine_eq, refused])) _

/-- What the call of a native function comes to: the errors have the line of the call. -/
inductive CallsNative (native : Native) (args : List Value) (line : Nat) (tasks : List Task)
    (s : State) : Machine → Prop where
  | exits (code : UInt8) : CallsNative native args line tasks s ⟨.exited code, tasks, s⟩
  | answers {value : Value} (isPlain : value = .nil ∨ ∃ x, value = .number x) (output : Sink) :
      CallsNative native args line tasks s
        (giving (.value value) tasks { s with output := output })
  | fails {fault : RuntimeFault} (isFault : NativeFault native args s fault) (output : Sink) :
      CallsNative native args line tasks s
        (giving (.failed (.runtime line fault)) tasks { s with output := output })

theorem callNative_calls (native : Native) (args : List Value) (line : Nat) (tasks : List Task)
    (s : State) : CallsNative native args line tasks s (callNative native args line tasks s) := by
  have ends := runNative_ends native args s
  unfold callNative
  generalize runNative native args s = ended at ends ⊢
  cases ends with
  | exits code => exact .exits code
  | answers isPlain output => exact .answers isPlain output
  | fails isFault output => exact .fails isFault output

/-- With a fault a native function fails. -/
theorem NativeFault.control_callNative {native : Native} {fault : RuntimeFault}
    (isFault : NativeFault native args s fault) (line : Nat) (tasks : List Task) :
    ∃ t, callNative native args line tasks s = giving (.failed (.runtime line fault)) tasks t := by
  cases isFault with
  | clock isClock early =>
      subst isClock
      exact ⟨s, by simp [callNative, runNative, early, Outcome.withLineIfMissing]⟩
  | exit isExit noNumber =>
      subst isExit
      exact ⟨s, by simp [callNative, runNative, noNumber, Outcome.withLineIfMissing]⟩
  | print isPrint refused =>
      subst isPrint
      refine ⟨(s.writeLine (" ".intercalate (args.map Value.text))).2, ?_⟩
      simp [callNative, runNative, refused, Outcome.written, Outcome.withLineIfMissing]

theorem callNative_print (args : List Value) (line : Nat) (tasks : List Task) (s : State) :
    callNative .print args line tasks s =
      giving (.writtenAt line (s.writeLine (" ".intercalate (args.map Value.text))).1) tasks
        (s.writeLine (" ".intercalate (args.map Value.text))).2 := by
  rw [← Outcome.withLineIfMissing_written]
  rfl

theorem resume_print (value : Value) (line : Nat) (tasks : List Task) (s : State) :
    resume value (.print line) tasks s =
      giving (.writtenAt line (s.writeLine value.text).1) tasks (s.writeLine value.text).2 := by
  rw [← Outcome.withLineIfMissing_written]
  rfl

end Machine

end Lox
