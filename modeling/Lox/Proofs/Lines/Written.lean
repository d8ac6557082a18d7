import Lox.Proofs.Lines.Raising
import Lox.Proofs.Matching.Runs
import Lox.Proofs.Origins
import Lox.Proofs.Scope.Texts

/-!
# The tokens of a machine are written

Steps take the trees of programs apart and make no tokens.  So every token that a machine is busy
with, waits to go on with, or keeps in a function is one of a text that was loaded; and lines are
counted from one.
-/

namespace Lox

/-- Nothing is written on line 0. -/
theorem Token.line_ne_zero {source : String} {token : Token} (written : token ∈ ofSource source) :
    token.line ≠ 0 := by
  have counted : ofSource source =
      ((scanFrom 0 source.toList).filterMap Scanned.token?).map (Token.move (.down 1)) := by
    rw [← tokens_move, ← scanFrom_down]
    rfl
  rw [counted] at written
  obtain ⟨other, _, rfl⟩ := List.mem_map.mp written
  exact Nat.succ_ne_zero other.line

namespace Machine

/-- All tokens of a machine have a property, those of the functions that it keeps too. -/
structure Written (K : Token → Prop) (m : Machine) : Prop where
  busy : ∀ token ∈ m.tokens, K token
  kept : ∀ {value decl}, m.Carries value → value.Runs decl → ∀ token ∈ decl.tokens, K token

section Written

variable {K K' : Token → Prop} {m n : Machine} {files : String → Except Failure String}

theorem Written.mono (written : m.Written K) (wider : ∀ token, K token → K' token) :
    m.Written K' :=
  ⟨fun token held => wider token (written.busy token held),
    fun carries runs token held => wider token (written.kept carries runs token held)⟩

theorem Written.tasks (written : m.Written K) {tasks : List Task} (left : tasks <:+ m.tasks) :
    ∀ token ∈ tasks.flatMap Task.tokens, K token := by
  intro token held
  obtain ⟨task, waits, held⟩ := List.mem_flatMap.mp held
  refine written.busy token (List.mem_append_right _ ?_)
  exact List.mem_flatMap.mpr ⟨task, left.subset waits, held⟩

theorem tokens_of_body {decl : FunDecl} {token : Token} (held : token ∈ tokensBody decl.body) :
    token ∈ decl.tokens := by
  cases decl
  exact List.mem_cons_of_mem _ (List.mem_append_right _ held)

theorem tokens_of_method {methods : List FunDecl} {decl : FunDecl} (listed : decl ∈ methods)
    {token : Token} (held : token ∈ decl.tokens) : token ∈ tokensMethods methods := by
  induction methods with
  | nil => cases listed
  | cons first rest ih =>
      rcases List.mem_cons.mp listed with rfl | later
      · exact List.mem_append_left _ held
      · exact List.mem_append_right _ (ih later)

/-- The methods of a class that is declared are written in the declaration, or inherited. -/
theorem Written.declares (written : m.Written K) {name : Token} {cls : Class}
    (declares : m.DeclaresClass name cls) {method : Method} (held : cls.HasMethod method) :
    ∀ token ∈ method.decl.tokens, K token := by
  intro token inMethod
  cases declares with
  | root now =>
      cases held with
      | own found =>
          have listed := tokens_of_method (State.mem_of_methodTable found).1 inMethod
          refine written.busy token (List.mem_append_left _ ?_)
          rw [now]
          exact List.mem_cons_of_mem _ listed
      | inherited above held => cases above
  | derived now read =>
      cases held with
      | own found =>
          have listed := tokens_of_method (State.mem_of_methodTable found).1 inMethod
          refine written.busy token (List.mem_append_left _ ?_)
          rw [now]
          exact List.mem_cons_of_mem _ (List.mem_cons_of_mem _ listed)
      | inherited above held =>
          cases above
          exact written.kept (carries_read read) (.cls held) token inMethod

/-- The functions that a step makes are written in what it looks at, or were kept before. -/
theorem Written.offers (written : m.Written K) {value : Value} (offers : m.Offers value)
    {decl : FunDecl} (runs : value.Runs decl) : ∀ token ∈ decl.tokens, K token := by
  rcases offers with carries | makes
  · exact written.kept carries runs
  · cases makes with
    | plain isPlain => cases runs <;> cases isPlain
    | function now =>
        cases runs
        intro token held
        refine written.busy token (List.mem_append_left _ ?_)
        rw [now]
        exact held
    | method binds =>
        cases runs
        obtain ⟨value, carries, _, runs⟩ := holds_of_binding binds
        exact written.kept carries runs
    | cls declares =>
        cases runs with
        | cls held => exact written.declares declares held
    | inst calls isClass =>
        cases runs with
        | inst held =>
            have carries := (Calling.offers calls).1
            rw [isClass] at carries
            exact written.kept carries (.cls held)

/-- What waits after the call of a function was waiting before. -/
theorem rest_suffix_of_activation {a : Activation} (begins : m.activation? = some a) :
    a.rest <:+ m.tasks := by
  cases activates_of_activation begins with
  | closure calls => exact rest_suffix_of_calling calls
  | init calls => exact rest_suffix_of_calling calls

/-- After a step a machine is busy with what it had before, or with a text that it loads. -/
theorem Written.turns (written : m.Written K)
    (loads : ∀ loaded, m.loads? files = some loaded →
      ∀ token ∈ tokensBody loaded.program.stmts, K token)
    (turns : Turns files m n) : ∀ token ∈ n.tokens, K token := by
  intro token held
  cases turns with
  | goes sound left lineless read =>
      rw [tokens, List.flatMap_append, ← List.append_assoc] at held
      rcases List.mem_append.mp held with now | below
      · exact written.busy token (read now)
      · exact written.tasks left token below
  | prints now =>
      rcases List.mem_append.mp held with inValue | below
      · refine written.busy token (List.mem_append_left _ ?_)
        rw [now]
        exact inValue
      · exact written.tasks List.suffix_rfl token below
  | enters begins =>
      rw [Activation.machine_eq] at held
      rcases List.mem_append.mp held with none | inBody
      · cases none
      rcases List.mem_append.mp inBody with inBody | below
      · obtain ⟨value, carries, runs⟩ := exists_runs_of_activation begins
        exact written.kept carries runs token (tokens_of_body inBody)
      · exact written.tasks (rest_suffix_of_activation begins) token below
  | includes isNext =>
      rcases List.mem_append.mp held with none | inText
      · cases none
      rcases List.mem_append.mp inText with inText | below
      · exact loads _ isNext token inText
      · exact written.tasks List.suffix_rfl token below
  | breaks _ left => exact written.tasks left token held
  | refuses _ waits _ =>
      refine written.tasks ?_ token held
      rw [waits]
      exact List.suffix_cons _ _
  | passes _ waits =>
      refine written.tasks ?_ token held
      rw [waits]
      exact List.suffix_cons _ _

theorem Written.advance (written : m.Written K)
    (loads : ∀ loaded, m.loads? files = some loaded →
      ∀ token ∈ tokensBody loaded.program.stmts, K token) : (m.advance files).Written K := by
  refine ⟨?_, fun carries runs => written.offers (offers_of_carries carries) runs⟩
  by_cases ended : m.Gives []
  · obtain ⟨outcome, isGive, none⟩ := ended
    have final : m.ending? = some (.outcome outcome) := by
      rw [ending?_eq_outcome, ← isGive, ← none]
    rw [advance_of_ended final]
    exact written.busy
  · exact written.turns loads (turns_advance ended files)

end Written

end Machine

/-! ## The tokens of a session -/

section Sessions

variable {past : Past} {m : Machine}

/-- The token is one of a text that was loaded. -/
def Past.Writes (past : Past) (token : Token) : Prop :=
  ∃ loaded ∈ past.loaded, token ∈ tokensBody loaded.program.stmts

/-- Between steps nothing is kept that was not kept before. -/
theorem Rests.kept {K : Token → Prop} {past' : Past} {n : Machine} (rests : Rests past m past' n)
    (written : m.Written K) {value : Value} {decl : FunDecl} (carries : n.Carries value)
    (runs : value.Runs decl) : ∀ token ∈ decl.tokens, K token := by
  rcases rests.carries carries with isPlain | before
  · cases runs <;> cases isPlain
  · exact written.kept before runs

/-- Every token of a machine that a session gets to is one of a text that was loaded. -/
theorem Reached.written (reached : Reached past m) : m.Written past.Writes := by
  induction reached with
  | fresh output now =>
      refine ⟨List.forall_mem_nil _, fun carries runs => ?_⟩
      have isPlain := Machine.isPlain_of_fresh carries
      cases runs <;> cases isPlain
  | @begin past outcome s source program before compiled ih =>
      have wider (token : Token) (earlier : past.Writes token) :
          Past.Writes ⟨past.loaded ++ [⟨s.nextReference, program⟩], past.opened⟩ token := by
        obtain ⟨loaded, among, held⟩ := earlier
        exact ⟨loaded, List.mem_append_left _ among, held⟩
      have rests : Rests past ⟨.give outcome, [], s⟩ _ _ := .begin compiled
      refine ⟨fun token held => ?_, rests.kept (ih.mono wider)⟩
      have held : token ∈ tokensBody program.stmts := by
        simpa [Machine.tokens, Machine.ofProgram, Control.tokens, Task.tokens] using held
      exact ⟨_, List.mem_append_right _ List.mem_cons_self, held⟩
  | @advance past m files before ih =>
      refine (ih.mono ?_).advance ?_
      · rintro token ⟨loaded, among, held⟩
        exact ⟨loaded, List.mem_append_left _ among, held⟩
      · intro loaded loads token held
        exact ⟨loaded, List.mem_append_right _ (Option.mem_toList.mpr loads), held⟩
  | @pass past m now output before ih =>
      exact ⟨ih.busy, (Rests.pass past m now output).kept ih⟩
  | @setBase past outcome s base before ih =>
      exact ⟨ih.busy, (Rests.setBase past outcome s base).kept ih⟩

/-- Every text that was loaded was compiled. -/
theorem Reached.compiled (reached : Reached past m) :
    ∀ loaded ∈ past.loaded, ∃ source, Program.compile loaded.first source = .ok loaded.program := by
  induction reached with
  | fresh output now => exact List.forall_mem_nil _
  | begin before compiled ih =>
      exact List.forall_mem_append.mpr ⟨ih, List.forall_mem_singleton.mpr ⟨_, compiled⟩⟩
  | @advance past m files before ih =>
      refine List.forall_mem_append.mpr ⟨ih, fun loaded held => ?_⟩
      have loads := Option.mem_toList.mp held
      unfold Machine.loads? at loads
      split at loads
      · split at loads
        · split at loads
          · next compiled =>
              cases loads
              exact ⟨_, compiled⟩
          · cases loads
        · cases loads
      · cases loads
  | pass now output before ih => exact ih
  | setBase base before ih => exact ih

/-- No token of a machine is on line 0. -/
theorem Reached.line_ne_zero (reached : Reached past m) {token : Token} (held : token ∈ m.tokens) :
    token.line ≠ 0 := by
  obtain ⟨loaded, among, held⟩ := reached.written.busy token held
  obtain ⟨source, compiled⟩ := reached.compiled loaded among
  exact Token.line_ne_zero (Program.mem_ofSource_of_mem_tokens compiled token held)

end Sessions

end Lox
