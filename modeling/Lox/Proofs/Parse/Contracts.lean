import Lox.Proofs.Parse.States
import Lox.Proofs.Parse.Views

/-!
# Contracts of parsers

What a parser consumes is a text of numbered tokens.  One kind of contract tells what a text must
be if it was read without a fault; the other which texts are read, given what follows them.
Parsers look one token ahead, so contracts of both kinds tell the kind of the token that follows.
-/

namespace Lox.Parse

open Grammar

/-- The level of operators that the parser has for a level of the grammar. -/
def levelOf (tier : Tier) : Level := ⟨tier.operators, tier.node⟩

theorem levels_eq : levels = Tier.all.map levelOf := rfl

/-- The tree that the parser makes of a `for` is that of the grammar. -/
theorem isLoop_iff {init : Option Stmt} {condition increment : Option Expr} {body loop : Stmt} :
    IsLoop init condition increment body loop ↔ forLoop init condition increment body = loop := by
  constructor
  · intro isLoop
    induction isLoop with
    | endless => rfl
    | conditional => rfl
    | incremented _ ih => exact ih
    | @initialized init _ _ _ _ _ ih => exact congrArg (fun loop => Stmt.block [init, loop]) ih
  · rintro rfl
    have plain (body : Stmt) :
        IsLoop none condition none body (forLoop none condition none body) := by
      cases condition with
      | none => exact .endless
      | some condition => exact .conditional
    have repeated :
        IsLoop none condition increment body (forLoop none condition increment body) := by
      cases increment with
      | none => exact plain body
      | some increment => exact .incremented (plain (.block [body, .expression increment]))
    cases init with
    | none => exact repeated
    | some init => exact .initialized repeated

/-! ## The tokens left -/

/-- Tokens with their numbers, the first of which is given. -/
def numberedFrom (next : Nat) : List Token → Text
  | [] => []
  | token :: tokens => ⟨next, token⟩ :: numberedFrom (next + 1) tokens

theorem map_name_numberedFrom (next : Nat) (tokens : List Token) :
    (numberedFrom next tokens).map Reference.name = tokens := by
  induction tokens generalizing next with
  | nil => rfl
  | cons token tokens ih => rw [numberedFrom, List.map_cons, ih]

theorem numberedFrom_append (next : Nat) (tokens others : List Token) :
    numberedFrom next (tokens ++ others) =
      numberedFrom next tokens ++ numberedFrom (next + tokens.length) others := by
  induction tokens generalizing next with
  | nil => rfl
  | cons token tokens ih =>
      rw [List.cons_append, numberedFrom, numberedFrom, ih, List.cons_append, List.length_cons,
        Nat.add_assoc, Nat.add_comm 1]

/-- The tokens left, with their numbers. -/
def State.text (s : State) : Text := numberedFrom s.next s.rest

/-- The kind of the first token of a text, or else of what follows it. -/
def opens (text : Text) (follows : Option Kind) : Option Kind :=
  match text with
  | [] => follows
  | token :: _ => some token.kind

/-- From one state to the other a text is consumed, and no fault recorded. -/
structure Consumes (s : State) (text : Text) (t : State) : Prop where
  advances : Advances s (text.map Reference.name) t
  numbered : text = numberedFrom s.next (text.map Reference.name)
  errors : t.errors = s.errors

theorem opens_text (s : State) : opens s.text none = s.front? := by
  unfold State.text State.front?
  cases s.rest <;> rfl

theorem opens_append (before after : Text) (follows : Option Kind) :
    opens (before ++ after) follows = opens before (opens after follows) := by
  cases before <;> rfl

section Begins

variable {kinds : List Kind} {text : Text} {kind : Kind}

/-- A kind that a text does not start with is not in front. -/
theorem opens_ne (begins : Begins kinds text) (apart : kind ∉ kinds) (follows : Option Kind) :
    opens text follows ≠ some kind := by
  obtain ⟨token, rest, rfl, isOf⟩ := begins
  exact fun same => apart (Option.some.inj same ▸ isOf)

theorem front_ne (begins : Begins kinds text) (apart : kind ∉ kinds) (follows : Option Kind) :
    ((opens text follows).getD .eof == kind) = false := by
  obtain ⟨token, rest, rfl, isOf⟩ := begins
  exact beq_false_of_ne fun same => apart (same ▸ isOf)

end Begins

namespace Consumes

variable {s t u : State} {text more : Text}

theorem refl (s : State) : Consumes s [] s := ⟨.refl s, rfl, rfl⟩

/-- One token is consumed. -/
theorem advance {token : Token} {others : List Token} (front : s.rest = token :: others) :
    Consumes s [⟨s.next, token⟩] s.advance :=
  ⟨State.advances_advance front, rfl, s.errors_advance⟩

theorem trans (first : Consumes s text t) (then' : Consumes t more u) :
    Consumes s (text ++ more) u := by
  refine ⟨?_, ?_, then'.errors.trans first.errors⟩
  · rw [List.map_append]
    exact first.advances.trans then'.advances
  · have next := first.advances.next
    rw [List.map_append, numberedFrom_append, ← next, ← first.numbered, ← then'.numbered]

theorem rest_eq (consumes : Consumes s text t) : s.rest = text.map Reference.name ++ t.rest :=
  consumes.advances.rest

theorem seed (consumes : Consumes s text t) : t.seed = s.seed := consumes.advances.seed

theorem next (consumes : Consumes s text t) : t.next = s.next + text.length := by
  rw [consumes.advances.next, List.length_map]

theorem parts (consumes : Consumes s text t) : s.text = text ++ t.text := by
  have next := consumes.advances.next
  rw [State.text, consumes.rest_eq, numberedFrom_append, ← next, ← consumes.numbered, State.text]

/-- The kind of the token in front of which a text starts. -/
theorem front? (consumes : Consumes s text t) : s.front? = opens text t.front? := by
  rw [← opens_text s, consumes.parts, opens_append, opens_text]

theorem length (consumes : Consumes s text t) :
    s.rest.length = text.length + t.rest.length := by
  rw [consumes.rest_eq, List.length_append, List.length_map]

/-- A state is told by the text that was consumed to get there. -/
theorem unique (first : Consumes s text t) (second : Consumes s text u) : t = u :=
  first.advances.unique second.advances (first.errors.trans second.errors.symm)

/-- What was consumed is told by the state that it led to. -/
theorem text_unique (first : Consumes s text t) (second : Consumes s more t) : text = more :=
  List.append_cancel_right (first.parts.symm.trans second.parts)

theorem eq_of_nil (consumes : Consumes s [] t) : t = s := consumes.unique (.refl s)

/-- The first token of a text that is consumed. -/
theorem head {token : Reference} (consumes : Consumes s (token :: text) t) :
    Consumes s [token] s.advance ∧ Consumes s.advance text t ∧
      s.rest = token.name :: s.advance.rest ∧ token.id = s.next := by
  have rest := consumes.rest_eq
  rw [List.map_cons, List.cons_append] at rest
  have numbered := consumes.numbered
  rw [List.map_cons, numberedFrom] at numbered
  obtain ⟨same, others⟩ := List.cons.inj numbered
  have first := State.advances_advance rest
  refine ⟨same ▸ .advance rest, ⟨consumes.advances.cancel first, ?_, ?_⟩, ?_,
    congrArg Reference.id same⟩
  · rw [first.next]
    exact others
  · rw [consumes.errors, s.errors_advance]
  · rw [State.rest_advance rest, rest]

/-- Of a text that is consumed the front is consumed first. -/
theorem split (consumes : Consumes s (text ++ more) t) :
    ∃ m, Consumes s text m ∧ Consumes m more t := by
  induction text generalizing s with
  | nil => exact ⟨s, .refl s, consumes⟩
  | cons token text ih =>
      obtain ⟨first, others, _⟩ := consumes.head
      obtain ⟨m, front, back⟩ := ih others
      exact ⟨m, first.trans front, back⟩

end Consumes

/-! ## What is read without a fault -/

section Contracts

variable {α β : Type}

/--
A parser that answers has recorded a fault, or has consumed a text that the answer goes with, in
front of a token of the given kind.  It takes no fault off the record, whether it answers or not,
and leaves no operand for another parser to take.
-/
def Yields (read : Parser α) (post : Text → Option Kind → α → Prop) : Prop :=
  ∀ s, s.seed = none →
    match read s with
    | .ok a t => t.seed = none ∧ (s.errors.size < t.errors.size ∨
        ∃ text, Consumes s text t ∧ post text t.front? a)
    | .error _ t => t.seed = none ∧ s.errors.size ≤ t.errors.size

variable {read : Parser α} {P : Text → Option Kind → α → Prop}

theorem Yields.keeps (yields : Yields read P) {s : State} (unseeded : s.seed = none) :
    match read s with
    | .ok _ t => t.seed = none ∧ s.errors.size ≤ t.errors.size
    | .error _ t => t.seed = none ∧ s.errors.size ≤ t.errors.size := by
  have outcome := yields s unseeded
  revert outcome
  cases read s with
  | ok a t =>
      rintro ⟨left, more | ⟨text, consumes, _⟩⟩
      · exact ⟨left, Nat.le_of_lt more⟩
      · exact ⟨left, Nat.le_of_eq (congrArg Array.size consumes.errors).symm⟩
  | error e t => exact id

/-- Only how a parser reads where no operand waits to be taken matters. -/
theorem Yields.congr {read' : Parser α} (yields : Yields read' P)
    (same : ∀ s : State, s.seed = none → read s = read' s) : Yields read P := by
  intro s unseeded
  rw [same s unseeded]
  exact yields s unseeded

theorem Yields.pure {a : α} (holds : ∀ follows, P [] follows a) : Yields (Pure.pure a) P :=
  fun s unseeded => ⟨unseeded, .inr ⟨[], .refl s, holds s.front?⟩⟩

/-- What the second parser is told of the first is what the first has consumed. -/
theorem Yields.bind {next : α → Parser β} {Q : Text → Option Kind → β → Prop}
    (first : Yields read P)
    (then' : ∀ a, Yields (next a) fun more follows b =>
      ∀ text, P text (opens more follows) a → Q (text ++ more) follows b) :
    Yields (read >>= next) Q := by
  intro s unseeded
  have start := first s unseeded
  simp only [Bind.bind, EStateM.bind]
  revert start
  cases read s with
  | error e t => exact id
  | ok a t =>
      rintro ⟨left, start⟩
      dsimp only
      have onward := then' a t left
      have kept := (then' a).keeps left
      revert onward kept
      cases next a t with
      | error e u =>
          rintro _ ⟨left, kept⟩
          refine ⟨left, ?_⟩
          rcases start with more | ⟨text, consumes, _⟩
          · exact Nat.le_trans (Nat.le_of_lt more) kept
          · exact (congrArg Array.size consumes.errors) ▸ kept
      | ok b u =>
          rintro ⟨left, onward⟩ ⟨_, kept⟩
          refine ⟨left, ?_⟩
          rcases start with more | ⟨text, consumes, holds⟩
          · exact .inl (Nat.lt_of_lt_of_le more kept)
          · rcases onward with more | ⟨others, consumes', holds'⟩
            · exact .inl ((congrArg Array.size consumes.errors) ▸ more)
            · refine .inr ⟨text ++ others, consumes.trans consumes', holds' text ?_⟩
              rw [← consumes'.front?]
              exact holds

theorem Yields.mono {Q : Text → Option Kind → α → Prop} (yields : Yields read P)
    (weakens : ∀ text follows a, P text follows a → Q text follows a) : Yields read Q := by
  intro s unseeded
  have start := yields s unseeded
  revert start
  cases read s with
  | error e t => exact id
  | ok a t =>
      rintro ⟨left, more | ⟨text, consumes, holds⟩⟩
      · exact ⟨left, .inl more⟩
      · exact ⟨left, .inr ⟨text, consumes, weakens _ _ _ holds⟩⟩

theorem Yields.map {f : α → β} {Q : Text → Option Kind → β → Prop} (yields : Yields read P)
    (weakens : ∀ text follows a, P text follows a → Q text follows (f a)) :
    Yields (f <$> read) Q := by
  rw [map_eq_pure_bind]
  refine yields.bind fun a => .pure fun follows text holds => ?_
  rw [List.append_nil]
  exact weakens text follows a holds

end Contracts

/-! ## The parsers that all others are made of -/

section Basic

variable {α : Type} {P : Text → Option Kind → α → Prop}

theorem yields_fail (fault : StaticFault) : Yields (fail fault) P :=
  fun _ unseeded => ⟨unseeded, Nat.le_refl _⟩

theorem yields_failAt (token : Token) (fault : StaticFault) : Yields (failAt token fault) P :=
  fun _ unseeded => ⟨unseeded, Nat.le_refl _⟩

theorem yields_peek :
    Yields peek fun text follows token => text = [] ∧ token.kind = follows.getD .eof :=
  fun s unseeded => ⟨unseeded, .inr ⟨[], .refl s, rfl, s.kind_peek⟩⟩

theorem yields_check {kind : Kind} (inside : kind ≠ .eof) :
    Yields (check kind) fun text follows yes => text = [] ∧ (yes = true ↔ follows = some kind) := by
  intro s unseeded
  refine ⟨unseeded, .inr ⟨[], .refl s, rfl, ?_⟩⟩
  rw [s.kind_peek]
  cases s.front? <;> simp [inside.symm]

theorem yields_recordAt (token : Token) (fault : StaticFault) :
    Yields (recordAt token fault) fun _ _ _ => False := by
  intro s unseeded
  refine ⟨unseeded, .inl ?_⟩
  simp [State.record]

/-- The answers of a parser that may consume one token. -/
inductive MayTake (kinds : List Kind) : Text → Option Kind → Option Reference → Prop where
  | no {follows : Option Kind} (other : ∀ kind ∈ kinds, follows ≠ some kind) :
      MayTake kinds [] follows none
  | yes {follows : Option Kind} {taken : Reference} (isOf : taken.kind ∈ kinds) :
      MayTake kinds [taken] follows (some taken)

theorem yields_accept? {kinds : List Kind} (inside : .eof ∉ kinds) :
    Yields (accept? kinds) (MayTake kinds) := by
  intro s unseeded
  by_cases other : ∀ kind ∈ kinds, s.front? ≠ some kind
  · rw [accept?_of_other inside other]
    exact ⟨unseeded, .inr ⟨[], .refl s, .no other⟩⟩
  · simp only [not_forall, not_not] at other
    obtain ⟨kind, isOf, front⟩ := other
    cases left : s.rest with
    | nil =>
        rw [State.front?, left] at front
        cases front
    | cons token others =>
        rw [State.front?, left] at front
        cases front
        have consumes := Consumes.advance left
        rw [accept?_of_front left isOf]
        exact ⟨consumes.seed.trans unseeded, .inr ⟨_, consumes, .yes isOf⟩⟩

/-- The one token of a text, of the given kind. -/
def One (kind : Kind) (text : Text) (taken : Reference) : Prop :=
  text = [taken] ∧ taken.kind = kind

theorem yields_expect {kind : Kind} (inside : kind ≠ .eof) (what : Expected) :
    Yields (expect kind what) fun text _ taken => One kind text taken := by
  unfold expect
  refine (yields_accept? (by simpa using inside.symm)).bind fun answer => ?_
  cases answer with
  | none => exact yields_fail _
  | some taken =>
      refine .pure fun follows text accepted => ?_
      cases accepted with
      | yes isOf => exact ⟨rfl, List.mem_singleton.mp isOf⟩

end Basic

/-! ## What is read for certain -/

section Takes

variable {α β : Type}

/--
In front of at most as many tokens as the bound says, the first of which are the given text and
the next of a kind that stops it, the parser consumes the text and gives the answer.
-/
def Takes (read : Parser α) (bound : Nat) (text : Text) (stops : Option Kind → Prop) (a : α) :
    Prop :=
  ∀ s t, s.seed = none → Consumes s text t → s.rest.length ≤ bound → stops t.front? →
    read s = .ok a t

/-- Anything may follow. -/
def Anything : Option Kind → Prop := fun _ => True

variable {read : Parser α} {bound bound' : Nat} {text more : Text}
  {stops stops' : Option Kind → Prop} {a : α} {b : β} {token : Reference} {kinds : List Kind}

namespace Takes

theorem mono (takes : Takes read bound text stops a) (fewer : bound' ≤ bound)
    (weakens : ∀ follows, stops' follows → stops follows) : Takes read bound' text stops' a :=
  fun s t unseeded consumes few stop =>
    takes s t unseeded consumes (Nat.le_trans few fewer) (weakens _ stop)

/-- Only how a parser reads where no operand waits to be taken matters. -/
theorem congr {read' : Parser α} (takes : Takes read' bound text stops a)
    (same : ∀ s : State, s.seed = none → read s = read' s) : Takes read bound text stops a :=
  fun s t unseeded consumes few stop =>
    (same s unseeded).trans (takes s t unseeded consumes few stop)

/-- That a text stands somewhere may be used to see how it is read. -/
theorem of_consumes
    (takes : ∀ {s t}, s.seed = none → Consumes s text t → Takes read bound text stops a) :
    Takes read bound text stops a :=
  fun s t unseeded consumes => takes unseeded consumes s t unseeded consumes

theorem pure : Takes (Pure.pure a) bound [] stops a := by
  intro s t _ consumes _ _
  rw [consumes.eq_of_nil]
  rfl

theorem bind {next : α → Parser β} (first : Takes read bound' text stops' a)
    (fewer : bound ≤ bound') (stopped : ∀ follows, stops follows → stops' (opens more follows))
    (then' : Takes (next a) (bound - text.length) more stops b) :
    Takes (read >>= next) bound (text ++ more) stops b := by
  intro s t unseeded consumes few stop
  obtain ⟨m, front, back⟩ := consumes.split
  have length := front.length
  simp only [Bind.bind, EStateM.bind]
  rw [first s m unseeded front (Nat.le_trans few fewer) (back.front? ▸ stopped _ stop)]
  exact then' m t (front.seed.trans unseeded) back (by omega) stop

/-- Nothing is consumed behind the text that is read first. -/
theorem done {next : α → Parser β} (first : Takes read bound' text stops' a)
    (fewer : bound ≤ bound') (stopped : ∀ follows, stops follows → stops' follows)
    (then' : Takes (next a) (bound - text.length) [] stops b) :
    Takes (read >>= next) bound text stops b := by
  have whole := first.bind fewer stopped then'
  rwa [List.append_nil] at whole

theorem map {f : α → β} (takes : Takes read bound text stops a) :
    Takes (f <$> read) bound text stops (f a) := by
  intro s t unseeded consumes few stop
  simp only [Functor.map, EStateM.map]
  rw [takes s t unseeded consumes few stop]

/-- With no token left there is no text to be read. -/
theorem of_zero (nonempty : text ≠ []) : Takes read 0 text stops a := by
  intro s t _ consumes few _
  have length := consumes.length
  have positive := List.length_pos_iff.mpr nonempty
  omega

/-- The first token is of a kind that is asked for. -/
theorem accept {next : Option Reference → Parser β} (isOf : token.kind ∈ kinds)
    (then' : Takes (next (some token)) (bound - 1) text stops b) :
    Takes (accept? kinds >>= next) bound (token :: text) stops b := by
  have taken : Takes (accept? kinds) bound [token] Anything (some token) := by
    intro s t _ consumes _ _
    obtain ⟨first, others, front, number⟩ := consumes.head
    rw [others.eq_of_nil, accept?_of_front front isOf, ← number]
  exact taken.bind (Nat.le_refl bound) (fun _ _ => trivial) then'

/-- What stands in front is of none of the kinds that are asked for. -/
theorem skip {next : Option Reference → Parser β} (inside : .eof ∉ kinds)
    (other : ∀ follows, stops follows → ∀ kind ∈ kinds, opens text follows ≠ some kind)
    (then' : Takes (next none) bound text stops b) :
    Takes (accept? kinds >>= next) bound text stops b := by
  intro s t unseeded consumes few stop
  simp only [Bind.bind, EStateM.bind]
  rw [accept?_of_other inside (consumes.front? ▸ other _ stop)]
  exact then' s t unseeded consumes few stop

/-- The text starts with none of the kinds that are asked for. -/
theorem pass {starts : List Kind} {next : Option Reference → Parser β} (begins : Begins starts text)
    (apart : ∀ kind ∈ kinds, kind ∉ .eof :: starts) (then' : Takes (next none) bound text stops b) :
    Takes (accept? kinds >>= next) bound text stops b := by
  refine .skip (fun listed => apart _ listed List.mem_cons_self)
    (fun follows _ kind listed => opens_ne begins ?_ follows) then'
  exact fun started => apart kind listed (List.mem_cons_of_mem _ started)

theorem one {kind : Kind} {what : Expected} (isOf : token.kind = kind) :
    Takes (Parse.expect kind what) bound [token] Anything token := by
  unfold Parse.expect
  exact accept (List.mem_singleton.mpr isOf) pure

theorem expect {kind : Kind} {what : Expected} {next : Reference → Parser β}
    (isOf : token.kind = kind) (then' : Takes (next token) (bound - 1) text stops b) :
    Takes (Parse.expect kind what >>= next) bound (token :: text) stops b :=
  (one isOf).bind (Nat.le_refl bound) (fun _ _ => trivial) then'

/-- The token in front is looked at. -/
theorem peek {next : Token → Parser β} {P : Kind → Prop}
    (front : ∀ follows, stops follows → P ((opens text follows).getD .eof))
    (then' : ∀ token : Token, P token.kind → Takes (next token) bound text stops b) :
    Takes (Parse.peek >>= next) bound text stops b := by
  intro s t unseeded consumes few stop
  have front := front _ stop
  rw [← consumes.front?, ← State.kind_peek] at front
  exact then' s.peek front s t unseeded consumes few stop

theorem check {kind : Kind} {next : Bool → Parser β} (answer : Bool)
    (front : ∀ follows, stops follows → ((opens text follows).getD .eof == kind) = answer)
    (then' : Takes (next answer) bound text stops b) :
    Takes (Parse.check kind >>= next) bound text stops b := by
  intro s t unseeded consumes few stop
  have front := front _ stop
  rw [← consumes.front?, ← State.kind_peek] at front
  have looked : Parse.check kind s = .ok answer s := by rw [← front]; rfl
  simp only [Bind.bind, EStateM.bind]
  rw [looked]
  exact then' s t unseeded consumes few stop

end Takes

end Takes

end Lox.Parse
