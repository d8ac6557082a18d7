import Lox.Proofs.Parse.Seeds

/-!
# The pace of parsers

Parsers have bounds that the tokens left do not exceed.  Two parsers that differ in their bounds
only keep pace wherever this is so: they consume the same tokens, find the same faults and answer
alike, so that no bound is ever what ends a reading.  Nor does it matter how the end token is
spelled, what follows it, or whether it is made up.

Each parser has a rate, at which it may record faults for the tokens that it consumes.
-/

namespace Lox.Parse

variable {α β : Type}

/-- The same tokens up to the end, and others from there on. -/
def State.endingWith (beyond : List Token) (s : State) : State :=
  { s with tokens := s.rest ++ beyond }

theorem State.endingWith_beyond (s : State) : s.endingWith s.beyond = s := by
  rw [endingWith, rest_append_beyond]

/-- Other tokens from the end on, where the end token that is seen is on the same line. -/
structure EndsLike (s : State) (beyond : List Token) : Prop where
  stops : ∀ token, beyond.head? = some token → token.kind = .eof
  line : (s.endingWith beyond).ending.line = s.ending.line

namespace EndsLike

variable {s t : State} {beyond taken : List Token}

theorem refl (s : State) : EndsLike s s.beyond := by
  refine ⟨fun token front => ?_, by rw [s.endingWith_beyond]⟩
  have stops := List.head?_dropWhile_not (fun token : Token => token.kind != .eof) s.tokens
  rw [show s.tokens.dropWhile (fun token => token.kind != .eof) = s.beyond from rfl, front] at stops
  simpa using stops

theorem rest (alike : EndsLike s beyond) : (s.endingWith beyond).rest = s.rest := by
  have inside : ∀ token ∈ s.rest, (token.kind != .eof) = true := by
    intro token held
    simpa using State.kind_of_mem_rest held
  unfold State.rest State.endingWith
  rw [List.takeWhile_append_of_pos inside]
  cases front : beyond with
  | nil => exact List.append_nil _
  | cons token others =>
      have isEof := alike.stops token (by rw [front]; rfl)
      rw [List.takeWhile_cons_of_neg (by simp [isEof]), List.append_nil]
      rfl

/-- What one state consumes the other may consume as well. -/
theorem advances (alike : EndsLike s beyond) (advances : Advances s taken t) :
    EndsLike t beyond ∧ Advances (s.endingWith beyond) taken (t.endingWith beyond) := by
  have others : Advances (s.endingWith beyond) taken (t.endingWith beyond) := by
    refine ⟨?_, advances.inside, advances.next, advances.eof, advances.seed⟩
    show s.rest ++ beyond = taken ++ (t.rest ++ beyond)
    rw [advances.rest, List.append_assoc]
  refine ⟨⟨alike.stops, ?_⟩, others⟩
  rw [others.ending, advances.ending, alike.line]

theorem kind_peek (alike : EndsLike s beyond) : (s.endingWith beyond).peek.kind = s.peek.kind := by
  rw [State.kind_peek, State.kind_peek, State.front?, State.front?, alike.rest]

theorem staticAt_peek (alike : EndsLike s beyond) (fault : StaticFault) :
    Error.staticAt (s.endingWith beyond).peek fault = Error.staticAt s.peek fault := by
  cases left : s.rest with
  | nil =>
      have left' : (s.endingWith beyond).rest = [] := by rw [alike.rest, left]
      rw [State.peek_nil left, State.peek_nil left', Error.staticAt, Error.staticAt, alike.line,
        State.kind_ending, State.kind_ending]
      rfl
  | cons token others =>
      have left' : (s.endingWith beyond).rest = token :: others := by rw [alike.rest, left]
      rw [State.peek_cons left, State.peek_cons left']

/-- A token that is consumed in one state is consumed in the other. -/
theorem advance (alike : EndsLike s beyond) :
    (s.endingWith beyond).advance = s.advance.endingWith beyond := by
  cases left : s.rest with
  | nil =>
      have left' : (s.endingWith beyond).rest = [] := by rw [alike.rest, left]
      rw [State.advance_nil left, State.advance_nil left']
  | cons token others =>
      have left' : (s.endingWith beyond).rest = token :: others := by rw [alike.rest, left]
      have second := (alike.advances (State.advances_advance left)).2
      exact (State.advances_advance left').unique second
        ((State.errors_advance _).trans s.errors_advance.symm)

end EndsLike

/-! ## Rates -/

/-- How many faults are recorded at most for a number of tokens. -/
inductive Rate where
  | free
  | single
  /-- One for each token, and one in advance. -/
  | late
  /-- Two for each token but the first. -/
  | spared
  | double

def Rate.cost : Rate → Nat → Nat
  | free, _ => 0
  | single, count => count
  | late, count => count + 1
  | spared, count => 2 * count - 1
  | double, count => 2 * count

/--
What two parsers record one after the other, of which the first consumes so many tokens at least.
-/
structure Rate.Joins (least : Nat) (first next whole : Rate) : Prop where
  alone : ∀ count, first.cost count ≤ whole.cost count
  both : ∀ count more, least ≤ count →
    first.cost count + next.cost more ≤ whole.cost (count + more)

namespace Rate

variable {least : Nat}

theorem cost_mono (rate : Rate) {count more : Nat} (fewer : count ≤ more) :
    rate.cost count ≤ rate.cost more := by
  cases rate with
  | free => exact Nat.le_refl _
  | single => exact fewer
  | late => exact Nat.succ_le_succ fewer
  | spared => exact Nat.sub_le_sub_right (Nat.mul_le_mul_left 2 fewer) 1
  | double => exact Nat.mul_le_mul_left 2 fewer

theorem joins_free {rate : Rate} : Joins least free rate rate := by
  constructor
  · exact fun _ => Nat.zero_le _
  · intro count more _
    rw [cost, Nat.zero_add]
    exact rate.cost_mono (Nat.le_add_left more count)

theorem joins_single : Joins least single single single := by
  constructor
  · exact fun _ => Nat.le_refl _
  · exact fun _ _ _ => Nat.le_refl _

theorem joins_late : Joins least single late late := by
  constructor
  · exact Nat.le_succ
  · exact fun _ _ _ => Nat.le_refl _

theorem joins_record : Joins least late single late := by
  constructor
  · exact fun _ => Nat.le_refl _
  · intro count more _
    simp only [cost]
    omega

theorem joins_double : Joins least double double double := by
  constructor
  · exact fun _ => Nat.le_refl _
  · intro count more _
    simp only [cost]
    omega

theorem joins_token : Joins 1 free late single := by
  constructor
  · exact fun _ => Nat.zero_le _
  · intro count more _
    simp only [cost]
    omega

theorem joins_word : Joins 1 free double spared := by
  constructor
  · exact fun _ => Nat.zero_le _
  · intro count more _
    simp only [cost]
    omega

theorem joins_spared : Joins 1 single double spared := by
  constructor
  · intro count
    simp only [cost]
    omega
  · intro count more _
    simp only [cost]
    omega

/-- One rate allows whatever another does. -/
def Within (rate wider : Rate) : Prop := ∀ count, rate.cost count ≤ wider.cost count

theorem single_late : Within single late := fun _ => Nat.le_succ _

theorem single_double : Within single double := by
  intro count
  simp only [cost]
  omega

theorem spared_double : Within spared double := fun _ => Nat.sub_le _ _

end Rate

/-- Tokens were consumed, as many as told at least, and not too many faults recorded. -/
def Spends (rate : Rate) (least : Nat) (s t : State) : Prop :=
  ∃ tokens, Advances s tokens t ∧ least ≤ tokens.length ∧
    t.errors.size ≤ s.errors.size + rate.cost tokens.length

namespace Spends

variable {rate first next whole : Rate} {least least' m : Nat} {s t u : State}

theorem refl (rate : Rate) (s : State) : Spends rate 0 s s :=
  ⟨[], .refl s, Nat.le_refl _, Nat.le_add_right _ _⟩

theorem mono {wider : Rate} (spends : Spends rate least s t) (within : rate.Within wider)
    (fewer : m ≤ least) : Spends wider m s t := by
  obtain ⟨tokens, advances, far, errors⟩ := spends
  have := within tokens.length
  exact ⟨tokens, advances, Nat.le_trans fewer far, by omega⟩

theorem trans (before : Spends first least s t) (after : Spends next least' t u)
    (joins : Rate.Joins least first next whole) (enough : m ≤ least + least') :
    Spends whole m s u := by
  obtain ⟨tokens, advances, far, errors⟩ := before
  obtain ⟨more, advances', far', errors'⟩ := after
  refine ⟨tokens ++ more, advances.trans advances', ?_, ?_⟩
  · rw [List.length_append]
    omega
  · have paid := joins.both tokens.length more.length far
    rw [List.length_append]
    omega

theorem length (spends : Spends rate least s t) : t.rest.length + least ≤ s.rest.length := by
  obtain ⟨tokens, advances, far, _⟩ := spends
  rw [advances.length]
  omega

theorem seed (spends : Spends rate least s t) : t.seed = s.seed := by
  obtain ⟨_, advances, _⟩ := spends
  exact advances.seed

theorem endsLike {beyond : List Token} (spends : Spends rate least s t)
    (alike : EndsLike s beyond) : EndsLike t beyond := by
  obtain ⟨_, advances, _⟩ := spends
  exact (alike.advances advances).1

/-- One token is consumed, and no fault recorded. -/
theorem advance {token : Token} {others : List Token} (front : s.rest = token :: others) :
    Spends .free 1 s s.advance := by
  refine ⟨[token], State.advances_advance front, Nat.le_refl 1, Nat.le_of_eq ?_⟩
  rw [s.errors_advance]
  rfl

/-- A fault is recorded, and no token consumed. -/
theorem record (s : State) (error : Error) : Spends .late 0 s (s.record error) := by
  refine ⟨[], s.advances_record error, Nat.le_refl _, ?_⟩
  simp [State.record, Rate.cost]

end Spends

/-! ## Keeping pace -/

/-- Results that are the same, but for what is left from the end token on. -/
inductive Abreast (rate : Rate) (least : Nat) (s : State) (beyond : List Token) :
    EStateM.Result Error State α → EStateM.Result Error State α → Prop where
  | ok {a : α} {t : State} (spends : Spends rate least s t) :
      Abreast rate least s beyond (.ok a t) (.ok a (t.endingWith beyond))
  | error {error : Error} {t : State} (spends : Spends rate 0 s t) :
      Abreast rate least s beyond (.error error t) (.error error (t.endingWith beyond))

theorem Abreast.after {first next whole : Rate} {least least' m : Nat} {s t : State}
    {beyond : List Token} {result result' : EStateM.Result Error State α}
    (abreast : Abreast next least' t beyond result result')
    (before : Spends first least s t) (joins : Rate.Joins least first next whole)
    (enough : m ≤ least + least') : Abreast whole m s beyond result result' := by
  cases abreast with
  | ok spends => exact .ok (before.trans spends joins enough)
  | error spends => exact .error (before.trans spends joins (Nat.zero_le _))

/-- Where so many tokens are left both parsers read alike, whatever follows them. -/
def Paces (n : Nat) (rate : Rate) (least : Nat) (read read' : Parser α) : Prop :=
  ∀ (s : State) (beyond : List Token), s.rest.length = n → s.seed = none → EndsLike s beyond →
    Abreast rate least s beyond (read s) (read' (s.endingWith beyond))

section Rules

variable {n m least least' : Nat} {rate first second whole : Rate} {read read' : Parser α}
  {next next' : α → Parser β}

theorem Paces.pure (a : α) : Paces n rate 0 (pure a) (pure a) :=
  fun s _ _ _ _ => .ok (.refl rate s)

/-- Only how parsers read where no operand waits to be taken matters. -/
theorem Paces.congr {other other' : Parser α} (paces : Paces n rate m other other')
    (same : ∀ s : State, s.seed = none → read s = other s)
    (same' : ∀ s : State, s.seed = none → read' s = other' s) : Paces n rate m read read' := by
  intro s beyond long unseeded alike
  rw [same s unseeded, same' (s.endingWith beyond) unseeded]
  exact paces s beyond long unseeded alike

theorem Paces.mono {wider : Rate} (paces : Paces n rate least read read')
    (within : rate.Within wider) (fewer : m ≤ least) : Paces n wider m read read' := by
  intro s beyond long unseeded alike
  have start := paces s beyond long unseeded alike
  revert start
  generalize read s = result
  generalize read' (s.endingWith beyond) = result'
  intro start
  cases start with
  | ok spends => exact .ok (spends.mono within fewer)
  | error spends => exact .error (spends.mono within (Nat.le_refl 0))

theorem Paces.loose (paces : Paces n rate least read read') : Paces n rate 0 read read' :=
  paces.mono (fun _ => Nat.le_refl _) (Nat.zero_le least)

theorem Paces.bind (paces : Paces n first least read read')
    (then' : ∀ k a, k + least ≤ n → Paces k second least' (next a) (next' a))
    (joins : Rate.Joins least first second whole) (enough : m ≤ least + least') :
    Paces n whole m (read >>= next) (read' >>= next') := by
  intro s beyond long unseeded alike
  have start := paces s beyond long unseeded alike
  simp only [Bind.bind, EStateM.bind]
  revert start
  generalize read s = result
  generalize read' (s.endingWith beyond) = result'
  intro start
  cases start with
  | error spends => exact .error (spends.mono joins.alone (Nat.le_refl 0))
  | @ok a t spends =>
      have short : t.rest.length + least ≤ n := long ▸ spends.length
      have rest := then' t.rest.length a short t beyond rfl (spends.seed.trans unseeded)
        (spends.endsLike alike)
      exact rest.after spends joins enough

/-- Two parsers one after the other consume what the second does at least. -/
theorem Paces.andThen (paces : Paces n first 0 read read')
    (then' : ∀ k a, k ≤ n → Paces k second m (next a) (next' a))
    (joins : Rate.Joins 0 first second whole) : Paces n whole m (read >>= next) (read' >>= next') :=
  paces.bind (fun k a fewer => then' k a fewer) joins (Nat.le_of_eq (Nat.zero_add m).symm)

/--
Two parsers one after the other consume what the first does at least, and then fewer are left.
-/
theorem Paces.keep (paces : Paces n first m read read')
    (then' : ∀ k a, k + m ≤ n → Paces k second 0 (next a) (next' a))
    (joins : Rate.Joins m first second whole) : Paces n whole m (read >>= next) (read' >>= next') :=
  paces.bind then' joins (Nat.le_refl m)

theorem Paces.map (g : α → β) (paces : Paces n rate m read read') :
    Paces n rate m (g <$> read) (g <$> read') := by
  intro s beyond long unseeded alike
  have start := paces s beyond long unseeded alike
  simp only [Functor.map, EStateM.map]
  revert start
  generalize read s = result
  generalize read' (s.endingWith beyond) = result'
  intro start
  cases start with
  | ok spends => exact .ok spends
  | error spends => exact .error spends

end Rules

/-! ## The parsers that all others are made of -/

section Basic

variable {n m : Nat} {rate inner whole : Rate}

theorem paces_fail (fault : StaticFault) :
    Paces n rate m (fail fault : Parser α) (fail fault) := by
  intro s beyond _ _ alike
  unfold fail
  rw [alike.staticAt_peek]
  exact .error (.refl rate s)

theorem paces_failAt (token : Token) (fault : StaticFault) :
    Paces n rate m (failAt token fault : Parser α) (failAt token fault) :=
  fun s _ _ _ _ => .error (.refl rate s)

theorem paces_check (kind : Kind) : Paces n rate 0 (check kind) (check kind) := by
  intro s beyond _ _ alike
  unfold check
  rw [alike.kind_peek]
  exact .ok (.refl rate s)

theorem paces_recordAt (token : Token) (fault : StaticFault) :
    Paces n .late 0 (recordAt token fault) (recordAt token fault) :=
  fun s _ _ _ _ => .ok (.record s _)

/-- A fault that is recorded where the tokens are. -/
theorem paces_recordFront (fault : StaticFault) {next next' : Parser α}
    (paces : Paces n .single m next next') :
    Paces n .late m (peek >>= fun token => recordAt token fault >>= fun _ => next)
      (peek >>= fun token => recordAt token fault >>= fun _ => next') := by
  intro s beyond long unseeded alike
  have spends := Spends.record s (.staticAt s.peek fault)
  have rest := paces (s.record (.staticAt s.peek fault)) beyond long unseeded
    (spends.endsLike alike)
  simp only [Bind.bind, EStateM.bind, peek, recordAt]
  rw [alike.staticAt_peek]
  exact rest.after spends Rate.joins_record (Nat.le_add_left m 0)

/-- Either a token is consumed, and fewer are left, or the reading goes on where it is. -/
theorem Paces.accept {kinds : List Kind} {next next' : Option Reference → Parser α}
    (inside : .eof ∉ kinds)
    (taken : ∀ k token, k < n → Paces k inner 0 (next (some token)) (next' (some token)))
    (left : Paces n whole m (next none) (next' none)) (joins : Rate.Joins 1 .free inner whole)
    (one : m ≤ 1) : Paces n whole m (accept? kinds >>= next) (accept? kinds >>= next') := by
  intro s beyond long unseeded alike
  simp only [Bind.bind, EStateM.bind]
  by_cases other : ∀ kind ∈ kinds, s.front? ≠ some kind
  · have other' : ∀ kind ∈ kinds, (s.endingWith beyond).front? ≠ some kind := by
      rwa [State.front?, alike.rest]
    rw [accept?_of_other inside other, accept?_of_other inside other']
    exact left s beyond long unseeded alike
  · simp only [not_forall, not_not] at other
    obtain ⟨kind, among, front⟩ := other
    cases held : s.rest with
    | nil =>
        rw [State.front?, held] at front
        cases front
    | cons token others =>
        rw [State.front?, held] at front
        cases front
        have held' : (s.endingWith beyond).rest = token :: others := by rw [alike.rest, held]
        have spends := Spends.advance held
        have fewer : s.advance.rest.length < n := by
          rw [← long, held, State.rest_advance held]
          exact Nat.lt_succ_self _
        have after := taken s.advance.rest.length ⟨s.next, token⟩ fewer s.advance beyond rfl
          (spends.seed.trans unseeded) (spends.endsLike alike)
        rw [accept?_of_front held among, accept?_of_front held' among, alike.advance]
        exact after.after spends joins one

theorem paces_accept? {kinds : List Kind} (inside : .eof ∉ kinds) :
    Paces n rate 0 (accept? kinds) (accept? kinds) := by
  rw [← bind_pure (accept? kinds)]
  exact .accept inside (fun _ token _ => .pure (some token)) (.pure none) Rate.joins_free
    (Nat.zero_le 1)

theorem paces_expect {kind : Kind} (inside : kind ≠ .eof) (what : Expected) :
    Paces n .single 1 (expect kind what) (expect kind what) :=
  .accept (by simpa using inside.symm) (fun _ token _ => .pure token) (paces_fail _)
    Rate.joins_token (Nat.le_refl 1)

/-- With no token left, both fail to read what they expect. -/
theorem Paces.of_fails {read read' : Parser α} {fault : StaticFault}
    (fails : ∀ s : State, s.rest = [] → s.seed = none → read s = .error (.staticAt s.peek fault) s)
    (fails' : ∀ s : State, s.rest = [] → s.seed = none →
      read' s = .error (.staticAt s.peek fault) s) : Paces 0 rate m read read' := by
  intro s beyond none unseeded alike
  have atEnd := List.eq_nil_of_length_eq_zero none
  rw [fails s atEnd unseeded, fails' (s.endingWith beyond) (alike.rest.trans atEnd) unseeded,
    alike.staticAt_peek]
  exact .error (.refl rate s)

/-- With no token left, both have an answer at once. -/
theorem Paces.of_answers {read read' : Parser α} {a : α}
    (answers : ∀ s : State, s.rest = [] → read s = .ok a s)
    (answers' : ∀ s : State, s.rest = [] → read' s = .ok a s) : Paces 0 rate 0 read read' := by
  intro s beyond none _ alike
  have atEnd := List.eq_nil_of_length_eq_zero none
  rw [answers s atEnd, answers' (s.endingWith beyond) (alike.rest.trans atEnd)]
  exact .ok (.refl rate s)

end Basic

/-! ## Lists of items -/

section Lists

variable {n bound bound' : Nat}

theorem afterCommas_nil (item : Nat → Parser α) (bound count : Nat) {s : State}
    (atEnd : s.rest = []) : afterCommas item bound count s = .ok [] s := by
  cases bound with
  | zero => rfl
  | succ bound =>
      simp (disch := decide) only [afterCommas, Bind.bind, EStateM.bind, accept?_nil atEnd]
      rfl

theorem paces_afterCommas {item item' : Nat → Parser α} {count : Nat}
    (paces : ∀ k count, k < n → Paces k .late 0 (item count) (item' count)) (enough : n ≤ bound)
    (enough' : n ≤ bound') :
    Paces n .single 0 (afterCommas item bound count) (afterCommas item' bound' count) := by
  induction n using Nat.strongRecOn generalizing bound bound' count with
  | ind n ih =>
      cases n with
      | zero =>
          exact .of_answers (fun _ atEnd => afterCommas_nil item bound count atEnd)
            fun _ atEnd => afterCommas_nil item' bound' count atEnd
      | succ n =>
          cases bound with
          | zero => cases enough
          | succ bound =>
          cases bound' with
          | zero => cases enough'
          | succ bound' =>
          unfold afterCommas
          refine .accept (by decide) (fun k comma fewer => ?_) (.pure []) Rate.joins_token
            (Nat.zero_le 1)
          refine (paces k count fewer).andThen (fun k' next fewer' => ?_) Rate.joins_record
          refine (ih k' ?_ ?_ ?_ ?_).andThen (fun _ others _ => .pure (next :: others))
            Rate.joins_single
          · exact Nat.lt_of_le_of_lt fewer' fewer
          · exact fun k'' count' less => paces k'' count' (by omega)
          · omega
          · omega

theorem paces_commaSeparated {item item' : Nat → Parser α}
    (first : ∀ k, k ≤ n → Paces k .single 0 (item 0) (item' 0))
    (paces : ∀ k count, k ≤ n → Paces k .late 0 (item count) (item' count)) (enough : n ≤ bound)
    (enough' : n ≤ bound') :
    Paces n .single 0 (commaSeparated item bound) (commaSeparated item' bound') := by
  unfold commaSeparated
  refine (paces_check .rightParen).andThen (fun k closed fewer => ?_) Rate.joins_single
  cases closed with
  | true => exact .pure []
  | false =>
      refine (first k fewer).andThen (fun k' next fewer' => ?_) Rate.joins_single
      refine (paces_afterCommas ?_ ?_ ?_).andThen (fun _ others _ => .pure (next :: others))
        Rate.joins_single
      · exact fun k'' count less => paces k'' count (by omega)
      · omega
      · omega

end Lists

/-! ## Expressions -/

section Expressions

variable {n m bound bound' : Nat}

theorem chain_nil {level : Level} (inside : .eof ∉ level.operators) (operand : Parser Expr)
    (bound : Nat) (left : Expr) {s : State} (atEnd : s.rest = []) :
    chain level operand bound left s = .ok left s := by
  cases bound with
  | zero => rfl
  | succ bound =>
      simp only [chain, Bind.bind, EStateM.bind, accept?_nil atEnd inside]
      rfl

theorem paces_chain {level : Level} (inside : .eof ∉ level.operators)
    {operand operand' : Parser Expr}
    (paces : ∀ k, k < n → Paces k .single 1 operand operand') (enough : n ≤ bound)
    (enough' : n ≤ bound') (left : Expr) :
    Paces n .single 0 (chain level operand bound left) (chain level operand' bound' left) := by
  induction n using Nat.strongRecOn generalizing bound bound' left with
  | ind n ih =>
      cases n with
      | zero =>
          exact .of_answers (fun _ atEnd => chain_nil inside operand bound left atEnd)
            fun _ atEnd => chain_nil inside operand' bound' left atEnd
      | succ n =>
          cases bound with
          | zero => cases enough
          | succ bound =>
          cases bound' with
          | zero => cases enough'
          | succ bound' =>
          unfold chain
          refine .accept inside (fun k operator fewer => ?_) (.pure left) Rate.joins_token
            (Nat.zero_le 1)
          have operands := (paces k fewer).mono Rate.single_late (Nat.zero_le 1)
          refine operands.andThen (fun k' right fewer' => ?_) Rate.joins_record
          apply ih k'
          · exact Nat.lt_of_le_of_lt fewer' fewer
          · exact fun k'' less => paces k'' (by omega)
          · omega
          · omega

/-- What is read with the first operand is at least as much as this. -/
theorem paces_climb {operand operand' first first' : Parser Expr} {tighter : List Level}
    (inside : ∀ level ∈ tighter, .eof ∉ level.operators)
    (pacesFirst : Paces n .single m first first')
    (paces : ∀ k, k < n → Paces k .single 1 operand operand') (enough : n ≤ bound)
    (enough' : n ≤ bound') :
    Paces n .single m (climbFrom operand bound tighter first)
      (climbFrom operand' bound' tighter first') := by
  induction tighter generalizing n m first first' with
  | nil => exact pacesFirst
  | cons level tighter ih =>
      have ih := fun {n m first first'} =>
        @ih n m first first' fun other held => inside other (List.mem_cons_of_mem _ held)
      unfold climbFrom
      refine (ih pacesFirst paces enough enough').keep (fun k left fewer => ?_) Rate.joins_single
      refine paces_chain (inside level List.mem_cons_self) (fun k' less => ?_) (by omega) (by omega)
        left
      rw [climb_eq, climb_eq]
      exact ih (paces k' (by omega)) (fun k'' less' => paces k'' (by omega)) (by omega) (by omega)

theorem paces_argument {expr expr' : Parser Expr} (paces : Paces n .single 1 expr expr')
    (count : Nat) : Paces n .late 0 (argument expr count) (argument expr' count) := by
  have plain := paces.mono Rate.single_late (Nat.zero_le 1)
  unfold argument
  split
  · exact paces_recordFront .tooManyArguments paces.loose
  · exact plain

/-- One argument is never too many. -/
theorem paces_firstArgument {expr expr' : Parser Expr} (paces : Paces n .single 1 expr expr') :
    Paces n .single 0 (argument expr 0) (argument expr' 0) := paces.loose

theorem paces_finishCall {expr expr' : Parser Expr}
    (paces : ∀ k, k ≤ n → Paces k .single 1 expr expr') (enough : n ≤ bound) (enough' : n ≤ bound')
    (callee : Expr) :
    Paces n .single 1 (finishCall expr bound callee) (finishCall expr' bound' callee) := by
  unfold finishCall
  have args := paces_commaSeparated (fun k fewer => paces_firstArgument (paces k fewer))
    (fun k count fewer => paces_argument (paces k fewer) count) enough enough'
  refine args.andThen (fun k args fewer => ?_) Rate.joins_single
  exact (paces_expect (by decide) .argumentsEnd).keep (fun _ paren _ => .pure _) Rate.joins_single

theorem callChain_nil (expr : Parser Expr) (bound : Nat) (callee : Expr) {s : State}
    (atEnd : s.rest = []) : callChain expr bound callee s = .ok callee s := by
  cases bound with
  | zero => rfl
  | succ bound =>
      simp (disch := decide) only [callChain, Bind.bind, EStateM.bind, accept?_nil atEnd]
      rfl

theorem paces_callChain {expr expr' : Parser Expr}
    (paces : ∀ k, k < n → Paces k .single 1 expr expr') (enough : n ≤ bound) (enough' : n ≤ bound')
    (callee : Expr) :
    Paces n .single 0 (callChain expr bound callee) (callChain expr' bound' callee) := by
  induction n using Nat.strongRecOn generalizing bound bound' callee with
  | ind n ih =>
      cases n with
      | zero =>
          exact .of_answers (fun _ atEnd => callChain_nil expr bound callee atEnd)
            fun _ atEnd => callChain_nil expr' bound' callee atEnd
      | succ n =>
          cases bound with
          | zero => cases enough
          | succ bound =>
          cases bound' with
          | zero => cases enough'
          | succ bound' =>
          have again (k : Nat) (fewer : k < n + 1) (callee : Expr) :
              Paces k .single 0 (callChain expr bound callee) (callChain expr' bound' callee) :=
            ih k fewer (fun k' less => paces k' (by omega)) (by omega) (by omega) callee
          unfold callChain
          refine .accept (by decide) (fun k paren fewer => ?_) ?_ Rate.joins_free (Nat.zero_le 1)
          · have call : Paces k .single 1 (finishCall expr bound callee)
                (finishCall expr' bound' callee) :=
              paces_finishCall (fun k' less => paces k' (by omega)) (by omega) (by omega) callee
            refine call.loose.andThen (fun k' call less => ?_) Rate.joins_single
            exact again k' (by omega) call
          · refine .accept (by decide) (fun k dot fewer => ?_) (.pure callee) Rate.joins_free
              (Nat.zero_le 1)
            refine (paces_expect (by decide) .propertyName).loose.andThen (fun k' name less => ?_)
              Rate.joins_single
            exact again k' (by omega) (.get callee name.name)

theorem paces_primary {expr expr' : Parser Expr}
    (paces : ∀ k, k < n → Paces k .single 1 expr expr') :
    Paces n .single 1 (primary expr) (primary expr') := by
  have one := Nat.le_refl 1
  refine Paces.congr ?_ (fun _ => primary_unseeded) fun _ => primary_unseeded
  unfold primaryForms
  refine .accept (by decide) (fun _ token _ => .pure _) ?_ Rate.joins_free one
  refine .accept (by decide) (fun _ keyword _ => ?_) ?_ Rate.joins_free one
  · exact (paces_expect (by decide) .superDot).loose.andThen (fun _ _ _ =>
      (paces_expect (by decide) .superMethod).loose.andThen (fun _ method _ => .pure _)
        Rate.joins_single) Rate.joins_single
  refine .accept (by decide) (fun _ keyword _ => .pure _) ?_ Rate.joins_free one
  refine .accept (by decide) (fun _ name _ => .pure _) ?_ Rate.joins_free one
  refine .accept (by decide) (fun k paren fewer => ?_) (paces_fail _) Rate.joins_free one
  exact (paces k fewer).loose.andThen (fun _ inner _ =>
    (paces_expect (by decide) .groupingEnd).loose.andThen (fun _ _ _ => .pure _)
      Rate.joins_single) Rate.joins_single

theorem primary_nil (expr : Parser Expr) {s : State} (atEnd : s.rest = [])
    (unseeded : s.seed = none) :
    primary expr s = .error (.staticAt s.peek (.expected .expression)) s := by
  simp (disch := decide) only [primary_unseeded unseeded, primaryForms, Bind.bind, EStateM.bind,
    accept?_nil atEnd, fail]

theorem unary_nil (expr : Parser Expr) (bound : Nat) {s : State} (atEnd : s.rest = [])
    (unseeded : s.seed = none) :
    unary expr bound s = .error (.staticAt s.peek (.expected .expression)) s := by
  cases bound with
  | zero => exact seedAlone_unseeded unseeded
  | succ bound =>
      simp (disch := decide) only [unary_unseeded unseeded, unaryForms, call, Bind.bind,
        EStateM.bind, accept?_nil atEnd, primary_nil expr atEnd unseeded]

/-- An unary operator takes its operand with it. -/
theorem paces_unary {expr expr' : Parser Expr}
    (paces : ∀ k, k < n → Paces k .single 1 expr expr') (enough : n ≤ bound)
    (enough' : n ≤ bound') : Paces n .single 1 (unary expr bound) (unary expr' bound') := by
  induction n using Nat.strongRecOn generalizing bound bound' with
  | ind n ih =>
      cases n with
      | zero =>
          exact .of_fails (fun _ atEnd => unary_nil expr bound atEnd)
            fun _ atEnd => unary_nil expr' bound' atEnd
      | succ n =>
          cases bound with
          | zero => cases enough
          | succ bound =>
          cases bound' with
          | zero => cases enough'
          | succ bound' =>
          refine Paces.congr ?_ (fun _ => unary_unseeded) fun _ => unary_unseeded
          unfold unaryForms call
          refine .accept (by decide) (fun k operator fewer => ?_) ?_ Rate.joins_free (Nat.le_refl 1)
          · have operand : Paces k .single 1 (unary expr bound) (unary expr' bound') :=
              ih k fewer (fun k' less => paces k' (by omega)) (by omega) (by omega)
            exact operand.loose.andThen (fun _ operand _ => .pure _) Rate.joins_single
          · refine (paces_primary paces).keep (fun k callee fewer => ?_) Rate.joins_single
            exact paces_callChain (fun k' less => paces k' (by omega)) (by omega) (by omega) callee

theorem paces_assignment {expr expr' first first' : Parser Expr}
    (paces : ∀ k, k < n → Paces k .single 1 expr expr')
    (pacesFirst : Paces n .single m first first') (enough : n ≤ bound) (enough' : n ≤ bound') :
    Paces n .single m (assignmentFrom expr bound first) (assignmentFrom expr' bound' first') := by
  unfold assignmentFrom assignmentTo
  have operand (k : Nat) (fewer : k < n) :
      Paces k .single 1 (unary expr bound) (unary expr' bound') :=
    paces_unary (fun k' less => paces k' (by omega)) (by omega) (by omega)
  refine (paces_climb (by decide) pacesFirst operand enough enough').keep (fun k target fewer => ?_)
    Rate.joins_single
  refine .accept (by decide) (fun k' equals less => ?_) (.pure target) Rate.joins_token
    (Nat.zero_le 1)
  refine (paces k' (by omega)).loose.andThen (fun k'' value _ => ?_) Rate.joins_late
  cases target with
  | var name => exact .pure _
  | get object name => exact .pure _
  | _ => exact (paces_recordAt _ _).andThen (fun _ _ _ => .pure _) Rate.joins_record

theorem climbFrom_error (operand : Parser Expr) (bound : Nat) (tighter : List Level)
    {first : Parser Expr} {s : State} {error : Error} (fails : first s = .error error s) :
    climbFrom operand bound tighter first s = .error error s := by
  induction tighter with
  | nil => exact fails
  | cons level tighter ih => simp only [climbFrom, Bind.bind, EStateM.bind, ih]

theorem assignment_nil (expr : Parser Expr) (bound : Nat) {s : State} (atEnd : s.rest = [])
    (unseeded : s.seed = none) :
    assignment expr bound s = .error (.staticAt s.peek (.expected .expression)) s := by
  have fails := unary_nil expr bound atEnd unseeded
  simp only [assignment_eq, assignmentFrom, Bind.bind, EStateM.bind,
    climbFrom_error _ _ levels fails]

theorem expression_nil (bound : Nat) {s : State} (atEnd : s.rest = []) (unseeded : s.seed = none) :
    expression bound s = .error (.staticAt s.peek (.expected .expression)) s := by
  cases bound with
  | zero => exact seedAlone_unseeded unseeded
  | succ bound => exact assignment_nil (expression bound) (bound + 1) atEnd unseeded

/-- The bound of an expression does not matter. -/
theorem paces_expression (enough : n ≤ bound) (enough' : n ≤ bound') :
    Paces n .single 1 (expression bound) (expression bound') := by
  induction n using Nat.strongRecOn generalizing bound bound' with
  | ind n ih =>
      cases n with
      | zero =>
          exact .of_fails (fun _ atEnd => expression_nil bound atEnd)
            fun _ atEnd => expression_nil bound' atEnd
      | succ n =>
          cases bound with
          | zero => cases enough
          | succ bound =>
          cases bound' with
          | zero => cases enough'
          | succ bound' =>
          have inner (k : Nat) (fewer : k < n + 1) :
              Paces k .single 1 (expression bound) (expression bound') :=
            ih k fewer (by omega) (by omega)
          rw [expression, expression, assignment_eq, assignment_eq]
          exact paces_assignment inner (paces_unary inner enough enough') enough enough'

/-- An expression is what the grammar says, with expressions in it that have the same bound. -/
theorem paces_expression_unfold (enough : n ≤ bound) :
    Paces n .single 1 (expression bound) (assignment (expression bound) bound) := by
  cases bound with
  | zero =>
      obtain rfl := Nat.le_zero.mp enough
      exact .of_fails (fun _ atEnd => expression_nil 0 atEnd)
        fun _ atEnd => assignment_nil (expression 0) 0 atEnd
  | succ bound =>
      have inner (k : Nat) (fewer : k < n) :
          Paces k .single 1 (expression bound) (expression (bound + 1)) :=
        paces_expression (by omega) (by omega)
      rw [expression, assignment_eq, assignment_eq]
      exact paces_assignment inner (paces_unary inner enough enough) enough enough

/-- At the end the first operand is the whole operation. -/
theorem climbFrom_nil (operand : Parser Expr) (bound : Nat) {ladder : List Level}
    (inside : ∀ level ∈ ladder, .eof ∉ level.operators) {first : Parser Expr} {left : Expr}
    {s : State} (atEnd : s.rest = []) (answers : first s = .ok left s) :
    climbFrom operand bound ladder first s = .ok left s := by
  induction ladder with
  | nil => exact answers
  | cons level tighter ih =>
      have inner := ih fun other held => inside other (List.mem_cons_of_mem _ held)
      have ends := chain_nil (inside level List.mem_cons_self) (climb operand bound tighter) bound
        left atEnd
      simp only [climbFrom, Bind.bind, EStateM.bind, inner, ends]

/-- At the end an operand that was read before is the whole expression. -/
theorem behind_nil (bound : Nat) (operand : Expr) {s : State} (atEnd : s.rest = []) :
    behind bound operand s = .ok operand s := by
  cases bound with
  | zero => rfl
  | succ bound =>
      have called := callChain_nil (expression bound) (bound + 1) operand atEnd
      have climbed := climbFrom_nil (unary (expression bound) (bound + 1)) (bound + 1)
        (show ∀ level ∈ levels, .eof ∉ level.operators by decide) atEnd called
      simp (disch := decide) only [behind, assignmentFrom, assignmentTo, Bind.bind, EStateM.bind,
        climbed, accept?_nil atEnd]
      rfl

theorem paces_expressionFrom (enough : n ≤ bound) (enough' : n ≤ bound') (operand : Expr) :
    Paces n .single 0 (expressionFrom bound operand) (expressionFrom bound' operand) := by
  refine Paces.congr ?_ (fun _ => expressionFrom_eq) fun _ => expressionFrom_eq
  cases n with
  | zero =>
      exact .of_answers (fun _ atEnd => behind_nil bound operand atEnd)
        fun _ atEnd => behind_nil bound' operand atEnd
  | succ n =>
      cases bound with
      | zero => cases enough
      | succ bound =>
      cases bound' with
      | zero => cases enough'
      | succ bound' =>
      have inner (k : Nat) (fewer : k < n + 1) :
          Paces k .single 1 (expression bound) (expression bound') :=
        paces_expression (by omega) (by omega)
      exact paces_assignment inner (paces_callChain inner enough enough' operand) enough enough'

end Expressions

end Lox.Parse
