import Mathlib.Data.List.Nodup
import Lox.Proofs.Parse.Phrases
import Lox.Proofs.Parse.States

/-!
# Reading two sequences of tokens alike

Parsers look at the kinds of tokens and take over their literals; all else they carry into the
tree unseen.  So two sequences that differ in spelling and lines only are read in step, and one
tree is the other with its tokens replaced.  If the tokens of the first sequence carry their
numbers as lines, then the tokens of its tree show where in the sequence they come from, and no
two of them come from one place.
-/

namespace Lox.Parse

/-! ## Numbers in a range -/

/-- Numbers between two bounds, no two of them the same. -/
structure Spread (lo hi : Nat) (numbers : List Nat) : Prop where
  nodup : numbers.Nodup
  range : ∀ number ∈ numbers, lo ≤ number ∧ number < hi

namespace Spread

variable {lo mid hi : Nat} {first second : List Nat}

theorem nil : Spread lo hi [] := ⟨List.nodup_nil, fun _ none => (List.not_mem_nil none).elim⟩

theorem single {number : Nat} (low : lo ≤ number) (high : number < hi) : Spread lo hi [number] := by
  refine ⟨List.nodup_singleton number, fun other same => ?_⟩
  rw [List.mem_singleton.mp same]
  exact ⟨low, high⟩

theorem append (left : Spread lo mid first) (right : Spread mid hi second) (low : lo ≤ mid)
    (high : mid ≤ hi) : Spread lo hi (first ++ second) := by
  refine ⟨left.nodup.append right.nodup ?_, fun number held => ?_⟩
  · intro number inLeft inRight
    have := left.range number inLeft
    have := right.range number inRight
    omega
  · rcases List.mem_append.mp held with inLeft | inRight
    · have := left.range number inLeft
      omega
    · have := right.range number inRight
      omega

theorem mono {lo' hi' : Nat} (spread : Spread lo hi first) (low : lo' ≤ lo) (high : hi ≤ hi') :
    Spread lo' hi' first := by
  refine ⟨spread.nodup, fun number held => ?_⟩
  have := spread.range number held
  omega

theorem perm (spread : Spread lo hi first) (same : first.Perm second) : Spread lo hi second :=
  ⟨same.nodup_iff.mp spread.nodup, fun number held => spread.range number (same.mem_iff.mpr held)⟩

end Spread

/--
Tokens that carry their numbers as lines, and what happens in the walk of the tree that was made
of them: both come from one stretch of the sequence, and no token or reference occurs twice.
-/
structure Within (lo hi : Nat) (tokens : List Token) (acts : List Act) : Prop where
  tokens : Spread lo hi (tokens.map Token.line)
  ids : Spread lo hi (acts.filterMap Act.id?)
  proper : ∀ act ∈ acts, act.Proper

namespace Within

variable {lo mid hi : Nat} {tokens others : List Token} {acts more : List Act}

theorem nil : Within lo hi [] [] := ⟨.nil, .nil, fun _ none => (List.not_mem_nil none).elim⟩

theorem append (left : Within lo mid tokens acts) (right : Within mid hi others more)
    (low : lo ≤ mid) (high : mid ≤ hi) : Within lo hi (tokens ++ others) (acts ++ more) := by
  refine ⟨?_, ?_, ?_⟩
  · rw [List.map_append]
    exact left.tokens.append right.tokens low high
  · rw [List.filterMap_append]
    exact left.ids.append right.ids low high
  · intro act held
    rcases List.mem_append.mp held with inLeft | inRight
    · exact left.proper act inLeft
    · exact right.proper act inRight

theorem mono {lo' hi' : Nat} (within : Within lo hi tokens acts) (low : lo' ≤ lo)
    (high : hi ≤ hi') : Within lo' hi' tokens acts :=
  ⟨within.tokens.mono low high, within.ids.mono low high, within.proper⟩

/-- The order in which things happen does not matter here. -/
theorem perm (within : Within lo hi tokens acts) (sameTokens : tokens.Perm others)
    (sameActs : acts.Perm more) : Within lo hi others more :=
  ⟨within.tokens.perm (sameTokens.map _), within.ids.perm (sameActs.filterMap _),
    fun act held => within.proper act (sameActs.mem_iff.mpr held)⟩

/-- What looks nothing up may happen anywhere. -/
theorem silent (within : Within lo hi tokens acts) {a : Act} (silent : a.id? = none)
    (proper : a.Proper) : Within lo hi tokens (a :: acts) := by
  refine ⟨within.tokens, ?_, ?_⟩
  · rw [List.filterMap_cons_none silent]
    exact within.ids
  · intro other held
    rcases List.mem_cons.mp held with rfl | later
    · exact proper
    · exact within.proper other later

theorem token {token : Token} (low : lo ≤ token.line) (high : token.line < hi) :
    Within lo hi [token] [] :=
  ⟨.single low high, .nil, fun _ none => (List.not_mem_nil none).elim⟩

end Within

/-! ## Two states in step -/

/-- A replacement of tokens that keeps what parsers look at. -/
structure Keeps (f : Token → Token) : Prop where
  kind : ∀ token, (f token).kind = token.kind
  literal : ∀ token, (f token).literal = token.literal
  faithful : ∀ token, token.Faithful → (f token).Faithful

theorem Keeps.isOf {f : Token → Token} (keeps : Keeps f) {token : Token} {kinds : List Kind}
    (isOf : token.IsOf kinds) : (f token).IsOf kinds :=
  ⟨(keeps.kind token).symm ▸ isOf.kind, keeps.faithful token isOf.faithful⟩

/-- The tokens that are left carry their numbers as lines, and are spelled as their kinds tell. -/
structure Numbered (s : State) : Prop where
  line : ∀ index token, s.rest[index]? = some token → token.line = s.next + index
  faithful : ∀ token ∈ s.rest, token.Faithful

/--
The second state is the first with its tokens replaced; it has as many faults on record.  In
neither does an operand wait to be taken.
-/
structure Mapped (f : Token → Token) (s s' : State) : Prop where
  rest : s'.rest = s.rest.map f
  next : s'.next = s.next
  errors : s'.errors.size = s.errors.size
  unseeded : s.seed = none
  unseeded' : s'.seed = none

/-- Two states that a reading can go on from, after some of the tokens of a state were consumed. -/
structure InStep (f : Token → Token) (start s s' : State) : Prop where
  numbered : Numbered s
  mapped : Mapped f s s'
  reached : start.next ≤ s.next
  total : s.next + s.rest.length = start.next + start.rest.length

namespace InStep

variable {f : Token → Token}

theorem refl {s s' : State} (numbered : Numbered s) (mapped : Mapped f s s') :
    InStep f s s s' := ⟨numbered, mapped, Nat.le_refl _, rfl⟩

theorem trans {start s s' t t' : State} (first : InStep f start s s') (then' : InStep f s t t') :
    InStep f start t t' :=
  ⟨then'.numbered, then'.mapped, Nat.le_trans first.reached then'.reached,
    then'.total.trans first.total⟩

end InStep

/--
From two states in step at a number, two parsers both answer or both fail, and leave states in
step.  The answers are related as told, where the number that is reached is known.
-/
def Reads {α : Type} (f : Token → Token) (lo : Nat) (read read' : Parser α)
    (post : Nat → α → α → Prop) : Prop :=
  ∀ s s', s.next = lo → Numbered s → Mapped f s s' →
    match read s, read' s' with
    | .ok a t, .ok a' t' => InStep f s t t' ∧ post t.next a a'
    | .error _ t, .error _ t' => InStep f s t t'
    | _, _ => False

section Rules

variable {α β : Type} {f : Token → Token} {lo : Nat} {read read' : Parser α}
  {P : Nat → α → α → Prop}

theorem Reads.pure {a a' : α} (related : P lo a a') :
    Reads f lo (Pure.pure a) (Pure.pure a') P := by
  intro s s' here numbered mapped
  refine ⟨.refl numbered mapped, ?_⟩
  rw [here]
  exact related

/-- Only how parsers read where no operand waits to be taken matters. -/
theorem Reads.congr {other other' : Parser α} (reads : Reads f lo other other' P)
    (same : ∀ s : State, s.seed = none → read s = other s)
    (same' : ∀ s : State, s.seed = none → read' s = other' s) : Reads f lo read read' P := by
  intro s s' here numbered mapped
  rw [same s mapped.unseeded, same' s' mapped.unseeded']
  exact reads s s' here numbered mapped

theorem Reads.bind {next next' : α → Parser β} {Q : Nat → β → β → Prop}
    (first : Reads f lo read read' P)
    (then' : ∀ mid a a', lo ≤ mid → P mid a a' → Reads f mid (next a) (next' a') Q) :
    Reads f lo (read >>= next) (read' >>= next') Q := by
  intro s s' here numbered mapped
  have start := first s s' here numbered mapped
  simp only [Bind.bind, EStateM.bind]
  revert start
  cases read s with
  | error e t =>
      cases read' s' with
      | error e' t' => exact fun inStep => inStep
      | ok a' t' => exact fun impossible => False.elim impossible
  | ok a t =>
      cases read' s' with
      | error e' t' => exact fun impossible => False.elim impossible
      | ok a' t' =>
          rintro ⟨inStep, related⟩
          have rest := then' t.next a a' (by rw [← here]; exact inStep.reached) related t t' rfl
            inStep.numbered inStep.mapped
          revert rest
          dsimp only
          cases next a t with
          | error e u =>
              cases next' a' t' with
              | error e' u' => exact fun more => inStep.trans more
              | ok b' u' => exact fun impossible => impossible
          | ok b u =>
              cases next' a' t' with
              | error e' u' => exact fun impossible => False.elim impossible
              | ok b' u' =>
                  rintro ⟨more, related⟩
                  exact ⟨inStep.trans more, related⟩

/-- A weaker relation of the answers, which may use that the reading does not go back. -/
theorem Reads.weaken {Q : Nat → α → α → Prop} (reads : Reads f lo read read' P)
    (weakens : ∀ hi a a', lo ≤ hi → P hi a a' → Q hi a a') :
    Reads f lo read read' Q := by
  intro s s' here numbered mapped
  have start := reads s s' here numbered mapped
  revert start
  cases read s with
  | error e t =>
      cases read' s' with
      | error e' t' => exact fun inStep => inStep
      | ok a' t' => exact fun impossible => False.elim impossible
  | ok a t =>
      cases read' s' with
      | error e' t' => exact fun impossible => False.elim impossible
      | ok a' t' =>
          rintro ⟨inStep, related⟩
          exact ⟨inStep, weakens _ a a' (by rw [← here]; exact inStep.reached) related⟩

theorem Reads.map {g : α → β} {Q : Nat → β → β → Prop} (reads : Reads f lo read read' P)
    (weakens : ∀ hi a a', lo ≤ hi → P hi a a' → Q hi (g a) (g a')) :
    Reads f lo (g <$> read) (g <$> read') Q := by
  rw [map_eq_pure_bind, map_eq_pure_bind]
  exact reads.bind fun mid a a' low related => .pure (weakens mid a a' low related)

end Rules

/-! ## The parsers that all others are made of -/

section Basic

variable {α : Type} {f : Token → Token} {lo : Nat}

theorem Mapped.peek_kind (keeps : Keeps f) {s s' : State} (mapped : Mapped f s s') :
    s'.peek.kind = s.peek.kind := by
  rw [State.kind_peek, State.kind_peek, State.front?, State.front?, mapped.rest]
  cases s.rest with
  | nil => rfl
  | cons token rest => exact keeps.kind token

theorem reads_peek (keeps : Keeps f) :
    Reads f lo peek peek fun hi token token' => hi = lo ∧ token'.kind = token.kind := by
  intro s s' here numbered mapped
  exact ⟨.refl numbered mapped, here, mapped.peek_kind keeps⟩

theorem reads_check (keeps : Keeps f) (kind : Kind) :
    Reads f lo (check kind) (check kind) fun hi yes yes' => hi = lo ∧ yes' = yes := by
  intro s s' here numbered mapped
  refine ⟨.refl numbered mapped, here, ?_⟩
  rw [mapped.peek_kind keeps]

theorem reads_failAt (token token' : Token) (fault : StaticFault) {post : Nat → α → α → Prop} :
    Reads f lo (failAt token fault) (failAt token' fault) post := by
  intro s s' here numbered mapped
  exact .refl numbered mapped

theorem reads_fail (fault : StaticFault) {post : Nat → α → α → Prop} :
    Reads f lo (fail fault) (fail fault) post := by
  intro s s' here numbered mapped
  exact .refl numbered mapped

theorem Mapped.record {s s' : State} (mapped : Mapped f s s') (error error' : Error) :
    Mapped f (s.record error) (s'.record error') := by
  refine ⟨mapped.rest, mapped.next, ?_, mapped.unseeded, mapped.unseeded'⟩
  simp [State.record, mapped.errors]

theorem reads_recordAt (token token' : Token) (fault : StaticFault) :
    Reads f lo (recordAt token fault) (recordAt token' fault) fun hi _ _ => hi = lo := by
  intro s s' here numbered mapped
  exact ⟨⟨⟨numbered.line, numbered.faithful⟩, mapped.record _ _, Nat.le_refl _, rfl⟩, here⟩

/-- A token of one of the given kinds that was consumed at the given number. -/
structure Taken (lo : Nat) (kinds : List Kind) (taken : Reference) : Prop where
  id : taken.id = lo
  line : taken.name.line = lo
  isOf : taken.name.IsOf kinds

/-- The answers of two parsers that may consume one token. -/
inductive Accepted (f : Token → Token) (lo : Nat) (kinds : List Kind) :
    Nat → Option Reference → Option Reference → Prop where
  | no : Accepted f lo kinds lo none none
  | yes {taken : Reference} (isTaken : Taken lo kinds taken) :
      Accepted f lo kinds (lo + 1) (some taken) (some (taken.mapTokens f))

/-- Tokens are consumed in both states, those of the second in place of those of the first. -/
theorem InStep.of_advances {s s' t t' : State} {taken : List Token} (numbered : Numbered s)
    (mapped : Mapped f s s') (advances : Advances s taken t)
    (advances' : Advances s' (taken.map f) t') (errors : t.errors = s.errors)
    (errors' : t'.errors = s'.errors) : InStep f s t t' := by
  have rest := advances.rest
  have rest' := mapped.rest.symm.trans advances'.rest
  have next := advances.next
  have next' := advances'.next
  rw [rest, List.map_append] at rest'
  rw [List.length_map, mapped.next] at next'
  refine ⟨⟨fun index token found => ?_, fun token held => ?_⟩,
    ⟨(List.append_cancel_left rest').symm, next'.trans next.symm, ?_,
      advances.seed.trans mapped.unseeded, advances'.seed.trans mapped.unseeded'⟩, ?_, ?_⟩
  · have line := numbered.line (taken.length + index) token (by
      rw [rest, List.getElem?_append_right (Nat.le_add_right _ _), Nat.add_sub_cancel_left, found])
    omega
  · exact numbered.faithful token (by rw [rest]; exact List.mem_append_right _ held)
  · rw [errors, errors', mapped.errors]
  · omega
  · rw [advances.length]
    omega

theorem reads_accept? (keeps : Keeps f) {kinds : List Kind} (inside : .eof ∉ kinds) :
    Reads f lo (accept? kinds) (accept? kinds) (Accepted f lo kinds) := by
  intro s s' here numbered mapped
  cases front : s.rest with
  | nil =>
      have front' : s'.rest = [] := by rw [mapped.rest, front]; rfl
      rw [accept?_nil front inside, accept?_nil front' inside]
      refine ⟨.refl numbered mapped, ?_⟩
      rw [here]
      exact .no
  | cons token rest =>
      have front' : s'.rest = f token :: rest.map f := by rw [mapped.rest, front]; rfl
      have next := (State.advances_advance front).next
      by_cases wanted : token.kind ∈ kinds
      · have line := numbered.line 0 token (by rw [front]; rfl)
        have faithful := numbered.faithful token (by rw [front]; exact List.mem_cons_self)
        rw [accept?_of_front front wanted, accept?_of_front front' (by rwa [keeps.kind])]
        refine ⟨.of_advances numbered mapped (State.advances_advance front)
          (State.advances_advance front') s.errors_advance s'.errors_advance, ?_⟩
        rw [next, here, mapped.next, here]
        exact .yes ⟨rfl, line.trans here, wanted, faithful⟩
      · have other (kind : Kind) (listed : kind ∈ kinds) : token.kind ≠ kind := by
          rintro rfl
          exact wanted listed
        rw [accept?_of_other inside fun kind listed => ?_,
          accept?_of_other inside fun kind listed => ?_]
        · refine ⟨.refl numbered mapped, ?_⟩
          rw [here]
          exact .no
        · rw [State.front?, front']
          exact fun same => other kind listed ((keeps.kind token).symm.trans (Option.some.inj same))
        · rw [State.front?, front]
          exact fun same => other kind listed (Option.some.inj same)

theorem reads_expect (keeps : Keeps f) {kind : Kind} (inside : kind ≠ .eof) (what : Expected) :
    Reads f lo (expect kind what) (expect kind what) fun hi taken taken' =>
      hi = lo + 1 ∧ taken' = taken.mapTokens f ∧ Taken lo [kind] taken := by
  unfold expect
  refine (reads_accept? keeps (by simpa using inside.symm)).bind
    fun mid answer answer' low accepted => ?_
  cases accepted with
  | no => exact reads_fail _
  | yes isTaken => exact .pure ⟨rfl, rfl, isTaken⟩

end Basic

/-! ## Lists of items -/

/-- Two lists whose items are related in turn, each in a stretch of its own. -/
inductive Items {α : Type} (item : Nat → Nat → α → α → Prop) :
    Nat → Nat → List α → List α → Prop where
  | nil {lo hi : Nat} (ordered : lo ≤ hi) : Items item lo hi [] []
  | cons {lo start mid hi : Nat} {x x' : α} {xs xs' : List α} (low : lo ≤ start)
      (first : item start mid x x') (high : start ≤ mid) (others : Items item mid hi xs xs') :
      Items item lo hi (x :: xs) (x' :: xs')

namespace Items

variable {α : Type} {item : Nat → Nat → α → α → Prop} {lo mid hi : Nat} {xs xs' ys ys' : List α}

theorem ordered (items : Items item lo hi xs xs') : lo ≤ hi := by
  induction items with
  | nil ordered => exact ordered
  | cons low _ high _ ih => omega

theorem before {lo' : Nat} (items : Items item lo hi xs xs') (low : lo' ≤ lo) :
    Items item lo' hi xs xs' := by
  cases items with
  | nil ordered => exact .nil (Nat.le_trans low ordered)
  | cons first related high others => exact .cons (Nat.le_trans low first) related high others

theorem append (left : Items item lo mid xs xs') (right : Items item mid hi ys ys') :
    Items item lo hi (xs ++ ys) (xs' ++ ys') := by
  induction left with
  | nil ordered => exact right.before ordered
  | cons low first high _ ih => exact .cons low first high (ih right)

theorem single {x x' : α} (ordered : lo ≤ hi) (related : item lo hi x x') :
    Items item lo hi [x] [x'] :=
  .cons (Nat.le_refl lo) related ordered (.nil (Nat.le_refl hi))

end Items

section Lists

variable {α : Type} {f : Token → Token} {lo : Nat} {item : Nat → Nat → α → α → Prop}

theorem reads_manyUntil (keeps : Keeps f) (stop : Kind → Bool) {read : Parser (Option α)}
    (reads : ∀ lo, Reads f lo read read fun hi x x' => Items item lo hi x.toList x'.toList)
    (bound : Nat) :
    Reads f lo (manyUntil stop read bound) (manyUntil stop read bound) (Items item lo) := by
  induction bound generalizing lo with
  | zero => exact .pure (.nil (Nat.le_refl lo))
  | succ bound ih =>
      unfold manyUntil
      refine (reads_peek keeps).bind ?_
      rintro mid token token' low ⟨rfl, same⟩
      rw [same]
      split
      · exact .pure (.nil (Nat.le_refl _))
      · refine (reads _).bind fun mid' x x' _ first => ?_
        exact ih.bind fun hi xs xs' _ others => .pure (first.append others)

theorem reads_afterCommas (keeps : Keeps f) {read : Nat → Parser α}
    (reads : ∀ lo count, Reads f lo (read count) (read count) (item lo)) (bound count : Nat) :
    Reads f lo (afterCommas read bound count) (afterCommas read bound count) (Items item lo) := by
  induction bound generalizing lo count with
  | zero => exact .pure (.nil (Nat.le_refl lo))
  | succ bound ih =>
      unfold afterCommas
      refine (reads_accept? keeps (by decide)).bind fun mid comma comma' low accepted => ?_
      cases accepted with
      | no => exact .pure (.nil (Nat.le_refl lo))
      | yes isTaken =>
          refine (reads _ count).bind fun mid' x x' high first => ?_
          exact (ih (count + 1)).bind fun hi xs xs' _ others =>
            .pure (.cons low first high others)

/-- The items of a list in parentheses. -/
theorem reads_commaSeparated (keeps : Keeps f) {read : Nat → Parser α}
    (reads : ∀ lo count, Reads f lo (read count) (read count) (item lo)) (bound : Nat) :
    Reads f lo (commaSeparated read bound) (commaSeparated read bound) (Items item lo) := by
  unfold commaSeparated
  refine (reads_check keeps .rightParen).bind ?_
  rintro mid yes yes' low ⟨rfl, rfl⟩
  split
  · exact .pure (.nil (Nat.le_refl _))
  · refine (reads _ 0).bind fun mid' x x' high first => ?_
    exact (reads_afterCommas keeps reads bound 1).bind fun hi xs xs' _ others =>
      .pure (.cons (Nat.le_refl _) first high others)

end Lists

end Lox.Parse
