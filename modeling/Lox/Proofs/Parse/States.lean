import Mathlib.Data.List.TakeWhile
import Lox.Parse.Statement

/-!
# The tokens that are left

What a parser sees of the tokens that are left are those up to the first end token, and the end
token behind them: that one, or the one made up where there is none.  A parser moves forward over
the tokens before it, one after another, and never past it.
-/

namespace Lox.Parse

/-- The end token that is made up once the given tokens were consumed. -/
def endAfter (eof : Token) (taken : List Token) : Token :=
  match taken.getLast? with
  | none => eof
  | some last => .endOn last.line

theorem kind_endAfter {eof : Token} (isEof : eof.kind = .eof) (taken : List Token) :
    (endAfter eof taken).kind = .eof := by
  unfold endAfter
  split
  · exact isEof
  · rfl

theorem endAfter_append (eof : Token) (taken more : List Token) :
    endAfter eof (taken ++ more) = endAfter (endAfter eof taken) more := by
  unfold endAfter
  rw [List.getLast?_append]
  cases more.getLast? <;> rfl

namespace State

variable {s : State} {token : Token} {others : List Token}

/-- The tokens before the first end token. -/
def rest (s : State) : List Token := s.tokens.takeWhile fun token => token.kind != .eof

/-- What is left from the first end token on. -/
def beyond (s : State) : List Token := s.tokens.dropWhile fun token => token.kind != .eof

/-- The end token that is seen once those before it are consumed. -/
def ending (s : State) : Token := s.beyond.headD (endAfter s.eof s.rest)

theorem rest_append_beyond (s : State) : s.rest ++ s.beyond = s.tokens :=
  List.takeWhile_append_dropWhile

theorem kind_of_mem_rest (held : token ∈ s.rest) : token.kind ≠ .eof := by
  simpa using List.mem_takeWhile_imp held

theorem kind_ending (s : State) : s.ending.kind = .eof := by
  unfold ending
  cases left : s.beyond with
  | nil => exact kind_endAfter s.isEof s.rest
  | cons token others =>
      have stops := List.head?_dropWhile_not (fun token : Token => token.kind != .eof) s.tokens
      rw [show s.tokens.dropWhile (fun token => token.kind != .eof) = _ from left] at stops
      simpa using stops

/-- What is seen at the front is the first of the tokens before the end, or the end token. -/
theorem peek_eq (s : State) : s.peek = s.rest.headD s.ending := by
  unfold peek ending
  rw [← s.rest_append_beyond]
  cases s.rest with
  | nil =>
      cases s.beyond <;> rfl
  | cons token others => rfl

theorem peek_nil (atEnd : s.rest = []) : s.peek = s.ending := by
  rw [peek_eq, atEnd]
  rfl

theorem peek_cons (front : s.rest = token :: others) : s.peek = token := by
  rw [peek_eq, front]
  rfl

/-- The kind of the next token, if there is one. -/
def front? (s : State) : Option Kind := s.rest.head?.map Token.kind

/-- At the end the end token is in front. -/
theorem kind_peek (s : State) : s.peek.kind = s.front?.getD .eof := by
  rw [peek_eq, front?]
  cases s.rest with
  | nil => exact s.kind_ending
  | cons token others => rfl

end State

/-! ## Moving forward -/

/-- From one state to the other tokens are consumed; no end token is one of them. -/
structure Advances (s : State) (taken : List Token) (t : State) : Prop where
  tokens : s.tokens = taken ++ t.tokens
  inside : ∀ token ∈ taken, token.kind ≠ .eof
  next : t.next = s.next + taken.length
  eof : t.eof = endAfter s.eof taken
  seed : t.seed = s.seed

namespace Advances

variable {s t u : State} {taken more : List Token}

theorem refl (s : State) : Advances s [] s := ⟨rfl, by simp, rfl, rfl, rfl⟩

theorem trans (first : Advances s taken t) (then' : Advances t more u) :
    Advances s (taken ++ more) u := by
  refine ⟨?_, fun token held => ?_, ?_, ?_, then'.seed.trans first.seed⟩
  · rw [first.tokens, then'.tokens, List.append_assoc]
  · exact (List.mem_append.mp held).elim (first.inside token) (then'.inside token)
  · rw [then'.next, first.next, List.length_append, Nat.add_assoc]
  · rw [then'.eof, first.eof, endAfter_append]

/-- What is left to consume once the first of the tokens were. -/
theorem cancel {m : State} (whole : Advances s (taken ++ more) t) (front : Advances s taken m) :
    Advances m more t := by
  refine ⟨?_, fun token held => ?_, ?_, ?_, whole.seed.trans front.seed.symm⟩
  · have tokens := whole.tokens.symm.trans front.tokens
    rw [List.append_assoc] at tokens
    exact (List.append_cancel_left tokens).symm
  · exact whole.inside token (List.mem_append_right _ held)
  · rw [whole.next, front.next, List.length_append, Nat.add_assoc]
  · rw [whole.eof, front.eof, endAfter_append]

theorem rest (advances : Advances s taken t) : s.rest = taken ++ t.rest := by
  unfold State.rest
  rw [advances.tokens, List.takeWhile_append_of_pos (by simpa using advances.inside)]

theorem beyond (advances : Advances s taken t) : t.beyond = s.beyond := by
  unfold State.beyond
  rw [advances.tokens, List.dropWhile_append_of_pos (by simpa using advances.inside)]

/-- The end token that is seen at last stays the same. -/
theorem ending (advances : Advances s taken t) : t.ending = s.ending := by
  unfold State.ending
  rw [advances.beyond, advances.rest, advances.eof, endAfter_append]

theorem length (advances : Advances s taken t) : s.rest.length = taken.length + t.rest.length := by
  rw [advances.rest, List.length_append]

/-- A state is told by the tokens that were consumed to get there, and by its faults. -/
theorem unique (first : Advances s taken t) (second : Advances s taken u)
    (errors : t.errors = u.errors) : t = u := by
  have tokens := List.append_cancel_left (first.tokens.symm.trans second.tokens)
  have next := first.next.trans second.next.symm
  have eof := first.eof.trans second.eof.symm
  have seed := first.seed.trans second.seed.symm
  obtain ⟨tokens', next', eof', isEof', errors', seed'⟩ := t
  obtain ⟨tokens'', next'', eof'', isEof'', errors'', seed''⟩ := u
  cases tokens
  cases next
  cases eof
  cases errors
  cases seed
  rfl

theorem eq_of_nil (advances : Advances s [] t) (errors : t.errors = s.errors) : t = s :=
  advances.unique (.refl s) errors

end Advances

namespace State

variable {s : State} {token : Token} {others : List Token}

theorem tokens_of_rest (front : s.rest = token :: others) :
    s.tokens = token :: (others ++ s.beyond) := by
  rw [← s.rest_append_beyond, front, List.cons_append]

/-- At the end nothing moves. -/
theorem advance_nil (atEnd : s.rest = []) : s.advance = s := by
  unfold advance
  rw [if_pos (by rw [peek_nil atEnd, kind_ending])]

theorem advance_cons (front : s.rest = token :: others) :
    s.advance = { s with
      tokens := others ++ s.beyond
      next := s.next + 1
      eof := .endOn token.line
      isEof := rfl } := by
  have inside : token.kind ≠ .eof := kind_of_mem_rest (front ▸ List.mem_cons_self)
  have tokens := tokens_of_rest front
  unfold advance
  rw [if_neg (by rwa [peek_cons front])]
  split
  · next left =>
      rw [left] at tokens
      cases tokens
  · next left =>
      rw [left] at tokens
      obtain ⟨rfl, rfl⟩ := List.cons.inj tokens
      rfl

/-- In front of a token before the end, that one is consumed. -/
theorem advances_advance (front : s.rest = token :: others) : Advances s [token] s.advance := by
  rw [advance_cons front]
  refine ⟨tokens_of_rest front, fun other held => ?_, rfl, rfl, rfl⟩
  rw [List.mem_singleton.mp held]
  exact kind_of_mem_rest (front ▸ List.mem_cons_self)

theorem errors_advance (s : State) : s.advance.errors = s.errors := by
  cases front : s.rest with
  | nil => rw [advance_nil front]
  | cons token others => rw [advance_cons front]

theorem rest_advance (front : s.rest = token :: others) : s.advance.rest = others :=
  (List.cons.inj (front.symm.trans (advances_advance front).rest)).2.symm

theorem advances_record (s : State) (error : Error) : Advances s [] (s.record error) :=
  ⟨rfl, by simp, rfl, rfl, rfl⟩

end State

section Accepting

variable {s : State} {kinds : List Kind}

/-- A token of a kind that is asked for is consumed. -/
theorem accept?_of_front {token : Token} {others : List Token} (front : s.rest = token :: others)
    (isOf : token.kind ∈ kinds) : accept? kinds s = .ok (some ⟨s.next, token⟩) s.advance := by
  have seen := State.peek_cons front
  unfold accept?
  simp only [peek, Bind.bind, EStateM.bind]
  rw [if_pos (by rwa [seen])]
  simp only [advance, Functor.map, EStateM.map, seen]

/-- If none of the kinds is in front that are asked for, nothing is consumed. -/
theorem accept?_of_other (inside : .eof ∉ kinds) (other : ∀ kind ∈ kinds, s.front? ≠ some kind) :
    accept? kinds s = .ok none s := by
  have seen : s.peek.kind ∉ kinds := by
    intro listed
    rw [s.kind_peek] at listed
    cases front : s.front? with
    | none => exact inside (by rwa [front] at listed)
    | some kind => exact other kind (by rwa [front] at listed) front
  unfold accept?
  simp only [peek, Bind.bind, EStateM.bind]
  rw [if_neg seen]
  rfl

theorem accept?_nil (atEnd : s.rest = []) (inside : .eof ∉ kinds) :
    accept? kinds s = .ok none s := by
  refine accept?_of_other inside fun kind _ front => ?_
  rw [State.front?, atEnd] at front
  cases front

end Accepting

/-! ## Recovery -/

/-- How many tokens recovery skips of those that are left. -/
def skipCount : List Token → Nat
  | [] => 0
  | token :: others =>
    if token.kind = .semicolon ∨
        (others.head?.map fun following => startsStatement following.kind).getD false then 1
    else skipCount others + 1

theorem State.advances_skip {bound : Nat} {s : State} (enough : s.rest.length ≤ bound) :
    Advances s (s.rest.take (skipCount s.rest)) (s.skip bound) ∧
      (s.skip bound).errors = s.errors := by
  induction bound generalizing s with
  | zero =>
      rw [List.eq_nil_of_length_eq_zero (Nat.le_zero.mp enough)]
      exact ⟨.refl s, rfl⟩
  | succ bound ih =>
      cases front : s.rest with
      | nil =>
          have atEnd : s.peek.kind = .eof := by rw [peek_nil front, kind_ending]
          rw [skip, if_pos atEnd]
          exact ⟨.refl s, rfl⟩
      | cons token others =>
          have inside : token.kind ≠ .eof := kind_of_mem_rest (front ▸ List.mem_cons_self)
          have first := advances_advance front
          have left := rest_advance front
          have starts : startsStatement s.advance.peek.kind =
              (others.head?.map fun following => startsStatement following.kind).getD false := by
            rw [kind_peek, front?, left]
            cases others <;> rfl
          rw [skip, peek_cons front, if_neg inside, starts, skipCount]
          split
          · exact ⟨first, s.errors_advance⟩
          · rw [front, List.length_cons] at enough
            obtain ⟨onward, errors⟩ := ih (s := s.advance) (by rw [left]; omega)
            rw [left] at onward
            exact ⟨first.trans onward, errors.trans s.errors_advance⟩

theorem State.advances_skipToStatement (s : State) :
    Advances s (s.rest.take (skipCount s.rest)) s.skipToStatement ∧
      s.skipToStatement.errors = s.errors :=
  advances_skip (List.takeWhile_prefix _).length_le

end Lox.Parse
