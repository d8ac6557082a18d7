import Lox.Command

/-!
# Lines of text

Input that is text as a whole is text line by line.  A newline is a character by itself, which no
byte of a longer character can be taken for; so the lines of the input, cut at bytes, are the lines
of the text, cut at characters.
-/

namespace Lox

/-! ## Cutting lists -/

section Cutting

variable {α : Type} (isEnd : α → Prop) [DecidablePred isEnd]

/-- A list cut after each of its elements that end a part; the last part may lack one. -/
def cutAfter (list : List α) : List (List α) :=
  list.foldr
    (fun head parts =>
      if isEnd head then [head] :: parts
      else
        match parts with
        | [] => [[head]]
        | part :: others => (head :: part) :: others)
    []

/-- The lines of a text; the last one may lack a newline. -/
def textLines (text : List Char) : List (List Char) := cutAfter (· = '\n') text

theorem Command.inputLines_eq (input : List UInt8) :
    Command.inputLines input = cutAfter (· = 10) input := by
  unfold Command.inputLines cutAfter
  congr 1
  funext byte lines
  cases lines <;> rfl

variable {isEnd}

theorem cutAfter_append {front : List α} (inside : ∀ a ∈ front, ¬ isEnd a) {last : α}
    (ends : isEnd last) (rest : List α) :
    cutAfter isEnd (front ++ last :: rest) = (front ++ [last]) :: cutAfter isEnd rest := by
  induction front with
  | nil => exact if_pos ends
  | cons a front ih =>
      obtain ⟨first, others⟩ := List.forall_mem_cons.mp inside
      have step := ih others
      unfold cutAfter at step ⊢
      rw [List.cons_append, List.foldr_cons, step, if_neg first]
      rfl

theorem cutAfter_whole {list : List α} (inside : ∀ a ∈ list, ¬ isEnd a) (nonempty : list ≠ []) :
    cutAfter isEnd list = [list] := by
  induction list with
  | nil => exact absurd rfl nonempty
  | cons a list ih =>
      obtain ⟨first, others⟩ := List.forall_mem_cons.mp inside
      cases list with
      | nil => exact if_neg first
      | cons b list =>
          have step := ih others (List.cons_ne_nil b list)
          unfold cutAfter at step ⊢
          rw [List.foldr_cons, step, if_neg first]

end Cutting

namespace Utf8

/-! ## Characters that are not finished -/

/-- What is still owed of a character keeps it from being a newline, or any other of ASCII. -/
structure Partial.Wide (p : Partial) : Prop where
  low : 0x80 ≤ p.low
  high : p.high ≤ 0xBF
  wide : p.owed ≤ 1 ∧ 2 ≤ p.bits ∨ 2 ≤ p.owed ∧ (1 ≤ p.bits ∨ 0x90 ≤ p.low)

theorem ofNat_ne_newline {code : Nat} (other : code ≠ 10) : Char.ofNat code ≠ '\n' := by
  intro same
  have codes : (Char.ofNat code).toNat = 10 := same ▸ rfl
  unfold Char.ofNat at codes
  by_cases valid : code.isValidChar
  · rw [dif_pos valid] at codes
    exact other codes
  · rw [dif_neg valid] at codes
    cases codes

theorem lead_cases (byte : Nat) :
    (∃ c, lead byte = .complete c ∧ (c = '\n' → byte = 10)) ∨
      (∃ p, lead byte = .opened p ∧ p.Wide) ∨ lead byte = .malformed := by
  unfold lead
  split
  · refine .inl ⟨_, rfl, fun isNewline => ?_⟩
    exact Decidable.byContradiction fun other => ofNat_ne_newline other isNewline
  split
  · exact .inr (.inr rfl)
  split
  · exact .inr (.inl ⟨_, rfl, by constructor <;> dsimp only <;> omega⟩)
  split
  · exact .inr (.inl ⟨_, rfl, by constructor <;> dsimp only <;> omega⟩)
  split
  · exact .inr (.inl ⟨_, rfl, by constructor <;> dsimp only <;> omega⟩)
  split
  · exact .inr (.inl ⟨_, rfl, by constructor <;> dsimp only <;> omega⟩)
  split
  · exact .inr (.inl ⟨_, rfl, by constructor <;> dsimp only <;> omega⟩)
  split
  · exact .inr (.inl ⟨_, rfl, by constructor <;> dsimp only <;> omega⟩)
  split
  · exact .inr (.inl ⟨_, rfl, by constructor <;> dsimp only <;> omega⟩)
  · exact .inr (.inr rfl)

section Extending

variable {p : Partial} {byte : Nat}

theorem Partial.Wide.extend (isWide : p.Wide) (above : p.low ≤ byte) (below : byte ≤ p.high)
    {next : Partial} (opens : p.extend byte = .opened next) : next.Wide := by
  obtain ⟨low, high, wide⟩ := isWide
  unfold Partial.extend at opens
  dsimp only at opens
  split at opens
  · cases opens
  · cases opens
    refine ⟨Nat.le_refl _, Nat.le_refl _, ?_⟩
    dsimp only
    omega

theorem Partial.Wide.extend_ne_newline (isWide : p.Wide) : p.extend byte ≠ .complete '\n' := by
  obtain ⟨low, high, wide⟩ := isWide
  intro complete
  unfold Partial.extend at complete
  dsimp only at complete
  split at complete
  · exact ofNat_ne_newline (by omega) (Lead.complete.inj complete)
  · cases complete

end Extending

/-! ## The decoder -/

namespace Decoder

def empty : Decoder := ⟨[], none⟩

/-- Take bytes one after another. -/
def take (bytes : List UInt8) (decoder : Decoder) : Decoder :=
  bytes.foldl (fun decoder byte => decoder.push byte.toNat) decoder

def Wide (decoder : Decoder) : Prop := ∀ p, decoder.opened = some p → p.Wide

/-- How many newlines were read. -/
def newlines (decoder : Decoder) : Nat := decoder.parts.count (some '\n')

variable {decoder : Decoder}

theorem wide_start (decoder : Decoder) (byte : Nat) : (decoder.start byte).Wide := by
  intro p opened
  unfold start at opened
  rcases lead_cases byte with ⟨c, isLead, _⟩ | ⟨q, isLead, wide⟩ | isLead <;> rw [isLead] at opened
  · cases opened
  · cases opened
    exact wide
  · cases opened

theorem newlines_start (decoder : Decoder) {byte : Nat} (other : byte ≠ 10) :
    (decoder.start byte).newlines = decoder.newlines := by
  unfold start
  rcases lead_cases byte with ⟨c, isLead, newline⟩ | ⟨q, isLead, _⟩ | isLead <;> rw [isLead]
  · have different : some c ≠ some '\n' := fun same => other (newline (Option.some.inj same))
    exact List.count_cons_of_ne different
  · rfl
  · exact List.count_cons_of_ne (by decide)

theorem Wide.push (wide : decoder.Wide) (byte : Nat) : (decoder.push byte).Wide := by
  unfold Decoder.push
  split
  · exact wide_start decoder byte
  · next p isOpen =>
      split
      · next within =>
          split
          · exact fun _ none => nomatch none
          · next next extended =>
              intro q opened
              cases opened
              exact (wide p isOpen).extend within.1 within.2 extended
          · exact fun _ none => nomatch none
      · exact wide_start _ byte

theorem Wide.newlines_push (wide : decoder.Wide) {byte : Nat} (other : byte ≠ 10) :
    (decoder.push byte).newlines = decoder.newlines := by
  unfold Decoder.push
  split
  · exact newlines_start decoder other
  · next p isOpen =>
      split
      · next within =>
          split
          · next c complete =>
              have different : some c ≠ some '\n' := by
                intro same
                cases same
                exact (wide p isOpen).extend_ne_newline complete
              exact List.count_cons_of_ne different
          · rfl
          · exact List.count_cons_of_ne (by decide)
      · rw [newlines_start _ other]
        exact List.count_cons_of_ne (by decide)

theorem wide_empty : empty.Wide := fun _ none => nomatch none

theorem Wide.take (wide : decoder.Wide) (bytes : List UInt8) : (decoder.take bytes).Wide := by
  induction bytes generalizing decoder with
  | nil => exact wide
  | cons byte bytes ih => exact ih (wide.push byte.toNat)

theorem Wide.newlines_take (wide : decoder.Wide) {bytes : List UInt8} (inside : 10 ∉ bytes) :
    (decoder.take bytes).newlines = decoder.newlines := by
  induction bytes generalizing decoder with
  | nil => rfl
  | cons byte bytes ih =>
      obtain ⟨first, others⟩ := not_or.mp (mt List.mem_cons.mpr inside)
      have other : byte.toNat ≠ 10 := fun same => first (UInt8.toNat_inj.mp same.symm)
      exact (ih (wide.push byte.toNat) others).trans (wide.newlines_push other)

/-- What was decoded before stays, whatever is taken. -/
theorem start_append (parts earlier : List (Option Char)) (opened : Option Partial) (byte : Nat) :
    start ⟨parts ++ earlier, opened⟩ byte =
      ⟨(start ⟨parts, opened⟩ byte).parts ++ earlier, (start ⟨parts, opened⟩ byte).opened⟩ := by
  unfold start
  cases lead byte <;> rfl

theorem push_append (parts earlier : List (Option Char)) (opened : Option Partial) (byte : Nat) :
    push ⟨parts ++ earlier, opened⟩ byte =
      ⟨(push ⟨parts, opened⟩ byte).parts ++ earlier, (push ⟨parts, opened⟩ byte).opened⟩ := by
  unfold push
  cases opened with
  | none => exact start_append parts earlier none byte
  | some p =>
      dsimp only
      split
      · split <;> rfl
      · exact start_append (none :: parts) earlier none byte

theorem take_append (bytes : List UInt8) (decoder : Decoder) (earlier : List (Option Char)) :
    take bytes ⟨decoder.parts ++ earlier, decoder.opened⟩ =
      ⟨(decoder.take bytes).parts ++ earlier, (decoder.take bytes).opened⟩ := by
  induction bytes generalizing decoder with
  | nil => rfl
  | cons byte bytes ih =>
      refine (congrArg (take bytes) (push_append _ earlier _ byte.toNat)).trans ?_
      exact ih (decoder.push byte.toNat)

theorem push_ne_empty (decoder : Decoder) (byte : Nat) : decoder.push byte ≠ empty := by
  have started : ∀ decoder : Decoder, decoder.start byte ≠ empty := by
    intro decoder
    unfold start
    split <;> simp [empty]
  unfold push
  split
  · exact started _
  · split
    · split <;> simp [empty]
    · exact started _

theorem eq_nil_of_take {bytes : List UInt8} (nothing : empty.take bytes = empty) : bytes = [] := by
  rcases List.eq_nil_or_concat bytes with rfl | ⟨front, last, rfl⟩
  · rfl
  · rw [take, List.concat_eq_append, List.foldl_append] at nothing
    exact absurd nothing (push_ne_empty _ _)

end Decoder

/-! ## Well-formed text -/

open Decoder (take empty)

theorem map_some_filterMap {parts : List (Option Char)} (whole : parts.all Option.isSome = true) :
    (parts.filterMap id).map some = parts := by
  induction parts with
  | nil => rfl
  | cons part parts ih =>
      rw [List.all_cons, Bool.and_eq_true] at whole
      obtain ⟨c, rfl⟩ := Option.isSome_iff_exists.mp whole.1
      have rest : (some c :: parts).filterMap id = c :: parts.filterMap id := rfl
      rw [rest, List.map_cons, ih whole.2]

/-- A text is well-formed if no part of it is, and no character is left open. -/
theorem decode?_eq_some_iff {bytes : List UInt8} {text : List Char} :
    decode? bytes = some text ↔ empty.take bytes = ⟨(text.map some).reverse, none⟩ := by
  have isParts : parts bytes = (empty.take bytes).finish := rfl
  unfold decode?
  rw [isParts]
  generalize empty.take bytes = decoder
  obtain ⟨parts, opened⟩ := decoder
  cases opened with
  | some p => simp [Decoder.finish]
  | none =>
      have finished : Decoder.finish ⟨parts, none⟩ = parts.reverse := rfl
      rw [finished, Decoder.mk.injEq, and_iff_left rfl, ← List.reverse_eq_iff]
      constructor
      · intro decoded
        split at decoded
        · next whole =>
            cases decoded
            exact (map_some_filterMap whole).symm
        · cases decoded
      · intro same
        rw [same, if_pos (by simp), List.filterMap_map]
        exact congrArg some List.filterMap_some

theorem decode?_append {front back : List UInt8} {before after : List Char}
    (decoded : decode? front = some before) (decoded' : decode? back = some after) :
    decode? (front ++ back) = some (before ++ after) := by
  rw [decode?_eq_some_iff] at decoded decoded' ⊢
  have joined : empty.take (front ++ back) = (empty.take front).take back := List.foldl_append ..
  have later := Decoder.take_append back empty (before.map some).reverse
  rw [joined, decoded]
  refine later.trans ?_
  rw [decoded', List.map_append, List.reverse_append]

/-- A newline stands between two texts, and is no part of a character in either. -/
theorem decode?_newline {front back : List UInt8} {text : List Char}
    (decoded : decode? (front ++ 10 :: back) = some text) :
    ∃ before after, decode? front = some before ∧ decode? back = some after ∧
      text = before ++ '\n' :: after := by
  have joined : empty.take (front ++ 10 :: back) = ((empty.take front).push 10).take back :=
    List.foldl_append ..
  have wide := Decoder.wide_empty.take front
  simp only [decode?_eq_some_iff, joined] at decoded ⊢
  generalize empty.take front = decoder at wide decoded ⊢
  obtain ⟨parts, opened⟩ := decoder
  cases opened with
  | none =>
      have later := (Decoder.take_append back empty (some '\n' :: parts)).symm.trans decoded
      obtain ⟨split, isClosed⟩ := Decoder.mk.inj later
      have split := congrArg List.reverse split
      rw [List.reverse_reverse, List.reverse_append, List.reverse_cons, List.append_assoc,
        List.singleton_append] at split
      obtain ⟨before, rest, rfl, isBefore, isRest⟩ := List.map_eq_append_iff.mp split.symm
      obtain ⟨c, after, rfl, isNewline, isAfter⟩ := List.map_eq_cons_iff.mp isRest
      cases isNewline
      refine ⟨before, after, ?_, ?_, rfl⟩
      · rw [isBefore, List.reverse_reverse]
      · rw [isAfter, List.reverse_reverse, ← isClosed]
  | some p =>
      -- The character that is open here is never finished, and leaves a part that is no text.
      have above : ¬ (p.low ≤ 10 ∧ 10 ≤ p.high) := fun within =>
        absurd (Nat.le_trans (wide p rfl).low within.1) (by decide)
      have pushed : Decoder.push ⟨parts, some p⟩ 10 = ⟨some '\n' :: none :: parts, none⟩ := by
        rw [Decoder.push]
        dsimp only
        rw [if_neg above]
        rfl
      rw [pushed] at decoded
      have later :=
        (Decoder.take_append back empty (some '\n' :: none :: parts)).symm.trans decoded
      have held : none ∈ (text.map some).reverse := by
        rw [← (Decoder.mk.inj later).1]
        simp
      simp at held

/-- Bytes without a newline are text without one. -/
theorem newline_notMem {bytes : List UInt8} {text : List Char} (decoded : decode? bytes = some text)
    (inside : 10 ∉ bytes) : '\n' ∉ text := by
  have none := Decoder.wide_empty.newlines_take inside
  rw [decode?_eq_some_iff.mp decoded] at none
  have absent := List.count_eq_zero.mp none
  simpa using absent

theorem eq_nil_of_decode? {bytes : List UInt8} (decoded : decode? bytes = some []) : bytes = [] :=
  Decoder.eq_nil_of_take (decode?_eq_some_iff.mp decoded)

/-- The lines of an input that is text are the lines of this text. -/
theorem decode?_inputLines {input : List UInt8} {text : List Char}
    (decoded : decode? input = some text) :
    (Command.inputLines input).map decode? = (textLines text).map some := by
  rw [Command.inputLines_eq]
  unfold textLines
  induction size : input.length using Nat.strongRecOn generalizing input text with
  | ind size ih =>
      by_cases held : 10 ∈ input
      · obtain ⟨front, back, rfl, inside⟩ := List.eq_append_cons_of_mem held
        obtain ⟨before, after, isBefore, isAfter, rfl⟩ := decode?_newline decoded
        have absent := newline_notMem isBefore inside
        have newline : decode? [10] = some ['\n'] := by decide
        rw [cutAfter_append (List.forall_mem_ne'.mpr inside) rfl,
          cutAfter_append (List.forall_mem_ne'.mpr absent) rfl, List.map_cons,
          List.map_cons, decode?_append isBefore newline]
        rw [List.length_append, List.length_cons] at size
        rw [ih back.length (by omega) isAfter rfl]
      · by_cases isEmpty : input = []
        · subst isEmpty
          cases decoded
          rfl
        · have absent := newline_notMem decoded held
          have nonempty : text ≠ [] := by
            rintro rfl
            exact isEmpty (eq_nil_of_decode? decoded)
          rw [cutAfter_whole (List.forall_mem_ne'.mpr held) isEmpty,
            cutAfter_whole (List.forall_mem_ne'.mpr absent) nonempty, List.map_cons,
            decoded]
          rfl

end Utf8

end Lox
