import Lox.Proofs.Matching.States
import Lox.Proofs.Move.Programs
import Lox.Proofs.Move.References

/-!
# Programs that are loaded by matching states

The same text is compiled to programs that differ in their numbers alone.  Once both are loaded,
their references are counterparts.
-/

namespace Lox

/-- Entries are put into a table one after the other, and the last of a number stands. -/
theorem getElem?_foldl_insert_eq (entries : List (Nat × Nat)) (table : Std.TreeMap Nat Nat)
    (id : Nat) :
    (entries.foldl (fun hops entry => hops.insert entry.1 entry.2) table)[id]? =
      (entries.reverse.lookup id).or table[id]? := by
  induction entries generalizing table with
  | nil => rfl
  | cons entry entries ih =>
      obtain ⟨number, distance⟩ := entry
      rw [List.foldl_cons, ih, List.reverse_cons, List.lookup_append, Option.or_assoc,
        Std.TreeMap.getElem?_insert]
      by_cases same : number = id
      · subst same
        simp
      · have other : (id == number) = false := beq_false_of_ne (Ne.symm same)
        simp [List.lookup_cons, same, other]

namespace Program

/-- The distance that the table of a program tells of a reference. -/
def hop? (program : Program) (id : Nat) : Option Nat := program.hops.reverse.lookup id

/-- The numbers of the references that a program looks up. -/
def numbers (program : Program) : List Nat := idsOf (actsBody program.stmts)

theorem numbers_move (m : Move) (program : Program) :
    (program.move m).numbers = raise m program.numbers := idsOfBody_move program.stmts

theorem numbers_followedBy (program other : Program) :
    (program.followedBy other).numbers = program.numbers ++ other.numbers := by
  rw [numbers, followedBy, actsBody_append, idsOf_append]
  rfl

theorem hop?_move (m : Move) (program : Program) (id : Nat) :
    (program.move m).hop? (id + m.offset) = program.hop? id := by
  unfold hop? move
  dsimp only
  rw [← List.map_reverse]
  induction program.hops.reverse with
  | nil => rfl
  | cons entry entries ih =>
      rw [List.map_cons, List.lookup_cons, List.lookup_cons, ih]
      have same : (id + m.offset == entry.1 + m.offset) = (id == entry.1) := by
        rw [Bool.eq_iff_iff]
        simp
      rw [same]

theorem hop?_followedBy (program other : Program) (id : Nat) :
    (program.followedBy other).hop? id = (other.hop? id).or (program.hop? id) := by
  unfold hop? followedBy
  dsimp only
  rw [List.reverse_append, List.lookup_append]

/-- The table of a program is what analysis finds, and each of its references has its number. -/
structure Numbered (first : Nat) (program : Program) : Prop where
  numbers : Parse.Spread first (first + program.width) program.numbers
  analyzed : program.hops = (analyze program.stmts).hops.toList

theorem Checked.numbered {first : Nat} {program : Program} (checked : program.Checked first) :
    program.Numbered first := by
  refine ⟨?_, checked.hops.trans (analyze_hops first program.stmts).symm⟩
  have acts := map_act_walkBody [first] .root 0 program.stmts
  rw [Program.numbers, idsOf, ← acts, List.filterMap_map]
  exact checked.ids

namespace Numbered

variable {first : Nat} {program : Program}

/-- The table tells of references of the program alone. -/
theorem mem_numbers (numbered : program.Numbered first) {id distance : Nat}
    (found : program.hop? id = some distance) : id ∈ program.numbers := by
  obtain ⟨before, after, split, _⟩ := List.lookup_eq_some_iff.mp found
  have entered : (id, distance) ∈ program.hops := by
    rw [← List.mem_reverse, split]
    simp
  rw [numbered.analyzed, analyze_hops first] at entered
  obtain ⟨event, walked, enters⟩ := List.mem_filterMap.mp entered
  have acts := map_act_walkBody [first] .root 0 program.stmts
  rw [Program.numbers, idsOf, ← acts]
  exact List.mem_filterMap.mpr
    ⟨event.act, List.mem_map_of_mem walked, (Event.hop?_eq_some enters).1⟩

theorem hop?_eq_none (numbered : program.Numbered first) {id : Nat}
    (outside : id < first ∨ first + program.width ≤ id) : program.hop? id = none := by
  cases found : program.hop? id with
  | none => rfl
  | some distance =>
      have := numbered.numbers.range id (numbered.mem_numbers found)
      omega

/-- The tables of two programs that are joined tell of different references. -/
theorem hop?_first {other : Program} {first' : Nat}
    (numbered : (program.followedBy other).Numbered first) (numberedOther : other.Numbered first')
    {id : Nat} (held : id ∈ program.numbers) :
    (program.followedBy other).hop? id = program.hop? id := by
  rw [hop?_followedBy]
  cases found : other.hop? id with
  | none => exact Option.none_or
  | some distance =>
      have nodup := numbered.numbers.nodup
      rw [numbers_followedBy] at nodup
      exact (List.disjoint_of_nodup_append nodup held (numberedOther.mem_numbers found)).elim

theorem hop?_second {other : Program} (numbered : (program.followedBy other).Numbered first)
    (numberedFirst : program.Numbered first) {id : Nat} (held : id ∈ other.numbers) :
    (program.followedBy other).hop? id = other.hop? id := by
  rw [hop?_followedBy]
  cases found : program.hop? id with
  | none => exact Option.or_none
  | some distance =>
      have nodup := numbered.numbers.nodup
      rw [numbers_followedBy] at nodup
      exact (List.disjoint_of_nodup_append nodup (numberedFirst.mem_numbers found) held).elim

end Numbered

end Program

theorem State.load_hops (program : Program) (s : State) (id : Nat) :
    (s.load program).hops[id]? = (program.hop? id).or s.hops[id]? :=
  getElem?_foldl_insert_eq program.hops s.hops id

/-- A program is loaded with the next numbers, and tells of these alone. -/
theorem State.extends_load {s : State} {program : Program}
    (numbered : program.Numbered s.nextReference) : s.Extends (s.load program) := by
  refine ⟨Nat.le_add_right _ _, fun id early => ?_, rfl⟩
  rw [State.load_hops, numbered.hop?_eq_none (.inl early), Option.none_or]

theorem State.unused_load {s : State} {program : Program}
    (numbered : program.Numbered s.nextReference)
    (unused : ∀ id, s.nextReference ≤ id → s.hops[id]? = none) :
    ∀ id, (s.load program).nextReference ≤ id → (s.load program).hops[id]? = none := by
  intro id late
  have late : s.nextReference + program.width ≤ id := late
  rw [State.load_hops, numbered.hop?_eq_none (.inr late), unused id (by omega), Option.none_or]

/-- What a program's own table tells is what is told once it is loaded. -/
theorem State.hops_load {s : State} {program : Program} {id : Nat}
    (unused : ∀ id, s.nextReference ≤ id → s.hops[id]? = none) (late : s.nextReference ≤ id) :
    (s.load program).hops[id]? = program.hop? id := by
  rw [State.load_hops, unused id late, Option.or_none]

/-- More references are counterparts. -/
def Pairing.withReferences (w : Pairing) (R : Nat → Nat → Prop) : Pairing :=
  { w with references := fun id id' => w.references id id' ∨ R id id' }

theorem Pairing.within_withReferences (w : Pairing) (R : Nat → Nat → Prop) :
    w.Within (w.withReferences R) :=
  ⟨id, id, id, .inl⟩

/-- The numbers that one reference of some statements has in the two runs. -/
def Twin.Counterparts {σ : Leeway} (t : Twin σ) (stmts : List Stmt) (id id' : Nat) : Prop :=
  ∃ number ∈ idsOf (actsBody stmts), id = number + t.left.offset ∧ id' = number + t.right.offset

namespace CoreMatch

variable {σ : Leeway} {w : Pairing} {s s' : State}

theorem grows_withReferences (R : Nat → Nat → Prop) :
    StateGrows w s s' (w.withReferences R) s s' :=
  ⟨⟨w.within_withReferences R, .inl, .inl, .refl, .refl⟩, .refl s, .refl s'⟩

/-- References of which both tables tell the same may be taken as counterparts. -/
theorem withReferences (cores : CoreMatch σ w s s') {R : Nat → Nat → Prop}
    (agree : ∀ {id id'}, R id id' →
      id < s.nextReference ∧ id' < s'.nextReference ∧ s.hops[id]? = s'.hops[id']?) :
    CoreMatch σ (w.withReferences R) s s' := by
  have within := w.within_withReferences R
  obtain ⟨⟨globals, frames, objects, identities, values, fields⟩, references, unused, unused', output,
    now⟩ := cores
  refine ⟨⟨globals, frames, objects, identities,
    fun paired name => StoreMatch.optionValue_mono (values paired name) within,
    fun paired name => StoreMatch.optionValue_mono (fields paired name) within⟩,
    fun {id id'} paired => ?_, unused, unused', output, now⟩
  rcases paired with before | new
  · exact references before
  · exact agree new

/-- The references of a text are counterparts once both tables tell the same of them. -/
theorem cover (cores : CoreMatch σ w s s') (t : Twin σ) (stmts : List Stmt)
    (agree : ∀ id ∈ idsOf (actsBody stmts),
      id + t.left.offset < s.nextReference ∧ id + t.right.offset < s'.nextReference ∧
        s.hops[id + t.left.offset]? = s'.hops[id + t.right.offset]?) :
    ∃ w', StateGrows w s s' w' s s' ∧ CoreMatch σ w' s s' ∧ w'.Covers t (actsBody stmts) := by
  refine ⟨w.withReferences (t.Counterparts stmts), grows_withReferences _, cores.withReferences ?_,
    fun act held id found => ?_⟩
  · rintro _ _ ⟨number, held, rfl, rfl⟩
    exact agree number held
  · exact .inr ⟨id, List.mem_filterMap.mpr ⟨act, held, found⟩, rfl, rfl⟩

/-- Loading a program changes nothing that matches. -/
theorem load (cores : CoreMatch σ w s s') {program program' : Program}
    (numbered : program.Numbered s.nextReference) (numbered' : program'.Numbered s'.nextReference) :
    StateGrows w s s' w (s.load program) (s'.load program') ∧
      CoreMatch σ w (s.load program) (s'.load program') := by
  have left := State.extends_load numbered
  have right := State.extends_load numbered'
  refine ⟨⟨.refl, left, right⟩, cores.store, fun {id id'} paired => ?_,
    State.unused_load numbered cores.unused, State.unused_load numbered' cores.unused',
    cores.output, cores.now⟩
  obtain ⟨early, early', same⟩ := cores.references paired
  refine ⟨Nat.lt_of_lt_of_le early left.nextReference,
    Nat.lt_of_lt_of_le early' right.nextReference, ?_⟩
  rw [left.hops id early, right.hops id' early', same]

/-- Programs with some statements in common are loaded. -/
theorem loadShared (cores : CoreMatch σ w s s') {program program' : Program}
    (numbered : program.Numbered s.nextReference) (numbered' : program'.Numbered s'.nextReference)
    (t : Twin σ) (stmts : List Stmt)
    (agree : ∀ id ∈ idsOf (actsBody stmts),
      id + t.left.offset ∈ program.numbers ∧ id + t.right.offset ∈ program'.numbers ∧
        program.hop? (id + t.left.offset) = program'.hop? (id + t.right.offset)) :
    ∃ w', StateGrows w s s' w' (s.load program) (s'.load program') ∧
      CoreMatch σ w' (s.load program) (s'.load program') ∧ w'.Covers t (actsBody stmts) := by
  obtain ⟨grows, loaded⟩ := cores.load numbered numbered'
  obtain ⟨w', covering, covered, covers⟩ := loaded.cover t stmts fun id held => by
    obtain ⟨left, right, same⟩ := agree id held
    have range := numbered.numbers.range _ left
    have range' := numbered'.numbers.range _ right
    refine ⟨range.2, range'.2, ?_⟩
    rw [State.hops_load cores.unused range.1, State.hops_load cores.unused' range'.1, same]
  exact ⟨w', grows.trans covering, covered, covers⟩

/-- A program is loaded by the first state alone, as the other one knows of its statements. -/
theorem loadLeft (cores : CoreMatch σ w s s') {program : Program}
    (numbered : program.Numbered s.nextReference) (t : Twin σ) (stmts : List Stmt)
    (agree : ∀ id ∈ idsOf (actsBody stmts),
      id + t.left.offset ∈ program.numbers ∧ id + t.right.offset < s'.nextReference ∧
        program.hop? (id + t.left.offset) = s'.hops[id + t.right.offset]?) :
    ∃ w', StateGrows w s s' w' (s.load program) s' ∧ CoreMatch σ w' (s.load program) s' ∧
      w'.Covers t (actsBody stmts) := by
  have left := State.extends_load numbered
  have loaded : CoreMatch σ w (s.load program) s' := by
    refine ⟨cores.store, fun {id id'} paired => ?_, State.unused_load numbered cores.unused,
      cores.unused', cores.output, cores.now⟩
    obtain ⟨early, early', same⟩ := cores.references paired
    exact ⟨Nat.lt_of_lt_of_le early left.nextReference, early', (left.hops id early).trans same⟩
  obtain ⟨w', covering, covered, covers⟩ := loaded.cover t stmts fun id held => by
    obtain ⟨isNumber, early', same⟩ := agree id held
    have range := numbered.numbers.range _ isNumber
    exact ⟨range.2, early', (State.hops_load cores.unused range.1).trans same⟩
  have alone : StateGrows w s s' w (s.load program) s' := ⟨.refl, left, .refl s'⟩
  exact ⟨w', alone.trans covering, covered, covers⟩

end CoreMatch

/-- A text whose tokens have other numbers in the two runs. -/
def Twin.renumber (σ : Leeway) (first first' : Nat) : Twin σ :=
  ⟨.renumber first, .renumber first', σ.same⟩

/-- One text is rejected with the same errors by both runs, or compiled to one program, moved. -/
theorem Program.compile_twice (first first' : Nat) (source : String) :
    (∃ errors, compile first source = .error errors ∧ compile first' source = .error errors) ∨
    ∃ base : Program, base.Checked 0 ∧ compile first source = .ok (base.move (.renumber first)) ∧
      compile first' source = .ok (base.move (.renumber first')) := by
  have left := compile_renumber 0 first source
  have right := compile_renumber 0 first' source
  rw [Nat.zero_add] at left right
  cases compiled : compile 0 source with
  | error errors =>
      have same : ∀ offset, errors.map (Error.move (.renumber offset)) = errors := fun offset => by
        rw [List.map_congr_left fun error _ => Error.move_renumber offset error, List.map_id']
      rw [compiled, moveCompiled, same] at left right
      exact .inl ⟨errors, left, right⟩
  | ok base =>
      rw [compiled] at left right
      exact .inr ⟨base, compile_checked compiled, left, right⟩

/-- Once both have loaded a text, its references are counterparts. -/
theorem CoreMatch.loadText {σ : Leeway} {w : Pairing} {s s' : State}
    (cores : CoreMatch σ w s s') {base : Program}
    (left : (base.move (.renumber s.nextReference)).Numbered s.nextReference)
    (right : (base.move (.renumber s'.nextReference)).Numbered s'.nextReference) :
    ∃ w' : Pairing, StateGrows w s s' w' (s.load (base.move (.renumber s.nextReference)))
        (s'.load (base.move (.renumber s'.nextReference))) ∧
      CoreMatch σ w' (s.load (base.move (.renumber s.nextReference)))
        (s'.load (base.move (.renumber s'.nextReference))) ∧
      w'.Covers (.renumber σ s.nextReference s'.nextReference) (actsBody base.stmts) := by
  refine cores.loadShared left right (.renumber σ s.nextReference s'.nextReference) base.stmts
    fun id held => ⟨?_, ?_, ?_⟩
  · rw [base.numbers_move]
    exact List.mem_map_of_mem held
  · rw [base.numbers_move]
    exact List.mem_map_of_mem held
  · exact (base.hop?_move (.renumber s.nextReference) id).trans
      (base.hop?_move (.renumber s'.nextReference) id).symm

end Lox
