import Lox.Proofs.Matching.Programs

/-!
# Statements in place of an inclusion

A program in which the statements of a file stand in place of the inclusion of it.  Its references
are those of both, and of each of them analysis finds out the same as before.
-/

namespace Lox

/-- What analysis finds out of a reference of statements at the top level. -/
def hopIn? (stmts : List Stmt) (id : Nat) : Option Nat :=
  (analyze stmts).hops.toList.reverse.lookup id

theorem Program.Numbered.hop?_eq {first : Nat} {program : Program}
    (numbered : program.Numbered first) (id : Nat) : program.hop? id = hopIn? program.stmts id := by
  rw [hop?, numbered.analyzed]
  rfl

theorem hopIn?_append (stmts others : List Stmt) (id : Nat) :
    hopIn? (stmts ++ others) id = (hopIn? others id).or (hopIn? stmts id) := by
  rw [hopIn?, (analyze_append stmts others).2, List.reverse_append, List.lookup_append]
  rfl

theorem hopIn?_move (m : Move) (stmts : List Stmt) (id : Nat) :
    hopIn? (moveBody m stmts) (id + m.offset) = hopIn? stmts id := by
  have moved := Program.hop?_move m ⟨stmts, (analyze stmts).hops.toList, 0⟩ id
  unfold Program.hop? Program.move at moved
  rw [hopIn?, analyze_move, Analysis.move, Array.toList_map]
  exact moved

theorem hopIn?_eq_none {stmts : List Stmt} {id : Nat} (outside : id ∉ idsOf (actsBody stmts)) :
    hopIn? stmts id = none := by
  cases found : hopIn? stmts id with
  | none => rfl
  | some distance =>
      obtain ⟨before, after, split, _⟩ := List.lookup_eq_some_iff.mp found
      have entered : (id, distance) ∈ (analyze stmts).hops.toList := by
        rw [← List.mem_reverse, split]
        simp
      rw [analyze_hops 0] at entered
      obtain ⟨event, walked, enters⟩ := List.mem_filterMap.mp entered
      have acts := map_act_walkBody [0] .root 0 stmts
      refine absurd ?_ outside
      rw [idsOf, ← acts]
      exact List.mem_filterMap.mpr
        ⟨event.act, List.mem_map_of_mem walked, (Event.hop?_eq_some enters).1⟩

theorem idsOf_actsBody_append (stmts others : List Stmt) :
    idsOf (actsBody (stmts ++ others)) = idsOf (actsBody stmts) ++ idsOf (actsBody others) := by
  rw [actsBody_append, idsOf_append]

/-- Moved statements number their references above an offset. -/
theorem le_of_mem_idsOf_move {m : Move} {stmts : List Stmt} {id : Nat}
    (held : id ∈ idsOf (actsBody (moveBody m stmts))) : m.offset ≤ id := by
  rw [idsOfBody_move] at held
  obtain ⟨number, _, rfl⟩ := List.mem_map.mp held
  exact Nat.le_add_left _ _

namespace Program

/-- The statements of a file in place of an inclusion, with the numbers behind the program's. -/
def splicedStmts (first : Nat) (program file : Program) (before after : List Stmt) : List Stmt :=
  moveBody (.renumber first) before ++
    (moveBody (.renumber (first + program.width)) file.stmts ++ moveBody (.renumber first) after)

def spliced (first : Nat) (program file : Program) (before after : List Stmt) : Program :=
  ⟨splicedStmts first program file before after,
    (analyze (splicedStmts first program file before after)).hops.toList,
    program.width + file.width⟩

/-- At the top level of a program a file is included, before some statements and after others. -/
structure Includes (program : Program) (before : List Stmt) (path : Token) (after : List Stmt) :
    Prop where
  numbered : program.Numbered 0
  stmts : program.stmts = before ++ .inclusion path :: after

section Spliced

variable {program file : Program} {before after : List Stmt} {path : Token}

theorem Includes.numbers (includes : program.Includes before path after) :
    program.numbers = idsOf (actsBody before) ++ idsOf (actsBody after) := by
  rw [Program.numbers, includes.stmts, actsBody_append, idsOf_append]
  rfl

theorem Includes.lt (includes : program.Includes before path after) {id : Nat}
    (held : id ∈ idsOf (actsBody (before ++ after))) : id < program.width := by
  rw [idsOf_actsBody_append, ← includes.numbers] at held
  exact Nat.zero_add program.width ▸ (includes.numbered.numbers.range id held).2

theorem Includes.hop? (includes : program.Includes before path after) (id : Nat) :
    program.hop? id = (hopIn? after id).or (hopIn? before id) := by
  have apart : program.stmts = before ++ ([.inclusion path] ++ after) := includes.stmts
  have none : hopIn? [.inclusion path] id = none := hopIn?_eq_none List.not_mem_nil
  rw [includes.numbered.hop?_eq, apart, hopIn?_append, hopIn?_append, none, Option.or_none]

theorem numbers_spliced (first : Nat) :
    (spliced first program file before after).numbers =
      (idsOf (actsBody before)).map (· + first) ++ (file.numbers.map (· + (first + program.width)) ++
        (idsOf (actsBody after)).map (· + first)) := by
  rw [Program.numbers, spliced, splicedStmts, idsOf_actsBody_append, idsOf_actsBody_append,
    idsOfBody_move, idsOfBody_move, idsOfBody_move]
  rfl

/-- The references of both are numbered apart. -/
theorem Includes.numbered_spliced (includes : program.Includes before path after)
    (numberedFile : file.Numbered 0) (first : Nat) :
    (spliced first program file before after).Numbered first := by
  have nodup := includes.numbered.numbers.nodup
  rw [includes.numbers] at nodup
  obtain ⟨nodupBefore, nodupAfter, apart⟩ := List.nodup_append'.mp nodup
  have early : ∀ id, id ∈ idsOf (actsBody before) ∨ id ∈ idsOf (actsBody after) →
      id < program.width := fun id held => includes.lt (by
    rwa [idsOf_actsBody_append, List.mem_append])
  have raised : ∀ {ids : List Nat} (offset : Nat), ids.Nodup → (ids.map (· + offset)).Nodup :=
    fun offset nodup => nodup.map fun _ _ same => Nat.add_right_cancel same
  refine ⟨⟨?_, fun number held => ?_⟩, rfl⟩
  · rw [numbers_spliced, List.nodup_append', List.nodup_append']
    refine ⟨raised _ nodupBefore, ⟨raised _ numberedFile.numbers.nodup, raised _ nodupAfter, ?_⟩, ?_⟩
    · intro number inFile inAfter
      obtain ⟨id, _, rfl⟩ := List.mem_map.mp inFile
      obtain ⟨id', held', same⟩ := List.mem_map.mp inAfter
      have := early id' (.inr held')
      omega
    · intro number inBefore inOthers
      obtain ⟨id, held, rfl⟩ := List.mem_map.mp inBefore
      have := early id (.inl held)
      rcases List.mem_append.mp inOthers with inFile | inAfter
      · obtain ⟨id', _, same⟩ := List.mem_map.mp inFile
        omega
      · obtain ⟨id', held', same⟩ := List.mem_map.mp inAfter
        obtain rfl : id' = id := by omega
        exact apart held held'
  · rw [numbers_spliced] at held
    have width : (spliced first program file before after).width = program.width + file.width := rfl
    rcases List.mem_append.mp held with inBefore | inOthers
    · obtain ⟨id, own, rfl⟩ := List.mem_map.mp inBefore
      have := early id (.inl own)
      omega
    · rcases List.mem_append.mp inOthers with inFile | inAfter
      · obtain ⟨id, own, rfl⟩ := List.mem_map.mp inFile
        have := numberedFile.numbers.range id own
        omega
      · obtain ⟨id, own, rfl⟩ := List.mem_map.mp inAfter
        have := early id (.inr own)
        omega

/-- Of the references of the program the same is found out as if the file was included. -/
theorem Includes.hop?_spliced (includes : program.Includes before path after)
    (numberedFile : file.Numbered 0) (first : Nat) {id : Nat}
    (held : id ∈ idsOf (actsBody (before ++ after))) :
    (spliced first program file before after).hop? (id + first) = program.hop? id := by
  have early := includes.lt held
  have none : hopIn? (moveBody (.renumber (first + program.width)) file.stmts) (id + first) = none := by
    refine hopIn?_eq_none fun inFile => ?_
    have late : first + program.width ≤ id + first := le_of_mem_idsOf_move inFile
    omega
  rw [(includes.numbered_spliced numberedFile first).hop?_eq, includes.hop?]
  show hopIn? (splicedStmts first program file before after) (id + first) = _
  rw [splicedStmts, hopIn?_append, hopIn?_append, none, Option.or_none]
  exact congrArg₂ Option.or (hopIn?_move (.renumber first) after id)
    (hopIn?_move (.renumber first) before id)

theorem Includes.hop?_spliced_file (includes : program.Includes before path after)
    (numberedFile : file.Numbered 0) (first : Nat) (id : Nat) :
    (spliced first program file before after).hop? (id + (first + program.width)) =
      file.hop? id := by
  have none : ∀ {stmts : List Stmt}, (∀ id ∈ idsOf (actsBody stmts), id < program.width) →
      hopIn? (moveBody (.renumber first) stmts) (id + (first + program.width)) = none := by
    intro stmts early
    refine hopIn?_eq_none fun held => ?_
    rw [idsOfBody_move] at held
    obtain ⟨number, held, same⟩ := List.mem_map.mp held
    have := early number held
    have : number + first = id + (first + program.width) := same
    omega
  have early : ∀ id, id ∈ idsOf (actsBody before) ++ idsOf (actsBody after) →
      id < program.width := fun id held => includes.lt (by rwa [idsOf_actsBody_append])
  have inBefore := none fun id held => early id (List.mem_append_left _ held)
  have inAfter := none fun id held => early id (List.mem_append_right _ held)
  rw [(includes.numbered_spliced numberedFile first).hop?_eq, numberedFile.hop?_eq]
  show hopIn? (splicedStmts first program file before after) (id + (first + program.width)) = _
  rw [splicedStmts, hopIn?_append, hopIn?_append, inBefore, inAfter, Option.none_or,
    Option.or_none]
  exact hopIn?_move (.renumber (first + program.width)) file.stmts id

/-- Analysis finds no fault in the spliced program if it finds none in the program and the file. -/
theorem Includes.sound_spliced (includes : program.Includes before path after)
    (sound : (analyze program.stmts).errors.toList = [])
    (soundFile : (analyze file.stmts).errors.toList = []) (first : Nat) :
    (analyze (spliced first program file before after).stmts).errors.toList = [] := by
  have moved : ∀ (m : Move) {stmts : List Stmt}, (analyze stmts).errors.toList = [] →
      (analyze (moveBody m stmts)).errors.toList = [] := by
    intro m stmts none
    rw [analyze_move, Analysis.move, Array.toList_map, none]
    rfl
  have apart : program.stmts = before ++ ([.inclusion path] ++ after) := includes.stmts
  rw [apart, (analyze_append _ _).1, (analyze_append _ _).1] at sound
  obtain ⟨soundBefore, others⟩ := List.append_eq_nil_iff.mp sound
  obtain ⟨_, soundAfter⟩ := List.append_eq_nil_iff.mp others
  show (analyze (splicedStmts first program file before after)).errors.toList = []
  rw [splicedStmts, (analyze_append _ _).1, (analyze_append _ _).1, moved _ soundBefore,
    moved _ soundFile, moved _ soundAfter]
  rfl

end Spliced

end Program

end Lox
