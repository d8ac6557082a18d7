import Lox.Program
import Lox.Machine.State
import Lox.Proofs.Parse.Statements

/-!
# Compiled programs

What the checks of a compiled program come to: no event of its walk is at fault, every reference
has a number of its own, and the table of distances tells of each reference what the walk finds
out about it.
-/

namespace Lox

namespace Program

/-- The events of a program whose tokens are numbered from `first`. -/
def events (first : Nat) (program : Program) : List Event := walkProgram first program.stmts

/-- What is known of a program that was compiled with its tokens numbered from `first`. -/
structure Checked (first : Nat) (program : Program) : Prop where
  sound : ∀ event ∈ program.events first, event.fault? = none
  proper : ∀ event ∈ program.events first, event.act.Proper
  ids : Parse.Spread first (first + program.width)
    ((program.events first).filterMap fun event => event.act.id?)
  hops : program.hops = (program.events first).filterMap Event.hop?

/-- A compiled program passed all three readings of its source. -/
theorem compile_ok {first : Nat} {source : String} {program : Program}
    (compiled : compile first source = .ok program) :
    Token.lexicalErrors source = [] ∧
      (Parse.program first (Token.ofSource source)).errors = [] ∧
      (analyze (Parse.program first (Token.ofSource source)).stmts).errors = #[] ∧
      program = ⟨(Parse.program first (Token.ofSource source)).stmts,
        (analyze (Parse.program first (Token.ofSource source)).stmts).hops.toList,
        (Token.ofSource source).length⟩ := by
  unfold compile at compiled
  dsimp only at compiled
  split at compiled
  · next sound =>
      obtain ⟨lexical, parsed⟩ := List.append_eq_nil_iff.mp sound
      split at compiled
      · next analyzed =>
          refine ⟨lexical, parsed, ?_, (Except.ok.inj compiled).symm⟩
          exact Array.toList_eq_nil_iff.mp analyzed
      · cases compiled
  · cases compiled

/-- Every source has an end token at least. -/
theorem ofSource_ne_nil (source : String) : Token.ofSource source ≠ [] := by
  have nonempty : ∀ (line : Nat) (text : List Char),
      (Token.scanFrom line text).filterMap Scanned.token? ≠ [] := by
    intro line text
    fun_induction Token.scanFrom line text with
    | case1 line => simp [Scanned.token?]
    | case2 line c rest item after next taken ih =>
        cases item with
        | token token => simp [Scanned.token?]
        | fault error => exact ih
    | case3 line c rest after next taken ih => exact ih
  exact nonempty 1 source.toList

/-- A compiled program uses some numbers up. -/
theorem width_pos {first : Nat} {source : String} {program : Program}
    (compiled : compile first source = .ok program) : 0 < program.width := by
  obtain ⟨_, _, _, rfl⟩ := compile_ok compiled
  exact List.length_pos_iff.mpr (ofSource_ne_nil source)

/-- A source that passes all three readings is compiled. -/
theorem compile_eq_ok {first : Nat} {source : String}
    (lexical : Token.lexicalErrors source = [])
    (parsed : (Parse.program first (Token.ofSource source)).errors = [])
    (analyzed : (analyze (Parse.program first (Token.ofSource source)).stmts).errors = #[]) :
    compile first source = .ok ⟨(Parse.program first (Token.ofSource source)).stmts,
      (analyze (Parse.program first (Token.ofSource source)).stmts).hops.toList,
      (Token.ofSource source).length⟩ := by
  have sound : (Token.scan source).filterMap Scanned.error? ++
      (Parse.program first ((Token.scan source).filterMap Scanned.token?)).errors = [] :=
    List.append_eq_nil_iff.mpr ⟨lexical, parsed⟩
  unfold compile
  dsimp only
  rw [sound]
  dsimp only
  have none : (analyze (Parse.program first
      ((Token.scan source).filterMap Scanned.token?)).stmts).errors.toList = [] := by
    rw [show (Token.scan source).filterMap Scanned.token? = Token.ofSource source from rfl,
      analyzed]
  rw [none]
  rfl

/-- The parser reads the tokens of a source as it reads them with their numbers. -/
theorem parsed_retouched {first : Nat} {source : String} {others : List Token}
    (alike : List.Forall₂ Parse.Alike (Token.ofSource source) others)
    (faithful : ∀ token ∈ others, token.Faithful)
    (parsed : (Parse.program first (Token.ofSource source)).errors = []) :
    ∃ numbered : Parse.Parsed,
      Parse.ReadProgram (Parse.retouch first (Token.ofSource source)) first
        (Token.ofSource source) numbered (Parse.program first (Token.ofSource source)) ∧
      (Parse.program first others).errors = [] ∧
      Parse.ReadProgram (Parse.retouch first others) first (Token.ofSource source) numbered
        (Parse.program first others) := by
  have spelled := Token.faithful_ofSource source
  have itself : List.Forall₂ Parse.Alike (Token.ofSource source) (Token.ofSource source) :=
    List.forall₂_same.mpr fun token _ => .refl token
  have original := Parse.program_map (Parse.keeps_retouch first (Token.ofSource source)) first
    spelled
  have replaced := Parse.program_map (Parse.keeps_retouch first others) first spelled
  rw [Parse.map_retouch itself spelled first] at original
  rw [Parse.map_retouch alike faithful first] at replaced
  rcases original with ⟨sound, _, reading⟩ | ⟨_, faulty⟩
  · rcases replaced with ⟨_, sound', reading'⟩ | ⟨faulty, _⟩
    · exact ⟨_, reading, sound', reading'⟩
    · exact absurd sound faulty
  · exact absurd parsed faulty

/-- A compiled program has passed its checks. -/
theorem compile_checked {first : Nat} {source : String} {program : Program}
    (compiled : compile first source = .ok program) : program.Checked first := by
  obtain ⟨_, parsed, analyzed, rfl⟩ := compile_ok compiled
  have spelled := Token.faithful_ofSource source
  have itself : List.Forall₂ Parse.Alike (Token.ofSource source) (Token.ofSource source) :=
    List.forall₂_same.mpr fun token _ => .refl token
  obtain ⟨_, reading, _, _⟩ := parsed_retouched itself spelled parsed
  have acts := map_act_walkBody [first] .root 0
    (Parse.program first (Token.ofSource source)).stmts
  have within := reading.within
  rw [← acts] at within
  refine ⟨fun event walked => ?_, fun event walked => ?_, ?_, ?_⟩
  · have errors := analyze_errors first (Parse.program first (Token.ofSource source)).stmts
    rw [analyzed] at errors
    exact List.filterMap_eq_nil_iff.mp errors.symm event walked
  · exact within.proper event.act (List.mem_map_of_mem walked)
  · have ids := within.ids
    rwa [List.filterMap_map] at ids
  · exact analyze_hops first _

end Program

/-! ## The table of distances -/

/-- One entry after another is put into a table; the last of a number stands. -/
theorem getElem?_foldl_insert (entries : List (Nat × Nat)) (table : Std.TreeMap Nat Nat)
    (id : Nat) :
    (∃ distance, (id, distance) ∈ entries ∧
      (entries.foldl (fun hops entry => hops.insert entry.1 entry.2) table)[id]? =
        some distance) ∨
    ((∀ distance, (id, distance) ∉ entries) ∧
      (entries.foldl (fun hops entry => hops.insert entry.1 entry.2) table)[id]? =
        table[id]?) := by
  induction entries generalizing table with
  | nil => exact .inr ⟨fun _ => List.not_mem_nil, rfl⟩
  | cons entry entries ih =>
      rcases ih (table.insert entry.1 entry.2) with ⟨distance, held, found⟩ | ⟨none, found⟩
      · exact .inl ⟨distance, List.mem_cons_of_mem _ held, found⟩
      · rw [List.foldl_cons, found, Std.TreeMap.getElem?_insert]
        by_cases same : entry.1 = id
        · subst same
          exact .inl ⟨entry.2, List.mem_cons_self, by simp⟩
        · refine .inr ⟨fun distance held => ?_, by simp [same]⟩
          rcases List.mem_cons.mp held with rfl | held
          · exact same rfl
          · exact none distance held

/-- Two members of a list that a function tells apart are one. -/
theorem eq_of_nodup_filterMap {α β : Type} {f : α → Option β} {items : List α}
    (nodup : (items.filterMap f).Nodup) {x y : α} {b : β} (hasX : x ∈ items) (hasY : y ∈ items)
    (ofX : f x = some b) (ofY : f y = some b) : x = y := by
  induction items with
  | nil => exact (List.not_mem_nil hasX).elim
  | cons item items ih =>
      have member : ∀ z ∈ items, f z = some b → b ∈ items.filterMap f :=
        fun z held found => List.mem_filterMap.mpr ⟨z, held, found⟩
      rcases List.mem_cons.mp hasX with rfl | inX
      · rcases List.mem_cons.mp hasY with rfl | inY
        · rfl
        · rw [List.filterMap_cons_some ofX] at nodup
          exact absurd (member y inY ofY) (List.nodup_cons.mp nodup).1
      · rcases List.mem_cons.mp hasY with rfl | inY
        · rw [List.filterMap_cons_some ofY] at nodup
          exact absurd (member x inX ofX) (List.nodup_cons.mp nodup).1
        · refine ih ?_ inX inY
          cases found : f item with
          | none => rwa [List.filterMap_cons_none found] at nodup
          | some c =>
              rw [List.filterMap_cons_some found] at nodup
              exact (List.nodup_cons.mp nodup).2

/-- The table of a state tells of known events what their walks find out about them. -/
structure State.Located (known : Event → Prop) (s : State) : Prop where
  unused : ∀ id, s.nextReference ≤ id → s.hops[id]? = none
  used : ∀ event, known event → ∀ id, event.act.id? = some id → id < s.nextReference
  found : ∀ event, known event → ∀ id, event.act.id? = some id →
    s.hops[id]? = event.distance?

theorem Event.hop?_eq_some {event : Event} {entry : Nat × Nat}
    (enters : event.hop? = some entry) :
    event.act.id? = some entry.1 ∧ event.distance? = some entry.2 := by
  unfold Event.hop? at enters
  split at enters
  · cases enters
  · obtain ⟨sought, looks, mapped⟩ := Option.bind_eq_some_iff.mp enters
    obtain ⟨distance, found, rfl⟩ := Option.map_eq_some_iff.mp mapped
    refine ⟨?_, found⟩
    rw [Act.id?, looks]
    rfl

theorem Event.hop?_of_sound {event : Event} {id : Nat} (sound : event.fault? = none)
    (looks : event.act.id? = some id) :
    event.hop? = event.distance?.map fun distance => (id, distance) := by
  obtain ⟨sought, looked, rfl⟩ := Option.map_eq_some_iff.mp looks
  simp [Event.hop?, sound, looked]

/-- Loading a compiled program adds its events to those that the table tells of. -/
theorem State.Located.load {known : Event → Prop} {s : State} (located : s.Located known)
    {program : Program} (checked : program.Checked s.nextReference) :
    (s.load program).Located fun event =>
      known event ∨ event ∈ program.events s.nextReference := by
  have outcome := fun id => getElem?_foldl_insert program.hops s.hops id
  have entry : ∀ id distance, (id, distance) ∈ program.hops →
      ∃ event ∈ program.events s.nextReference,
        event.act.id? = some id ∧ event.distance? = some distance := by
    intro id distance held
    rw [checked.hops] at held
    obtain ⟨event, walked, enters⟩ := List.mem_filterMap.mp held
    exact ⟨event, walked, Event.hop?_eq_some enters⟩
  have range : ∀ event ∈ program.events s.nextReference, ∀ id, event.act.id? = some id →
      s.nextReference ≤ id ∧ id < s.nextReference + program.width :=
    fun event walked id looks =>
      checked.ids.range id (List.mem_filterMap.mpr ⟨event, walked, looks⟩)
  refine ⟨fun id high => ?_, fun event isKnown id looks => ?_, fun event isKnown id looks => ?_⟩
  · have high : s.nextReference + program.width ≤ id := high
    rcases outcome id with ⟨distance, held, _⟩ | ⟨_, same⟩
    · obtain ⟨event, walked, looks, _⟩ := entry id distance held
      have := range event walked id looks
      omega
    · exact same.trans (located.unused id (by omega))
  · show id < s.nextReference + program.width
    rcases isKnown with before | walked
    · have := located.used event before id looks
      omega
    · exact (range event walked id looks).2
  · show (program.hops.foldl (fun hops entry => hops.insert entry.1 entry.2) s.hops)[id]? = _
    rcases outcome id with ⟨distance, held, found⟩ | ⟨absent, same⟩
    · rw [found]
      obtain ⟨other, walked, otherLooks, otherFound⟩ := entry id distance held
      rcases isKnown with before | here
      · have := located.used event before id looks
        have := range other walked id otherLooks
        omega
      · rw [eq_of_nodup_filterMap checked.ids.nodup here walked looks otherLooks, otherFound]
    · rw [same]
      rcases isKnown with before | here
      · exact located.found event before id looks
      · rw [located.unused id (range event here id looks).1]
        cases walked : event.distance? with
        | none => rfl
        | some distance =>
            have enters := Event.hop?_of_sound (checked.sound event here) looks
            rw [walked] at enters
            have held : (id, distance) ∈ program.hops := by
              rw [checked.hops]
              exact List.mem_filterMap.mpr ⟨event, here, enters⟩
            exact absurd held (absent distance)

/-- Whether a source is compiled to a program that passes a test. -/
def compilesTo (test : Program → Bool) (source : String) : Bool :=
  match Program.compile 0 source with
  | .ok program => test program
  | .error _ => false

theorem exists_of_compilesTo {test : Program → Bool} {source : String}
    (computed : compilesTo test source = true) :
    ∃ program, Program.compile 0 source = .ok program ∧ test program = true := by
  unfold compilesTo at computed
  split at computed
  · next program compiled => exact ⟨program, compiled, computed⟩
  · cases computed

end Lox
