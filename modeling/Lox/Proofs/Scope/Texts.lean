import Lox.Proofs.Compiled
import Lox.Proofs.Scope.Tokens
import Lox.Proofs.Token.Rewritten

/-!
# Respelling a text

A compiled program is respelled by rewriting identifiers of its source: those whose tokens the
respelled tree spells differently.  The rewritten source is compiled to the respelled tree, with
the distances that were recorded for the tree as it was.
-/

namespace Lox

namespace Parse

variable {first : Nat} {tokens : List Token}

/-- Keep the given tokens and move every other one to the next line. -/
def moveOthers (kept : List Token) (token : Token) : Token :=
  if token ∈ kept then token else { token with line := token.line + 1 }

theorem moveOthers_of_mem {kept : List Token} {token : Token} (held : token ∈ kept) :
    moveOthers kept token = token :=
  if_pos held

theorem moveOthers_of_notMem {kept : List Token} {token : Token} (absent : token ∉ kept) :
    moveOthers kept token = { token with line := token.line + 1 } :=
  if_neg absent

theorem keeps_moveOthers (kept : List Token) : Keeps (moveOthers kept) := by
  refine ⟨fun token => ?_, fun token => ?_, fun token faithful => ?_⟩ <;>
    by_cases held : token ∈ kept
  · rw [moveOthers_of_mem held]
  · rw [moveOthers_of_notMem held]
  · rw [moveOthers_of_mem held]
  · rw [moveOthers_of_notMem held]
  · rwa [moveOthers_of_mem held]
  · rw [moveOthers_of_notMem held]
    exact ⟨faithful.unreserved, faithful.reserved⟩

/-- A tree that is read from numbered tokens holds no others. -/
theorem mem_numbered_of_mem_tokens (faithful : ∀ token ∈ tokens, token.Faithful)
    (sound : (program first (numbered first tokens)).errors = []) :
    ∀ token ∈ tokensBody (program first (numbered first tokens)).stmts,
      token ∈ numbered first tokens := by
  -- Tokens of the sequence are kept, and any others would be moved; but no token of the tree is.
  have kept : ∀ token ∈ numbered first tokens,
      moveOthers (numbered first tokens) token = token := fun _ => moveOthers_of_mem
  rcases program_map (keeps_moveOthers (numbered first tokens)) first faithful with
    ⟨_, _, reading⟩ | ⟨faulty, _⟩
  · have same := congrArg tokensBody reading.same
    rw [List.map_congr_left kept, List.map_id', tokensBody_mapTokens] at same
    intro token held
    have mapped : (tokensBody (program first (numbered first tokens)).stmts).map
          (moveOthers (numbered first tokens)) =
        (tokensBody (program first (numbered first tokens)).stmts).map id := by
      rw [List.map_id]
      exact same.symm
    have fixed := List.map_inj_left.mp mapped token held
    by_contra absent
    rw [moveOthers_of_notMem absent] at fixed
    have moved : token.line + 1 = token.line := congrArg Token.line fixed
    omega
  · exact absurd sound faulty

/-- The tokens that stand in the places of some numbered ones with other tokens there. -/
def differing (first : Nat) (f : Token → Token) (numbers others : List Token) : List Nat :=
  (numbers.zip others).filterMap fun pair =>
    if pair.2 = f pair.1 then none else some (pair.1.line - first)

theorem mem_differing {f : Token → Token} {numbers others : List Token} {place : Nat} :
    place ∈ differing first f numbers others ↔
      ∃ (index : Nat) (number other : Token), numbers[index]? = some number ∧
        others[index]? = some other ∧ other ≠ f number ∧ number.line - first = place := by
  unfold differing
  rw [List.mem_filterMap]
  constructor
  · rintro ⟨⟨number, other⟩, paired, isPlace⟩
    obtain ⟨index, found⟩ := List.mem_iff_getElem?.mp paired
    obtain ⟨isNumber, isOther⟩ := List.getElem?_zip_eq_some.mp found
    dsimp only at isPlace
    split at isPlace
    · cases isPlace
    · next differs => exact ⟨index, number, other, isNumber, isOther, differs, Option.some.inj isPlace⟩
  · rintro ⟨index, number, other, isNumber, isOther, differs, rfl⟩
    refine ⟨⟨number, other⟩, ?_, if_neg differs⟩
    exact List.mem_of_getElem? (List.getElem?_zip_eq_some.mpr ⟨isNumber, isOther⟩)

end Parse

open Parse Token

theorem Token.alike_rewritten (places : List Nat) (word : List Char) (index : Nat)
    (token : Token) : Alike token (token.rewritten places word index) := by
  unfold rewritten
  split
  · next replaced =>
      have isIdentifier : token.kind = .identifier :=
        eq_of_beq (Bool.and_eq_true_iff.mp replaced).2
      exact ⟨rfl, rfl, fun other => absurd isIdentifier other⟩
  · exact .refl token

theorem Token.forall₂_mapIdx {tokens : List Token} {f : Nat → Token → Token}
    (alike : ∀ index token, Alike token (f index token)) :
    List.Forall₂ Alike tokens (tokens.mapIdx f) := by
  refine List.forall₂_iff_get.mpr ⟨List.length_mapIdx.symm, fun index inside inside' => ?_⟩
  simp only [List.get_eq_getElem, List.getElem_mapIdx]
  exact alike index _

namespace Program

variable {first : Nat} {source : String} {r : Respelling}

/-- A numbered token stands somewhere in the source, and can be put back in its place. -/
theorem stands_of_numbered {number : Token} (held : number ∈ numbered first (ofSource source)) :
    ∃ (place : Nat) (token : Token), (ofSource source)[place]? = some token ∧
      number = { token with line := first + place } ∧
        retouch first (ofSource source) number = token := by
  obtain ⟨place, inside, rfl⟩ := List.mem_mapIdx.mp held
  have found := List.getElem?_eq_getElem inside
  have faithful := faithful_ofSource source _ (List.mem_of_getElem? found)
  exact ⟨place, _, found, rfl, retouch_of_alike found (.refl _) faithful⟩

/-- A token that is replaced in the places where two sequences differ is the other one there. -/
theorem rewritten_differing {f : Token → Token} {numbers others : List Token} {index place : Nat}
    {number other : Token} (lines : (numbers.map Token.line).Nodup)
    (low : ∀ number ∈ numbers, first ≤ number.line) (isNumber : numbers[index]? = some number)
    (isOther : others[index]? = some other) (stands : number.line = first + place)
    (respells : r.Respells (f number) other) :
    (f number).rewritten (differing first f numbers others) r.new.toList place = other := by
  by_cases same : other = f number
  · have kept : place ∉ differing first f numbers others := by
      intro isPlace
      obtain ⟨index', number', other', isNumber', isOther', differs, isPlace⟩ :=
        mem_differing.mp isPlace
      have line := low number' (List.mem_of_getElem? isNumber')
      have sameLine : number'.line = number.line := by omega
      have sameIndex : index' = index := by
        refine (List.getElem?_inj ?_ lines).mp ?_
        · rw [List.length_map]
          exact (List.getElem?_eq_some_iff.mp isNumber').1
        · rw [List.getElem?_map, List.getElem?_map, isNumber, isNumber', Option.map_some,
            Option.map_some, sameLine]
      subst sameIndex
      cases isNumber.symm.trans isNumber'
      cases isOther.symm.trans isOther'
      exact differs same
    rw [rewritten, if_neg (by simp [isReplaced, kept]), same]
  · rcases respells with kept | ⟨isIdentifier, _, rfl⟩
    · exact absurd kept same
    · have isPlace : place ∈ differing first f numbers others :=
        mem_differing.mpr ⟨index, number, _, isNumber, isOther, same, by omega⟩
      rw [rewritten, if_pos (by simp [isReplaced, isPlace, isIdentifier]), String.ofList_toList]

/-- The places of a source that a respelled tree spells differently. -/
theorem exists_places {stmts : List Stmt} (isName : IsName r.new.toList)
    (unreserved : Kind.ofWord? r.old.toList = none)
    (proper : ∀ event ∈ walkProgram first (mapTokensBody (retouch first (ofSource source)) stmts),
      event.act.Proper)
    (held : ∀ token ∈ tokensBody stmts, token ∈ numbered first (ofSource source))
    (lines : ((tokensBody stmts).map Token.line).Nodup) :
    ∃ places : List Nat,
      (∀ place ∈ places, ∃ token, (ofSource source)[place]? = some token ∧
        token.kind = .identifier ∧ token.lexeme = r.old) ∧
      tokensBody (respellProgram r first (mapTokensBody (retouch first (ofSource source)) stmts)) =
        (tokensBody stmts).map (retouch first ((ofSource source).mapIdx fun index token =>
          token.rewritten places r.new.toList index)) := by
  have stands : ∀ number ∈ tokensBody stmts, ∃ (place : Nat) (token : Token),
      (ofSource source)[place]? = some token ∧ number = { token with line := first + place } ∧
        retouch first (ofSource source) number = token :=
    fun number inTree => stands_of_numbered (held number inTree)
  have respells := tokensBody_respell (r := r) unreserved 0
    (mapTokensBody (retouch first (ofSource source)) stmts) proper
  rw [tokensBody_mapTokens] at respells
  have length := respells.length_eq
  rw [List.length_map] at length
  unfold respellProgram
  revert respells length
  generalize tokensBody (respellBody r [first] .root 0
    (mapTokensBody (retouch first (ofSource source)) stmts)) = respelled
  intro respells length
  have pairs : ∀ (index : Nat) (number other : Token), (tokensBody stmts)[index]? = some number →
      respelled[index]? = some other →
      r.Respells (retouch first (ofSource source) number) other := by
    intro index number other isNumber isOther
    have both := List.forall₂_iff_get.mp respells
    obtain ⟨inside, rfl⟩ := List.getElem?_eq_some_iff.mp isNumber
    obtain ⟨inside', rfl⟩ := List.getElem?_eq_some_iff.mp isOther
    simpa using both.2 index (by simpa using inside) inside'
  have low : ∀ number ∈ tokensBody stmts, first ≤ number.line := by
    intro number inTree
    obtain ⟨place, token, _, rfl, _⟩ := stands number inTree
    exact Nat.le_add_right first place
  refine ⟨differing first (retouch first (ofSource source)) (tokensBody stmts) respelled,
    fun place isPlace => ?_, List.ext_getElem? fun index => ?_⟩
  · obtain ⟨index, number, other, isNumber, isOther, differs, rfl⟩ := mem_differing.mp isPlace
    obtain ⟨place, token, found, rfl, isToken⟩ := stands number (List.mem_of_getElem? isNumber)
    rcases pairs index _ other isNumber isOther with same | ⟨isIdentifier, old, _⟩
    · exact absurd same differs
    · rw [isToken] at isIdentifier old
      refine ⟨token, ?_, isIdentifier, old⟩
      simpa using found
  · by_cases inside : index < (tokensBody stmts).length
    swap
    · rw [List.getElem?_eq_none (by omega), List.getElem?_eq_none (by simpa using inside)]
    have isNumber := List.getElem?_eq_getElem inside
    have isOther := List.getElem?_eq_getElem (show index < respelled.length by omega)
    obtain ⟨place, token, found, isIt, isToken⟩ := stands _ (List.getElem_mem inside)
    rw [List.getElem?_map, isNumber, isOther, Option.map_some]
    have rewrites := rewritten_differing lines low isNumber isOther (congrArg Token.line isIt)
      (pairs index _ _ isNumber isOther)
    rw [isToken] at rewrites
    revert rewrites
    generalize differing first (retouch first (ofSource source)) (tokensBody stmts) respelled = places
    intro rewrites
    have stood : ((ofSource source).mapIdx fun index token =>
        token.rewritten places r.new.toList index)[place]? = some respelled[index] := by
      rw [List.getElem?_mapIdx, found, Option.map_some, rewrites]
    have spelled : respelled[index].Faithful := by
      refine faithful_ofSource (rewrite places r.new source) _ ?_
      rw [ofSource_rewrite isName]
      exact List.mem_of_getElem? stood
    have alike := token.alike_rewritten places r.new.toList place
    rw [rewrites] at alike
    rw [isIt, retouch_of_alike stood alike spelled]

/-- A source is rewritten so that it is read as a respelled tree. -/
theorem parsed_rewritten (isName : IsName r.new.toList)
    (unreserved : Kind.ofWord? r.old.toList = none)
    (parsed : (Parse.program first (ofSource source)).errors = [])
    (proper : ∀ event ∈ walkProgram first (Parse.program first (ofSource source)).stmts,
      event.act.Proper) :
    ∃ places : List Nat,
      (∀ place ∈ places, ∃ token, (ofSource source)[place]? = some token ∧
        token.kind = .identifier ∧ token.lexeme = r.old) ∧
      (Parse.program first (ofSource (rewrite places r.new source))).errors = [] ∧
      (Parse.program first (ofSource (rewrite places r.new source))).stmts =
        respellProgram r first (Parse.program first (ofSource source)).stmts := by
  have faithful := faithful_ofSource source
  have itself : List.Forall₂ Alike (ofSource source) (ofSource source) :=
    List.forall₂_same.mpr fun token _ => .refl token
  have reading := program_map (keeps_retouch first (ofSource source)) first faithful
  rw [map_retouch itself faithful first] at reading
  rcases reading with ⟨sound, _, same, within⟩ | ⟨_, faulty⟩
  swap
  · exact absurd parsed faulty
  have held := mem_numbered_of_mem_tokens faithful sound
  have lines := within.tokens.nodup
  rw [same] at proper ⊢
  have others : ∀ others : List Token, List.Forall₂ Alike (ofSource source) others →
      (∀ token ∈ others, token.Faithful) → (Parse.program first others).errors = [] ∧
        (Parse.program first others).stmts = mapTokensBody (retouch first others)
          (Parse.program first (numbered first (ofSource source))).stmts := by
    intro others alike faithful'
    have replaced := program_map (keeps_retouch first others) first faithful
    rw [map_retouch alike faithful' first] at replaced
    rcases replaced with ⟨_, sound', reading⟩ | ⟨faulty, _⟩
    · exact ⟨sound', reading.same⟩
    · exact absurd sound faulty
  generalize (Parse.program first (numbered first (ofSource source))).stmts = stmts
    at held lines proper others ⊢
  obtain ⟨places, spelled, retouched⟩ := exists_places isName unreserved proper held lines
  have alike : List.Forall₂ Alike (ofSource source) (ofSource (rewrite places r.new source)) := by
    rw [ofSource_rewrite isName]
    exact forall₂_mapIdx fun index token => token.alike_rewritten places r.new.toList index
  obtain ⟨sound', read⟩ := others _ alike (faithful_ofSource _)
  refine ⟨places, spelled, sound', ?_⟩
  rw [read, ofSource_rewrite isName]
  exact (respellBody_eq unreserved 0 stmts proper retouched).symm

/-- The tree of a compiled source holds tokens of the source only. -/
theorem mem_ofSource_of_mem_tokens {program : Program}
    (compiled : compile first source = .ok program) :
    ∀ token ∈ tokensBody program.stmts, token ∈ ofSource source := by
  obtain ⟨_, parsed, _, rfl⟩ := compile_ok compiled
  have faithful := faithful_ofSource source
  have itself : List.Forall₂ Alike (ofSource source) (ofSource source) :=
    List.forall₂_same.mpr fun token _ => .refl token
  have reading := program_map (keeps_retouch first (ofSource source)) first faithful
  rw [map_retouch itself faithful first] at reading
  rcases reading with ⟨sound, _, same, _⟩ | ⟨_, faulty⟩
  · intro token inTree
    dsimp only at inTree
    rw [same, tokensBody_mapTokens] at inTree
    obtain ⟨number, held, rfl⟩ := List.mem_map.mp inTree
    obtain ⟨place, token, found, _, isToken⟩ :=
      stands_of_numbered (mem_numbered_of_mem_tokens faithful sound number held)
    rw [isToken]
    exact List.mem_of_getElem? found
  · exact absurd parsed faulty

/-- A sound respelling of a compiled program is compiled from a rewritten source. -/
theorem compile_rewritten {program : Program} (compiled : compile first source = .ok program)
    (proper : r.Proper) (isName : IsName r.new.toList)
    (unreserved : Kind.ofWord? r.old.toList = none)
    (spared : ∀ event ∈ program.events first, event.Spared r) :
    ∃ (places : List Nat) (renamed : Program),
      (∀ place ∈ places, ∃ token, (ofSource source)[place]? = some token ∧
        token.kind = .identifier ∧ token.lexeme = r.old) ∧
      compile first (rewrite places r.new source) = .ok renamed ∧
      renamed.stmts = respellProgram r first program.stmts ∧
      renamed.hops = program.hops ∧ renamed.width = program.width := by
  have checked := compile_checked compiled
  obtain ⟨lexical, parsed, analyzed, rfl⟩ := compile_ok compiled
  obtain ⟨places, spelled, sound, read⟩ :=
    parsed_rewritten isName unreserved parsed checked.proper
  obtain ⟨sameErrors, sameHops⟩ := analyze_respell proper first _ spared
  have lexical' : lexicalErrors (rewrite places r.new source) = [] := by
    rw [lexicalErrors_rewrite isName, lexical]
  have analyzed' : (analyze (Parse.program first
      (ofSource (rewrite places r.new source))).stmts).errors = #[] := by
    rw [read]
    exact sameErrors.trans analyzed
  refine ⟨places, _, spelled, compile_eq_ok lexical' sound analyzed', read, ?_, ?_⟩
  · rw [read]
    exact congrArg Array.toList sameHops
  · rw [ofSource_rewrite isName]
    exact List.length_mapIdx

end Program

end Lox
