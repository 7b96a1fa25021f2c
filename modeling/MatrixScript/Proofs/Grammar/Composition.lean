import MatrixScript.Proofs.Grammar.BlockLocality
import MatrixScript.Proofs.Grammar.Sequence
import MatrixScript.Tree
import MatrixScript.Tree.Located

/-!
Scripts can be put one after the other at the end of a line.

A script that stops at the end of a line and has no problem and no function without its `end` is
read in a longer text as it is read alone, and so is what comes after it, only further on.
-/

set_option autoImplicit false

namespace MatrixScript

namespace Grammar

section

variable {frame : Frame} {block block' : Parse Element} [Forward block] {bound : Nat}

private theorem unfinished_stays (inside : Bool) (count : Nat) {statements : List Element}
    {s : State}
    (unfinished : Unfinished statements s) :
    Gives (iterate (statementStep block inside .script) count statements) s Unfinished := by
  refine Gives.iterate (fun statements t unfinished => ?_) count unfinished
  exact ((Forward.moves t).and (statementStep_adds inside .script statements t)).mono
    fun further u facts => unfinished.later facts.1 facts.2

private theorem statements_reach
    (block_follows : ∀ t t', frame.Embeds t t' → t.rest.length < bound →
      Follows frame State.Loose block block' t t') (inside : Bool) {count count' : Nat}
    {statements final : List Element} {s s' t : State} (embeds : frame.Embeds s s')
    (kinds : ∀ placed ∈ s.rest, placed.kind ≠ .eof) (short : s.rest.length ≤ bound)
    (enough : s.rest.length ≤ count) (enough' : s'.rest.length ≤ count')
    (read : outcome (iterate (statementStep block inside .script) count statements) s =
      .ok (final, t))
    (sound : ¬Unfinished final t) :
    ∃ t' rounds, frame.Embeds t t' ∧ t'.rest.length ≤ rounds ∧
      outcome (iterate (statementStep block' inside .script) count' statements) s' =
        outcome (iterate (statementStep block' inside .script) rounds final) t' := by
  have steady := Steady.statementStep block inside .script
  induction count generalizing count' statements s s' with
  | zero =>
    rw [iterate, outcome_pure, Except.ok.injEq, Prod.mk.injEq] at read
    rw [← read.1, ← read.2]
    exact ⟨s', count', embeds, enough', rfl⟩
  | succ count ih =>
    by_cases done : s.rest = []
    · rw [outcome_iterate_succ (steady.stops statements s embeds.ends done), Option.elim_none,
        outcome_pure, Except.ok.injEq, Prod.mk.injEq] at read
      rw [← read.1, ← read.2]
      exact ⟨s', count', embeds, enough', rfl⟩
    · have first := statementStep_follows block_follows embeds (fun _ => done) short inside .script
        statements
      have goesOn := @statementStep_goesOn s block inside statements (State.not_isAtEnd kinds done)
      rw [FollowsUnless] at first
      cases found : outcome (statementStep block inside .script statements) s with
      | error failure => simp [iterate, outcome_bind, found, Except.bind] at read
      | ok result =>
        obtain ⟨further, u⟩ := result
        rw [found] at first
        rw [outcome_iterate_succ found] at read
        obtain ⟨further, rfl⟩ := Option.isSome_iff_exists.mp (goesOn _ u found)
        rcases first with ⟨-, unfinished⟩ | ⟨u', found', embeds'⟩
        · exact absurd (unfinished_stays inside count unfinished final t read) sound
        · have fewer := steady.uses statements s embeds.ends _ u found rfl
          have longer := embeds.length_eq
          have longer' := embeds'.length_eq
          obtain ⟨used, split, -⟩ := (Forward.moves s _ u found).used
          obtain ⟨count', rfl⟩ : ∃ less, count' = less + 1 := ⟨count' - 1, by omega⟩
          have room : u'.rest.length ≤ count' := by omega
          obtain ⟨t', rounds, embedded, bounded, same⟩ := ih embeds'
            (fun placed member => kinds placed (by simp [split, member])) (by omega) (by omega) room
            read
          refine ⟨t', rounds, embedded, bounded, ?_⟩
          rw [← same, outcome_iterate_succ found', Option.elim_some]

end

section

variable {s s' : State}

private theorem block_follows_within {frame : Frame} (embeds : frame.Embeds s s')
    {depth depth' : Nat}
    (enough : s.rest.length < depth) (enough' : s'.rest.length < depth') (inside : Bool)
    (t t' : State) (embeds' : frame.Embeds t t') (short : t.rest.length < s.rest.length) :
    Follows frame State.Loose (blockWithin inside depth) (blockWithin inside depth') t t' := by
  have longer := embeds.length_eq
  have longer' := embeds'.length_eq
  exact blockWithin_follows embeds' (by omega) (by omega) inside

private theorem scriptStatements_follows {frame : Frame} (stops : ¬frame.goesOn)
    (embeds : frame.Embeds s s') {depth depth' : Nat} (enough : s.rest.length < depth)
    (enough' : s'.rest.length < depth') (inside : Bool) :
    FollowsUnless frame Unfinished (scriptStatements inside depth) (scriptStatements inside depth')
      s s' :=
  FollowsUnless.repeated (Steady.statementStep (blockWithin inside depth) inside .script) embeds
    (Nat.le_refl _)
    (fun statements _ _ embeds' short =>
      statementStep_follows (block_follows_within embeds enough enough' inside) embeds'
        (fun goesOn => absurd goesOn stops) short inside .script statements)
    (fun goesOn => absurd goesOn stops) []

/-- The state in front of the tokens of a text, after another token. -/
def State.after (previous : Option Token) (stream : TokenStream) : State :=
  { previous := previous, rest := stream.tokens, eof := stream.eof }

def Frame.moved (stream : TokenStream) (ends : stream.eof.kind = .eof) (bytes lines : Nat) :
    Frame :=
  ⟨bytes, lines, [], stream.eof.shift bytes lines, False, ends, by simp⟩

private theorem Frame.moved_embeds {stream : TokenStream} (ends : stream.eof.kind = .eof)
    (fits : ∀ placed ∈ stream.toList, placed.token.Fits) (bytes lines : Nat)
    (previous : Option Token) :
    (Frame.moved stream ends bytes lines).Embeds (.after previous stream)
      (.after previous (stream.shift bytes lines)) where
  previous := rfl
  rest := by simp [State.after, TokenStream.shift, Frame.moved]
  eof := rfl
  diagnostics := rfl
  ends := ends
  fits placed member := fits placed (List.mem_append_left _ member)
  stops _ := ⟨rfl, rfl, fits stream.eof (by simp [TokenStream.toList])⟩
  line := False.elim

def Frame.before (later : TokenStream) (ends : later.eof.kind = .eof)
    (afresh : ∀ placed ∈ later.tokens.head?, placed.kind ≠ .unquotedStringLiteral) : Frame :=
  ⟨0, 0, later.tokens, later.eof, True, ends, afresh⟩

private theorem Frame.before_embeds {stream later : TokenStream} (ends : stream.eof.kind = .eof)
    (fits : ∀ placed ∈ stream.toList, placed.token.Fits)
    (line : ∃ last ∈ stream.tokens.getLast?, last.token.endsLine = true ∧ last.kind ≠ .tilde)
    (ends' : later.eof.kind = .eof)
    (afresh : ∀ placed ∈ later.tokens.head?, placed.kind ≠ .unquotedStringLiteral) :
    (Frame.before later ends' afresh).Embeds (.ofStream stream)
      (.ofStream (later.prepend stream.tokens)) where
  previous := rfl
  rest := by
    have same : (fun placed : PlacedToken => placed.shift 0 0) = id := rfl
    simp [State.ofStream, TokenStream.prepend, Frame.before, same]
  eof := rfl
  diagnostics := rfl
  ends := ends
  fits placed member := fits placed (List.mem_append_left _ member)
  stops stops := absurd trivial stops
  line _ := by
    obtain ⟨last, found, line⟩ := line
    rw [Option.mem_def] at found
    exact ⟨last.token, by simp [State.ofStream, found], line⟩

private theorem scriptStatements_moved {text : List Char} {stream : TokenStream}
    (lexed : tokenize text = .ok stream) (bytes lines : Nat) (inside : Bool) {depth : Nat}
    (enough : stream.tokens.length < depth) (previous : Option Token) :
    match outcome (scriptStatements inside (stream.tokens.length + 1)) (.ofStream stream) with
    | .ok (statements, t) =>
      ∃ t', outcome (scriptStatements inside depth) (.after previous (stream.shift bytes lines)) =
        .ok (statements, t') ∧ t'.diagnostics = t.diagnostics.map (·.shift bytes)
    | .error failure =>
      outcome (scriptStatements inside depth) (.after previous (stream.shift bytes lines)) =
        .error (failure.shift bytes) := by
  obtain ⟨-, ends, kinds, -⟩ := Lexer.tokens_ok lexed
  have fits := Lexer.tokens_fit lexed
  by_cases done : stream.tokens = []
  · -- Without statements only the token used last differs.
    have empty (depth : Nat) {s : State} (nothing : s.rest = []) :
        outcome (scriptStatements inside depth) s = .ok ([], s) := by
      rw [scriptStatements, repeatParse, outcome_bind, outcome_get]
      simp only [Except.bind, nothing, List.length_nil, iterate, outcome_pure]
    rw [empty _ (show (State.ofStream stream).rest = [] from done)]
    exact ⟨_, empty depth (by simp [State.after, TokenStream.shift, done]), rfl⟩
  · have embeds := Frame.moved_embeds ends fits bytes lines previous
    have follows : FollowsUnless (Frame.moved stream ends bytes lines) Unfinished
        (scriptStatements inside (stream.tokens.length + 1)) (scriptStatements inside depth)
        (.after previous stream) (.after previous (stream.shift bytes lines)) :=
      scriptStatements_follows not_false embeds (Nat.lt_succ_self _)
        (by simpa [State.after, TokenStream.shift] using enough) inside
    have notEnd : ¬(State.ofStream stream).isAtEnd = true := State.not_isAtEnd kinds done
    have blind : outcome (scriptStatements inside (stream.tokens.length + 1))
        (.after previous stream) =
          outcome (scriptStatements inside (stream.tokens.length + 1)) (.ofStream stream) :=
      Blind.script ends notEnd previous
    rw [FollowsUnless, blind] at follows
    split
    · rename_i statements t found
      rw [found] at follows
      rcases follows with ⟨impossible, -⟩ | ⟨t', found', embedded⟩
      · exact impossible.elim
      · exact ⟨t', found', embedded.diagnostics⟩
    · rename_i failure found
      rw [found] at follows
      exact follows not_false

private theorem scriptStatements_append {front back : List Char} {stream later : TokenStream}
    (lexed : tokenize front = .ok stream) (lexedBack : tokenize back = .ok later)
    (line : ∃ last ∈ stream.tokens.getLast?, last.token.endsLine = true ∧ last.kind ≠ .tilde)
    (bytes lines : Nat) (inside : Bool) {statements : List Element} {t : State}
    (read : outcome (scriptStatements inside (stream.tokens.length + 1)) (.ofStream stream) =
      .ok (statements, t))
    (sound : ¬Unfinished statements t) {whole : TokenStream}
    (joined : whole = (later.shift bytes lines).prepend stream.tokens) :
    outcome (scriptStatements inside (whole.tokens.length + 1)) (.ofStream whole) =
      (outcome (scriptStatements inside (whole.tokens.length + 1))
        (.after t.previous (later.shift bytes lines))).map fun result =>
          (statements ++ result.1, result.2) := by
  obtain ⟨-, ends, kinds, -⟩ := Lexer.tokens_ok lexed
  have ends' : (later.shift bytes lines).eof.kind = .eof := (Lexer.tokens_ok lexedBack).2.1
  have fits := Lexer.tokens_fit lexed
  have afresh : ∀ placed ∈ (later.shift bytes lines).tokens.head?,
      placed.kind ≠ .unquotedStringLiteral := by
    intro placed found
    simp only [TokenStream.shift, List.head?_map, Option.mem_def, Option.map_eq_some_iff] at found
    obtain ⟨first, found, rfl⟩ := found
    exact tokenize_head_kind lexedBack first found
  have embeds : (Frame.before (later.shift bytes lines) ends' afresh).Embeds (.ofStream stream)
      (.ofStream whole) := by
    rw [joined]
    exact Frame.before_embeds ends fits line ends' afresh
  obtain ⟨t', rounds, embedded, bounded, same⟩ := statements_reach
    (block_follows_within embeds (Nat.lt_succ_self _) (Nat.lt_succ_self _) inside) inside embeds
    kinds (Nat.le_refl _) (Nat.le_refl _) (Nat.le_refl _) read sound
  have done : t.rest = [] := script_finishes ends kinds statements t read
  have clean : t.diagnostics = [] := Classical.not_not.mp fun marked => sound (Or.inl marked)
  have state : t' = .after t.previous (later.shift bytes lines) := by
    have rest := embedded.rest
    have told := embedded.diagnostics
    rw [done, List.map_nil, List.nil_append] at rest
    rw [clean, List.map_nil] at told
    cases t'
    simp only [State.after, State.mk.injEq]
    exact ⟨embedded.previous, rest, embedded.eof, told⟩
  subst state
  calc outcome (scriptStatements inside (whole.tokens.length + 1)) (.ofStream whole)
    _ = outcome (iterate (statementStep (blockWithin inside (whole.tokens.length + 1)) inside
          .script) rounds (statements ++ [])) (.after t.previous (later.shift bytes lines)) := by
      rw [List.append_nil]
      exact same
    _ = (outcome (iterate (statementStep (blockWithin inside (whole.tokens.length + 1)) inside
          .script) rounds []) (.after t.previous (later.shift bytes lines))).map fun result =>
            (statements ++ result.1, result.2) := outcome_iterate_append ..
    _ = _ := by
      rw [iterate_enough (Steady.statementStep (blockWithin inside (whole.tokens.length + 1)) inside
        .script) embedded.ends' bounded (Nat.le_refl _)]
      rfl

end

end Grammar

namespace Diagnostic

private theorem insertByStart_shift (diagnostic : Diagnostic) (diagnostics : List Diagnostic)
    (bytes : Nat) :
    insertByStart (diagnostic.shift bytes) (diagnostics.map (·.shift bytes)) =
      (insertByStart diagnostic diagnostics).map (·.shift bytes) := by
  induction diagnostics with
  | nil => rfl
  | cons first rest ih =>
    have order : (diagnostic.shift bytes).start ≤ (first.shift bytes).start ↔
        diagnostic.start ≤ first.start := by
      simp only [start, shift, Range.shift]
      omega
    simp only [List.map_cons, insertByStart, order]
    split
    · rfl
    · rw [ih, List.map_cons]

private theorem sortByStart_shift (diagnostics : List Diagnostic) (bytes : Nat) :
    sortByStart (diagnostics.map (·.shift bytes)) =
      (sortByStart diagnostics).map (·.shift bytes) := by
  induction diagnostics with
  | nil => rfl
  | cons diagnostic rest ih =>
    rw [List.map_cons, sortByStart, ih, insertByStart_shift, sortByStart]

private theorem sortByStart_eq_nil {diagnostics : List Diagnostic}
    (nothing : sortByStart diagnostics = []) : diagnostics = [] := by
  cases diagnostics with
  | nil => rfl
  | cons diagnostic rest =>
    rw [sortByStart] at nothing
    cases sorted : sortByStart rest with
    | nil => simp [sorted, insertByStart] at nothing
    | cons first others =>
      rw [sorted, insertByStart] at nothing
      split at nothing <;> simp at nothing

end Diagnostic

private theorem Located.preorderAt_subset {slots : List (Option Element)} {element : Element}
    (member : some element ∈ slots) (parent : Element) (start : Nat) (trail : List Crumb)
    (index offset : Nat) :
    ∃ place inner, preorderAt element place inner ⊆
      preorderSlots parent start trail slots index offset := by
  induction slots generalizing index offset with
  | nil => simp at member
  | cons slot slots ih =>
    rcases List.mem_cons.mp member with rfl | later
    · refine ⟨offset, ⟨parent, start, index⟩ :: trail, ?_⟩
      rw [preorderSlots]
      exact List.subset_append_left _ _
    · cases slot with
      | none =>
        rw [preorderSlots]
        exact ih later _ _
      | some first =>
        obtain ⟨place, inner, below⟩ := ih later (index + 1) (offset + first.width)
        refine ⟨place, inner, List.Subset.trans below ?_⟩
        rw [preorderSlots]
        exact List.subset_append_right _ _

/-- A script: the slots of its list of statements, and the token at its end. -/
def Element.file (statements : List (Option Element)) (closing : Token) : Element :=
  .node .file [some (.node .list statements []), some (.leaf closing)] []

private theorem Located.mem_preorderAt (element : Element) (offset : Nat) (trail : List Crumb) :
    ⟨element, offset, trail⟩ ∈ preorderAt element offset trail := by
  cases element <;> simp [preorderAt]

private theorem Located.statement_mem_descendants {statements : List (Option Element)}
    {closing : Token}
    {statement : Element} (member : some statement ∈ statements)
    (isNode : statement.isNode = true) :
    ∃ place ∈ (root (.file statements closing)).descendants, place.element = statement := by
  let list := Element.node .list statements []
  have listed : some list ∈ [some list, some (.leaf closing)] := by simp
  obtain ⟨start, trail, below⟩ := preorderAt_subset listed (.file statements closing) 0 [] 0 0
  obtain ⟨offset, inner, deeper⟩ := preorderAt_subset member list start trail 0 start
  have place : ⟨statement, offset, inner⟩ ∈ preorderAt list start trail :=
    List.mem_cons_of_mem _ (deeper (mem_preorderAt statement offset inner))
  refine ⟨⟨statement, offset, inner⟩, ?_, rfl⟩
  rw [descendants, List.mem_filter]
  exact ⟨List.mem_cons_of_mem _ (below place), isNode⟩

private theorem Element.isNode_of_lacksEnd {element : Element} (lacks : element.lacksEnd = true) :
    element.isNode = true := by
  cases element with
  | leaf token => simp [lacksEnd] at lacks
  | node kind slots diagnostics => rfl

namespace Tree

/-- A text with tokens is parsed to its statements and the token at its end. -/
theorem parse_of_tokens {text : List Char} {stream : TokenStream}
    (lexed : tokenize text = .ok stream) (options : Options) (name : Option String) :
    Tree.parse text options name =
      (Grammar.outcome (Grammar.scriptStatements options.insideBrackets (stream.tokens.length + 1))
        (.ofStream stream)).map fun result =>
          make (.file (result.1.map some) stream.eof.token)
            (stream.diagnostics ++ result.2.diagnostics) name := by
  obtain ⟨-, ends, kinds, -⟩ := Lexer.tokens_ok lexed
  have script : Grammar.script options.insideBrackets (.ofStream stream) =
      (Grammar.outcome (Grammar.scriptStatements options.insideBrackets (stream.tokens.length + 1))
        (.ofStream stream)).map fun result =>
          (.file (result.1.map some) stream.eof.token, result.2) :=
    Grammar.outcome_script options.insideBrackets ends kinds
  simp only [parse_eq, lexed, bind, Except.bind, script]
  cases Grammar.outcome (Grammar.scriptStatements options.insideBrackets
      (stream.tokens.length + 1)) (.ofStream stream) with
  | error failure => rfl
  | ok result => rfl

theorem parse_of_failure {text : List Char} {failure : Failure}
    (lexed : tokenize text = .error failure) (options : Options) (name : Option String) :
    Tree.parse text options name = .error failure := by
  simp only [parse_eq, lexed, bind, Except.bind]

private theorem not_unfinished {statements : List Element} {t : Grammar.State} {closing : Token}
    (clean : t.diagnostics = [])
    (closed : ∀ place ∈ (Located.root (.file (statements.map some) closing)).descendants,
      place.element.lacksEnd = false) : ¬Grammar.Unfinished statements t := by
  rintro (marked | ⟨-, lacks⟩)
  · exact marked clean
  · rw [List.any_eq_true] at lacks
    obtain ⟨statement, member, lacks⟩ := lacks
    obtain ⟨place, below, rfl⟩ := @Located.statement_mem_descendants _ closing statement
      (List.mem_map_of_mem member) (Element.isNode_of_lacksEnd lacks)
    rw [closed place below] at lacks
    exact Bool.false_ne_true lacks

private theorem parse_append_of_sound {front back : List Char} {stream later : TokenStream}
    (lexed : tokenize front = .ok stream) (lexedBack : tokenize back = .ok later)
    (stops : stream.StopsAtLine front) (noProblems : stream.diagnostics = [])
    (line : ∃ last ∈ stream.tokens.getLast?, last.token.endsLine = true ∧ last.kind ≠ .tilde)
    {options : Options} {statements : List Element} {t : Grammar.State}
    (read : Grammar.outcome (Grammar.scriptStatements options.insideBrackets
      (stream.tokens.length + 1)) (.ofStream stream) = .ok (statements, t))
    (sound : ¬Grammar.Unfinished statements t) (name : Option String) :
    Tree.parse (front ++ back) options name =
      match Grammar.outcome (Grammar.scriptStatements options.insideBrackets
        (later.tokens.length + 1)) (.ofStream later) with
      | .ok (others, u) => .ok ⟨.file (statements.map some ++ others.map some) later.eof.token,
          (Diagnostic.sortByStart (later.diagnostics ++ u.diagnostics)).map
            (·.shift (Text.byteSize front)), name⟩
      | .error failure => .error (failure.shift (Text.byteSize front)) := by
  have joined := tokenize_append lexed stops back
  rw [lexedBack] at joined
  let whole := (later.shift (Text.byteSize front) (front.count '\n')).prepend stream.tokens
  have enough : later.tokens.length < whole.tokens.length + 1 := by
    simp only [whole, TokenStream.prepend, TokenStream.shift, List.length_append, List.length_map]
    omega
  have problems : whole.diagnostics = later.diagnostics.map (·.shift (Text.byteSize front)) := by
    rw [TokenStream.diagnostics_prepend, ← diagnostics_of_stopsAtLine lexed stops, noProblems,
      List.nil_append, TokenStream.diagnostics_shift]
  have moved := Grammar.scriptStatements_moved lexedBack (Text.byteSize front) (front.count '\n')
    options.insideBrackets enough t.previous
  rw [parse_of_tokens joined, Grammar.scriptStatements_append lexed lexedBack line
    (Text.byteSize front) (front.count '\n') options.insideBrackets read sound rfl]
  split
  · rename_i others u alone
    rw [alone] at moved
    obtain ⟨u', found, told⟩ := moved
    rw [found]
    simp only [Except.map, make]
    rw [problems, told, ← List.map_append, Diagnostic.sortByStart_shift, List.map_append]
    rfl
  · rename_i failure alone
    rw [alone] at moved
    rw [moved]
    rfl

/-- Scripts can be put one after the other at the end of a line: the statements of the first stand
before those of the second, whose end, problems and failure are those of the whole, further on. -/
theorem parse_composes {front : List Char} {options : Options} {name : Option String} {tree : Tree}
    {stream : TokenStream} (parsed : Tree.parse front options name = .ok tree)
    (clean : tree.diagnostics = [])
    (closed : ∀ place ∈ (Located.root tree.root).descendants, place.element.lacksEnd = false)
    (lexed : tokenize front = .ok stream) (noTrivia : stream.eof.token.text = [])
    (line : ∃ last ∈ stream.tokens.getLast?, last.token.endsLine = true ∧ last.kind ≠ .tilde)
    (back : List Char) :
    ∃ statements closing, tree.root = .file statements closing ∧
      (∀ later, Tree.parse back options name = .ok later →
        ∃ others last, later.root = .file others last ∧ last.kind = .eof ∧
          Tree.parse (front ++ back) options name =
            .ok ⟨.file (statements ++ others) last,
              later.diagnostics.map (·.shift (Text.byteSize front)), name⟩) ∧
      ∀ failure, Tree.parse back options name = .error failure →
        Tree.parse (front ++ back) options name =
          .error (failure.shift (Text.byteSize front)) := by
  have stops : stream.StopsAtLine front := by
    obtain ⟨last, found, endsLine, -⟩ := line
    rw [Option.mem_def] at found
    exact Or.inr ⟨noTrivia, by simpa [found] using endsLine⟩
  rw [parse_of_tokens lexed] at parsed
  cases read : Grammar.outcome (Grammar.scriptStatements options.insideBrackets
      (stream.tokens.length + 1)) (.ofStream stream) with
  | error failure => simp [read, Except.map] at parsed
  | ok result =>
    obtain ⟨statements, t⟩ := result
    simp only [read, Except.map, Except.ok.injEq] at parsed
    subst parsed
    obtain ⟨noProblems, unmarked⟩ := List.append_eq_nil_iff.mp (Diagnostic.sortByStart_eq_nil clean)
    have sound := not_unfinished unmarked closed
    refine ⟨statements.map some, stream.eof.token, rfl, ?_⟩
    cases lexedBack : tokenize back with
    | error failure =>
      have joined := tokenize_append lexed stops back
      rw [lexedBack] at joined
      rw [parse_of_failure lexedBack, parse_of_failure joined]
      simp
    | ok later =>
      rw [parse_append_of_sound lexed lexedBack stops noProblems line read sound,
        parse_of_tokens lexedBack]
      cases alone : Grammar.outcome (Grammar.scriptStatements options.insideBrackets
          (later.tokens.length + 1)) (.ofStream later) with
      | error failure => simp [Except.map]
      | ok result =>
        refine ⟨fun tree is => ?_, by simp [Except.map]⟩
        simp only [Except.map, Except.ok.injEq] at is
        subst is
        exact ⟨result.1.map some, later.eof.token, rfl, (Lexer.tokens_ok lexedBack).2.1, rfl⟩

/-- A function and its `end`, before an `end` that closes nothing and a string that is open. -/
theorem parse_composes_function :
    ∃ tree later statements others closing last,
      Tree.parse "function f\nx'\nend\n".toList {} none = .ok tree ∧
      Tree.parse "end\n'y".toList {} none = .ok later ∧ later.diagnostics.length = 2 ∧
      tree.root = .file statements closing ∧ later.root = .file others last ∧
      Tree.parse ("function f\nx'\nend\n".toList ++ "end\n'y".toList) {} none =
        .ok ⟨.file (statements ++ others) last, later.diagnostics.map (·.shift 18), none⟩ := by
  have sound : (Tree.parse "function f\nx'\nend\n".toList {} none).toOption.any (fun tree =>
      tree.diagnostics.isEmpty && (Located.root tree.root).descendants.all fun place =>
        !place.element.lacksEnd) = true := by
    decide +kernel
  have stops : (tokenize "function f\nx'\nend\n".toList).toOption.any (fun stream =>
      stream.eof.token.text.isEmpty && stream.tokens.getLast?.any fun last =>
        last.token.endsLine && last.kind != .tilde) = true := by
    decide +kernel
  have problems : (Tree.parse "end\n'y".toList {} none).toOption.any
      (·.diagnostics.length == 2) = true := by
    decide +kernel
  obtain ⟨tree, parsed, sound⟩ := exists_ok_of_any sound
  obtain ⟨stream, lexed, stops⟩ := exists_ok_of_any stops
  obtain ⟨later, parsed', problems⟩ := exists_ok_of_any problems
  simp only [Bool.and_eq_true, List.isEmpty_iff, List.all_eq_true, Bool.not_eq_true'] at sound
  simp only [Bool.and_eq_true, List.isEmpty_iff, Option.any_eq_true, bne_iff_ne, ne_eq] at stops
  obtain ⟨noTrivia, last, found, line⟩ := stops
  obtain ⟨statements, closing, root, whole, -⟩ := parse_composes parsed sound.1 sound.2 lexed
    noTrivia ⟨last, found, line⟩ "end\n'y".toList
  obtain ⟨others, last, root', -, joined⟩ := whole later parsed'
  exact ⟨tree, later, statements, others, closing, last, parsed, parsed', by simpa using problems,
    root, root', joined⟩

end Tree

end MatrixScript
