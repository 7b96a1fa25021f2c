import MatrixScript.Grammar.Precedence
import MatrixScript.Proofs.Lexer.Balance
import MatrixScript.Proofs.Lexer.Trivia
import MatrixScript.Proofs.Lexer.Writing

/-!
When the words of a command are read.

Of two tokens in a row the second is a word of a command just where the first is a name that opens
one (`OpensCommand`), or a word that the command goes on after (`GoesOn`). Both are said of the
tokens before, the first of the two, and the text after it alone; the lexer finds out with the
command mode that it carries from token to token, and `Yielded.standing` says what that mode means.
-/

set_option autoImplicit false

namespace MatrixScript

open PlacedToken (unclosed)
open Grammar (Precedence)

/-- A binary operator stands in front, with white space, a NUL or nothing behind it. -/
def Text.StartsWithOperator (text : List Char) : Prop :=
  ∃ kind spelled rest, (Precedence.ofBinary? kind).isSome = true ∧
    kind.fixedText? = some spelled ∧ text = spelled ++ rest ∧
    ∀ c ∈ rest.head?, isBlank c = true ∨ c = '\x00'

/-- A statement begins after some tokens: after none, after a token that ends its line, or after a
separator outside of brackets. -/
def BeginsStatement (past : List PlacedToken) : Prop :=
  ∀ last ∈ past.getLast?, last.token.endsLine = true ∨
    (last.kind = .semicolon ∨ last.kind = .comma) ∧ unclosed past.dropLast = []

/-- A name, not reserved, with nothing but white space after it. -/
structure Token.IsSpacedName (token : Token) : Prop where
  identifier : token.kind = .identifier
  unreserved : ∃ word, token.trimmed? = some word ∧ Word.isReserved word = false
  spaced : token.trailing ≠ []
  blank : ∀ piece ∈ token.trailing, piece.kind = .whitespace

/-- A name that opens a command, by the tokens before it and the text after it. -/
structure OpensCommand (past : List PlacedToken) (name : PlacedToken) (after : List Char) :
    Prop where
  name : name.token.IsSpacedName
  begins : BeginsStatement past
  outside : unclosed past = []
  more : after ≠ []
  first : ∀ c ∈ after.head?, c ∉ [';', ',', '=', '(']
  noOperator : ¬Text.StartsWithOperator after

/-- A word after which its command goes on. -/
structure GoesOn (word : PlacedToken) (after : List Char) : Prop where
  kind : word.kind = .unquotedStringLiteral
  sameLine : word.token.endsLine = false
  more : after ≠ []
  first : ∀ c ∈ after.head?, c ≠ ';' ∧ c ≠ ','

namespace Lexeme

private theorem pairOperator?_blank (c : Char) {d : Char}
    (blank : Text.isBlank d = true ∨ d = '\x00') :
    pairOperator? c d = none := by
  rw [Option.eq_none_iff_forall_ne_some]
  intro kind found
  have visible : ['\'', '*', '/', '\\', '^', '=', '&', '|'].all
      (fun d => !(Text.isBlank d || d == '\x00')) = true := by decide
  have other : Text.isBlank d = false ∧ d ≠ '\x00' := by
    simpa using List.all_eq_true.mp visible d (mem_of_pairOperator? found).2
  rcases blank with blank | null
  · rw [other.1] at blank
    cases blank
  · exact other.2 null

private theorem isSome_ofBinary?_of_pair {c d : Char} {kind : Kind}
    (found : pairOperator? c d = some kind) (other : kind ≠ .dotApostrophe) :
    (Precedence.ofBinary? kind).isSome = true := by
  unfold pairOperator? at found
  split at found <;> cases found <;> first | decide | contradiction

private theorem exists_operator_of_length {text : List Char} {length : Nat}
    (found : binaryOperatorLength? text = some length) :
    ∃ kind spelled, (Precedence.ofBinary? kind).isSome = true ∧
      kind.fixedText? = some spelled ∧ text = spelled ++ text.drop length := by
  cases text with
  | nil => cases found
  | cons c rest =>
    simp only [binaryOperatorLength?] at found
    split at found
    case isTrue pair =>
      obtain rfl := Option.some.inj found
      rw [Option.any_eq_true] at pair
      obtain ⟨kind, bound, other⟩ := pair
      obtain ⟨d, front, spells⟩ := Option.bind_eq_some_iff.mp bound
      obtain ⟨after, rfl⟩ := List.head?_eq_some_iff.mp front
      rw [bne_iff_ne] at other
      exact ⟨kind, [c, d], isSome_ofBinary?_of_pair spells other,
        pairOperator?_eq_some_iff.mp spells, rfl⟩
    case isFalse =>
      split at found
      case isTrue single =>
        obtain rfl := Option.some.inj found
        have known : (['+', '-', '*', '/', '\\', '^', '<', '>', '&', '|', ':'].all fun c =>
            Kind.all.any fun kind => (Precedence.ofBinary? kind).isSome &&
              kind.fixedText? == some [c]) = true := by decide
        obtain ⟨kind, -, spells⟩ := List.any_eq_true.mp (List.all_eq_true.mp known c single)
        rw [Bool.and_eq_true, beq_iff_eq] at spells
        obtain ⟨binary, spelled⟩ := spells
        exact ⟨kind, [c], binary, spelled, rfl⟩
      case isFalse => cases found

private theorem length_of_operator {kind : Kind} {spelled rest : List Char}
    (binary : (Precedence.ofBinary? kind).isSome = true) (spells : kind.fixedText? = some spelled)
    (apart : ∀ c ∈ rest.head?, Text.isBlank c = true ∨ c = '\x00') (other : kind ≠ .equals) :
    binaryOperatorLength? (spelled ++ rest) = some spelled.length := by
  have single (c : Char) (known : c ∈ ['+', '-', '*', '/', '\\', '^', '<', '>', '&', '|', ':']) :
      binaryOperatorLength? (c :: rest) = some 1 := by
    cases rest with
    | nil => simp [binaryOperatorLength?, known]
    | cons d rest => simp [binaryOperatorLength?, pairOperator?_blank c (apart d rfl), known]
  cases kind <;> first
    | exact absurd binary (by decide)
    | exact absurd rfl other
    | obtain rfl := Option.some.inj spells
      first
        | rfl
        | exact single _ (by decide)

private theorem startsWithOperator_iff {text : List Char} (other : text.head? ≠ some '=') :
    Text.StartsWithOperator text ↔ ∃ length, binaryOperatorLength? text = some length ∧
      ∀ c ∈ text[length]?, Text.isBlank c = true ∨ c = '\x00' := by
  constructor
  · rintro ⟨kind, spelled, rest, binary, spells, rfl, apart⟩
    have notEquals : kind ≠ .equals := by
      rintro rfl
      obtain rfl := Option.some.inj spells
      exact other rfl
    refine ⟨_, length_of_operator binary spells apart notEquals, ?_⟩
    rwa [List.getElem?_append_right (Nat.le_refl _), Nat.sub_self, ← List.head?_eq_getElem?]
  · rintro ⟨length, found, apart⟩
    obtain ⟨kind, spelled, binary, spells, whole⟩ := exists_operator_of_length found
    refine ⟨kind, spelled, _, binary, spells, whole, ?_⟩
    rwa [List.head?_drop]

private theorem startsBareWord_iff {text : List Char}
    (noTrivia : Fragment.next? false text = none) :
    startsBareWord text = true ↔ text ≠ [] ∧ (∀ c ∈ text.head?, c ∉ [';', ',', '=', '(']) ∧
      ¬Text.StartsWithOperator text := by
  cases text with
  | nil => simp [startsBareWord]
  | cons c rest =>
    obtain ⟨-, inLine, notPercent⟩ := (Fragment.significant_of_next? noTrivia).visible c rfl
    have stops : c ∈ ['\n', '\r', ';', ',', '=', '(', '%'] ↔ c ∈ [';', ',', '=', '('] := by
      have inLine' : c ≠ '\n' ∧ c ≠ '\r' := by simpa [Fragment.isLineEnd] using inLine
      simp [inLine', notPercent]
    by_cases stop : c ∈ [';', ',', '=', '(']
    · refine iff_of_false ?_ fun holds => holds.2.1 c rfl stop
      simp only [startsBareWord, stops, stop, if_true]
      exact Bool.false_ne_true
    · have first : ∀ d ∈ (c :: rest).head?, d ∉ [';', ',', '=', '('] := by
        rintro d front
        rwa [← Option.some.inj front]
      have other : (c :: rest).head? ≠ some '=' := fun front => first '=' front (by decide)
      rw [startsWithOperator_iff other, and_iff_right (List.cons_ne_nil c rest),
        and_iff_right first]
      simp only [startsBareWord, stops, stop, if_false]
      cases binaryOperatorLength? (c :: rest) with
      | none => simp
      | some length => simp [Option.any_eq_true]

private theorem read_separator (touchesOperand : Bool) {c : Char} (separator : c = ';' ∨ c = ',')
    (rest : List Char) : (read touchesOperand (c :: rest)).1 = symbol c := by
  have single (d : Char) : pairOperator? c d = none := by
    rw [Option.eq_none_iff_forall_ne_some]
    intro kind found
    have first := (mem_of_pairOperator? found).1
    rcases separator with rfl | rfl <;> simp at first
  have reads : read touchesOperand (c :: rest) = operator c rest := by
    rcases separator with rfl | rfl <;> rfl
  rw [reads]
  cases rest with
  | nil => rfl
  | cons d rest => simp [operator, single]

end Lexeme

namespace Context

/-- A token that ends its line, or separates statements outside of brackets. -/
def EndsStatement (context : Context) (reading : Reading) : Prop :=
  reading.endsLine = true ∨
    (reading.lexeme.kind = .semicolon ∨ reading.lexeme.kind = .comma) ∧ context.brackets = []

private theorem afterToken_cases (context : Context) (reading : Reading) :
    (context.EndsStatement reading ∧ (context.afterToken reading).atStatementStart = true ∧
      (context.afterToken reading).command = .none) ∨
    ¬context.EndsStatement reading ∧ (context.afterToken reading).atStatementStart = false ∧
      (context.afterToken reading).command = context.commandAfter reading := by
  have ends : context.EndsStatement reading ↔ (reading.endsLine ||
      ((reading.lexeme.kind == .semicolon || reading.lexeme.kind == .comma) &&
        context.brackets.isEmpty)) = true := by
    simp [EndsStatement]
  unfold afterToken
  by_cases stops : context.EndsStatement reading
  · exact Or.inl ⟨stops, by simp only [if_pos (ends.mp stops), endStatement, true_and]⟩
  · exact Or.inr ⟨stops, by simp only [if_neg (mt ends.mpr stops), true_and]⟩

end Context

private theorem Reading.isSpacedName_iff (reading : Reading) :
    reading.isSpacedName = true ↔ reading.token.IsSpacedName := by
  constructor
  · intro spaced
    simp only [isSpacedName, Bool.and_eq_true, Bool.not_eq_true', beq_iff_eq, List.all_eq_true,
      List.isEmpty_eq_false_iff] at spaced
    obtain ⟨⟨⟨identifier, unreserved⟩, some⟩, blank⟩ := spaced
    exact ⟨identifier, ⟨_, reading.token_trimmed?, unreserved⟩,
      mt List.map_eq_nil_iff.mp some, List.forall_mem_map.mpr blank⟩
  · rintro ⟨identifier, ⟨word, trimmed, unreserved⟩, some, blank⟩
    rw [reading.token_trimmed?, Option.some.injEq] at trimmed
    subst trimmed
    simp only [isSpacedName, Bool.and_eq_true, Bool.not_eq_true', beq_iff_eq, List.all_eq_true,
      List.isEmpty_eq_false_iff]
    exact ⟨⟨⟨identifier, unreserved⟩, mt List.map_eq_nil_iff.mpr some⟩,
      List.forall_mem_map.mp blank⟩

private theorem Token.IsSpacedName.endsLine {token : Token} (spaced : token.IsSpacedName) :
    token.endsLine = false := by
  unfold Token.endsLine
  cases last : token.trailing.getLast? with
  | none => rfl
  | some piece => simp [spaced.blank piece (List.mem_of_getLast? last)]

private theorem beginsStatement_concat {past : List PlacedToken} {last : PlacedToken} :
    BeginsStatement (past ++ [last]) ↔ last.token.endsLine = true ∨
      (last.kind = .semicolon ∨ last.kind = .comma) ∧ unclosed past = [] := by
  simp [BeginsStatement]

namespace Lexer

variable {text : List Char} {past : List PlacedToken} {lexer : Lexer} {placed : PlacedToken}

theorem Settled.lexeme (settled : lexer.Settled) : lexer.reading.lexeme =
    (lexer.context.readLexeme (lexer.context.significant lexer.rest)).1 := by
  have reads : lexer.reading.lexeme =
      (lexer.entered.readLexeme (lexer.context.significant lexer.rest)).1 := rfl
  rwa [settled.entered] at reads

private theorem Settled.significant (settled : lexer.Settled)
    (command : lexer.context.command ≠ .none) :
    lexer.context.atLineStart = false ∧ lexer.context.significant lexer.rest = lexer.rest := by
  have inLine : lexer.context.atLineStart = false := by
    rw [← Bool.not_eq_true]
    exact fun startsLine => command (settled.fresh startsLine).2
  exact ⟨inLine, congrArg Prod.snd (settled.leading_eq_nil inLine)⟩

private theorem Settled.unquoted_iff (settled : lexer.Settled) :
    lexer.pending.kind = .unquotedStringLiteral ↔
      lexer.context.expectsBareWord lexer.rest = true := by
  rw [pending_kind, settled.lexeme, Context.readLexeme_unquoted_iff]
  by_cases none : lexer.context.command = .none
  · rw [Context.expectsBareWord_of_none none, Context.expectsBareWord_of_none none]
  · rw [(settled.significant none).2]

private theorem Settled.ends_words (settled : lexer.Settled)
    (words : lexer.context.command = .words) :
    lexer.pending.kind = .unquotedStringLiteral ∨ lexer.pending.kind = .eof ∨
      lexer.pending.kind = .semicolon ∨ lexer.pending.kind = .comma := by
  by_cases word : lexer.pending.kind = .unquotedStringLiteral
  · exact Or.inl word
  · refine Or.inr ?_
    rw [settled.unquoted_iff] at word
    rw [pending_kind, settled.lexeme, (settled.significant (by simp [words])).2,
      Context.readLexeme, if_neg word]
    simp only [Context.expectsBareWord, words] at word
    cases ahead : lexer.rest with
    | nil => exact Or.inl rfl
    | cons c rest =>
      rw [ahead] at word
      refine Or.inr ?_
      by_cases semicolon : c = ';'
      · subst semicolon
        exact Or.inl (congrArg Lexeme.kind (Lexeme.read_separator _ (Or.inl rfl) rest))
      · obtain rfl : c = ',' := by simpa [semicolon] using word
        exact Or.inr (congrArg Lexeme.kind (Lexeme.read_separator _ (Or.inr rfl) rest))

/-- What the mode of a lexer says of the tokens before it. -/
structure Standing (past : List PlacedToken) (context : Context) : Prop where
  begins : context.atStatementStart = true ↔ BeginsStatement past
  candidate : context.command = .candidate ↔
    ∃ (before : List PlacedToken) (name : PlacedToken), past = before ++ [name] ∧
      name.token.IsSpacedName ∧ BeginsStatement before
  words : context.command = .words ↔
    ∃ (before : List PlacedToken) (word : PlacedToken), past = before ++ [word] ∧
      word.kind = .unquotedStringLiteral ∧ word.token.endsLine = false
  /-- Words of a command stand outside of brackets. -/
  outside : context.command = .words → unclosed past = []

private theorem exists_concat_iff {P : List PlacedToken → PlacedToken → Prop} :
    (∃ before last, past ++ [placed] = before ++ [last] ∧ P before last) ↔ P past placed := by
  refine ⟨?_, fun holds => ⟨past, placed, rfl, holds⟩⟩
  rintro ⟨before, last, whole, holds⟩
  obtain ⟨rfl, rfl⟩ : past = before ∧ placed = last := by simpa using List.append_inj' whole rfl
  exact holds

private theorem standing_nil : Standing [] {} where
  begins := iff_of_true rfl (by simp [BeginsStatement])
  candidate := iff_of_false CommandMode.noConfusion (by simp)
  words := iff_of_false CommandMode.noConfusion (by simp)
  outside words := CommandMode.noConfusion words

private theorem standing_of_begins {context : Context} (start : context.atStatementStart = true)
    (none : context.command = .none) (begins : BeginsStatement (past ++ [placed])) :
    Standing (past ++ [placed]) context := by
  have ends := beginsStatement_concat.mp begins
  refine ⟨iff_of_true start begins, ?_, ?_, by simp [none]⟩
  · rw [exists_concat_iff]
    refine iff_of_false (by simp [none]) fun ⟨spaced, _⟩ => ?_
    have identifier : placed.kind = .identifier := spaced.identifier
    simp [spaced.endsLine, identifier] at ends
  · rw [exists_concat_iff]
    refine iff_of_false (by simp [none]) fun ⟨kind, inLine⟩ => ?_
    simp [inLine, kind] at ends

private theorem standing_of_goesOn {before after : Context} (standing : Standing past before)
    (outside : placed.kind = .unquotedStringLiteral → unclosed past = [])
    (goesOn : ¬BeginsStatement (past ++ [placed])) (start : after.atStatementStart = false)
    (word : placed.kind = .unquotedStringLiteral → after.command = .words)
    (candidate : placed.token.IsSpacedName ∧ before.atStatementStart = true →
      after.command = .candidate)
    (none : placed.kind ≠ .unquotedStringLiteral →
      ¬(placed.token.IsSpacedName ∧ before.atStatementStart = true) → after.command = .none) :
    Standing (past ++ [placed]) after := by
  have inLine : placed.token.endsLine = false := by
    rw [← Bool.not_eq_true]
    exact fun endsLine => goesOn (beginsStatement_concat.mpr (Or.inl endsLine))
  have begins : after.atStatementStart = true ↔ BeginsStatement (past ++ [placed]) :=
    iff_of_false (by simp [start]) goesOn
  by_cases isWord : placed.kind = .unquotedStringLiteral
  · have words := word isWord
    have bare : placed.kind.isBracket = false := by rw [isWord]; rfl
    refine ⟨begins, ?_, ?_, fun _ => ?_⟩
    · rw [words, exists_concat_iff]
      refine iff_of_false CommandMode.noConfusion fun ⟨spaced, _⟩ => ?_
      exact absurd (isWord.symm.trans spaced.identifier) (by decide)
    · rw [exists_concat_iff]
      exact iff_of_true words ⟨isWord, inLine⟩
    · rw [(PlacedToken.unclosed_concat_of_other bare past).2]
      exact outside isWord
  · have notWords : after.command ≠ .words := by
      by_cases spaced : placed.token.IsSpacedName ∧ before.atStatementStart = true
      · simp [candidate spaced]
      · simp [none isWord spaced]
    refine ⟨begins, ?_, ?_, fun words => absurd words notWords⟩
    · rw [exists_concat_iff, ← standing.begins]
      refine ⟨fun found => ?_, candidate⟩
      apply Classical.byContradiction
      intro notSpaced
      simp [none isWord notSpaced] at found
    · rw [exists_concat_iff]
      exact iff_of_false notWords fun ⟨word, _⟩ => isWord word

private theorem Standing.outside_of_unquoted (standing : Standing past lexer.context)
    (run : Yielded text past lexer) (word : lexer.pending.kind = .unquotedStringLiteral) :
    unclosed past = [] := by
  rw [run.settled.unquoted_iff, Context.expectsBareWord] at word
  cases command : lexer.context.command with
  | none => simp [command] at word
  | candidate =>
    rw [command, Bool.and_eq_true, List.isEmpty_iff] at word
    exact run.brackets_eq_nil_iff.mp word.1
  | words => exact standing.outside command

private theorem unclosed_concat_of_separator
    (separator : placed.kind = .semicolon ∨ placed.kind = .comma) :
    unclosed (past ++ [placed]) = unclosed past := by
  refine (PlacedToken.unclosed_concat_of_other ?_ past).2
  rcases separator with kind | kind <;> rw [kind] <;> rfl

/-- What the mode says stays right with each token before the end of the text. -/
theorem Standing.next (standing : Standing past lexer.context) (run : Yielded text past lexer)
    (yields : lexer.next.1 = .ok placed) (notEnd : placed.kind ≠ .eof) :
    Standing (past ++ [placed]) lexer.next.2.context := by
  obtain ⟨brackets, -, same⟩ := next_context yields
  rw [run.settled.entered] at same
  have balance : brackets = [] ↔ unclosed (past ++ [placed]) = [] := by
    rw [← (run.next yields).brackets_eq_nil_iff, same, Context.brackets_afterToken]
  obtain rfl := eq_pending yields
  have starts : Context.EndsStatement { lexer.context with brackets := brackets } lexer.reading ↔
      BeginsStatement (past ++ [lexer.pending]) := by
    rw [beginsStatement_concat]
    refine or_congr Iff.rfl (and_congr_right fun separator => ?_)
    have kept : unclosed (past ++ [lexer.pending]) = unclosed past :=
      unclosed_concat_of_separator separator
    rw [balance, kept]
  rcases Context.afterToken_cases { lexer.context with brackets := brackets } lexer.reading with
    ⟨ends, start, command⟩ | ⟨goesOn, start, command⟩
  · rw [← same] at start command
    exact standing_of_begins start command (starts.mp ends)
  · rw [← same] at start command
    have continues := mt starts.mpr goesOn
    have spaced : lexer.reading.isSpacedName = true ↔ lexer.pending.token.IsSpacedName :=
      lexer.reading.isSpacedName_iff
    have kind : lexer.reading.lexeme.kind = lexer.pending.kind := rfl
    have ended : lexer.context.command = .words → lexer.pending.kind = .unquotedStringLiteral := by
      intro words
      rcases run.settled.ends_words words with word | isEnd | separator
      · exact word
      · exact absurd isEnd notEnd
      · exact absurd (beginsStatement_concat.mpr (Or.inr ⟨separator, standing.outside words⟩))
          continues
    simp only [Context.commandAfter, kind] at command
    refine standing_of_goesOn standing (standing.outside_of_unquoted run) continues start ?_ ?_ ?_
    · intro word
      simp [command, word]
    · rintro ⟨name, statement⟩
      have bare : lexer.pending.kind ≠ .unquotedStringLiteral := by
        rw [show lexer.pending.kind = .identifier from name.identifier]
        decide
      simp [command, bare, mt ended bare, spaced.mpr name, statement]
    · intro bare notSpaced
      rw [and_comm, ← spaced] at notSpaced
      simp only [command, bare, mt ended bare, beq_iff_eq, Bool.or_eq_true, or_self, if_false,
        Bool.and_eq_true, notSpaced]

/-- What the mode of a lexer says after tokens before the end of the text. -/
theorem Yielded.standing (run : Yielded text past lexer)
    (notEnd : ∀ placed ∈ past, placed.kind ≠ .eof) : Standing past lexer.context := by
  induction run with
  | start => exact standing_nil
  | next before yields ih =>
    rw [List.forall_mem_append, List.forall_mem_singleton] at notEnd
    exact (ih notEnd.1).next before yields notEnd.2

private theorem Yielded.unquoted_iff {last : PlacedToken}
    (run : Yielded text (past ++ [last]) lexer)
    (notEnd : ∀ placed ∈ past ++ [last], placed.kind ≠ .eof) :
    lexer.pending.kind = .unquotedStringLiteral ↔
      OpensCommand past last lexer.rest ∨ GoesOn last lexer.rest := by
  have standing := run.standing notEnd
  have candidate := standing.candidate.trans exists_concat_iff
  have words := standing.words.trans exists_concat_iff
  rw [run.settled.unquoted_iff, Context.expectsBareWord]
  cases command : lexer.context.command with
  | none =>
    rw [command] at candidate words
    refine iff_of_false Bool.false_ne_true ?_
    rintro (opens | goesOn)
    · exact CommandMode.noConfusion (candidate.mpr ⟨opens.name, opens.begins⟩)
    · exact CommandMode.noConfusion (words.mpr ⟨goesOn.kind, goesOn.sameLine⟩)
  | candidate =>
    obtain ⟨name, begins⟩ := candidate.mp command
    have identifier : last.kind = .identifier := name.identifier
    have bare : last.kind.isBracket = false := by rw [identifier]; rfl
    have noTrivia := run.settled.bare (run.settled.significant (by simp [command])).1
    have outside : lexer.context.brackets = [] ↔ unclosed past = [] := by
      rw [run.brackets_eq_nil_iff, (PlacedToken.unclosed_concat_of_other bare past).2]
    dsimp only
    rw [Bool.and_eq_true, List.isEmpty_iff, outside, Lexeme.startsBareWord_iff noTrivia]
    constructor
    · rintro ⟨outside, more, first, noOperator⟩
      exact Or.inl ⟨name, begins, outside, more, first, noOperator⟩
    · rintro (opens | goesOn)
      · exact ⟨opens.outside, opens.more, opens.first, opens.noOperator⟩
      · exact absurd (identifier.symm.trans goesOn.kind) (by decide)
  | words =>
    obtain ⟨kind, sameLine⟩ := words.mp command
    dsimp only
    constructor
    · intro word
      obtain ⟨c, front, other⟩ := (Option.any_eq_true _ _).mp word
      rw [Bool.and_eq_true, bne_iff_ne, bne_iff_ne] at other
      refine Or.inr ⟨kind, sameLine, ?_, ?_⟩
      · rintro nothing
        rw [nothing] at front
        cases front
      · intro d found
        rw [Option.mem_def, front, Option.some.injEq] at found
        rwa [← found]
    · rintro (opens | goesOn)
      · have identifier : last.kind = .identifier := opens.name.identifier
        exact absurd (identifier.symm.trans kind) (by decide)
      · obtain ⟨c, rest, ahead⟩ := List.exists_cons_of_ne_nil goesOn.more
        simpa [ahead] using goesOn.first

end Lexer

/-- Which tokens of a text are words of commands. The first is none, no word of a command stands
inside of brackets, and of two tokens in a row the second is one just where the first opens a
command or is a word that its command goes on after. -/
theorem tokenize_commands {text : List Char} {stream : TokenStream}
    (lexed : tokenize text = .ok stream) :
    (∀ placed ∈ stream.toList.head?, placed.kind ≠ .unquotedStringLiteral) ∧
    (∀ before placed later, stream.toList = before ++ placed :: later →
      placed.kind = .unquotedStringLiteral → unclosed before = []) ∧
    ∀ before first second later, stream.toList = before ++ first :: second :: later →
      ∃ front after, front ++ after = text ∧ Text.byteSize front = first.fullRange.stop ∧
        (second.kind = .unquotedStringLiteral ↔
          OpensCommand before first after ∨ GoesOn first after) := by
  have kinds := (Lexer.tokens_ok lexed).2.2.1
  have notEnd (before : List PlacedToken) (placed : PlacedToken) (later : List PlacedToken)
      (split : stream.toList = before ++ placed :: later) :
      ∀ earlier ∈ before, earlier.kind ≠ .eof := by
    intro earlier member
    refine kinds earlier ?_
    have front : before <+: stream.tokens := by
      refine List.prefix_of_prefix_length_le ⟨_, split.symm⟩ ⟨_, rfl⟩ ?_
      have lengths := congrArg List.length split
      simp only [TokenStream.toList, List.length_append, List.length_cons,
        List.length_nil] at lengths
      omega
    exact front.mem member
  refine ⟨?_, ?_, ?_⟩
  · intro placed first word
    obtain ⟨later, split⟩ := List.head?_eq_some_iff.mp first
    rw [← List.nil_append (placed :: later)] at split
    obtain ⟨lexer, run, yields⟩ := exists_yielded lexed split
    obtain rfl := Lexer.eq_pending yields
    obtain ⟨-, none⟩ := run.settled.fresh run.atLineStart
    rw [run.settled.unquoted_iff, Context.expectsBareWord_of_none none] at word
    cases word
  · intro before placed later split word
    obtain ⟨lexer, run, yields⟩ := exists_yielded lexed split
    obtain rfl := Lexer.eq_pending yields
    exact (run.standing (notEnd before _ later split)).outside_of_unquoted run word
  · intro before first second later split
    have split' : stream.toList = (before ++ [first]) ++ second :: later := by simpa using split
    obtain ⟨source, run, yields⟩ := exists_yielded lexed split
    obtain ⟨lexer, run', yields'⟩ := exists_yielded lexed split'
    obtain rfl := Lexer.eq_pending yields'
    exact ⟨_, lexer.rest, run'.front.1, run.byteSize_concat yields,
      run'.unquoted_iff (notEnd _ _ later split')⟩

/-- A command with two words, and names that open none: one in a bracket, one before an operator
that stands apart, one with a comment after it. -/
theorem tokenize_commands_save :
    ∃ stream, tokenize "save a b;[hold on];x = y\nx - 1\nclear % all".toList = .ok stream ∧
      (stream.toList.filter (·.kind == .unquotedStringLiteral)).map PlacedToken.range =
        [⟨5, 6⟩, ⟨7, 8⟩] ∧
      ∀ before first second later, stream.toList = before ++ first :: second :: later →
        ∃ front after,
          front ++ after = "save a b;[hold on];x = y\nx - 1\nclear % all".toList ∧
          Text.byteSize front = first.fullRange.stop ∧
          (second.kind = .unquotedStringLiteral ↔
            OpensCommand before first after ∨ GoesOn first after) := by
  have ok : (tokenize "save a b;[hold on];x = y\nx - 1\nclear % all".toList).toOption.any
      (fun stream => (stream.toList.filter (·.kind == .unquotedStringLiteral)).map
        PlacedToken.range == [⟨5, 6⟩, ⟨7, 8⟩]) = true := by decide +kernel
  obtain ⟨stream, lexed, words⟩ := exists_ok_of_any ok
  exact ⟨stream, lexed, by simpa using words, (tokenize_commands lexed).2.2⟩

end MatrixScript
