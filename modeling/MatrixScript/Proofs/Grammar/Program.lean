import MatrixScript.Proofs.Grammar.Formula

/-!
Programs before they are written.

A `Block` is a list of statements of the usual forms, nested as deeply as one likes. It is written
line by line: a line holds a word, a word with what it is about, an assignment, or a name. Each line
leaves a lexer as it found it, at the start of a statement with no bracket open, so no name in it
opens a command. `Hereditary` is the induction over all that a program is built of.
-/

set_option autoImplicit false

namespace MatrixScript.Grammar

/-- A reserved word, which opens or closes a block. -/
structure Keyword where
  text : String
  isReserved : text ∈ Word.reserved

/-- What the word at the start of a line is about. -/
inductive Head where
  | named (name : Name)
  /-- The counter of a loop and its bound. -/
  | range (counter : Name) (bound : Literal)

mutual

/-- A statement by its structure. -/
inductive Statement where
  | assignment (target : Name) (value : Literal)
  | ifThen (condition : Name) (body : Block) (alternatives : Clauses) (otherwise : Fallback)
  | whileLoop (condition : Name) (body : Block)
  | forLoop (counter : Name) (bound : Literal) (body : Block)
  | switch (subject : Name) (cases : Clauses) (otherwise : Fallback)
  | tryCatch (body : Block) (handler : Handler)
  | function (name : Name) (body : Block)
  | classDefinition (name : Name) (members : Members)

/-- Statements one after the other. -/
inductive Block where
  | nil
  | cons (first : Statement) (rest : Block)

/-- Blocks, each under a name: the alternatives of a condition, the cases of a choice, or the
methods of a class. -/
inductive Clauses where
  | nil
  | cons (name : Name) (body : Block) (rest : Clauses)

/-- The statements that are left for all other cases. -/
inductive Fallback where
  | none
  | some (body : Block)

/-- What is done about an error, which can be given a name. -/
inductive Handler where
  | none
  | catching (name : Option Name) (body : Block)

/-- A block of members of a class. -/
inductive Member where
  | properties (values : List (Name × Literal))
  | methods (methods : Clauses)
  | events (names : List Name)
  | enumeration (names : List Name)

inductive Members where
  | nil
  | cons (first : Member) (rest : Members)

end

/-- A line of a program. -/
inductive Line where
  | word (keyword : Keyword)
  | headed (keyword : Keyword) (head : Head)
  | assignment (target : Name) (value : Literal)
  | bare (name : Name)

namespace Keyword

def ifWord : Keyword := ⟨"if", by decide⟩
def elseifWord : Keyword := ⟨"elseif", by decide⟩
def elseWord : Keyword := ⟨"else", by decide⟩
def whileWord : Keyword := ⟨"while", by decide⟩
def forWord : Keyword := ⟨"for", by decide⟩
def switchWord : Keyword := ⟨"switch", by decide⟩
def caseWord : Keyword := ⟨"case", by decide⟩
def otherwiseWord : Keyword := ⟨"otherwise", by decide⟩
def tryWord : Keyword := ⟨"try", by decide⟩
def catchWord : Keyword := ⟨"catch", by decide⟩
def functionWord : Keyword := ⟨"function", by decide⟩
def classdefWord : Keyword := ⟨"classdef", by decide⟩
def endWord : Keyword := ⟨"end", by decide⟩

def lexeme (keyword : Keyword) : Lexeme := .word keyword.text.toList

private theorem isReserved_text (keyword : Keyword) :
    Word.isReserved keyword.text.toList = true := by
  rw [Word.isReserved, List.any_eq_true]
  exact ⟨keyword.text, keyword.isReserved, beq_self_eq_true _⟩

private theorem plain (keyword : Keyword) : keyword.lexeme.Plain := by
  have words : ∀ word ∈ Word.reserved, Lexeme.isWord word.toList = true := by decide
  exact Lexeme.word_plain (words keyword.text keyword.isReserved)

end Keyword

/-- The words that open the blocks of a class. They are not reserved. -/
def propertiesWord : Name := ⟨"properties".toList, by decide, by decide⟩

def methodsWord : Name := ⟨"methods".toList, by decide, by decide⟩

def eventsWord : Name := ⟨"events".toList, by decide, by decide⟩

def enumerationWord : Name := ⟨"enumeration".toList, by decide, by decide⟩

def assignmentFormula (target : Name) (value : Literal) : Formula :=
  .binary (.identifier target) ⟨.equals, rfl⟩ (.number value)

def Head.text : Head → List Char
  | .named name => name.text
  | .range counter bound => counter.text ++ " = ".toList ++ bound.numeral.text

def Head.formula : Head → Formula
  | .named name => .identifier name
  | .range counter bound => assignmentFormula counter bound

namespace Line

/-- The lexemes of a line with their gaps; a line feed is the last. -/
def written : Line → List Written
  | .word keyword => [⟨keyword.lexeme, .lineFeed⟩]
  | .headed keyword head => ⟨keyword.lexeme, .space⟩ :: head.formula.written .lineFeed
  | .assignment target value =>
    (assignmentFormula target value).written .none ++ [⟨.fixed .semicolon, .lineFeed⟩]
  | .bare name => (Formula.identifier name).written .lineFeed

def tokens (line : Line) : List Token := line.written.map Written.token

def text : Line → List Char
  | .word keyword => keyword.text.toList ++ "\n".toList
  | .headed keyword head => keyword.text.toList ++ " ".toList ++ head.text ++ "\n".toList
  | .assignment target value =>
    target.text ++ " = ".toList ++ value.numeral.text ++ ";\n".toList
  | .bare name => name.text ++ "\n".toList

private theorem textOf_written (line : Line) : Written.textOf line.written = line.text := by
  have named (name : Name) (gap : Gap) :
      Written.textOf ((Formula.identifier name).written gap) = name.text ++ gap.text := by
    simp [Formula.written, Formula.lexemes, Written.spaced, Written.textOf, Written.text,
      Name.lexeme, Lexeme.word]
  have assigned (target : Name) (value : Literal) (gap : Gap) :
      Written.textOf ((assignmentFormula target value).written gap) =
        target.text ++ " = ".toList ++ value.numeral.text ++ gap.text := by
    simp [assignmentFormula, Formula.written, Formula.lexemes, Written.spaced, Written.textOf,
      Written.text, Name.lexeme, Literal.lexeme, Lexeme.word, Lexeme.ofNumeral, Lexeme.fixed,
      Kind.fixedText?]
  cases line with
  | word keyword => simp [written, text, Written.textOf, Written.text, Keyword.lexeme, Lexeme.word]
  | headed keyword head =>
    have tail : Written.textOf (head.formula.written .lineFeed) = head.text ++ ['\n'] := by
      cases head with
      | named name => exact named name .lineFeed
      | range counter bound => exact assigned counter bound .lineFeed
    rw [written, Written.textOf, List.flatMap_cons, ← Written.textOf, tail]
    simp [text, Written.text, Keyword.lexeme, Lexeme.word]
  | assignment target value =>
    rw [written, Written.textOf, List.flatMap_append, ← Written.textOf, assigned]
    simp [text, Written.text, Lexeme.fixed, Kind.fixedText?]
  | bare name => exact named name .lineFeed

theorem written_plain (line : Line) : ∀ one ∈ line.written, one.lexeme.Plain := by
  have semicolon : (Lexeme.fixed .semicolon).Plain := Lexeme.fixed_plain rfl (by decide)
  cases line with
  | word keyword => simpa [written] using keyword.plain
  | headed keyword head =>
    simp only [written, List.forall_mem_cons]
    exact ⟨keyword.plain, head.formula.written_plain⟩
  | assignment target value =>
    simp only [written, List.forall_mem_append, List.forall_mem_singleton]
    exact ⟨(assignmentFormula target value).written_plain, semicolon⟩
  | bare name => exact (Formula.identifier name).written_plain

private theorem reads (line : Line) {lexer : Lexer} {rest : List Char}
    (ahead : lexer.rest = line.text ++ rest) (fresh : lexer.context = {}) :
    ∃ later : Lexer, lexer.Reads line.written later ∧ later.rest = rest ∧ later.context = {} := by
  rw [← textOf_written] at ahead
  have idle : lexer.context.command = .none := by rw [fresh]
  have expects := Context.expectsBareWord_of_none idle lexer.rest
  have outside : lexer.context.brackets = [] := by rw [fresh]
  cases line with
  | word keyword =>
    have whole : lexer.rest = Written.text ⟨keyword.lexeme, .lineFeed⟩ ++ rest := by
      simpa [written, Written.textOf] using ahead
    obtain ⟨later, reads, left, follows, -⟩ :=
      Lexer.reads_inner keyword.plain whole Gap.fits_lineFeed (by simp [idle]) expects rfl
    refine ⟨later, reads, left, ?_⟩
    rw [follows.fresh, outside]
  | bare name =>
    obtain ⟨later, reads, left, follows⟩ :=
      (Formula.identifier name).reads ahead Gap.fits_lineFeed idle
    refine ⟨later, reads, left, ?_⟩
    rw [follows.fresh, outside]
  | headed keyword head =>
    have whole : lexer.rest = Written.text ⟨keyword.lexeme, .space⟩ ++
        (Written.textOf (head.formula.written .lineFeed) ++ rest) := by
      simpa [written, Written.textOf] using ahead
    obtain ⟨middle, reads, ahead, first, none⟩ := Lexer.reads_inner keyword.plain whole
      (head.formula.absent Gap.fits_lineFeed) (by simp [idle]) expects rfl
    obtain ⟨later, more, left, second⟩ := head.formula.reads ahead Gap.fits_lineFeed
      (none (Or.inr keyword.isReserved_text))
    refine ⟨later, reads.trans more, left, ?_⟩
    rw [(first.trans (by simp) second).fresh, outside]
  | assignment target value =>
    have semicolon : (Lexeme.fixed .semicolon).Plain := Lexeme.fixed_plain rfl (by decide)
    have whole : lexer.rest = Written.textOf ((assignmentFormula target value).written .none) ++
        (Written.text ⟨.fixed .semicolon, .lineFeed⟩ ++ rest) := by
      simpa [written, Written.textOf] using ahead
    obtain ⟨middle, reads, ahead, first⟩ :=
      (assignmentFormula target value).reads whole (Or.inr rfl) idle
    have calm := (first.within (by simp)).2.2.1
    -- After the value a command might still be open; no word of one starts with a semicolon.
    have expects : middle.context.expectsBareWord middle.rest = false := by
      apply Context.expectsBareWord_of_startsBareWord calm
      rw [ahead]
      rfl
    obtain ⟨later, more, left, second, -⟩ := Lexer.reads_lexeme semicolon ahead
      Gap.fits_lineFeed calm expects (by simp [Lexeme.fixed]) (by simp) rfl
    refine ⟨later, reads.trans more, left, ?_⟩
    rw [(first.trans (by simp) second).fresh, outside]

theorem reads_all (lines : List Line) {lexer : Lexer} {rest : List Char}
    (ahead : lexer.rest = lines.flatMap text ++ rest) (fresh : lexer.context = {}) :
    ∃ later : Lexer, lexer.Reads (lines.flatMap written) later ∧ later.rest = rest ∧
      later.context = {} := by
  induction lines generalizing lexer with
  | nil => exact ⟨lexer, .refl lexer, ahead, fresh⟩
  | cons line lines ih =>
    rw [List.flatMap_cons, List.append_assoc] at ahead
    obtain ⟨middle, reads, ahead, fresh⟩ := line.reads ahead fresh
    obtain ⟨later, more, left, fresh⟩ := ih ahead fresh
    exact ⟨later, reads.trans more, left, fresh⟩

end Line

mutual

def Statement.lines : Statement → List Line
  | .assignment target value => [.assignment target value]
  | .ifThen condition body alternatives otherwise =>
    .headed .ifWord (.named condition) :: (body.lines ++ (alternatives.lines .elseifWord ++
      (otherwise.lines .elseWord ++ [.word .endWord])))
  | .whileLoop condition body =>
    .headed .whileWord (.named condition) :: (body.lines ++ [.word .endWord])
  | .forLoop counter bound body =>
    .headed .forWord (.range counter bound) :: (body.lines ++ [.word .endWord])
  | .switch subject cases otherwise =>
    .headed .switchWord (.named subject) :: (cases.lines .caseWord ++
      (otherwise.lines .otherwiseWord ++ [.word .endWord]))
  | .tryCatch body handler =>
    .word .tryWord :: (body.lines ++ (handler.lines ++ [.word .endWord]))
  | .function name body =>
    .headed .functionWord (.named name) :: (body.lines ++ [.word .endWord])
  | .classDefinition name members =>
    .headed .classdefWord (.named name) :: (members.lines ++ [.word .endWord])

def Block.lines : Block → List Line
  | .nil => []
  | .cons first rest => first.lines ++ rest.lines

/-- The lines of blocks that a word opens each and the next one closes. -/
def Clauses.lines : Clauses → Keyword → List Line
  | .nil, _ => []
  | .cons name body rest, keyword =>
    .headed keyword (.named name) :: (body.lines ++ rest.lines keyword)

def Clauses.methodLines : Clauses → List Line
  | .nil => []
  | .cons name body rest =>
    .headed .functionWord (.named name) ::
      (body.lines ++ (.word .endWord :: rest.methodLines))

def Fallback.lines : Fallback → Keyword → List Line
  | .none, _ => []
  | .some body, keyword => .word keyword :: body.lines

def Handler.lines : Handler → List Line
  | .none => []
  | .catching none body => .word .catchWord :: body.lines
  | .catching (some name) body => .headed .catchWord (.named name) :: body.lines

def Member.lines : Member → List Line
  | .properties values =>
    .bare propertiesWord :: (values.map (fun entry => .assignment entry.1 entry.2) ++
      [.word .endWord])
  | .methods methods => .bare methodsWord :: (methods.methodLines ++ [.word .endWord])
  | .events names => .bare eventsWord :: (names.map .bare ++ [.word .endWord])
  | .enumeration names => .bare enumerationWord :: (names.map .bare ++ [.word .endWord])

def Members.lines : Members → List Line
  | .nil => []
  | .cons first rest => first.lines ++ rest.lines

end

def Block.text (block : Block) : List Char := block.lines.flatMap Line.text

example :
    let x : Name := ⟨"x".toList, rfl, rfl⟩
    let value : Literal := ⟨⟨"1".toList, some "5".toList, none, none⟩, rfl⟩
    (Block.cons (.switch x (.cons x (.cons (.assignment x value) .nil) .nil) (.some .nil))
      (.cons (.tryCatch .nil (.catching (some x) .nil)) .nil)).text =
      "switch x\ncase x\nx = 1.5;\notherwise\nend\ntry\ncatch x\nend\n".toList := by decide +kernel

def Clauses.All (holds : Block → Prop) : Clauses → Prop
  | .nil => True
  | .cons _ body rest => holds body ∧ rest.All holds

def Fallback.All (holds : Block → Prop) : Fallback → Prop
  | .none => True
  | .some body => holds body

def Handler.All (holds : Block → Prop) : Handler → Prop
  | .none => True
  | .catching _ body => holds body

def Members.All (holds : Member → Prop) : Members → Prop
  | .nil => True
  | .cons first rest => holds first ∧ rest.All holds

/-- What holds of the parts of a construct holds of the construct. -/
structure Hereditary (ofStatement : Statement → Prop) (ofBlock : Block → Prop)
    (ofMember : Member → Prop) : Prop where
  assignment : ∀ target value, ofStatement (.assignment target value)
  ifThen : ∀ condition {body alternatives otherwise}, ofBlock body →
    Clauses.All ofBlock alternatives → Fallback.All ofBlock otherwise →
    ofStatement (.ifThen condition body alternatives otherwise)
  whileLoop : ∀ condition {body}, ofBlock body → ofStatement (.whileLoop condition body)
  forLoop : ∀ counter bound {body}, ofBlock body → ofStatement (.forLoop counter bound body)
  switch : ∀ subject {cases otherwise}, Clauses.All ofBlock cases →
    Fallback.All ofBlock otherwise → ofStatement (.switch subject cases otherwise)
  tryCatch : ∀ {body handler}, ofBlock body → Handler.All ofBlock handler →
    ofStatement (.tryCatch body handler)
  function : ∀ name {body}, ofBlock body → ofStatement (.function name body)
  classDefinition : ∀ name {members}, Members.All ofMember members →
    ofStatement (.classDefinition name members)
  nil : ofBlock .nil
  cons : ∀ {first rest}, ofStatement first → ofBlock rest → ofBlock (.cons first rest)
  properties : ∀ values, ofMember (.properties values)
  methods : ∀ {methods}, Clauses.All ofBlock methods → ofMember (.methods methods)
  events : ∀ names, ofMember (.events names)
  enumeration : ∀ names, ofMember (.enumeration names)

namespace Hereditary

variable {ofStatement : Statement → Prop} {ofBlock : Block → Prop} {ofMember : Member → Prop}

mutual

theorem statement (given : Hereditary ofStatement ofBlock ofMember) :
    (one : Statement) → ofStatement one
  | .assignment target value => given.assignment target value
  | .ifThen condition body alternatives otherwise =>
    given.ifThen condition (given.block body) (given.clauses alternatives)
      (given.fallback otherwise)
  | .whileLoop condition body => given.whileLoop condition (given.block body)
  | .forLoop counter bound body => given.forLoop counter bound (given.block body)
  | .switch subject cases otherwise =>
    given.switch subject (given.clauses cases) (given.fallback otherwise)
  | .tryCatch body handler => given.tryCatch (given.block body) (given.handler handler)
  | .function name body => given.function name (given.block body)
  | .classDefinition name members => given.classDefinition name (given.members members)

/-- What is hereditary holds of every program. -/
theorem block (given : Hereditary ofStatement ofBlock ofMember) : (block : Block) → ofBlock block
  | .nil => given.nil
  | .cons first rest => given.cons (given.statement first) (given.block rest)

theorem clauses (given : Hereditary ofStatement ofBlock ofMember) :
    (clauses : Clauses) → clauses.All ofBlock
  | .nil => trivial
  | .cons _ body rest => ⟨given.block body, given.clauses rest⟩

theorem fallback (given : Hereditary ofStatement ofBlock ofMember) :
    (otherwise : Fallback) → otherwise.All ofBlock
  | .none => trivial
  | .some body => given.block body

theorem handler (given : Hereditary ofStatement ofBlock ofMember) :
    (handler : Handler) → handler.All ofBlock
  | .none => trivial
  | .catching _ body => given.block body

theorem member (given : Hereditary ofStatement ofBlock ofMember) :
    (member : Member) → ofMember member
  | .properties values => given.properties values
  | .methods methods => given.methods (given.clauses methods)
  | .events names => given.events names
  | .enumeration names => given.enumeration names

theorem members (given : Hereditary ofStatement ofBlock ofMember) :
    (members : Members) → members.All ofMember
  | .nil => trivial
  | .cons first rest => ⟨given.member first, given.members rest⟩

end

end Hereditary

end MatrixScript.Grammar
