import Mathlib.Data.List.Sort
import MatrixScript.Proofs.Lexer.Failures
import MatrixScript.Proofs.Lexer.Trivia

/-!
Ranges that a text can be shown with.

Problems are found on the way through a text and counted from its start, and a token keeps them
counted from its own start. Wherever one is found, its range stands in order and between characters
of the text (`Lexer.InPlace.shown_found`), and it can be counted from the token
(`Reading.since?_found`). Two lists of problems are put in order of their starts without any change
to the order of those with one start (`Diagnostic.merged_sortByStart`).
-/

set_option autoImplicit false

namespace MatrixScript

namespace Text

/-- An offset between two characters of a text, or at one of its ends. -/
def Boundary (text : List Char) (offset : Nat) : Prop :=
  ∃ front back, front ++ back = text ∧ byteSize front = offset

private theorem exists_of_slice? {start stop : Nat} {text middle : List Char}
    (sliced : slice? start stop text = some middle) : ∃ front back,
      front ++ (middle ++ back) = text ∧ byteSize front = start ∧
        start + byteSize middle = stop := by
  simp only [slice?, Option.bind_eq_bind, Option.bind_eq_some_iff, Prod.exists] at sliced
  obtain ⟨front, later, parts, sliced⟩ := sliced
  obtain ⟨rfl, size⟩ := splitBytes?_eq_some_iff.mp parts
  split at sliced
  · rename_i ordered
    obtain ⟨⟨found, back⟩, parts, same⟩ := Option.bind_eq_some_iff.mp sliced
    obtain rfl : found = middle := Option.some.inj same
    obtain ⟨rfl, width⟩ := splitBytes?_eq_some_iff.mp parts
    exact ⟨front, back, rfl, size, by omega⟩
  · cases sliced

end Text

/-- A range that a text can be shown with: it is in order, does not pass the end of the text, and
starts and stops between characters. -/
structure Range.ShownIn (range : Range) (text : List Char) : Prop where
  ordered : range.start ≤ range.stop
  inside : range.stop ≤ Text.byteSize text
  start : Text.Boundary text range.start
  stop : Text.Boundary text range.stop

namespace Range.ShownIn

variable {range : Range} {text : List Char}

private theorem stretch (front middle back : List Char) :
    (Range.ofLength (Text.byteSize front) (Text.byteSize middle)).ShownIn
      (front ++ (middle ++ back)) where
  ordered := Nat.le_add_right _ _
  inside := by
    simp only [ofLength, Text.byteSize_append]
    omega
  start := ⟨front, middle ++ back, rfl, rfl⟩
  stop := ⟨front ++ middle, back, List.append_assoc _ _ _, Text.byteSize_append _ _⟩

theorem empty {offset : Nat} (boundary : Text.Boundary text offset) :
    (Range.empty offset).ShownIn text := by
  obtain ⟨front, back, rfl, rfl⟩ := boundary
  exact stretch front [] back

theorem of_cut? (cut : (range.cut? text).isSome = true) : range.ShownIn text := by
  obtain ⟨middle, cut⟩ := Option.isSome_iff_exists.mp cut
  obtain ⟨front, back, rfl, start, stop⟩ := Text.exists_of_slice? cut
  have same : range = ofLength (Text.byteSize front) (Text.byteSize middle) := by
    rw [ofLength, start, stop]
  rw [same]
  exact stretch front middle back

private theorem append (shown : range.ShownIn text) (more : List Char) :
    range.ShownIn (text ++ more) where
  ordered := shown.ordered
  inside := by
    have inside := shown.inside
    rw [Text.byteSize_append]
    omega
  start := by
    obtain ⟨front, back, rfl, size⟩ := shown.start
    exact ⟨front, back ++ more, (List.append_assoc _ _ _).symm, size⟩
  stop := by
    obtain ⟨front, back, rfl, size⟩ := shown.stop
    exact ⟨front, back ++ more, (List.append_assoc _ _ _).symm, size⟩

/-- With more text in front, a range is shown further on. -/
theorem shift (shown : range.ShownIn text) (before : List Char) :
    (range.shift (Text.byteSize before)).ShownIn (before ++ text) where
  ordered := Nat.add_le_add_right shown.ordered _
  inside := by
    have inside := shown.inside
    simp only [Range.shift, Text.byteSize_append]
    omega
  start := by
    obtain ⟨front, back, rfl, size⟩ := shown.start
    exact ⟨before ++ front, back, List.append_assoc _ _ _,
      by rw [Text.byteSize_append, size, Nat.add_comm]; rfl⟩
  stop := by
    obtain ⟨front, back, rfl, size⟩ := shown.stop
    exact ⟨before ++ front, back, List.append_assoc _ _ _,
      by rw [Text.byteSize_append, size, Nat.add_comm]; rfl⟩

end Range.ShownIn

private theorem Fragment.diagnostics_shown (front : List Char) (fragments : List Fragment) :
    ∀ diagnostic ∈ diagnostics fragments (Text.byteSize front),
      diagnostic.range.ShownIn (front ++ textOf fragments) := by
  induction fragments generalizing front with
  | nil => simp [diagnostics]
  | cons fragment fragments ih =>
    intro diagnostic member
    rw [textOf, List.flatMap_cons]
    rcases List.mem_append.mp member with own | later
    · obtain ⟨problem, -, rfl⟩ := List.mem_map.mp own
      exact .stretch front fragment.text (textOf fragments)
    · rw [← List.append_assoc]
      rw [← Text.byteSize_append] at later
      exact ih (front ++ fragment.text) diagnostic later

namespace Lexeme

/-- The problem of a lexeme is told in the text that it is read off. -/
def ProblemShown (lexeme : Lexeme) (text : List Char) : Prop :=
  ∀ problem ∈ lexeme.problem, problem.range.ShownIn text

private theorem shown_front (front back : List Char) :
    (Range.mk 0 (Text.byteSize front)).ShownIn (front ++ back) := by
  have shown := Range.ShownIn.stretch [] front back
  rwa [Range.ofLength, Text.byteSize_nil, Nat.zero_add] at shown

private theorem number_problemShown (text : List Char) : (number text).1.ProblemShown text := by
  intro problem found
  obtain ⟨whole, rfl⟩ := eq_of_mem_ofScan_problem found
  have parts := number_append text
  simp only [number, whole] at parts
  have shown := Range.ShownIn.stretch (Numeral.run .start text).taken
    ((Numeral.run .start text).rest.take 1) ((Numeral.run .start text).rest.drop 1)
  rwa [List.take_append_drop, parts] at shown

private theorem string_problemShown (quote : Char) (kind : Kind) (text : List Char) :
    (string quote kind text).1.ProblemShown (quote :: text) := by
  intro problem found
  simp only [string, Option.mem_def, Option.ite_none_left_eq_some, Option.some.injEq] at found
  obtain ⟨-, rfl⟩ := found
  have shown := shown_front (quote :: (Quotation.read quote text).text)
    (Quotation.read quote text).rest
  rwa [List.cons_append, Quotation.read_append] at shown

private theorem symbol_problemShown (c : Char) (text : List Char) :
    (symbol c).ProblemShown (c :: text) := by
  intro problem found
  unfold symbol at found
  split at found
  · cases found
  · rw [← Option.some.inj found]
    exact shown_front [c] text

private theorem read_problemShown (touchesOperand : Bool) (text : List Char) :
    (read touchesOperand text).1.ProblemShown text := by
  fun_cases read touchesOperand text
  case case3 => exact number_problemShown _
  case case5 => exact string_problemShown _ _ _
  case case6 => exact string_problemShown _ _ _
  case case7 c rest _ _ _ _ =>
    fun_cases operator c rest
    case case1 => simp [ProblemShown]
    case case2 => exact symbol_problemShown c _
    case case3 => exact symbol_problemShown c _
  all_goals simp [ProblemShown]

end Lexeme

private theorem Context.readLexeme_problemShown (context : Context) (text : List Char) :
    (context.readLexeme text).1.ProblemShown text := by
  unfold readLexeme
  split
  · simp [Lexeme.ProblemShown, Lexeme.readBareWord]
  · exact Lexeme.read_problemShown _ _

private theorem Context.found_shown (context : Context) (front text : List Char) :
    ∀ diagnostic ∈ (context.read text).found (Text.byteSize front),
      diagnostic.range.ShownIn (front ++ text) := by
  let leading := Fragment.leading context.atLineStart text
  let lexeme := (context.afterLeading leading.1).readLexeme leading.2
  let trailing := Fragment.trailing lexeme.2
  have whole : front ++ Fragment.textOf leading.1 ++ leading.2 = front ++ text := by
    rw [List.append_assoc, Fragment.leading_append]
  have middle : front ++ Fragment.textOf leading.1 ++ lexeme.1.text ++ lexeme.2 = front ++ text := by
    rw [List.append_assoc, readLexeme_append, whole]
  have last : front ++ Fragment.textOf leading.1 ++ lexeme.1.text ++
      Fragment.textOf trailing.1 ++ trailing.2 = front ++ text := by
    rw [List.append_assoc, Fragment.trailing_append, middle]
  intro diagnostic member
  rcases List.mem_append.mp member with member | member
  · rcases List.mem_append.mp member with member | member
    · rw [← whole]
      exact (Fragment.diagnostics_shown front leading.1 diagnostic member).append _
    · obtain ⟨problem, own, rfl⟩ := List.mem_map.mp member
      have shown := readLexeme_problemShown _ leading.2 problem (Option.mem_toList.mp own)
      rw [← whole, ← Text.byteSize_append]
      exact shown.shift _
  · rw [← Text.byteSize_append, ← Text.byteSize_append] at member
    rw [← last]
    exact (Fragment.diagnostics_shown _ trailing.1 diagnostic member).append _

/-- The problems that a call finds are told in the text. -/
theorem Lexer.InPlace.shown_found {text : List Char} {lexer : Lexer} (place : InPlace text lexer) :
    ∀ diagnostic ∈ lexer.reading.found lexer.position.offset, diagnostic.range.ShownIn text := by
  obtain ⟨front, rfl, offset⟩ := place.front
  rw [offset]
  exact lexer.context.found_shown front lexer.rest

theorem Lexer.after_inPlace (text : List Char) (count : Nat) :
    InPlace text ((start text).after count) := by
  induction count with
  | zero => exact start_inPlace text
  | succ count ih =>
    rw [after_succ]
    exact ih.next

namespace Diagnostic

/-- A list made of two, in the order of starts. Of problems with one start those of the first list
come first, and those of one list stay in their order. -/
structure Merged (first second merged : List Diagnostic) : Prop where
  ordered : merged.Pairwise fun a b => a.start ≤ b.start
  stable : ∀ start, merged.filter (·.start == start) =
    first.filter (·.start == start) ++ second.filter (·.start == start)

private theorem insertByStart_eq_orderedInsert (diagnostic : Diagnostic)
    (diagnostics : List Diagnostic) :
    insertByStart diagnostic diagnostics =
      diagnostics.orderedInsert (fun a b => a.start ≤ b.start) diagnostic := by
  induction diagnostics with
  | nil => rfl
  | cons first rest ih => rw [insertByStart, ih, List.orderedInsert]

private theorem sortByStart_eq_insertionSort (diagnostics : List Diagnostic) :
    sortByStart diagnostics = diagnostics.insertionSort fun a b => a.start ≤ b.start := by
  induction diagnostics with
  | nil => rfl
  | cons diagnostic rest ih =>
    rw [sortByStart, ih, insertByStart_eq_orderedInsert, List.insertionSort_cons]

private theorem filter_insertByStart (diagnostic : Diagnostic) (diagnostics : List Diagnostic)
    (start : Nat) : (insertByStart diagnostic diagnostics).filter (·.start == start) =
      (diagnostic :: diagnostics).filter (·.start == start) := by
  induction diagnostics with
  | nil => rfl
  | cons first rest ih =>
    rw [insertByStart]
    split
    · rfl
    · rename_i later
      rw [List.filter_cons, ih, List.filter_cons, List.filter_cons, List.filter_cons]
      by_cases here : diagnostic.start = start
      · have other : first.start ≠ start := by omega
        simp [here, other]
      · simp [here]

private theorem filter_sortByStart (diagnostics : List Diagnostic) (start : Nat) :
    (sortByStart diagnostics).filter (·.start == start) =
      diagnostics.filter (·.start == start) := by
  induction diagnostics with
  | nil => rfl
  | cons diagnostic rest ih =>
    rw [sortByStart, filter_insertByStart, List.filter_cons, List.filter_cons, ih]

theorem merged_sortByStart (first second : List Diagnostic) :
    Merged first second (sortByStart (first ++ second)) where
  ordered := by
    rw [sortByStart_eq_insertionSort]
    exact List.pairwise_insertionSort _ _
  stable start := by rw [filter_sortByStart, List.filter_append]

end Diagnostic

end MatrixScript
