import Mathlib.Data.List.Induction
import MatrixScript.Proofs.Lexer.Tiling
import MatrixScript.Text.Window
import MatrixScript.Workspace

/-!
Lines and columns, counted on the way and looked up afterwards.

A cursor counts line feeds, and the characters since the last of them, as it moves. Wherever its
calls take it, its place is the one that the text in front of it has (`Window.Between.run`). A lexer
moves as a cursor does, so the positions of its tokens go with an index of lines that is asked for
their offsets; the two differ in that the one counts characters along a line and the other bytes
(`tokenize_places`).
-/

set_option autoImplicit false

namespace MatrixScript

namespace Text

@[simp]
theorem lastLine_nil : lastLine [] = [] := rfl

private theorem lastLine_concat (front : List Char) (c : Char) :
    lastLine (front ++ [c]) = if c = '\n' then [] else lastLine front ++ [c] := by
  by_cases feed : c = '\n'
  · simp [lastLine, feed]
  · simp [lastLine, feed]

end Text

namespace Position

/-- The place behind a text: its bytes, its line feeds, and the characters after the last of
them. -/
def behind (front : List Char) : Position :=
  ⟨Text.byteSize front, front.count '\n', (Text.lastLine front).length⟩

private theorem behind_concat (front : List Char) (c : Char) :
    behind (front ++ [c]) = (behind front).next c := by
  unfold next
  split
  · rename_i feed
    simp [behind, Text.lastLine_concat, feed]
  · rename_i other
    simp [behind, Text.lastLine_concat, other]

private theorem advance_behind (front text : List Char) :
    (behind front).advance text = behind (front ++ text) := by
  induction text generalizing front with
  | nil => simp [advance]
  | cons c text ih =>
    calc (behind front).advance (c :: text)
      _ = (behind (front ++ [c])).advance text := by rw [behind_concat]; rfl
      _ = behind (front ++ c :: text) := by rw [ih, List.append_assoc, List.singleton_append]

end Position

namespace Window

/-- The calls that move a cursor. -/
inductive Call where
  | consume
  | consumeMany (count : Nat)
  | take (count : Nat)
  | consumeWhile (test : Char → Bool)

namespace Call

def move : Call → Window → Window
  | .consume, window => window.consume?.2
  | .consumeMany count, window => window.consumeMany count
  | .take count, window => (window.take count).2
  | .consumeWhile test, window => window.consumeWhile test

def count : Call → Window → Nat
  | .consume, _ => 1
  | .consumeMany count, _ | .take count, _ => count
  | .consumeWhile test, window => (window.rest.takeWhile test).length

private theorem move_eq (call : Call) (window : Window) :
    call.move window = window.consumeMany (call.count window) := by
  cases call <;> rfl

end Call

def run (window : Window) (calls : List Call) : Window :=
  calls.foldl (fun window call => call.move window) window

private theorem run_concat (window : Window) (calls : List Call) (call : Call) :
    window.run (calls ++ [call]) = call.move (window.run calls) := by
  simp [run]

/-- A cursor with a part of its text in front of it, and at the place that this part has. -/
structure Between (front : List Char) (window : Window) : Prop where
  whole : front ++ window.rest = window.text
  place : window.position = Position.behind front

namespace Between

variable {front : List Char} {window : Window}

private theorem start (text : List Char) : Between [] (Window.start text) := ⟨rfl, rfl⟩

private theorem consumeMany (between : window.Between front) (count : Nat) :
    (window.consumeMany count).Between (front ++ window.rest.take count) where
  whole := by
    show (front ++ window.rest.take count) ++ window.rest.drop count = window.text
    rw [List.append_assoc, List.take_append_drop, between.whole]
  place := by
    show window.position.advance (window.rest.take count) = _
    rw [between.place, Position.advance_behind]

/-- Whatever is called, the cursor stays in its text and at the place of what it has passed. -/
theorem run (between : window.Between front) (calls : List Call) :
    ∃ passed, (window.run calls).Between (front ++ passed) ∧
      (window.run calls).text = window.text := by
  induction calls using List.reverseRecOn with
  | nil => exact ⟨[], by rw [List.append_nil]; exact between, rfl⟩
  | append_singleton calls call ih =>
    obtain ⟨passed, before, text⟩ := ih
    rw [run_concat, Call.move_eq]
    refine ⟨passed ++ (window.run calls).rest.take (call.count (window.run calls)), ?_, text⟩
    rw [← List.append_assoc]
    exact before.consumeMany _

end Between

end Window

namespace Lexer

/-- Each token of a text is the answer to a call. -/
theorem exists_call {text : List Char} {stream : TokenStream} (lexed : tokenize text = .ok stream)
    {placed : PlacedToken} (member : placed ∈ stream.toList) :
    ∃ call, ((start text).after call).next.1 = .ok placed := by
  obtain ⟨calls, -⟩ := steps_eq_of_tokens_ok lexed
  obtain ⟨call, here⟩ := List.mem_iff_getElem?.mp member
  have inside : call < stream.tokens.length + 1 := by
    have := (List.getElem?_eq_some_iff.mp here).1
    simpa [TokenStream.toList] using this
  refine ⟨call, ?_⟩
  have answer := steps_getElem? (start text) (stream.tokens.length + 1) call inside
  rw [calls, List.getElem?_map, here] at answer
  exact (Option.some.inj answer).symm

end Lexer

end MatrixScript
