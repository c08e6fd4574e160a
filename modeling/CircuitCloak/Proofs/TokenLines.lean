import CircuitCloak.Proofs.Spellings
import Mathlib.Data.String.Basic

/-! The line of a token. The lexer counts the newlines of all that it passes, so that of a token is one more than the
newlines before its first byte, whatever they stand in: blanks, comments or quoted text. A count that looks only at
what lies between the starts of a token and the next finds the same lines. -/

namespace CircuitCloak.Qasm

open String (utf8Len)

/-- The newlines of a text from one byte up to another. -/
def newlines (source : String) (first last : Nat) : Nat :=
  (String.Pos.Raw.extract source ⟨first⟩ ⟨last⟩).toList.count '\n'

theorem newlines_between {source : String} {front between rest : List Char}
    (whole : source.toList = front ++ between ++ rest) :
    newlines source (utf8Len front) (utf8Len (front ++ between)) = between.count '\n' := by
  have taken := String.extract_of_valid front between rest
  rw [← whole, String.ofList_toList] at taken
  rw [newlines, String.utf8Len_append, taken, String.toList_ofList]

theorem newlines_before {source : String} {before rest : List Char} (whole : source.toList = before ++ rest) :
    newlines source 0 (utf8Len before) = before.count '\n' := by
  have between : source.toList = [] ++ before ++ rest := whole
  have counted := newlines_between between
  rwa [String.utf8Len_nil, List.nil_append] at counted

/-- A count of lines that goes from one start to the next, and at each adds the newlines since the last. -/
def runningLines (source : String) (line scanned : Nat) : List Nat → List Nat
  | [] => []
  | start :: starts =>
    (line + newlines source scanned start) ::
      runningLines source (line + newlines source scanned start) start starts

theorem le_of_mem_runningLines {source : String} {line scanned later : Nat} {starts : List Nat}
    (member : later ∈ runningLines source line scanned starts) : line ≤ later := by
  induction starts generalizing line scanned with
  | nil => cases member
  | cons start starts ih =>
    have step : line ≤ line + newlines source scanned start := Nat.le_add_right _ _
    obtain rfl | after := List.mem_cons.mp member
    · exact step
    · exact Nat.le_trans step (ih after)

theorem pairwise_runningLines (source : String) (line scanned : Nat) (starts : List Nat) :
    (runningLines source line scanned starts).Pairwise (· ≤ ·) := by
  induction starts generalizing line scanned with
  | nil => exact .nil
  | cons start starts ih => exact .cons (fun _ member => le_of_mem_runningLines member) (ih _ _)

/-- A place that counts all of the text before it. -/
structure Place.Counts (place : Place) (before : List Char) : Prop where
  line : place.line = 1 + before.count '\n'
  offset : place.offset = utf8Len before

theorem foldl_utf8Size (passed : List Char) (bytes : Nat) :
    passed.foldl (fun bytes c => bytes + c.utf8Size) bytes = bytes + utf8Len passed := by
  induction passed generalizing bytes with
  | nil => rfl
  | cons c passed ih =>
    rw [List.foldl_cons, ih, String.utf8Len_cons]
    omega

theorem Place.counts_start : Place.Counts ⟨1, 0⟩ [] := ⟨rfl, rfl⟩

theorem Place.Counts.advance {place : Place} {before : List Char} (counts : place.Counts before) (passed : List Char) :
    (place.advance passed).Counts (before ++ passed) := by
  refine ⟨?_, ?_⟩
  · rw [Place.advance, List.count_append, counts.line, Nat.add_assoc]
  · rw [Place.advance, String.utf8Len_append, counts.offset, foldl_utf8Size, Nat.zero_add]

/-- Lexemes laid along a text, of which a part comes before: each token is written where its place counts all that is
before it, and only blanks and comments stand between. -/
inductive Tiled : List Char → List Char → List Lexeme → Prop where
  | done (before : List Char) : Tiled before [] []
  | gap {before passed rest found} (gap : IsGap passed rest) (later : Tiled (before ++ passed) rest found) :
      Tiled before (passed ++ rest) found
  | token {before written rest token place found} (spelt : token.WrittenAs written) (counts : place.Counts before)
      (later : Tiled (before ++ written) rest found) : Tiled before (written ++ rest) (⟨token, place⟩ :: found)

section Runs

variable {source : String} {place : Place} {before text : List Char} {found : List Lexeme}

theorem Placed.tiled (placed : Placed place text found) (counts : place.Counts before) : Tiled before text found := by
  induction placed generalizing before with
  | done => exact .done before
  | @gap place text passed rest found piece some later ih =>
    rw [← (Piece.splits piece).1]
    exact .gap (isGap_of_piece piece some) (ih (counts.advance passed))
  | @token place text token written rest found piece later ih =>
    rw [← (Piece.splits piece).1]
    exact .token (writtenAs_of_piece piece) counts (ih (counts.advance written))

theorem Tiled.line_eq (tiled : Tiled before text found) (whole : source.toList = before ++ text) :
    ∀ lexeme ∈ found, lexeme.place.line = 1 + newlines source 0 lexeme.place.offset := by
  induction tiled with
  | done => exact List.forall_mem_nil _
  | gap _ _ ih =>
    apply ih
    rw [whole, List.append_assoc]
  | token _ counts _ ih =>
    refine List.forall_mem_cons.mpr ⟨?_, ih ?_⟩
    · rw [counts.line, counts.offset, newlines_before whole]
    · rw [whole, List.append_assoc]

/-- The count at a start is that of all the text before the last start, and what lies between is still to be added. -/
theorem Tiled.lines_eq (tiled : Tiled before text found) {front between : List Char} (split : before = front ++ between)
    (whole : source.toList = before ++ text) :
    found.map (·.place.line) =
      runningLines source (1 + front.count '\n') (utf8Len front) (found.map (·.place.offset)) := by
  induction tiled generalizing front between with
  | done => rfl
  | @gap before passed rest found gap later ih =>
    have longer : before ++ passed = front ++ (between ++ passed) := by rw [split, List.append_assoc]
    apply ih longer
    rw [whole, List.append_assoc]
  | @token before written rest token place found spelt counts later ih =>
    have added : 1 + front.count '\n' + newlines source (utf8Len front) (utf8Len before) = 1 + before.count '\n' := by
      rw [split, newlines_between (split ▸ whole), List.count_append, Nat.add_assoc]
    have whole : source.toList = before ++ written ++ rest := by rw [whole, List.append_assoc]
    have others := ih rfl whole
    rw [List.map_cons, List.map_cons, runningLines, others, counts.line, counts.offset, added]

end Runs

/-- The line of every token is one more than the newlines before its first byte, and no token has an earlier line than
one before it; adding up what lies between the starts of tokens gives the same lines. -/
theorem lines_exact {source : String} {found : List Lexeme} (cut : lexemes source = .ok found) :
    Tiled [] source.toList found ∧
    (∀ lexeme ∈ found, lexeme.place.line = 1 + newlines source 0 lexeme.place.offset) ∧
    found.map (·.place.line) = runningLines source 1 0 (found.map (·.place.offset)) ∧
    found.Pairwise fun first second => first.place.line ≤ second.place.line := by
  have tiled := (placed_of_lexemes cut).tiled Place.counts_start
  have whole : source.toList = [] ++ source.toList := rfl
  have split : ([] : List Char) = [] ++ [] := rfl
  have running : found.map (·.place.line) = runningLines source 1 0 (found.map (·.place.offset)) :=
    tiled.lines_eq split whole
  refine ⟨tiled, tiled.line_eq whole, running, ?_⟩
  apply List.pairwise_map.mp
  rw [running]
  exact pairwise_runningLines _ _ _ _

/-- Newlines in blanks, in quoted text and in a comment, marks of comments where they are none, and a letter of two
bytes. -/
def commentedSource : String := "// \u03c0 \"\n\n\"a\n//b\" /* c\n */ x\n"

def commentedLexemes : List Lexeme := [⟨.quoted "a\n//b", ⟨3, 9⟩⟩, ⟨.identifier "x", ⟨5, 26⟩⟩]

theorem lines_exact_commented :
    lexemes commentedSource = .ok commentedLexemes ∧
    Tiled [] commentedSource.toList commentedLexemes ∧
    (∀ lexeme ∈ commentedLexemes, lexeme.place.line = 1 + newlines commentedSource 0 lexeme.place.offset) ∧
    [3, 5] = runningLines commentedSource 1 0 [9, 26] ∧
    commentedLexemes.Pairwise fun first second => first.place.line ≤ second.place.line := by
  have cut : lexemes commentedSource = .ok commentedLexemes := rfl
  exact ⟨cut, lines_exact cut⟩

end CircuitCloak.Qasm
