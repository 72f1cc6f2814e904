import ScriptKit.Proofs.Session.ErrorSpans
import ScriptKit.Proofs.Source.Lines

/-! The line that is shown with an error.

An error begins with a character of a token, or with one that begins no token, so it stands in a
line. The number of the line is right, yet the text is looked up under that number among lines
that only line feeds end. Where a carriage return ends a line on its own, another line is shown,
or none. -/

namespace ScriptKit

def Error.start? : Error → Option Nat
  | .lex e => some e.span.start
  | .parse e => some e.span.start
  | .runtime e => e.span.map (·.start)

def BeginsAt (source : String) (offset : Nat) : Prop :=
  ∃ before c after, source.toList = before ++ c :: after ∧ byteLength before = offset ∧
    isBlank c = false

section Beginnings

variable {source : String} {e : Error} {p : Nat}

theorem beginsAt_of_boundary (boundary : IsBoundary source p) (inside : p < source.utf8ByteSize)
    (opens : ∀ c, charAt source p = some c → isBlank c = false) : BeginsAt source p := by
  obtain ⟨front, back, whole, offset⟩ := String.Pos.Raw.isValid_iff_exists_append.mp boundary
  have text : source.toList = front.toList ++ back.toList := by
    rw [whole, String.toList_append]
  have size : byteLength front.toList = p := by
    rw [byteLength_toList]
    exact (congrArg String.Pos.Raw.byteIdx offset).symm
  cases rest : back.toList with
  | nil =>
    have all := congrArg byteLength text
    rw [rest, List.append_nil, byteLength_toList, size] at all
    omega
  | cons c after =>
    rw [rest] at text
    have here := charAt_eq text
    rw [size] at here
    exact ⟨_, c, after, text, size, opens c here⟩

theorem Stuck.not_blank {c : Char} {cs : List Char} {kind : LexErrorKind}
    (stuck : Stuck (c :: cs) kind) :
    isBlank c = false := by
  apply Bool.eq_false_iff.mpr
  intro blank
  exact stuck.not_longest (Piece.longest_blank blank) rfl trivial

theorem lexError_begins {e : LexError} (failed : scan source 0 = .error e) :
    e.place = lineColumn source.toList e.span.start ∧ BeginsAt source e.span.start := by
  obtain ⟨cut, rest, kind, cuts, stuck, rfl⟩ := (scan_eq_error_iff source 0 e).mp failed
  have start : ((Head.start.past (joined cut) rest.head?).error 0 kind).span.start =
      byteLength (joined cut) := by
    simp only [Head.error, start_past, Nat.zero_add]
  rw [start]
  constructor
  · rw [cuts.text, lineColumn_append]
    rfl
  · cases rest with
    | nil => exact absurd stuck Stuck.not_nil
    | cons c cs => exact ⟨joined cut, c, cs, cuts.text, rfl, stuck.not_blank⟩

theorem parseError_begins {e : ParseError} (failed : (parseSource source {}).1 = .error (.parse e))
    (inside : e.span.start < source.utf8ByteSize) :
    e.place = lineColumn source.toList e.span.start ∧ BeginsAt source e.span.start := by
  obtain ⟨fine, place⟩ := parseSource_blamed Ast.closed_empty Ast.apart_empty failed
  exact ⟨place, beginsAt_of_boundary fine.starts.2.2 inside fine.opens⟩

theorem lexError_of_parseSource {e : LexError} {ast : Ast}
    (failed : (parseSource source ast).1 = .error (.lex e)) :
    scan source ast.sourceEnd = .error e := by
  rcases Session.parseSource_cases source ast with
    ⟨e', scanned, read⟩ | ⟨tokens, -, ⟨b, after, -, read⟩ | ⟨e', after, -, read⟩⟩
  · rw [read] at failed
    cases failed
    exact scanned
  all_goals
    rw [read] at failed
    cases failed

namespace Session

variable {maxDepth : Nat} {out : Sink} {input : List UInt8}

theorem parse_error_of_eval {s : Session} {e : Error} (failed : (s.eval source).1 = .error e)
    (early : ∀ e', e ≠ .runtime e') : (parseSource source s.ast).1 = .error e := by
  cases read : s.parse source with
  | mk result t =>
    cases result with
    | error e' =>
      rw [eval_of_error read] at failed
      cases failed
      exact congrArg Prod.fst read
    | ok b =>
      rw [eval_of_parse read] at failed
      dsimp only at failed
      cases ran : (t.run b).1 with
      | ok v =>
        rw [ran] at failed
        cases failed
      | error e' =>
        rw [ran] at failed
        cases failed
        exact absurd rfl (early _)

theorem runtimeError_begins {e : RuntimeError} {span : Span}
    (failed : ((fresh maxDepth out input).eval source).1 = .error (.runtime e))
    (spanned : e.span = some span) (inside : span.start < source.utf8ByteSize) :
    BeginsAt source span.start := by
  obtain ⟨b, e', read, ran, rfl⟩ := eval_error failed
  obtain ⟨sound, has⟩ := (sound_fresh maxDepth out input).parse source
  obtain ⟨f, -, rfl, node⟩ := exists_failure sound.closed (has b read) ran
  have new : (Layout.ofSource {} source).old.count f.node.family ≤ f.node.number := by
    rw [Layout.ofSource, Ast.count_reserve]
    cases f.node.family <;> exact Nat.zero_le _
  have fits := (parseSource_laid Ast.closed_empty Ast.apart_empty source).fits f.node node new
  rw [span_relativeTo] at spanned
  obtain ⟨-, ⟨_, _, starts⟩, _, opens⟩ := fits.fine
  unfold Span.within? at spanned
  split at spanned
  · cases spanned
    exact beginsAt_of_boundary starts inside opens
  · cases spanned

/-- An error has the place of its first byte, and it does not begin with a blank. -/
theorem error_begins (failed : ((fresh maxDepth out input).eval source).1 = .error e)
    (starts : e.start? = some p) (inside : p < source.utf8ByteSize) :
    e.diagnostic.place? source = some (lineColumn source.toList p) ∧ BeginsAt source p := by
  cases e with
  | lex e =>
    cases starts
    have read := parse_error_of_eval failed fun _ => Error.noConfusion
    obtain ⟨place, begins⟩ := lexError_begins (lexError_of_parseSource read)
    exact ⟨congrArg some place, begins⟩
  | parse e =>
    cases starts
    have read := parse_error_of_eval failed fun _ => Error.noConfusion
    obtain ⟨place, begins⟩ := parseError_begins read inside
    exact ⟨congrArg some place, begins⟩
  | runtime e =>
    obtain ⟨span, spanned, rfl⟩ := Option.map_eq_some_iff.mp starts
    refine ⟨?_, runtimeError_begins failed spanned inside⟩
    simp only [Diagnostic.place?, Error.diagnostic, RuntimeError.diagnostic, spanned,
      Location.place?]

end Session

end Beginnings

namespace Diagnostic

/-- A line with carets from the character behind `left` on. Below the number of the line there are
blanks, and so there are below `left`. -/
def pointed (d : Diagnostic) (carets number : Nat) (left rest : List Char) : String :=
  let digits := Text.padLeft 4 ' ' (toString number).toList
  String.ofList digits ++ " | " ++ String.ofList (left ++ rest) ++ "\n" ++
    String.ofList (List.replicate digits.length ' ') ++ " | " ++
      String.ofList (List.replicate left.length ' ') ++
      d.severity.colour ++ String.ofList (List.replicate carets '^') ++ plain ++ "\n"

variable (d : Diagnostic) {text : List Char}

theorem width_pos (location : Location) : 0 < location.width text := by
  unfold Location.width
  split
  · split
    · split
      · exact Nat.lt_of_lt_of_le Nat.zero_lt_one (Nat.le_max_left ..)
      · exact Nat.one_pos
    · exact Nat.one_pos
  · exact Nat.one_pos

theorem length_gutter (number : Nat) :
    (Text.padLeft 4 ' ' (toString number).toList).length = 4 ↔ number ≤ 9999 := by
  have digits := Nat.length_repr_le_iff (show 0 < 4 by decide) (n := number)
  rw [Text.padLeft, List.length_append, List.length_replicate, String.length_toList,
    Nat.toString_eq_repr]
  omega

theorem two_lines_eq_iff {line line' below : List Char} {width : Nat} (plain : '\n' ∉ line)
    (plain' : '\n' ∉ line') :
    line ++ ("\n     | ".toList ++ below) =
        line' ++ ("\n".toList ++ (List.replicate width ' ' ++ (" | ".toList ++ below))) ↔
      line = line' ∧ width = 4 := by
  constructor
  · intro same
    have first : line.length = line'.length := by
      have feeds := congrArg (List.idxOf '\n') same
      rw [List.idxOf_append_of_notMem plain, List.idxOf_append_of_notMem plain'] at feeds
      exact Nat.add_right_cancel feeds
    obtain ⟨lines, margins⟩ := List.append_inj same first
    have lengths := congrArg List.length margins
    simp only [List.length_append, List.length_replicate, String.length_toList] at lengths
    have fixed : "\n     | ".length = 8 ∧ "\n".length = 1 ∧ " | ".length = 3 := by decide
    exact ⟨lines, by omega⟩
  · rintro ⟨rfl, rfl⟩
    rfl

/-- The snippet is as it should be just if the right line is found under the number, and the number
has four digits at most: the margin under it is of that width. -/
theorem snippet_eq_pointed_iff {number : Nat} {left rest : List Char}
    (plain : '\n' ∉ left ++ rest) :
    d.snippet text ⟨number, left.length + 1⟩ = d.pointed (d.location.width text) number left rest ↔
      (Text.lines text)[number - 1]? = some (left ++ rest) ∧ number ≤ 9999 := by
  rw [← length_gutter]
  unfold snippet pointed
  dsimp only
  cases found : (Text.lines text)[number - 1]? with
  | none =>
    simp only [reduceCtorEq, false_and, iff_false]
    intro same
    have texts := congrArg String.toList same
    simp at texts
  | some line =>
    have plain' : '\n' ∉ line := Text.not_mem_of_mem_lines (List.mem_of_getElem? found)
    rw [← String.toList_inj]
    simp only [String.toList_append, String.toList_ofList, List.append_assoc, Nat.add_sub_cancel,
      List.append_cancel_left_eq, Option.some.injEq]
    rw [← List.append_assoc left rest]
    exact two_lines_eq_iff plain' plain

/-- How a message about a character is shown. `above` and `below` are the text above and below its
line, and `left` and `right` what stands beside it in the line. -/
structure Shown (source file : String) (above left : List Char) (c : Char)
    (right below : List Char) : Prop where
  around : Text.LineAround source.toList above left c right below
  rendered : d.render source file =
    file ++ ":" ++ toString (Text.lineNumber above) ++ ":" ++ toString (left.length + 1) ++ ": " ++
      d.coloured ++
      d.snippet source.toList ⟨Text.lineNumber above, left.length + 1⟩
  carets : 0 < d.location.width source.toList
  /-- The line and the carets are right just if the line is found under its number, with four digits
  at most. -/
  right_iff : d.snippet source.toList ⟨Text.lineNumber above, left.length + 1⟩ =
      d.pointed (d.location.width source.toList) (Text.lineNumber above) left (c :: right) ↔
    (Text.lines source.toList)[Text.lineNumber above - 1]? = some (left ++ c :: right) ∧
    Text.lineNumber above ≤ 9999
  /-- If no carriage return stands alone above the line, it is found just if none ends it either. -/
  found_iff : Text.loneReturns above = 0 →
    ((Text.lines source.toList)[Text.lineNumber above - 1]? = some (left ++ c :: right) ↔
      (below.head? = some '\r' → below.tail.head? = some '\n'))

theorem shown_of_around {source : String} (file : String) {above left right below : List Char}
    {c : Char} (around : Text.LineAround source.toList above left c right below)
    (place : d.place? source = some (lineColumn source.toList (byteLength (above ++ left)))) :
    d.Shown source file above left c right below where
  around := around
  rendered := by
    rw [render, place, around.place]
  carets := width_pos d.location
  right_iff := d.snippet_eq_pointed_iff fun member => (around.inside _ member).1 rfl
  found_iff := around.found_iff

end Diagnostic

namespace Session

/-- An error that begins inside its source is shown with the number and the column of the character
it begins with. Its line is shown, with the first caret under the character, if no carriage return
stands alone above the line or at its end and the number of the line has four digits at most. -/
theorem error_shown (maxDepth : Nat) (out : Sink) (input : List UInt8) (source file : String)
    {e : Error} (failed : ((fresh maxDepth out input).eval source).1 = .error e) {p : Nat}
    (starts : e.start? = some p) (inside : p < source.utf8ByteSize) :
    ∃ above left c right below,
      e.diagnostic.Shown source file above left c right below ∧ byteLength (above ++ left) = p := by
  obtain ⟨place, before, c, after, whole, offset, visible⟩ := error_begins failed starts inside
  have plain : c ≠ '\n' ∧ c ≠ '\r' := by
    constructor <;> rintro rfl <;> cases visible
  obtain ⟨above, left, right, below, rfl, around⟩ := Text.exists_lineAround before plain after
  rw [← whole] at around
  rw [← offset] at place
  exact ⟨above, left, c, right, below, e.diagnostic.shown_of_around file around place, offset⟩

def error? : Except Error Value → Option Error
  | .error e => some e
  | .ok _ => none

theorem eq_error_of_error? {r : Except Error Value} {e : Error} (found : error? r = some e) :
    r = .error e := by
  cases r with
  | ok v => cases found
  | error e' => rw [Option.some.inj found]

/-- A division in the second line, behind a character of two bytes. -/
theorem error_shown_division :
    let source := "var x = 1;\r\n\"é\" + x / 0"
    let e : Error := .runtime ⟨.divisionByZero, some ⟨19, 24⟩⟩
    ((fresh 8 {} []).eval source).1 = .error e ∧ e.start? = some 19 ∧ 19 < source.utf8ByteSize ∧
      ∃ above left c right below,
        e.diagnostic.Shown source "main" above left c right below ∧
        byteLength (above ++ left) = 19 := by
  intro source e
  have failed : ((fresh 8 {} []).eval source).1 = .error e := eq_error_of_error? (by decide +kernel)
  have inside : 19 < source.utf8ByteSize := by decide
  exact ⟨failed, rfl, inside, error_shown 8 {} [] source "main" failed rfl inside⟩

/-- The character that is wrong stands in the second line, which a carriage return alone parts from
the first one. No line is shown. -/
theorem line_lost_behind_return :
    let source := "\r@"
    let e : Error := .lex ⟨.unexpectedChar '@', ⟨1, 2⟩, ⟨2, 1⟩⟩
    ((fresh 8 {} []).eval source).1 = .error e ∧ e.start? = some 1 ∧
      Text.LineAround source.toList ['\r'] [] '@' [] [] ∧
      e.diagnostic.render source "main" = "main:2:1: " ++ e.diagnostic.coloured ∧
      e.diagnostic.snippet source.toList ⟨2, 1⟩ ≠ e.diagnostic.pointed 1 2 [] ['@'] := by
  intro source e
  have around : Text.LineAround source.toList ['\r'] [] '@' [] [] :=
    ⟨by decide, by simp, by simp, by simp⟩
  exact ⟨eq_error_of_error? (by decide +kernel), rfl, around, by decide +kernel, by decide +kernel⟩

end Session

end ScriptKit
