import Mathlib.Tactic.Conv
import ScriptKit.Stream

/-! The lines of an input, and the texts that they encode.

A line feed and a carriage return are a byte each, and no other character has them among its bytes.
So it makes no difference whether a line loses its end before it is decoded or after. -/

namespace ScriptKit

section Texts

variable {bytes front : List UInt8} {text : String} {b : UInt8} {c d : Char}

theorem decodeText?_eq_some_iff :
    decodeText? bytes = some text ↔ bytes = text.toList.flatMap String.utf8EncodeChar := by
  have encoded : text.toByteArray.data.toList = text.toList.flatMap String.utf8EncodeChar := by
    conv_lhs => rw [← String.ofList_toList (s := text)]
    simp [String.ofList, List.utf8Encode]
  rw [← encoded]
  unfold decodeText? String.fromUTF8?
  constructor
  · intro found
    split at found
    · cases found
      rfl
    · cases found
  · rintro rfl
    simp [String.fromUTF8, text.isValidUTF8]

theorem utf8EncodeChar_inj (same : String.utf8EncodeChar c = String.utf8EncodeChar d) : c = d := by
  have first : decodeText? (String.utf8EncodeChar c) = some (String.singleton c) :=
    decodeText?_eq_some_iff.mpr (by simp)
  have second : decodeText? (String.utf8EncodeChar d) = some (String.singleton d) :=
    decodeText?_eq_some_iff.mpr (by simp)
  rw [same, second] at first
  simpa using congrArg String.toList (Option.some.inj first).symm

/-- The byte of a character that has only one is the last byte of no other character. -/
theorem eq_of_getLast?_utf8EncodeChar (spelled : String.utf8EncodeChar c = [b])
    (last : (String.utf8EncodeChar d).getLast? = some b) : d = c := by
  have begins : b.IsUTF8FirstByte := by
    simpa [spelled] using UInt8.isUTF8FirstByte_getElem_zero_utf8EncodeChar (c := c)
  rw [List.getLast?_eq_getElem?, List.getElem?_eq_some_iff] at last
  obtain ⟨inside, here⟩ := last
  have only : (String.utf8EncodeChar d).length - 1 = 0 :=
    UInt8.isUTF8FirstByte_getElem_utf8EncodeChar.mp (here ▸ begins)
  obtain ⟨b', single⟩ := List.length_eq_one_iff.mp (by omega : (String.utf8EncodeChar d).length = 1)
  apply utf8EncodeChar_inj
  simp_all

theorem decodeText?_concat (spelled : String.utf8EncodeChar c = [b]) :
    decodeText? (front ++ [b]) = (decodeText? front).map (·.push c) := by
  ext text
  rw [Option.map_eq_some_iff]
  simp only [decodeText?_eq_some_iff]
  constructor
  · intro encoded
    rcases List.eq_nil_or_concat text.toList with none | ⟨init, d, letters⟩
    · simp [none] at encoded
    · rw [letters, List.concat_eq_append, List.flatMap_append, List.flatMap_singleton] at encoded
      have filled : String.utf8EncodeChar d ≠ [] := by
        rw [← List.length_pos_iff, String.length_utf8EncodeChar]
        exact d.utf8Size_pos
      have last : (String.utf8EncodeChar d).getLast? = some b := by
        simpa [List.getLast?_append, List.getLast?_eq_some_getLast filled]
          using (congrArg List.getLast? encoded).symm
      cases eq_of_getLast?_utf8EncodeChar spelled last
      rw [spelled] at encoded
      refine ⟨String.ofList init, ?_, ?_⟩
      · rw [String.toList_ofList]
        exact List.append_cancel_right encoded
      · rw [← String.ofList_toList (s := text), letters]
        simp
  · rintro ⟨init, rfl, rfl⟩
    rw [String.toList_push, List.flatMap_append, List.flatMap_singleton, spelled]

end Texts

section Ends

/-- A text, and what is left of it without a line feed at its end or a carriage return and a line
feed. -/
inductive Unended : String → String → Prop where
  | feed {text : String} (plain : text.toList.getLast? ≠ some '\r') : Unended (text.push '\n') text
  | returnFeed {text : String} : Unended ((text.push '\r').push '\n') text
  | whole {text : String} (plain : text.toList.getLast? ≠ some '\n') : Unended text text

variable {line : List UInt8} {text : String}

theorem getLast?_of_decodeText? {c : Char} {b : UInt8} (spelled : String.utf8EncodeChar c = [b])
    (decoded : decodeText? line = some text) (last : text.toList.getLast? = some c) :
    line.getLast? = some b := by
  obtain ⟨init, letters⟩ := List.getLast?_eq_some_iff.mp last
  rw [decodeText?_eq_some_iff.mp decoded, letters, List.flatMap_append, List.flatMap_singleton,
    spelled]
  simp

/-- A line loses its end before it is decoded, but it might as well lose it after that. -/
theorem decodeText?_dropLineEnd (line : List UInt8) :
    (decodeText? line = none ∧ decodeText? (dropLineEnd line) = none) ∨
      ∃ text content, decodeText? line = some text ∧ decodeText? (dropLineEnd line) = some content ∧
        Unended text content := by
  have feed {front : List UInt8} : decodeText? (front ++ [10]) =
      (decodeText? front).map (·.push '\n') :=
    decodeText?_concat rfl
  have back {front : List UInt8} : decodeText? (front ++ [13]) =
      (decodeText? front).map (·.push '\r') :=
    decodeText?_concat rfl
  unfold dropLineEnd
  split
  case isFalse other =>
    cases decoded : decodeText? line with
    | none => exact .inl ⟨rfl, rfl⟩
    | some text =>
      exact .inr ⟨text, text, rfl, rfl, .whole fun last =>
        other (getLast?_of_decodeText? rfl decoded last)⟩
  case isTrue ended =>
    obtain ⟨front, rfl⟩ := List.getLast?_eq_some_iff.mp ended
    rw [List.dropLast_concat, feed]
    dsimp only
    split
    case isFalse other =>
      cases decoded : decodeText? front with
      | none => exact .inl ⟨rfl, rfl⟩
      | some text =>
        exact .inr ⟨_, text, rfl, rfl, .feed fun last =>
          other (getLast?_of_decodeText? rfl decoded last)⟩
    case isTrue returned =>
      obtain ⟨front, rfl⟩ := List.getLast?_eq_some_iff.mp returned
      rw [List.dropLast_concat, back]
      cases decodeText? front with
      | none => exact .inl ⟨rfl, rfl⟩
      | some text => exact .inr ⟨_, text, rfl, rfl, .returnFeed⟩

end Ends

inductive Lines : List UInt8 → List (List UInt8) → Prop where
  | none : Lines [] []
  | last {line : List UInt8} (filled : line ≠ []) (inside : 10 ∉ line) : Lines line [line]
  | cons {line rest : List UInt8} {lines : List (List UInt8)} (inside : 10 ∉ line)
      (others : Lines rest lines) :
      Lines (line ++ 10 :: rest) ((line ++ [10]) :: lines)

namespace Lines

variable {input : List UInt8} {lines : List (List UInt8)}

theorem exists_lines (input : List UInt8) : ∃ lines, Lines input lines := by
  induction input with
  | nil => exact ⟨[], .none⟩
  | cons b rest ih =>
    obtain ⟨lines, others⟩ := ih
    by_cases feed : b = 10
    · subst feed
      exact ⟨[10] :: lines, .cons List.not_mem_nil others⟩
    · cases others with
      | none => exact ⟨[[b]], .last (by simp) (by simpa using Ne.symm feed)⟩
      | last filled inside => exact ⟨[b :: rest], .last (by simp) (by simp [Ne.symm feed, inside])⟩
      | @cons line _ _ inside others =>
        exact ⟨_, .cons (by simp [Ne.symm feed, inside] : 10 ∉ b :: line) others⟩

theorem flatten_eq (cut : Lines input lines) : lines.flatten = input := by
  induction cut with
  | none => rfl
  | last filled inside => simp
  | cons inside others ih => simp [ih]

theorem takeLine_feed {line : List UInt8} (inside : 10 ∉ line) (rest : List UInt8) :
    takeLine (line ++ 10 :: rest) = (line ++ [10], rest) := by
  induction line with
  | nil => rfl
  | cons b line ih =>
    rw [List.mem_cons, not_or] at inside
    rw [List.cons_append, takeLine, if_neg (Ne.symm inside.1), ih inside.2]
    rfl

theorem takeLine_last {line : List UInt8} (inside : 10 ∉ line) : takeLine line = (line, []) := by
  induction line with
  | nil => rfl
  | cons b line ih =>
    rw [List.mem_cons, not_or] at inside
    rw [takeLine, if_neg (Ne.symm inside.1), ih inside.2]

/-- What is taken is the next line, and the lines behind it are left. -/
theorem takeLine_drop (cut : Lines input lines) (k : Nat) :
    takeLine (lines.drop k).flatten = (lines[k]?.getD [], (lines.drop (k + 1)).flatten) := by
  induction cut generalizing k with
  | none => cases k <;> rfl
  | last filled inside =>
    cases k with
    | zero => simpa using takeLine_last inside
    | succ k => simp [takeLine]
  | cons inside others ih =>
    cases k with
    | zero => simpa [others.flatten_eq] using takeLine_feed inside _
    | succ k => simpa using ih k

theorem filled (cut : Lines input lines) {line : List UInt8} (member : line ∈ lines) :
    line ≠ [] := by
  induction cut with
  | none => cases member
  | last filled inside =>
    rw [List.mem_singleton.mp member]
    exact filled
  | cons inside others ih =>
    rcases List.mem_cons.mp member with rfl | later
    · simp
    · exact ih later

end Lines

end ScriptKit
