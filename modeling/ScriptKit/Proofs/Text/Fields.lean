import ScriptKit.Text.Fields
import ScriptKit.Text.Lines
import ScriptKit.Text.WhiteSpace

/-! Joining lines and fields is undone by cutting them apart again. -/

namespace ScriptKit.Text

section Fields

variable {separates : Char → Bool}

theorem fields_go_append {piece : List Char} (plain : ∀ c ∈ piece, separates c = false)
    (front rest : List Char) :
    fields.go separates front (piece ++ rest) =
      fields.go separates (piece.reverse ++ front) rest := by
  induction piece generalizing front with
  | nil => rfl
  | cons c piece ih =>
    obtain ⟨first, others⟩ := List.forall_mem_cons.mp plain
    rw [List.cons_append, fields.go, if_neg (by simp [first]), ih others, List.reverse_cons,
      List.append_assoc, List.singleton_append]

theorem fields_separator {c : Char} (separator : separates c = true) (rest : List Char) :
    fields separates (c :: rest) = fields separates rest := by
  unfold fields
  rw [fields.go, if_pos separator]
  rfl

theorem fields_separators {front : List Char} (separators : ∀ c ∈ front, separates c = true)
    (rest : List Char) :
    fields separates (front ++ rest) = fields separates rest := by
  induction front with
  | nil => rfl
  | cons c front ih =>
    obtain ⟨first, others⟩ := List.forall_mem_cons.mp separators
    rw [List.cons_append, fields_separator first, ih others]

/-- A piece ends with the text or at a separator. -/
theorem fields_piece {piece rest : List Char} (some_char : piece ≠ [])
    (plain : ∀ c ∈ piece, separates c = false)
    (ends : ∀ c ∈ rest.head?, separates c = true) :
    fields separates (piece ++ rest) = piece :: fields separates rest := by
  unfold fields
  rw [fields_go_append plain]
  cases rest with
  | nil => simp [fields.go, some_char]
  | cons c rest =>
    have separator := ends c rfl
    simp [fields.go, some_char, separator]

/-- Between two pieces there may be any separators, but not none. -/
theorem fields_intercalate {between : List Char} (some_separator : between ≠ [])
    (separators : ∀ c ∈ between, separates c = true) {pieces : List (List Char)}
    (plain : ∀ piece ∈ pieces, piece ≠ [] ∧ ∀ c ∈ piece, separates c = false) :
    fields separates (between.intercalate pieces) = pieces := by
  induction pieces with
  | nil => rfl
  | cons piece pieces ih =>
    obtain ⟨⟨some_char, first⟩, others⟩ := List.forall_mem_cons.mp plain
    cases pieces with
    | nil =>
      have alone : fields separates (piece ++ []) = piece :: fields separates [] :=
        fields_piece some_char first fun c member => nomatch member
      rw [List.append_nil] at alone
      rw [List.intercalate_singleton, alone]
      rfl
    | cons next pieces =>
      rw [List.intercalate_cons_cons, List.append_assoc]
      rw [fields_piece some_char first, fields_separators separators, ih others]
      intro c member
      cases between with
      | nil => exact absurd rfl some_separator
      | cons b between => exact separators c (Option.some.inj member ▸ List.mem_cons_self)

end Fields

section Lines

theorem lines_go_append {line : List Char} (plain : '\n' ∉ line) (front rest : List Char) :
    lines.go front (line ++ rest) = lines.go (line.reverse ++ front) rest := by
  induction line generalizing front with
  | nil => rfl
  | cons c line ih =>
    have first := List.ne_of_not_mem_cons plain
    have others := List.not_mem_of_not_mem_cons plain
    rw [List.cons_append, lines.go, ih others, List.reverse_cons, List.append_assoc,
      List.singleton_append]
    exact fun same => first same.symm

theorem dropReturn_eq {line : List Char} (plain : '\r' ∉ line) : dropReturn line = line := by
  unfold dropReturn
  split
  · exact absurd List.mem_cons_self plain
  · rfl

theorem lines_line {line : List Char} (plain : '\n' ∉ line) (plain' : '\r' ∉ line)
    (rest : List Char) : lines (line ++ '\n' :: rest) = line :: lines rest := by
  have reversed : '\r' ∉ line.reverse ++ [] := by simpa using plain'
  unfold lines
  rw [lines_go_append plain, lines.go, dropReturn_eq reversed, List.append_nil,
    List.reverse_reverse]

/-- Texts with line feeds between and behind them have those texts as lines. -/
theorem lines_flatMap {texts : List (List Char)}
    (plain : ∀ text ∈ texts, '\n' ∉ text ∧ '\r' ∉ text) :
    lines (texts.flatMap (· ++ ['\n'])) = texts := by
  induction texts with
  | nil => rfl
  | cons text texts ih =>
    obtain ⟨⟨no_feed, no_return⟩, others⟩ := List.forall_mem_cons.mp plain
    rw [List.flatMap_cons, List.append_assoc, List.singleton_append,
      lines_line no_feed no_return, ih others]

end Lines

theorem trimStart_eq {text : List Char} (front : ∀ c ∈ text.head?, isWhiteSpace c = false) :
    trimStart text = text := by
  cases text with
  | nil => rfl
  | cons c cs => exact List.dropWhile_cons_of_neg (by simp [front c rfl])

theorem trim_eq {text : List Char} (front : ∀ c ∈ text.head?, isWhiteSpace c = false)
    (back : ∀ c ∈ text.getLast?, isWhiteSpace c = false) : trim text = text := by
  rw [trim, trimStart_eq front, trimStart_eq, List.reverse_reverse]
  rwa [List.head?_reverse]

end ScriptKit.Text
