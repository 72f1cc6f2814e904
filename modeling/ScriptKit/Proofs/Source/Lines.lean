import ScriptKit.Proofs.Text.Fields
import ScriptKit.Proofs.Token.Places

/-! Two ways to cut a text into lines.

Places count a carriage return without a line feed behind it as the end of a line, and `lines`
does not. So the number of a line leads too far down by as many lines as there are such returns
above it. -/

namespace ScriptKit

namespace Text

/-- The line of a character, without its end: what stands before it and behind it up to the next
ends of lines, in the sense in which places count them. -/
structure LineAround (text above left : List Char) (c : Char) (right below : List Char) : Prop where
  whole : text = above ++ (left ++ c :: right) ++ below
  inside : ∀ x ∈ left ++ c :: right, x ≠ '\n' ∧ x ≠ '\r'
  begins : ∀ x, above.getLast? = some x → x = '\n' ∨ x = '\r'
  ends : ∀ x, below.head? = some x → x = '\n' ∨ x = '\r'

theorem exists_lineAround (before : List Char) {c : Char} (plain : c ≠ '\n' ∧ c ≠ '\r')
    (after : List Char) :
    ∃ above left right below, before = above ++ left ∧
      LineAround (before ++ c :: after) above left c right below := by
  obtain ⟨left, above, front, inside, begins⟩ := exists_line before.reverse
  obtain ⟨right, below, rfl, inside', ends⟩ := exists_line after
  have turned : before = above.reverse ++ left.reverse := by
    rw [← List.reverse_append, ← front, List.reverse_reverse]
  refine ⟨above.reverse, left.reverse, right, below, turned, ?_, ?_, ?_, ends⟩
  · simp only [turned, List.append_assoc, List.cons_append]
  · refine List.forall_mem_append.mpr ⟨fun x member => inside x (List.mem_reverse.mp member), ?_⟩
    exact List.forall_mem_cons.mpr ⟨plain, inside'⟩
  · rw [List.getLast?_reverse]
    exact begins

def loneReturns : List Char → Nat
  | [] => 0
  | c :: rest => (if c = '\r' ∧ rest.head? ≠ some '\n' then 1 else 0) + loneReturns rest

def lineNumber (above : List Char) : Nat :=
  above.count '\n' + loneReturns above + 1

theorem loneReturns_return (cs : List Char) : 0 < loneReturns (cs ++ ['\r']) := by
  induction cs with
  | nil => decide
  | cons c cs ih =>
    rw [List.cons_append, loneReturns]
    omega

end Text

open Text

section Places

variable {h : Head} {next : Option Char}

/-- Characters that end no line move the column on. -/
theorem Head.past_plain {cs : List Char} (plain : ∀ x ∈ cs, x ≠ '\n' ∧ x ≠ '\r') :
    (h.past cs next).place = ⟨h.place.line, h.place.column + cs.length⟩ := by
  induction cs generalizing h with
  | nil => rfl
  | cons c cs ih =>
    obtain ⟨⟨feed, ret⟩, plain⟩ := List.forall_mem_cons.mp plain
    have here : (h.step c (cs.head?.or next)).place = ⟨h.place.line, h.place.column + 1⟩ := by
      simp only [Head.step, Place.step, if_neg feed, if_neg ret]
    rw [Head.past_cons, ih plain, here, List.length_cons]
    simp only [Place.mk.injEq, true_and]
    omega

theorem Head.line_past {cs : List Char} (apart : next ≠ some '\n') :
    (h.past cs next).place.line = h.place.line + cs.count '\n' + loneReturns cs := by
  induction cs generalizing h with
  | nil => rfl
  | cons c cs ih =>
    rw [Head.past_cons, ih]
    by_cases feed : c = '\n'
    · subst feed
      simp only [Head.step, Place.step, if_true, Place.nextLine, List.count_cons_self, loneReturns]
      rw [if_neg (by simp)]
      omega
    · rw [List.count_cons_of_ne feed, loneReturns]
      by_cases ret : c = '\r'
      · -- Nothing is to be seen behind the last character but `next`, which is no line feed.
        have same : cs.head?.or next = some '\n' ↔ cs.head? = some '\n' := by
          cases cs with
          | nil => simpa using apart
          | cons d cs => rfl
        subst ret
        simp only [Head.step, Place.step, if_neg feed, if_true, same, true_and]
        by_cases joined : cs.head? = some '\n'
        · simp only [joined, if_true, not_true, ne_eq, if_false]
          omega
        · simp only [joined, if_false, Place.nextLine, ne_eq, not_false_eq_true, if_true]
          omega
      · simp only [Head.step, Place.step, if_neg feed, ret, false_and, if_false]
        omega

/-- Behind the end of a line the first column comes. -/
theorem Head.column_past {cs : List Char} (ends : ∀ x, cs.getLast? = some x → x = '\n' ∨ x = '\r')
    (apart : next ≠ some '\n') : (Head.start.past cs next).place.column = 1 := by
  cases cs using List.reverseRecOn with
  | nil => rfl
  | append_singleton cs x =>
    rw [Head.past_append]
    rcases ends x (by simp) with rfl | rfl
    · rfl
    · simp only [Head.past, Head.step, Place.step, if_neg apart]
      rfl

/-- The number of a line counts line feeds and lone carriage returns above it, and the column counts
the characters on its left. -/
theorem Text.LineAround.place {text above left right below : List Char} {c : Char}
    (around : LineAround text above left c right below) :
    lineColumn text (byteLength (above ++ left)) = ⟨lineNumber above, left.length + 1⟩ := by
  have whole : text = (above ++ left) ++ (c :: right ++ below) := by
    rw [around.whole]
    simp only [List.append_assoc, List.cons_append]
  have plain : ∀ x ∈ left, x ≠ '\n' ∧ x ≠ '\r' :=
    fun x member => around.inside x (List.mem_append_left _ member)
  have apart : left.head?.or (some c) ≠ some '\n' := by
    cases left with
    | nil => simpa using (around.inside c (by simp)).1
    | cons x left => simpa using (plain x List.mem_cons_self).1
  have line : (Head.start.past above (left.head?.or (some c))).place.line = _ :=
    Head.line_past apart
  have column := Head.column_past around.begins apart
  rw [whole, lineColumn_append, List.cons_append, List.head?_cons, Head.past_append,
    Head.past_plain plain, line, column]
  simp only [Head.start, Place.origin, lineNumber, Place.mk.injEq]
  omega

end Places

namespace Text

section Lines

theorem lines_go_feed (front cs rest : List Char) :
    lines.go front (cs ++ '\n' :: rest) = lines.go front (cs ++ ['\n']) ++ lines rest := by
  induction cs generalizing front with
  | nil => rfl
  | cons c cs ih =>
    by_cases feed : c = '\n'
    · subst feed
      simp only [List.cons_append, lines.go, ih]
    · rw [List.cons_append, List.cons_append, lines.go, lines.go, ih] <;> exact feed

theorem length_lines_go_feed (front cs : List Char) :
    (lines.go front (cs ++ ['\n'])).length = cs.count '\n' + 1 := by
  induction cs generalizing front with
  | nil => rfl
  | cons c cs ih =>
    by_cases feed : c = '\n'
    · subst feed
      simp only [List.cons_append, lines.go, List.length_cons, ih, List.count_cons_self]
    · rw [List.cons_append, lines.go, ih, List.count_cons_of_ne feed]
      exact feed

/-- Behind a line feed there is the first line of the rest. -/
theorem getElem?_lines_feed (cs rest : List Char) :
    (lines (cs ++ '\n' :: rest))[cs.count '\n' + 1]? = (lines rest)[0]? := by
  have length := length_lines_go_feed [] cs
  unfold lines at *
  rw [lines_go_feed, List.getElem?_append_right (by omega), length, Nat.sub_self]
  rfl

theorem not_mem_lines_go {front text line : List Char} (plain : '\n' ∉ front)
    (member : line ∈ lines.go front text) : '\n' ∉ line := by
  induction text generalizing front with
  | nil =>
    rw [lines.go] at member
    split at member
    · cases member
    · rw [List.mem_singleton.mp member, List.mem_reverse]
      exact plain
  | cons c text ih =>
    by_cases feed : c = '\n'
    · subst feed
      rw [lines.go] at member
      rcases List.mem_cons.mp member with rfl | later
      · rw [List.mem_reverse]
        unfold dropReturn
        split
        · exact fun inside => plain (List.mem_cons_of_mem _ inside)
        · exact plain
      · exact ih List.not_mem_nil later
    · rw [lines.go] at member
      · exact ih (List.not_mem_cons_of_ne_of_not_mem (Ne.symm feed) plain) member
      · exact feed

/-- A line has no line feed. -/
theorem not_mem_of_mem_lines {text line : List Char} (member : line ∈ lines text) : '\n' ∉ line :=
  not_mem_lines_go List.not_mem_nil member

/-- A line loses no more than a carriage return at its end. -/
theorem length_lines_go {front text line : List Char}
    (first : (lines.go front text)[0]? = some line) :
    front.length ≤ line.length + 1 := by
  induction text generalizing front with
  | nil =>
    rw [lines.go] at first
    split at first
    · cases first
    · cases first
      rw [List.length_reverse]
      omega
  | cons c text ih =>
    by_cases feed : c = '\n'
    · subst feed
      rw [lines.go] at first
      cases first
      rw [List.length_reverse]
      unfold dropReturn
      split
      · rw [List.length_cons]
      · omega
    · rw [lines.go] at first
      · have longer := ih first
        rw [List.length_cons] at longer
        omega
      · exact feed

/-- A lone carriage return belongs to the line that it stands in. -/
theorem length_lines_go_return {front text line : List Char} (apart : text.head? ≠ some '\n')
    (first : (lines.go ('\r' :: front) text)[0]? = some line) : front.length < line.length := by
  cases text with
  | nil =>
    cases first
    simp
  | cons c text =>
    have feed : c ≠ '\n' := fun same => apart (congrArg some same)
    rw [lines.go] at first
    · have longer := length_lines_go first
      simp only [List.length_cons] at longer
      omega
    · exact feed

/-- A line is the first of a text that begins with it just if it goes on to the end or has a line
feed in its end. -/
theorem lines_first {line below : List Char} (plain : ∀ x ∈ line, x ≠ '\n' ∧ x ≠ '\r')
    (some_char : line ≠ []) (ends : ∀ x, below.head? = some x → x = '\n' ∨ x = '\r') :
    (lines (line ++ below))[0]? = some line ↔
      (below.head? = some '\r' → below.tail.head? = some '\n') := by
  have no_feed : '\n' ∉ line := fun member => (plain _ member).1 rfl
  have no_return : '\r' ∉ line := fun member => (plain _ member).2 rfl
  cases below with
  | nil =>
    have shown : lines (line ++ []) = [line] := by
      unfold lines
      rw [lines_go_append no_feed, lines.go, List.append_nil, if_neg (by simpa using some_char),
        List.reverse_reverse]
    rw [shown]
    simp
  | cons b below =>
    rcases ends b rfl with rfl | rfl
    · rw [lines_line no_feed no_return]
      simp
    · have passed : lines (line ++ '\r' :: below) = lines.go ('\r' :: line.reverse) below := by
        unfold lines
        rw [lines_go_append no_feed, List.append_nil, lines.go]
        decide
      rw [passed, List.tail_cons]
      constructor
      · intro first _
        by_contra apart
        have longer := length_lines_go_return apart first
        rw [List.length_reverse] at longer
        exact Nat.lt_irrefl _ longer
      · intro paired
        obtain ⟨rest, rfl⟩ := List.head?_eq_some_iff.mp (paired rfl)
        simp [lines.go, dropReturn]

end Lines

/-- Below line feeds alone, a line is found under its number just if no lone carriage return ends
it. -/
theorem LineAround.found_iff {text above left right below : List Char} {c : Char}
    (around : LineAround text above left c right below) (none : loneReturns above = 0) :
    (lines text)[lineNumber above - 1]? = some (left ++ c :: right) ↔
      (below.head? = some '\r' → below.tail.head? = some '\n') := by
  rw [← lines_first around.inside (by simp) around.ends, lineNumber, none, Nat.add_zero,
    Nat.add_sub_cancel, around.whole, List.append_assoc]
  cases above using List.reverseRecOn with
  | nil => rfl
  | append_singleton above x =>
    rcases around.begins x (by simp) with rfl | rfl
    · rw [List.append_assoc, List.singleton_append, List.count_append, List.count_singleton_self,
        getElem?_lines_feed]
    · exact absurd none (Nat.ne_of_gt (loneReturns_return above))

end Text

end ScriptKit
