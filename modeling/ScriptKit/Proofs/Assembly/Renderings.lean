import Mathlib.Data.List.Forall2
import ScriptKit.Proofs.Assembly.Layout

/-! The layout of a program in assembly is of no account.

A program is a row of labels and operations. Its code depends on the row alone, not on how the row
is cut into lines, what stands between its parts, the case of mnemonics, or comments. -/

namespace ScriptKit.Assembly
open Text

/-- A label, a mnemonic or an operand. Nothing in it could end it. -/
structure Lexeme where
  text : List Char
  some_char : text ≠ []
  inert : ∀ c ∈ text, isInert c = true

structure Operation where
  mnemonic : Lexeme
  operands : List Lexeme
  no_colon : ':' ∉ mnemonic.text

/-- A line of a program as it is meant: any labels, then possibly an operation. -/
structure LogicalLine where
  labels : List Lexeme
  operation : Option Operation

/-- What a row is made of. A label stands without the colon behind it. -/
inductive Part where
  | label (name : List Char)
  | operation (mnemonic : List Char) (operands : List (List Char))

def Operation.part (o : Operation) : Part :=
  .operation o.mnemonic.text (o.operands.map Lexeme.text)

def LogicalLine.parts (l : LogicalLine) : List Part :=
  l.labels.map (fun name => .label name.text) ++ l.operation.toList.map Operation.part

/-- A line without its comment, and the parts in it. There may be any white space in front of a part
and at the end, and the operands are divided by any mix of white space and commas. -/
inductive Holds : List Char → List Part → Prop where
  | blank {text : List Char} : Blank text → Holds text []
  | label {front name rest : List Char} {parts : List Part} : Blank front → Holds rest parts →
      Holds (front ++ (name ++ ':' :: rest)) (.label name :: parts)
  | operation {front word rest mnemonic : List Char} {operands : List (List Char)} : Blank front →
      word.map Char.toLower = mnemonic.map Char.toLower →
      (∀ c ∈ rest.head?, isWhiteSpace c = true) →
      Separated (fun c => c = ',' || isWhiteSpace c) rest operands →
      Holds (front ++ (word ++ rest)) [.operation mnemonic operands]

/-- A text whose lines hold the parts. A line may end with a comment, and its end is a line feed
with or without a carriage return. The last line needs no end. -/
inductive Rendered : List Char → List Part → Prop where
  | last {content comment : List Char} {parts : List Part} : Holds content parts →
      (∀ c ∈ comment.head?, c = ';' ∨ c = '#') → '\n' ∉ content ++ comment →
      Rendered (content ++ comment) parts
  | line {content comment ending rest : List Char} {parts others : List Part} :
      Holds content parts →
      (∀ c ∈ comment.head?, c = ';' ∨ c = '#') → '\n' ∉ content ++ comment →
      ending = ['\n'] ∨ ending = ['\r', '\n'] → Rendered rest others →
      Rendered (content ++ comment ++ (ending ++ rest)) (parts ++ others)

inductive Part.Yields (line : Nat) : Part → Item → Prop where
  | label {name : List Char} : isIdentifier name = true →
      Yields line (.label name) (.label (String.ofList name))
  | operation {mnemonic : List Char} {op : Opcode} {operands : List (List Char)} :
      mnemonic.map Char.toLower = op.mnemonic.toList → operands.length = op.operands.length →
      Yields line (.operation mnemonic operands) (.instruction ⟨line, op, operands⟩)

/-- Nothing in the part could end it, and a label has no colon in it either. -/
def Part.Plain : Part → Prop
  | label name => ∀ c ∈ name, isInert c = true ∧ c ≠ ':'
  | operation mnemonic operands => mnemonic ≠ [] ∧ (∀ c ∈ mnemonic, isInert c = true ∧ c ≠ ':') ∧
      ∀ operand ∈ operands, ∀ c ∈ operand, isInert c = true

section Characters

variable {c d : Char}

theorem isInert_iff : isInert c = true ↔ isWhiteSpace c = false ∧ c ≠ ',' ∧ c ≠ ';' ∧ c ≠ '#' := by
  simp [isInert, and_assoc]

theorem plain_of_letterOrDigit (letter : isLetterOrDigit c = true) :
    isInert c = true ∧ c ≠ ':' := by
  have ascii : c.toNat < 128 := by
    rcases isLetterOrDigit_iff.mp letter with letter | digit
    · exact toNat_lt_of_isLetter letter
    · simp only [Char.isDigit, Bool.and_eq_true, decide_eq_true_eq, UInt32.le_iff_toNat_le] at digit
      exact Nat.lt_of_le_of_lt digit.2 (by decide)
  exact ascii_forall (fun c => isLetterOrDigit c = true → isInert c = true ∧ c ≠ ':')
    (by decide +kernel) ascii letter

theorem toLower_cases (c : Char) :
    c.toLower = c ∨ isLetterOrDigit c = true ∧ isLetterOrDigit c.toLower = true := by
  by_cases upper : c.isUpper = true
  · have ascii : c.toNat < 128 := Nat.lt_of_le_of_lt (isUpper_iff.mp upper).2 (by decide)
    right
    exact ascii_forall
      (fun c => c.isUpper = true → isLetterOrDigit c = true ∧ isLetterOrDigit c.toLower = true)
      (by decide +kernel) ascii upper
  · left
    apply dif_neg
    intro between
    exact upper (decide_eq_true between)

/-- Changing the case makes nothing of a letter that ends a word. -/
theorem plain_of_toLower (same : d.toLower = c.toLower) (plain : isInert c = true ∧ c ≠ ':') :
    isInert d = true ∧ d ≠ ':' := by
  rcases toLower_cases d with kept | ⟨letter, -⟩
  · rcases toLower_cases c with kept' | ⟨-, letter⟩
    · rwa [← kept, same, kept']
    · rw [← same, kept] at letter
      exact plain_of_letterOrDigit letter
  · exact plain_of_letterOrDigit letter

theorem plain_of_identifier {name : List Char} (named : isIdentifier name = true) :
    ∀ c ∈ name, isInert c = true ∧ c ≠ ':' := by
  cases name with
  | nil => cases named
  | cons c cs =>
    obtain ⟨letter, others⟩ := Bool.and_eq_true_iff.mp named
    have first : isLetterOrDigit c = true := isLetterOrDigit_iff.mpr (.inl letter)
    refine List.forall_mem_cons.mpr ⟨plain_of_letterOrDigit first, fun d member => ?_⟩
    exact plain_of_letterOrDigit (List.all_eq_true.mp others d member)

theorem plain_of_map_toLower {word mnemonic : List Char}
    (lower : word.map Char.toLower = mnemonic.map Char.toLower)
    (plain : ∀ c ∈ mnemonic, isInert c = true ∧ c ≠ ':') :
    ∀ d ∈ word, isInert d = true ∧ d ≠ ':' := by
  intro d member
  have lowered : d.toLower ∈ mnemonic.map Char.toLower := lower ▸ List.mem_map_of_mem member
  obtain ⟨c, inside, same⟩ := List.mem_map.mp lowered
  exact plain_of_toLower same.symm (plain c inside)

theorem not_blank_of_plain {word : List Char} (plain : ∀ c ∈ word, isInert c = true ∧ c ≠ ':') :
    ∀ c ∈ word, isWhiteSpace c = false :=
  fun c member => (isInert_iff.mp (plain c member).1).1

end Characters

section Words

variable {text front word word' name rest rest' : List Char} {line : Nat} {i : Instruction}
  {items : List Item}

structure FirstWord (text word rest : List Char) : Prop where
  behind : ∃ front, Blank front ∧ text = front ++ (word ++ rest)
  some_char : word ≠ []
  plain : ∀ c ∈ word, isWhiteSpace c = false
  ends : ∀ c ∈ rest.head?, isWhiteSpace c = true

theorem FirstWord.trimStart_eq (first : FirstWord text word rest) :
    trimStart text = word ++ rest := by
  obtain ⟨⟨front, blank, rfl⟩, some_char, plain, -⟩ := first
  refine dropWhile_eq blank fun c head => plain c ?_
  rw [List.head?_append_of_ne_nil _ some_char] at head
  exact List.mem_of_mem_head? head

theorem FirstWord.unique (first : FirstWord text word rest) (again : FirstWord text word' rest') :
    word = word' ∧ rest = rest' := by
  have same : word ++ rest = word' ++ rest' := first.trimStart_eq.symm.trans again.trimStart_eq
  have split : ∀ {word rest : List Char}, FirstWord text word rest →
      (word ++ rest).takeWhile (fun c => !isWhiteSpace c) = word := by
    intro word rest first
    exact takeWhile_eq (by simpa using first.plain) (by simpa using first.ends)
  have words : word = word' := by rw [← split first, same, split again]
  subst words
  exact ⟨rfl, List.append_cancel_left same⟩

theorem FirstWord.not_blank (first : FirstWord text word rest) : ¬ Blank text := by
  intro blank
  obtain ⟨⟨front, -, rfl⟩, some_char, plain, -⟩ := first
  obtain ⟨c, member⟩ := List.exists_mem_of_ne_nil _ some_char
  have white := blank c (List.mem_append_right _ (List.mem_append_left _ member))
  cases (plain c member).symm.trans white

/-- A colon is part of the word that it stands behind. -/
theorem exists_firstWord (blank : Blank front) (plain : ∀ c ∈ name, isWhiteSpace c = false)
    (rest : List Char) :
    ∃ tail more, FirstWord (front ++ (name ++ ':' :: rest)) (name ++ ':' :: tail) more := by
  obtain ⟨tail, more, rfl, others, ends⟩ := exists_span (fun c => !isWhiteSpace c) rest
  simp only [Bool.not_eq_true', Bool.not_eq_false'] at others ends
  refine ⟨tail, more, ⟨front, blank, by simp⟩, by simp, ?_, ends⟩
  exact List.forall_mem_append.mpr ⟨plain, List.forall_mem_cons.mpr ⟨rfl, others⟩⟩

theorem Leads.exists_firstWord (leads : Leads text name rest) :
    isIdentifier name = true ∧ ∃ tail more, FirstWord text (name ++ ':' :: tail) more := by
  obtain ⟨blank, named⟩ := leads
  exact ⟨named, Assembly.exists_firstWord blank
    (not_blank_of_plain (plain_of_identifier named)) rest⟩

theorem FirstWord.not_leads (first : FirstWord text word rest) (plain : ':' ∉ word) :
    ¬ Leads text name rest' := by
  intro leads
  obtain ⟨-, tail, more, again⟩ := leads.exists_firstWord
  obtain ⟨rfl, -⟩ := first.unique again
  exact plain (by simp)

/-- What is spelled is the first word and what stands behind it. -/
theorem FirstWord.spelled_iff (first : FirstWord text word rest) : Spelled line text i ↔
    word.map Char.toLower = i.op.mnemonic.toList ∧
    Separated (fun c => c = ',' || isWhiteSpace c) rest i.operands ∧
      i.operands.length = i.op.operands.length ∧ i.line = line := by
  constructor
  · rintro ⟨blank, lower, starts, separated, count⟩
    obtain ⟨some_char, plain⟩ := mnemonic_not_blank lower
    obtain ⟨rfl, rfl⟩ := first.unique ⟨⟨_, blank, rfl⟩, some_char, plain, starts⟩
    exact ⟨lower, separated, count, rfl⟩
  · rintro ⟨lower, separated, count, rfl⟩
    obtain ⟨⟨front, blank, rfl⟩, -, -, ends⟩ := first
    exact .mk blank lower ends separated count

theorem FirstWord.not_spelled (first : FirstWord text word rest) (colon : ':' ∈ word) :
    ¬ Spelled line text i := by
  intro spelled
  obtain ⟨lower, -⟩ := first.spelled_iff.mp spelled
  have inside : ':' ∈ i.op.mnemonic.toList := lower ▸ List.mem_map_of_mem colon
  have absent : ∀ op : Opcode, ':' ∉ op.mnemonic.toList := by rintro ⟨⟩ <;> decide
  exact absent i.op inside

end Words

section Lines

variable {text front name rest : List Char} {line : Nat} {items : List Item} {parts : List Part}

theorem uncommented_of_separator {c : Char}
    (separator : (decide (c = ',') || isWhiteSpace c) = true) :
    c ≠ ';' ∧ c ≠ '#' := by
  constructor
  · rintro rfl
    cases separator
  · rintro rfl
    cases separator

theorem uncommented_of_blank (blank : Blank text) : ∀ c ∈ text, c ≠ ';' ∧ c ≠ '#' :=
  fun c member => uncommented_of_separator (by rw [blank c member, Bool.or_true])

theorem Labelled.heads {names : List String} {last : List Char}
    (labelled : Labelled text names last) (uncommented : ∀ c ∈ text, c ≠ ';' ∧ c ≠ '#') :
    Heads text names last :=
  ⟨text, ⟨[], (List.append_nil text).symm, uncommented, by simp⟩, labelled⟩

/-- A line that begins with no label is an instruction, unless it is blank. -/
theorem ofLine_unlabelled (uncommented : ∀ c ∈ text, c ≠ ';' ∧ c ≠ '#') (some_char : ¬ Blank text)
    (alone : ∀ name rest, ¬ Leads text name rest) :
    Item.ofLine line text = .ok items ↔ ∃ i, Spelled line text i ∧ items = [.instruction i] := by
  have heads : Heads text [] text := (Labelled.none alone).heads uncommented
  rw [ofLine_eq_ok_iff]
  simp only [heads.line_iff, instruction_trim_eq_ok_iff]
  constructor
  · rintro ⟨_, _, ⟨rfl, ⟨blank, -⟩ | ⟨i, spelled, rfl⟩⟩, rfl⟩
    · exact absurd blank some_char
    · exact ⟨i, spelled, rfl⟩
  · rintro ⟨i, spelled, rfl⟩
    exact ⟨[], some i, ⟨rfl, .inr ⟨i, spelled, rfl⟩⟩, rfl⟩

theorem ofLine_blank (blank : Blank text) : Item.ofLine line text = .ok items ↔ items = [] := by
  have alone : ∀ name rest, ¬ Leads text name rest := by
    intro name rest leads
    obtain ⟨-, tail, more, first⟩ := leads.exists_firstWord
    exact first.not_blank blank
  have heads : Heads text [] text := (Labelled.none alone).heads (uncommented_of_blank blank)
  rw [ofLine_eq_ok_iff]
  simp only [heads.line_iff, instruction_trim_eq_ok_iff]
  constructor
  · rintro ⟨_, _, ⟨rfl, ⟨-, rfl⟩ | ⟨i, spelled, -⟩⟩, rfl⟩
    · rfl
    · exact absurd blank spelled.not_blank
  · rintro rfl
    exact ⟨[], none, ⟨rfl, .inl ⟨blank, rfl⟩⟩, rfl⟩

/-- A label is taken off a line. -/
theorem ofLine_label (uncommented : ∀ c ∈ front ++ (name ++ ':' :: rest), c ≠ ';' ∧ c ≠ '#')
    (blank : Blank front) (named : isIdentifier name = true) :
    Item.ofLine line (front ++ (name ++ ':' :: rest)) = .ok items ↔
      ∃ others, Item.ofLine line rest = .ok others ∧
        items = .label (String.ofList name) :: others := by
  obtain ⟨names, last, labelled⟩ := exists_labelled rest
  have inside : Heads rest names last :=
    labelled.heads fun c member => uncommented c (by simp [member])
  have heads : Heads (front ++ (name ++ ':' :: rest)) (String.ofList name :: names) last :=
    (Labelled.label (.mk blank named) labelled).heads uncommented
  simp only [ofLine_eq_ok_iff, heads.line_iff, inside.line_iff]
  constructor
  · rintro ⟨_, i, ⟨rfl, here⟩, rfl⟩
    exact ⟨_, ⟨names, i, ⟨rfl, here⟩, rfl⟩, rfl⟩
  · rintro ⟨_, ⟨_, i, ⟨rfl, here⟩, rfl⟩, rfl⟩
    exact ⟨_, i, ⟨rfl, here⟩, rfl⟩

theorem uncommented_of_separated {operands : List (List Char)}
    (separated : Separated (fun c => c = ',' || isWhiteSpace c) text operands)
    (inert : ∀ operand ∈ operands, ∀ c ∈ operand, isInert c = true) :
    ∀ c ∈ text, c ≠ ';' ∧ c ≠ '#' := by
  induction separated with
  | nil separators => exact fun c member => uncommented_of_separator (separators c member)
  | cons separators _ _ _ _ ih =>
    obtain ⟨first, others⟩ := List.forall_mem_cons.mp inert
    refine List.forall_mem_append.mpr
      ⟨fun c member => uncommented_of_separator (separators c member), ?_⟩
    refine List.forall_mem_append.mpr ⟨fun c member => ?_, ih others⟩
    exact (isInert_iff.mp (first c member)).2.2

theorem Holds.uncommented (holds : Holds text parts) (plain : ∀ p ∈ parts, p.Plain) :
    ∀ c ∈ text, c ≠ ';' ∧ c ≠ '#' := by
  induction holds with
  | blank blank => exact uncommented_of_blank blank
  | label blank _ ih =>
    obtain ⟨first, others⟩ := List.forall_mem_cons.mp plain
    refine List.forall_mem_append.mpr
      ⟨uncommented_of_blank blank, List.forall_mem_append.mpr ⟨?_, ?_⟩⟩
    · exact fun c member => (isInert_iff.mp (first c member).1).2.2
    · exact List.forall_mem_cons.mpr ⟨by decide, ih others⟩
  | operation blank lower _ separated =>
    obtain ⟨-, letters, inert⟩ := plain _ List.mem_cons_self
    refine List.forall_mem_append.mpr
      ⟨uncommented_of_blank blank, List.forall_mem_append.mpr ⟨?_, ?_⟩⟩
    · exact fun c member => (isInert_iff.mp (plain_of_map_toLower lower letters c member).1).2.2
    · exact uncommented_of_separated separated inert

/-- A line is read as its parts are, one by one, and not at all if one of them cannot be read. -/
theorem Holds.ofLine_eq_ok_iff (holds : Holds text parts) (plain : ∀ p ∈ parts, p.Plain) :
    Item.ofLine line text = .ok items ↔ List.Forall₂ (Part.Yields line) parts items := by
  have uncommented := holds.uncommented plain
  induction holds generalizing items with
  | blank blank =>
    rw [ofLine_blank blank]
    exact List.forall₂_nil_left_iff.symm
  | @label front name rest parts blank inside ih =>
    obtain ⟨letters, others⟩ := List.forall_mem_cons.mp plain
    have letters : ∀ c ∈ name, isInert c = true ∧ c ≠ ':' := letters
    by_cases named : isIdentifier name = true
    · have read : ∀ {items}, Item.ofLine line rest = .ok items ↔
          List.Forall₂ (Part.Yields line) parts items :=
        ih others (inside.uncommented others)
      rw [ofLine_label uncommented blank named]
      constructor
      · rintro ⟨items, first, rfl⟩
        exact .cons (.label named) (read.mp first)
      · rintro (_ | ⟨⟨-⟩, rest⟩)
        exact ⟨_, read.mpr rest, rfl⟩
    · -- The colon makes the first word neither a label nor a mnemonic.
      obtain ⟨tail, more, first⟩ := exists_firstWord blank (not_blank_of_plain letters) rest
      have alone : ∀ name' rest', ¬ Leads (front ++ (name ++ ':' :: rest)) name' rest' := by
        intro name' rest' leads
        obtain ⟨named', tail', more', again⟩ := leads.exists_firstWord
        obtain ⟨same, -⟩ := first.unique again
        have cut : ∀ name tail : List Char, (∀ c ∈ name, isInert c = true ∧ c ≠ ':') →
            (name ++ ':' :: tail).takeWhile (· ≠ ':') = name :=
          fun name tail letters =>
            takeWhile_eq (fun c member => by simpa using (letters c member).2) (by simp)
        rw [← cut name tail letters, same, cut name' tail' (plain_of_identifier named')] at named
        exact named named'
      rw [ofLine_unlabelled uncommented first.not_blank alone]
      refine iff_of_false ?_ ?_
      · rintro ⟨i, spelled, -⟩
        exact first.not_spelled (by simp) spelled
      · rintro (_ | ⟨⟨named'⟩, -⟩)
        exact named named'
  | @operation front word rest mnemonic operands blank lower starts separated =>
    obtain ⟨some_char, letters, -⟩ := plain _ List.mem_cons_self
    have letters := plain_of_map_toLower lower letters
    have some_char : word ≠ [] := by
      rintro rfl
      exact some_char (List.map_eq_nil_iff.mp lower.symm)
    have first : FirstWord (front ++ (word ++ rest)) word rest :=
      ⟨⟨front, blank, rfl⟩, some_char, not_blank_of_plain letters, starts⟩
    have alone : ∀ name rest', ¬ Leads (front ++ (word ++ rest)) name rest' :=
      fun _ _ => first.not_leads fun colon => (letters ':' colon).2 rfl
    rw [ofLine_unlabelled uncommented first.not_blank alone]
    simp only [first.spelled_iff]
    constructor
    · rintro ⟨⟨_, op, operands'⟩, ⟨spelled, separated', count, rfl⟩, rfl⟩
      have same : operands' = operands :=
        (fields_eq_iff.mpr separated').symm.trans (fields_eq_iff.mpr separated)
      subst same
      exact .cons (.operation (lower.symm.trans spelled) count) .nil
    · rintro (_ | ⟨_ | ⟨spelled, count⟩, ⟨⟩⟩)
      exact ⟨_, ⟨lower.trans spelled, separated, count, rfl⟩, rfl⟩

end Lines

section Endings

variable {text content comment rest : List Char} {line : Nat} {items : List Item}
  {parts : List Part}

theorem dropReturn_cases (text : List Char) :
    ∃ front, text = front ++ dropReturn text ∧ (front = [] ∨ front = ['\r']) := by
  unfold dropReturn
  split
  · exact ⟨['\r'], rfl, .inr rfl⟩
  · exact ⟨[], rfl, .inl rfl⟩

/-- A line without its end. A carriage return that is not part of the end may be lost too. -/
theorem lines_ended {ending : List Char} (plain : '\n' ∉ text)
    (ends : ending = ['\n'] ∨ ending = ['\r', '\n']) (rest : List Char) :
    ∃ raw back, lines (text ++ (ending ++ rest)) = raw :: lines rest ∧ text = raw ++ back ∧
      (back = [] ∨ back = ['\r']) := by
  rcases ends with rfl | rfl
  · obtain ⟨front, whole, short⟩ := dropReturn_cases text.reverse
    refine ⟨(dropReturn text.reverse).reverse, front.reverse, ?_, ?_, ?_⟩
    · rw [lines, lines_go_append plain, List.append_nil]
      rfl
    · rw [← List.reverse_append, ← whole, List.reverse_reverse]
    · rcases short with rfl | rfl
      · exact .inl rfl
      · exact .inr rfl
  · refine ⟨text, [], ?_, (List.append_nil text).symm, .inl rfl⟩
    rw [lines, lines_go_append plain, List.append_nil]
    show (dropReturn ('\r' :: text.reverse)).reverse :: lines.go [] rest = _
    rw [dropReturn, List.reverse_reverse]
    rfl

/-- Neither a comment nor a carriage return at the end matters. -/
theorem ofLine_remark (uncommented : ∀ c ∈ content, c ≠ ';' ∧ c ≠ '#')
    (remark : ∀ c ∈ comment.head?, c = ';' ∨ c = '#') {raw back : List Char}
    (whole : content ++ comment = raw ++ back) (short : back = [] ∨ back = ['\r']) :
    Item.ofLine line raw = Item.ofLine line content := by
  have kept : ∀ {raw comment}, raw = content ++ comment → (∀ c ∈ comment.head?, c = ';' ∨ c = '#') →
      dropComment raw = content := by
    rintro _ comment rfl remark
    exact dropComment_eq_iff.mpr ⟨comment, rfl, uncommented, remark⟩
  have same : trim (dropComment raw) = trim (dropComment content) := by
    rw [kept (List.append_nil content).symm (by simp)]
    rcases short with rfl | rfl
    · rw [kept (by rw [whole, List.append_nil]) remark]
    · rcases List.eq_nil_or_concat comment with rfl | ⟨front, c, rfl⟩
      · rw [List.append_nil] at whole
        have blank : Blank ['\r'] := List.forall_mem_singleton.mpr rfl
        have raw_kept : dropComment raw = raw := by
          refine dropComment_eq_iff.mpr
            ⟨[], (List.append_nil raw).symm, fun c member => ?_, by simp⟩
          exact uncommented c (whole ▸ List.mem_append_left _ member)
        rw [raw_kept, whole, trim_append_blank blank]
      · rw [List.concat_eq_append, ← List.append_assoc] at whole
        obtain ⟨cut, -⟩ := List.append_inj' whole rfl
        rw [kept cut.symm]
        intro d first
        cases front with
        | nil => cases first
        | cons e front => exact remark d first
  rw [Item.ofLine, Item.ofLine, same]

theorem ofLines_last (plain : '\n' ∉ text) :
    Item.ofLines line (lines text) = Item.ofLine line text := by
  have whole : lines text = if text.isEmpty then [] else [text] := by
    have cut := lines_go_append plain [] []
    rw [List.append_nil, List.append_nil] at cut
    rw [lines, cut, lines.go, List.isEmpty_reverse, List.reverse_reverse]
  rw [whole]
  cases text with
  | nil => exact ((ofLine_blank (List.forall_mem_nil _)).mpr rfl).symm
  | cons c text =>
    simp only [List.isEmpty_cons, Bool.false_eq_true, if_false, Item.ofLines]
    cases Item.ofLine line (c :: text) with
    | error kind => rfl
    | ok items => exact congrArg Except.ok (List.append_nil items)

/-- The lines of a rendering are read as its parts are. -/
theorem Rendered.yields (rendered : Rendered text parts) (plain : ∀ p ∈ parts, p.Plain)
    (read : Item.ofLines line (lines text) = .ok items) :
    List.Forall₂ (fun p item => ∃ line, Part.Yields line p item) parts items := by
  induction rendered generalizing line items with
  | last holds remark no_feed =>
    rw [ofLines_last no_feed,
      ofLine_remark (holds.uncommented plain) remark (List.append_nil _).symm (.inl rfl),
      holds.ofLine_eq_ok_iff plain] at read
    exact read.imp fun _ _ yields => ⟨line, yields⟩
  | line holds remark no_feed ends _ ih =>
    obtain ⟨first, others⟩ := List.forall_mem_append.mp plain
    obtain ⟨raw, back, cut, whole, short⟩ := lines_ended no_feed ends _
    rw [cut] at read
    obtain ⟨front, here, read⟩ := bind_eq_ok.mp read
    obtain ⟨items, rest, done⟩ := bind_eq_ok.mp read
    cases done
    rw [ofLine_remark (holds.uncommented first) remark whole short, holds.ofLine_eq_ok_iff first]
      at here
    exact List.rel_append (here.imp fun _ _ yields => ⟨line, yields⟩) (ih others rest)

/-- If each part can be read somewhere, then so can all of them in these lines. -/
theorem Rendered.exists_items (rendered : Rendered text parts) (plain : ∀ p ∈ parts, p.Plain)
    (each : ∀ p ∈ parts, ∃ line item, Part.Yields line p item) (line : Nat) :
    ∃ items, Item.ofLines line (lines text) = .ok items := by
  have here : ∀ {parts : List Part} (line : Nat),
      (∀ p ∈ parts, ∃ line item, Part.Yields line p item) →
      ∃ items, List.Forall₂ (Part.Yields line) parts items := by
    intro parts line each
    induction parts with
    | nil => exact ⟨[], .nil⟩
    | cons p parts ih =>
      obtain ⟨⟨line', item, yields⟩, others⟩ := List.forall_mem_cons.mp each
      obtain ⟨items, rest⟩ := ih others
      cases yields with
      | label named => exact ⟨_, .cons (.label named) rest⟩
      | operation lower count => exact ⟨_, .cons (.operation lower count) rest⟩
  induction rendered generalizing line with
  | last holds remark no_feed =>
    obtain ⟨items, yields⟩ := here line each
    refine ⟨items, ?_⟩
    rw [ofLines_last no_feed,
      ofLine_remark (holds.uncommented plain) remark (List.append_nil _).symm (.inl rfl),
      holds.ofLine_eq_ok_iff plain]
    exact yields
  | line holds remark no_feed ends _ ih =>
    obtain ⟨first, others⟩ := List.forall_mem_append.mp plain
    obtain ⟨each_first, each_other⟩ := List.forall_mem_append.mp each
    obtain ⟨raw, back, cut, whole, short⟩ := lines_ended no_feed ends _
    obtain ⟨front, yields⟩ := here line each_first
    obtain ⟨items, rest⟩ := ih others each_other (line + 1)
    refine ⟨front ++ items, ?_⟩
    rw [cut, Item.ofLines, ofLine_remark (holds.uncommented first) remark whole short,
      (holds.ofLine_eq_ok_iff first).mpr yields, rest]
    rfl

end Endings

section Numbering

variable {items others : List Item} {labels : List (String × Nat)} {bytes : List UInt8}

inductive Item.Alike : Item → Item → Prop where
  | label {name : String} : Alike (.label name) (.label name)
  | instruction {line line' : Nat} {op : Opcode} {operands : List (List Char)} :
      Alike (.instruction ⟨line, op, operands⟩) (.instruction ⟨line', op, operands⟩)

theorem Part.Yields.alike {p : Part} {line line' : Nat} {a b : Item} (first : p.Yields line a)
    (second : p.Yields line' b) : a.Alike b := by
  cases first with
  | label _ =>
    cases second
    exact .label
  | operation lower _ =>
    cases second with
    | operation lower' _ =>
      have same :=
        (ofMnemonic?_eq_some_iff.mpr lower).symm.trans (ofMnemonic?_eq_some_iff.mpr lower')
      cases same
      exact .instruction

theorem alike_of_yields {parts : List Part}
    (first : List.Forall₂ (fun p item => ∃ line, Part.Yields line p item) parts items)
    (second : List.Forall₂ (fun p item => ∃ line, Part.Yields line p item) parts others) :
    List.Forall₂ Item.Alike items others := by
  induction first generalizing others with
  | nil =>
    cases second
    exact .nil
  | cons here _ ih =>
    cases second with
    | cons there rest =>
      obtain ⟨_, here⟩ := here
      obtain ⟨_, there⟩ := there
      exact .cons (here.alike there) (ih rest)

def Listing.Level (a b : Listing) : Prop :=
  a.labels = b.labels ∧ a.size = b.size

theorem Listing.addItem_alike {listing listing' result : Listing} {a b : Item}
    (level : listing.Level listing') (alike : a.Alike b) (added : listing.addItem a = .ok result) :
    ∃ result', listing'.addItem b = .ok result' ∧ result.Level result' := by
  obtain ⟨known, size⟩ := level
  cases alike with
  | label =>
    rw [addItem, known, size] at added
    rw [addItem]
    split at added
    · cases added
    · rename_i fresh
      cases added
      exact ⟨_, if_neg fresh, rfl, rfl⟩
  | instruction =>
    cases added
    exact ⟨_, rfl, known, congrArg (· + _) size⟩

theorem Listing.addItems_alike {listing listing' result : Listing} (level : listing.Level listing')
    (alike : List.Forall₂ Item.Alike items others) (added : listing.addItems items = .ok result) :
    ∃ result', listing'.addItems others = .ok result' ∧ result.Level result' := by
  induction alike generalizing listing listing' with
  | nil =>
    cases added
    exact ⟨listing', rfl, level⟩
  | cons first _ ih =>
    obtain ⟨middle, here, rest⟩ := bind_eq_ok.mp added
    obtain ⟨middle', here', level⟩ := addItem_alike level first here
    rw [addItems, here']
    exact ih level rest

theorem encode_alike {line line' : Nat} {op : Opcode} {operands : List (List Char)}
    (encoded : Instruction.encode labels ⟨line, op, operands⟩ = .ok bytes) :
    Instruction.encode labels ⟨line', op, operands⟩ = .ok bytes := by
  obtain ⟨values, known, rfl⟩ := encode_eq_ok encoded
  simp only [Instruction.encode, known]

theorem encodeAll_alike (alike : List.Forall₂ Item.Alike items others)
    (encoded : encodeAll labels (Item.instructions items) = .ok bytes) :
    encodeAll labels (Item.instructions others) = .ok bytes := by
  induction alike generalizing bytes with
  | nil => exact encoded
  | cons first _ ih =>
    cases first with
    | label => exact ih encoded
    | instruction =>
      obtain ⟨front, here, rest⟩ := bind_eq_ok.mp encoded
      obtain ⟨back, rest, done⟩ := bind_eq_ok.mp rest
      exact bind_eq_ok.mpr ⟨front, encode_alike here, bind_eq_ok.mpr ⟨back, ih rest, done⟩⟩

end Numbering

/-- Code does not depend on how the parts are rendered. -/
theorem assemble_rendered {a b : String} {parts : List Part} (plain : ∀ p ∈ parts, p.Plain)
    (first : Rendered a.toList parts) (second : Rendered b.toList parts) {code : Bytecode}
    (done : assemble a = .ok code) : assemble b = .ok code := by
  obtain ⟨items, result, read, added, encoded⟩ := assemble_eq_ok_iff_encodeAll.mp done
  have yields := first.yields plain (ofLines_eq_ok_iff.mpr read)
  have each : ∀ p ∈ parts, ∃ line item, Part.Yields line p item := by
    have both : List.Forall₂ (fun p _ => (∃ line item, Part.Yields line p item) ∧ True) parts
        items := by
      refine yields.imp fun p item here => ⟨?_, trivial⟩
      obtain ⟨line, here⟩ := here
      exact ⟨line, item, here⟩
    exact ((List.forall₂_and_left parts items).mp both).1
  obtain ⟨others, read'⟩ := second.exists_items plain each 1
  have alike : List.Forall₂ Item.Alike items others :=
    alike_of_yields yields (second.yields plain read')
  obtain ⟨result', added', known, -⟩ := Listing.addItems_alike ⟨rfl, rfl⟩ alike added
  rw [known] at encoded
  exact assemble_eq_ok_iff_encodeAll.mpr
    ⟨others, result', ofLines_eq_ok_iff.mp read', added', encodeAll_alike alike encoded⟩

section Labels

variable {text front rest : List Char} {parts : List Part}

theorem mem_splitOn {c x : Char} {piece : List Char} (member : piece ∈ text.splitOn x)
    (inside : c ∈ piece) :
    c ∈ text ∧ c ≠ x := by
  induction text generalizing piece with
  | nil =>
    rw [List.splitOn_nil, List.mem_singleton] at member
    subst member
    cases inside
  | cons d text ih =>
    rw [List.splitOn, List.splitOnP_cons_eq_if_modifyHead] at member
    split at member
    · rcases List.mem_cons.mp member with rfl | member
      · cases inside
      · obtain ⟨found, other⟩ := ih member inside
        exact ⟨List.mem_cons_of_mem d found, other⟩
    · rename_i other
      obtain ⟨first, pieces, split⟩ := List.exists_cons_of_ne_nil (List.splitOn_ne_nil x text)
      have known : ∀ {piece : List Char}, piece ∈ first :: pieces → c ∈ piece → c ∈ text ∧ c ≠ x :=
        fun member inside => ih (split ▸ member) inside
      rw [List.splitOn] at split
      rw [split, List.modifyHead_cons] at member
      rcases List.mem_cons.mp member with rfl | member
      · rcases List.mem_cons.mp inside with rfl | inside
        · exact ⟨List.mem_cons_self, by simpa using other⟩
        · obtain ⟨found, differs⟩ := known List.mem_cons_self inside
          exact ⟨List.mem_cons_of_mem d found, differs⟩
      · obtain ⟨found, differs⟩ := known (List.mem_cons_of_mem first member) inside
        exact ⟨List.mem_cons_of_mem d found, differs⟩

/-- A label with colons in it is a row of labels without. Some of them may be empty, and so no
names. -/
def Part.split : Part → List Part
  | label name => (name.splitOn ':').map label
  | operation mnemonic operands => [operation mnemonic operands]

theorem holds_pieces {pieces : List (List Char)} (some_piece : pieces ≠ []) (blank : Blank front)
    (holds : Holds rest parts) :
    Holds (front ++ ([':'].intercalate pieces ++ ':' :: rest)) (pieces.map .label ++ parts) := by
  induction pieces generalizing front with
  | nil => exact absurd rfl some_piece
  | cons piece pieces ih =>
    cases pieces with
    | nil =>
      rw [List.intercalate_singleton]
      exact .label blank holds
    | cons next pieces =>
      have others := ih (List.cons_ne_nil _ _) (List.forall_mem_nil _)
      rw [List.intercalate_cons_cons, List.append_assoc, List.append_assoc]
      exact .label blank others

theorem Holds.split (holds : Holds text parts) : Holds text (parts.flatMap Part.split) := by
  induction holds with
  | blank blank => exact .blank blank
  | @label front name rest parts blank _ ih =>
    have pieces := holds_pieces (List.splitOn_ne_nil ':' name) blank ih
    rwa [List.intercalate_splitOn] at pieces
  | operation blank lower starts separated => exact .operation blank lower starts separated

theorem Rendered.split (rendered : Rendered text parts) :
    Rendered text (parts.flatMap Part.split) := by
  induction rendered with
  | last holds remark no_feed => exact .last holds.split remark no_feed
  | line holds remark no_feed ends _ ih =>
    rw [List.flatMap_append]
    exact .line holds.split remark no_feed ends ih

theorem Lexeme.plain_split (name : Lexeme) : ∀ p ∈ (Part.label name.text).split, p.Plain := by
  intro p member
  obtain ⟨piece, split, rfl⟩ := List.mem_map.mp member
  intro c inside
  obtain ⟨found, other⟩ := mem_splitOn split inside
  exact ⟨name.inert c found, other⟩

theorem Operation.plain (o : Operation) : o.part.Plain := by
  refine ⟨o.mnemonic.some_char, fun c inside => ⟨o.mnemonic.inert c inside, ?_⟩,
    fun operand member => ?_⟩
  · rintro rfl
    exact o.no_colon inside
  · obtain ⟨lexeme, -, rfl⟩ := List.mem_map.mp member
    exact lexeme.inert

theorem LogicalLine.plain_split (l : LogicalLine) : ∀ p ∈ l.parts.flatMap Part.split, p.Plain := by
  intro p member
  obtain ⟨part, within, member⟩ := List.mem_flatMap.mp member
  rcases List.mem_append.mp within with within | within
  · obtain ⟨name, -, rfl⟩ := List.mem_map.mp within
    exact name.plain_split p member
  · obtain ⟨o, -, rfl⟩ := List.mem_map.mp within
    cases List.mem_singleton.mp member
    exact o.plain

end Labels

/-- Two renderings of a program have the same code, or none of them has any. -/
theorem layout_irrelevant (program : List LogicalLine) (a b : String)
    (first : Rendered a.toList (program.flatMap LogicalLine.parts))
    (second : Rendered b.toList (program.flatMap LogicalLine.parts)) :
    (assemble a).toOption = (assemble b).toOption := by
  have plain : ∀ p ∈ (program.flatMap LogicalLine.parts).flatMap Part.split, p.Plain := by
    intro p member
    rw [List.flatMap_assoc] at member
    obtain ⟨l, -, member⟩ := List.mem_flatMap.mp member
    exact l.plain_split p member
  have accepted : ∀ code, assemble a = .ok code ↔ assemble b = .ok code :=
    fun code => ⟨assemble_rendered plain first.split second.split,
      assemble_rendered plain second.split first.split⟩
  cases left : assemble a with
  | ok code => rw [(accepted code).mp left]
  | error e =>
    cases right : assemble b with
    | ok code => cases left.symm.trans ((accepted code).mpr right)
    | error e' => rfl

/-- A loop, with a label that has a colon in it, written as briefly as can be and then with much
that is of no account. -/
theorem layout_irrelevant_loop :
    let name : Lexeme := ⟨"x:y".toList, by simp, List.all_eq_true.mp (by decide)⟩
    let name' : Lexeme := ⟨"z".toList, by simp, List.all_eq_true.mp (by decide)⟩
    let load : Lexeme := ⟨"mov_ir".toList, by simp, List.all_eq_true.mp (by decide)⟩
    let jump : Lexeme := ⟨"jnz".toList, by simp, List.all_eq_true.mp (by decide)⟩
    let register : Lexeme := ⟨"%r1".toList, by simp, List.all_eq_true.mp (by decide)⟩
    let two : Lexeme := ⟨"2".toList, by simp, List.all_eq_true.mp (by decide)⟩
    let target : Lexeme := ⟨"y".toList, by simp, List.all_eq_true.mp (by decide)⟩
    let program : List LogicalLine :=
      [⟨[name], some ⟨load, [register, two], by decide⟩⟩,
        ⟨[name'], some ⟨jump, [register, target], by decide⟩⟩]
    let a := "x:y:mov_ir %r1 2\nz:jnz %r1 y"
    let b := "# loop\r\n x:y: ; twice\n\tMOV_ir\t%r1, , 2;\r\nz: Jnz %r1,y \n"
    let code : Bytecode := ⟨#[2, 1, 2, 0, 0, 0, 0, 0, 0, 0, 8, 1, 0, 0, 0, 0]⟩
    Rendered a.toList (program.flatMap LogicalLine.parts) ∧
    Rendered b.toList (program.flatMap LogicalLine.parts) ∧
      assemble a = .ok code ∧ (assemble b).toOption = some code := by
  intro name name' load jump register two target program a b code
  have nothing : Blank [] := List.forall_mem_nil _
  have space : Blank [' '] := List.forall_mem_singleton.mpr rfl
  have tab : Blank ['\t'] := List.forall_mem_singleton.mpr rfl
  have none : ∀ c ∈ ([] : List Char).head?, c = ';' ∨ c = '#' := by rintro _ ⟨⟩
  have first : Rendered a.toList (program.flatMap LogicalLine.parts) := by
    have loads : Holds ([] ++ ("x:y".toList ++ ':' :: ([] ++ ("mov_ir".toList ++ " %r1 2".toList))))
        [.label name.text, .operation load.text [register.text, two.text]] :=
      .label nothing (.operation nothing rfl (by rintro _ ⟨⟩; rfl) (fields_eq_iff.mp (by decide)))
    have jumps : Holds ([] ++ ("z".toList ++ ':' :: ([] ++ ("jnz".toList ++ " %r1 y".toList))))
        [.label name'.text, .operation jump.text [register.text, target.text]] :=
      .label nothing (.operation nothing rfl (by rintro _ ⟨⟩; rfl) (fields_eq_iff.mp (by decide)))
    have lines := Rendered.line loads none (by decide) (.inl rfl) (.last jumps none (by decide))
    exact cast (congrArg₂ Rendered (by decide) rfl) lines
  have second : Rendered b.toList (program.flatMap LogicalLine.parts) := by
    have loop : ∀ c ∈ "# loop".toList.head?, c = ';' ∨ c = '#' := by
      rintro _ ⟨⟩
      exact .inr rfl
    have twice : ∀ c ∈ "; twice".toList.head?, c = ';' ∨ c = '#' := by
      rintro _ ⟨⟩
      exact .inl rfl
    have short : ∀ c ∈ [';'].head?, c = ';' ∨ c = '#' := by
      rintro _ ⟨⟩
      exact .inl rfl
    have alone : Holds ([' '] ++ ("x:y".toList ++ ':' :: [' '])) [.label name.text] :=
      .label space (.blank space)
    have loads : Holds (['\t'] ++ ("MOV_ir".toList ++ "\t%r1, , 2".toList))
        [.operation load.text [register.text, two.text]] :=
      .operation tab rfl (by rintro _ ⟨⟩; rfl) (fields_eq_iff.mp (by decide))
    have jumps : Holds ([] ++ ("z".toList ++ ':' :: ([' '] ++ ("Jnz".toList ++ " %r1,y ".toList))))
        [.label name'.text, .operation jump.text [register.text, target.text]] :=
      .label nothing (.operation space rfl (by rintro _ ⟨⟩; rfl) (fields_eq_iff.mp (by decide)))
    have lines := Rendered.line (.blank nothing) loop (by decide) (.inr rfl)
      (.line alone twice (by decide) (.inl rfl) (.line loads short (by decide) (.inr rfl)
        (.line jumps none (by decide) (.inl rfl) (.last (.blank nothing) none (by decide)))))
    exact cast (congrArg₂ Rendered (by decide) rfl) lines
  have done : assemble a = .ok code := by decide +kernel
  refine ⟨first, second, done, ?_⟩
  rw [← layout_irrelevant program a b first second, done]
  rfl

end ScriptKit.Assembly
