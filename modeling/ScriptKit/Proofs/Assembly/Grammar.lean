import Mathlib.Data.Int.Cast.Basic
import Mathlib.Data.Nat.Digits.Defs
import ScriptKit.Proofs.Assembly.Items
import ScriptKit.Proofs.Assembly.RoundTrip
import ScriptKit.Proofs.Text.Shapes

/-! How a program in assembly is written, said without the functions that read it. -/

namespace ScriptKit.Assembly
open Text

/-- A line up to its comment, which `;` or `#` begins. -/
def Uncommented (raw content : List Char) : Prop :=
  ∃ comment, raw = content ++ comment ∧ (∀ c ∈ content, c ≠ ';' ∧ c ≠ '#') ∧
    ∀ c ∈ comment.head?, c = ';' ∨ c = '#'

theorem dropComment_eq_iff {raw content : List Char} :
    dropComment raw = content ↔ Uncommented raw content := by
  constructor
  · rintro rfl
    obtain ⟨content, comment, rfl, plain, ends⟩ := exists_span (fun c => c ≠ ';' && c ≠ '#') raw
    rw [dropComment, takeWhile_eq plain ends]
    exact ⟨comment, rfl, by simpa using plain, by simpa [← or_iff_not_imp_left] using ends⟩
  · rintro ⟨comment, rfl, plain, ends⟩
    exact takeWhile_eq (by simpa using plain) (by simpa [← or_iff_not_imp_left] using ends)

inductive Leads : List Char → List Char → List Char → Prop where
  | mk {front name rest : List Char} : Blank front → isIdentifier name = true →
      Leads (front ++ (name ++ ':' :: rest)) name rest

inductive Labelled : List Char → List String → List Char → Prop where
  | none {text : List Char} : (∀ name rest, ¬ Leads text name rest) → Labelled text [] text
  | label {text name rest last : List Char} {names : List String} : Leads text name rest →
      Labelled rest names last → Labelled text (String.ofList name :: names) last

/-- A mnemonic, in letters of either case, with as many operands as it takes. Blanks and commas
divide them. -/
inductive Spelled (line : Nat) : List Char → Instruction → Prop where
  | mk {front mnemonic rest : List Char} {op : Opcode} {operands : List (List Char)} : Blank front →
      mnemonic.map Char.toLower = op.mnemonic.toList → (∀ c ∈ rest.head?, isWhiteSpace c = true) →
      Separated (fun c => c = ',' || isWhiteSpace c) rest operands →
      operands.length = op.operands.length →
      Spelled line (front ++ (mnemonic ++ rest)) ⟨line, op, operands⟩

def Heads (raw : List Char) (names : List String) (last : List Char) : Prop :=
  ∃ content, Uncommented raw content ∧ Labelled content names last

/-- A line has labels, then at most one instruction, and then possibly a comment. -/
inductive Line (line : Nat) (raw : List Char) (names : List String) :
    Option Instruction → Prop where
  | blank {last : List Char} : Heads raw names last → Blank last → Line line raw names none
  | instruction {last : List Char} {i : Instruction} : Heads raw names last → Spelled line last i →
      Line line raw names (some i)

inductive Lines : Nat → List (List Char) → List Item → Prop where
  | nil {line : Nat} : Lines line [] []
  | cons {line : Nat} {raw : List Char} {raws : List (List Char)} {names : List String}
      {i : Option Instruction}
      {items : List Item} : Line line raw names i → Lines (line + 1) raws items →
      Lines line (raw :: raws) (names.map .label ++ i.toList.map .instruction ++ items)

inductive RegisterName : List Char → Nat → Prop where
  | mk {c : Char} {digits : List Char} {n : Nat} : c = 'r' ∨ c = 'R' → Numeral 10 digits n →
      RegisterName ('%' :: c :: digits) n

/-- A number without a sign, hexadecimal behind `0x` or `0X` and else decimal. -/
inductive Magnitude : List Char → Nat → Prop where
  | decimal {digits : List Char} {n : Nat} : Numeral 10 digits n → Magnitude digits n
  | hexadecimal {c : Char} {digits : List Char} {n : Nat} : c = 'x' ∨ c = 'X' →
      Numeral 16 digits n →
      Magnitude ('0' :: c :: digits) n

inductive Signed : List Char → Int → Prop where
  | positive {digits : List Char} {n : Nat} : Magnitude digits n → Signed digits n
  | negative {digits : List Char} {n : Nat} : Magnitude digits n → Signed ('-' :: digits) (-n)

inductive Immediate : List Char → Int → Prop where
  | plain {text : List Char} {z : Int} : Signed text z → Immediate text z
  | dollar {text : List Char} {z : Int} : Signed text z → Immediate ('$' :: text) z

/-- A number of a width stands for an integer, as it is or in two's complement. -/
def Represents (width : Width) (n : Nat) (z : Int) : Prop :=
  -(width.count / 2 : Nat) ≤ z ∧ z < width.count ∧ (n : Int) = z % width.count

theorem isWhiteSpace_letter {c : Char} (letter : isLetter c = true) : isWhiteSpace c = false :=
  ascii_forall (fun c => isLetter c = true → isWhiteSpace c = false) (by decide +kernel)
    (toNat_lt_of_isLetter letter) letter

section Labels

variable {text name rest last : List Char} {names : List String}

theorem label?_eq (named : isIdentifier name = true) (rest : List Char) :
    label? (name ++ ':' :: rest) = some (name, trim rest) := by
  cases name with
  | nil => cases named
  | cons c cs =>
    obtain ⟨letter, others⟩ := Bool.and_eq_true_iff.mp named
    have each : ∀ d ∈ cs, isLetterOrDigit d = true := List.all_eq_true.mp others
    have ends : ∀ d ∈ (':' :: rest).head?, isLetterOrDigit d = false := by
      rintro d ⟨⟩
      rfl
    rw [List.cons_append, label?, if_pos letter, dropWhile_eq each ends, takeWhile_eq each ends]
    rfl

theorem exists_of_label? (found : label? text = some (name, last)) :
    ∃ rest, text = name ++ ':' :: rest ∧ isIdentifier name = true ∧ last = trim rest := by
  cases text with
  | nil => cases found
  | cons c cs =>
    obtain ⟨front, back, rfl, each, ends⟩ := exists_span isLetterOrDigit cs
    rw [label?, dropWhile_eq each ends, takeWhile_eq each ends] at found
    split at found
    · rename_i letter
      split at found
      · rename_i rest
        cases found
        exact ⟨rest, rfl, Bool.and_eq_true_iff.mpr ⟨letter, List.all_eq_true.mpr each⟩, rfl⟩
      · cases found
    · cases found

theorem label?_trim_eq_some_iff :
    label? (trim text) = some (name, last) ↔ ∃ rest, Leads text name rest ∧ last = trim rest := by
  constructor
  · intro found
    obtain ⟨rest, whole, named, rfl⟩ := exists_of_label? found
    obtain ⟨front, back, around, blank, blank'⟩ := exists_trim text
    rw [whole, List.append_assoc, List.append_assoc, List.cons_append] at around
    refine ⟨rest ++ back, ?_, (trim_append_blank blank' rest).symm⟩
    rw [around]
    exact .mk blank named
  · rintro ⟨_, ⟨blank, named⟩, rfl⟩
    rename_i rest front
    obtain ⟨rest, back, rfl, blank', ends⟩ := exists_behind rest
    have kept : trim (name ++ ':' :: rest) = name ++ ':' :: rest := by
      apply trim_eq
      · cases name with
        | nil => cases named
        | cons c cs =>
          rintro d ⟨⟩
          exact isWhiteSpace_letter (Bool.and_eq_true_iff.mp named).1
      · intro c final
        rw [List.getLast?_append_cons] at final
        cases rest with
        | nil =>
          cases final
          rfl
        | cons d rest => exact ends c (List.getLast?_cons_cons ▸ final)
    have same : trim (front ++ (name ++ ':' :: (rest ++ back))) = name ++ ':' :: rest := by
      rw [trim_blank_append blank, ← List.cons_append, ← List.append_assoc,
        trim_append_blank blank', kept]
    rw [same, label?_eq named, trim_append_blank blank']

theorem splitLabels_of_none (alone : label? text = none) : splitLabels text = ([], text) := by
  rw [splitLabels]
  split
  · rfl
  · rename_i found
    cases alone.symm.trans found

theorem splitLabels_of_some (found : label? text = some (name, rest)) :
    splitLabels text = (String.ofList name :: (splitLabels rest).1, (splitLabels rest).2) := by
  rw [splitLabels]
  split
  · rename_i alone
    cases found.symm.trans alone
  · rename_i found'
    cases found.symm.trans found'
    rfl

theorem Labelled.splitLabels_trim (labelled : Labelled text names last) :
    splitLabels (trim text) = (names, trim last) := by
  induction labelled with
  | @none text alone =>
    apply splitLabels_of_none
    rw [Option.eq_none_iff_forall_ne_some]
    rintro ⟨name, last⟩ found
    obtain ⟨rest, leads, -⟩ := label?_trim_eq_some_iff.mp found
    exact alone name rest leads
  | label leads _ ih =>
    rw [splitLabels_of_some (label?_trim_eq_some_iff.mpr ⟨_, leads, rfl⟩), ih]

theorem exists_labelled (text : List Char) : ∃ names last, Labelled text names last := by
  induction length : text.length using Nat.strongRecOn generalizing text with
  | ind n ih =>
    by_cases led : ∃ name rest, Leads text name rest
    · obtain ⟨name, rest, leads⟩ := led
      have shorter : rest.length < n := by
        cases leads
        simp only [List.length_append, List.length_cons] at length
        omega
      obtain ⟨names, last, labelled⟩ := ih _ shorter rest rfl
      exact ⟨_, last, .label leads labelled⟩
    · exact ⟨[], text, .none fun name rest leads => led ⟨name, rest, leads⟩⟩

end Labels

section Instructions

variable {line : Nat} {text mnemonic : List Char} {op : Opcode} {i : Instruction}

theorem ofMnemonic?_eq_some_iff :
    Opcode.ofMnemonic? text = some op ↔ text.map Char.toLower = op.mnemonic.toList := by
  constructor
  · intro found
    exact (of_decide_eq_true (List.find?_some found : _)).symm
  · intro lower
    have low : op.mnemonic.toList.map Char.toLower = op.mnemonic.toList := by cases op <;> rfl
    have same := Opcode.ofMnemonic?_mnemonic op
    rw [Opcode.ofMnemonic?, low, ← lower] at same
    exact same

theorem toLower_of_isWhiteSpace {c : Char} (space : isWhiteSpace c = true) : c.toLower = c := by
  apply dif_neg
  intro between
  have letter : isLetter c = true :=
    isLetter_iff.mpr (.inl (.inl (between.imp UInt32.le_iff_toNat_le.mp UInt32.le_iff_toNat_le.mp)))
  cases (isWhiteSpace_letter letter).symm.trans space

theorem mnemonic_not_blank (lower : mnemonic.map Char.toLower = op.mnemonic.toList) :
    mnemonic ≠ [] ∧ ∀ c ∈ mnemonic, isWhiteSpace c = false := by
  constructor
  · rintro rfl
    obtain ⟨c, cs, some_char, -⟩ := op.mnemonic_identifier
    cases lower.trans some_char
  · intro c member
    by_contra space
    rw [Bool.not_eq_false] at space
    have inert := op.mnemonic_inert c.toLower (lower ▸ List.mem_map_of_mem member)
    rw [toLower_of_isWhiteSpace space] at inert
    simp [isInert, space] at inert

theorem instruction_eq_ok_iff {rest : List Char} (plain : ∀ c ∈ mnemonic, isWhiteSpace c = false)
    (ends : ∀ c ∈ rest.head?, isWhiteSpace c = true) :
    Listing.instruction line (mnemonic ++ rest) = .ok i ↔
      mnemonic.map Char.toLower = i.op.mnemonic.toList ∧
      Separated (fun c => c = ',' || isWhiteSpace c) rest i.operands ∧
      i.operands.length = i.op.operands.length ∧ i.line = line := by
  have each : ∀ c ∈ mnemonic, (!isWhiteSpace c) = true := by simpa using plain
  have stops : ∀ c ∈ rest.head?, (!isWhiteSpace c) = false := by simpa using ends
  rw [← fields_eq_iff, ← ofMnemonic?_eq_some_iff, Listing.instruction, takeWhile_eq each stops,
    dropWhile_eq each stops]
  obtain ⟨line', op, operands⟩ := i
  cases Opcode.ofMnemonic? mnemonic with
  | none =>
    constructor
    · rintro ⟨⟩
    · rintro ⟨⟨⟩, -⟩
  | some op' =>
    dsimp only
    constructor
    · intro read
      split at read
      · rename_i count
        cases read
        exact ⟨rfl, rfl, count, rfl⟩
      · cases read
    · rintro ⟨⟨⟩, rfl, count, rfl⟩
      rw [if_pos count]

theorem instruction_trim_eq_ok_iff :
    Listing.instruction line (trim text) = .ok i ↔ Spelled line text i := by
  constructor
  · intro read
    obtain ⟨front, back, around, blank, blank'⟩ := exists_trim text
    obtain ⟨mnemonic, rest, whole, plain, ends⟩ :=
      exists_span (fun c => !isWhiteSpace c) (trim text)
    simp only [Bool.not_eq_true', Bool.not_eq_false'] at plain ends
    rw [whole] at read around
    obtain ⟨lower, separated, count, rfl⟩ := (instruction_eq_ok_iff plain ends).mp read
    rw [around, List.append_assoc, List.append_assoc]
    refine .mk blank lower ?_ (separated.append fun c member => ?_) count
    · cases rest with
      | nil => exact fun c first => blank' c (List.mem_of_mem_head? first)
      | cons c rest => exact ends
    · rw [blank' c member, Bool.or_true]
  · rintro ⟨blank, lower, starts, separated, count⟩
    rename_i front mnemonic rest op operands
    obtain ⟨some_char, plain⟩ := mnemonic_not_blank lower
    obtain ⟨rest, back, rfl, blank', ends⟩ := exists_behind rest
    have starts' : ∀ c ∈ rest.head?, isWhiteSpace c = true := by
      cases rest with
      | nil => rintro c ⟨⟩
      | cons c rest => exact starts
    have kept : trim (mnemonic ++ rest) = mnemonic ++ rest := by
      apply trim_eq
      · rw [List.head?_append_of_ne_nil _ some_char]
        exact fun c first => plain c (List.mem_of_mem_head? first)
      · cases rest with
        | nil =>
          rw [List.append_nil]
          exact fun c final => plain c (List.mem_of_getLast? final)
        | cons c rest =>
          rw [List.getLast?_append_cons]
          exact ends
    have separators : ∀ c ∈ back, (decide (c = ',') || isWhiteSpace c) = true := by
      intro c member
      rw [blank' c member, Bool.or_true]
    rw [trim_blank_append blank, ← List.append_assoc, trim_append_blank blank', kept,
      instruction_eq_ok_iff plain starts']
    refine ⟨lower, ?_, count, rfl⟩
    rw [← fields_eq_iff] at separated ⊢
    rw [← separated, fields_behind separators]

end Instructions

section Lines

variable {line : Nat} {raw last : List Char} {names : List String} {items : List Item}

theorem Heads.splitLabels_eq (heads : Heads raw names last) :
    splitLabels (trim (dropComment raw)) = (names, trim last) := by
  obtain ⟨content, uncommented, labelled⟩ := heads
  rw [dropComment_eq_iff.mpr uncommented, labelled.splitLabels_trim]

theorem exists_heads (raw : List Char) : ∃ names last, Heads raw names last := by
  obtain ⟨names, last, labelled⟩ := exists_labelled (dropComment raw)
  exact ⟨names, last, dropComment raw, dropComment_eq_iff.mp rfl, labelled⟩

theorem Spelled.not_blank {text : List Char} {i : Instruction} (spelled : Spelled line text i) :
    ¬ Blank text := by
  obtain ⟨-, lower, -, -, -⟩ := spelled
  obtain ⟨some_char, plain⟩ := mnemonic_not_blank lower
  obtain ⟨c, member⟩ := List.exists_mem_of_ne_nil _ some_char
  intro blank
  have white := blank c (List.mem_append_right _ (List.mem_append_left _ member))
  cases (plain c member).symm.trans white

theorem Line.heads {i : Option Instruction} (here : Line line raw names i) :
    ∃ last, Heads raw names last := by
  cases here with
  | blank heads _ => exact ⟨_, heads⟩
  | instruction heads _ => exact ⟨_, heads⟩

/-- The labels of a line are certain, and so is whether an instruction stands behind them. -/
theorem Heads.line_iff (heads : Heads raw names last) {names' : List String}
    {i : Option Instruction} :
    Line line raw names' i ↔ names' = names ∧
      ((Blank last ∧ i = none) ∨ ∃ j, Listing.instruction line (trim last) = .ok j ∧
        i = some j) := by
  have same : ∀ {names' last'}, Heads raw names' last' → names' = names ∧ trim last' = trim last :=
    fun heads' => Prod.mk.inj (heads'.splitLabels_eq.symm.trans heads.splitLabels_eq)
  constructor
  · rintro (⟨heads', blank⟩ | ⟨heads', spelled⟩)
    · obtain ⟨rfl, trimmed⟩ := same heads'
      refine ⟨rfl, .inl ⟨?_, rfl⟩⟩
      rwa [← trim_eq_nil_iff, ← trimmed, trim_eq_nil_iff]
    · obtain ⟨rfl, trimmed⟩ := same heads'
      refine ⟨rfl, .inr ⟨_, ?_, rfl⟩⟩
      rwa [← trimmed, instruction_trim_eq_ok_iff]
  · rintro ⟨rfl, ⟨blank, rfl⟩ | ⟨j, read, rfl⟩⟩
    · exact .blank heads blank
    · exact .instruction heads (instruction_trim_eq_ok_iff.mp read)

theorem ofLine_eq_ok_iff : Item.ofLine line raw = .ok items ↔
    ∃ names i, Line line raw names i ∧ items = names.map .label ++ i.toList.map .instruction := by
  obtain ⟨names, last, heads⟩ := exists_heads raw
  rw [Item.ofLine, heads.splitLabels_eq]
  simp only [heads.line_iff]
  by_cases blank : Blank last
  · rw [if_pos (by simp [(trim_eq_nil_iff last).mpr blank])]
    constructor
    · intro read
      cases read
      exact ⟨names, none, ⟨rfl, .inl ⟨blank, rfl⟩⟩, (List.append_nil _).symm⟩
    · rintro ⟨_, _, ⟨rfl, ⟨-, rfl⟩ | ⟨j, read, -⟩⟩, rfl⟩
      · exact congrArg Except.ok (List.append_nil _).symm
      · exact absurd blank (instruction_trim_eq_ok_iff.mp read).not_blank
  · have some_char : ¬ (trim last).isEmpty = true := by simpa [trim_eq_nil_iff] using blank
    rw [if_neg some_char]
    constructor
    · intro read
      obtain ⟨i, instruction, done⟩ := bind_eq_ok.mp read
      cases done
      exact ⟨names, some i, ⟨rfl, .inr ⟨i, instruction, rfl⟩⟩, rfl⟩
    · rintro ⟨_, _, ⟨rfl, ⟨blank', -⟩ | ⟨j, read, rfl⟩⟩, rfl⟩
      · exact absurd blank' blank
      · rw [read]
        rfl

theorem ofLines_eq_ok_iff {raws : List (List Char)} :
    Item.ofLines line raws = .ok items ↔ Lines line raws items := by
  induction raws generalizing line items with
  | nil =>
    constructor
    · intro read
      cases read
      exact .nil
    · rintro ⟨⟩
      rfl
  | cons raw raws ih =>
    constructor
    · intro read
      obtain ⟨front, first, read⟩ := bind_eq_ok.mp read
      obtain ⟨back, rest, done⟩ := bind_eq_ok.mp read
      cases done
      obtain ⟨names, i, here, rfl⟩ := ofLine_eq_ok_iff.mp first
      exact .cons here (ih.mp rest)
    · rintro (_ | ⟨here, rest⟩)
      rw [Item.ofLines, ofLine_eq_ok_iff.mpr ⟨_, _, here, rfl⟩, ih.mpr rest]
      rfl

end Lines

section Numbers

variable {text digits : List Char} {n : Nat} {z : Int} {width : Width}

theorem ite_eq_ok_iff {below : Prop} [Decidable below] {m : Nat} {kind : AsmErrorKind} :
    (if below then Except.ok m else .error kind) = .ok n ↔ below ∧ n = m := by
  split
  · rename_i holds
    exact ⟨fun done => ⟨holds, (Except.ok.inj done).symm⟩, fun same => congrArg _ same.2.symm⟩
  · rename_i fails
    exact ⟨by rintro ⟨⟩, fun same => absurd same.1 fails⟩

theorem register_eq_ok_iff : register text = .ok n ↔ n ≤ 9 ∧ RegisterName text n := by
  constructor
  · intro read
    refine ⟨register_le read, ?_⟩
    unfold register at read
    split at read
    · dsimp only at read
      split at read
      · rename_i number
        obtain ⟨-, rfl⟩ := ite_eq_ok_iff.mp read
        split at number
        · exact .mk (.inl rfl) ((readNat?_eq_some_iff (by decide)).mp number)
        · exact .mk (.inr rfl) ((readNat?_eq_some_iff (by decide)).mp number)
        · cases number
      · cases read
    · cases read
  · rintro ⟨small, ⟨rfl | rfl, numeral⟩⟩
    · rw [register]
      simp only [(readNat?_eq_some_iff (by decide)).mpr numeral, if_pos small]
    · rw [register]
      simp only [(readNat?_eq_some_iff (by decide)).mpr numeral, if_pos small]

theorem magnitude?_eq_some_iff : magnitude? text = some n ↔ Magnitude text n := by
  unfold magnitude?
  split
  · rename_i digits
    rw [readNat?_eq_some_iff (by decide)]
    constructor
    · exact .hexadecimal (.inl rfl)
    · rintro (numeral | ⟨-, numeral⟩)
      · exact absurd (numeral.isDigit 'x' (by simp)) (by decide)
      · exact numeral
  · rename_i digits
    rw [readNat?_eq_some_iff (by decide)]
    constructor
    · exact .hexadecimal (.inr rfl)
    · rintro (numeral | ⟨-, numeral⟩)
      · exact absurd (numeral.isDigit 'X' (by simp)) (by decide)
      · exact numeral
  · rename_i lower upper
    rw [readNat?_eq_some_iff (by decide)]
    constructor
    · exact .decimal
    · rintro (numeral | ⟨rfl | rfl, numeral⟩)
      · exact numeral
      · exact absurd rfl (lower _)
      · exact absurd rfl (upper _)

theorem Magnitude.head (magnitude : Magnitude text n) :
    ∃ c cs, text = c :: cs ∧ c.isDigit = true := by
  cases magnitude with
  | decimal numeral =>
    obtain ⟨c, cs, rfl⟩ := List.exists_cons_of_ne_nil numeral.1
    exact ⟨c, cs, rfl, numeral.isDigit c List.mem_cons_self⟩
  | hexadecimal _ _ => exact ⟨_, _, rfl, rfl⟩

theorem Signed.head (signed : Signed text z) :
    ∃ c cs, text = c :: cs ∧ (c.isDigit = true ∨ c = '-') := by
  cases signed with
  | positive magnitude =>
    obtain ⟨c, cs, rfl, digit⟩ := magnitude.head
    exact ⟨c, cs, rfl, .inl digit⟩
  | negative _ => exact ⟨_, _, rfl, .inr rfl⟩

theorem represents_nat (m : Nat) : Represents width n m ↔ m < width.count ∧ n = m := by
  unfold Represents
  constructor
  · rintro ⟨-, below, value⟩
    rw [Int.emod_eq_of_lt (Int.natCast_nonneg m) below] at value
    exact ⟨Int.ofNat_lt.mp below, Int.ofNat_inj.mp value⟩
  · rintro ⟨below, rfl⟩
    refine ⟨by omega, Int.ofNat_lt.mpr below, ?_⟩
    rw [Int.emod_eq_of_lt (Int.natCast_nonneg n) (Int.ofNat_lt.mpr below)]

theorem represents_neg (m : Nat) :
    Represents width n (-m) ↔ m ≤ width.count / 2 ∧ n = (width.count - m) % width.count := by
  unfold Represents
  have positive : 0 < width.count := by cases width <;> decide
  have shifted : m ≤ width.count →
      (-m : Int) % width.count = ((width.count - m) % width.count : Nat) := by
    intro small
    rw [Int.natCast_emod, Nat.cast_sub small, ← Int.add_emod_left]
    rfl
  constructor
  · rintro ⟨above, -, value⟩
    have small : m ≤ width.count / 2 := by omega
    rw [shifted (by omega)] at value
    exact ⟨small, Int.ofNat_inj.mp value⟩
  · rintro ⟨small, rfl⟩
    exact ⟨by omega, by omega, (shifted (by omega)).symm⟩

/-- A minus is taken off the front, and then the magnitude is read. -/
theorem signed_iff {negative : Bool} (parts : (match text with
      | '-' :: rest => (true, rest)
      | _ => (false, text)) = (negative, digits)) :
    Signed text z ↔ ∃ m : Nat, magnitude? digits = some m ∧
      z = if negative then -(m : Int) else m := by
  simp only [magnitude?_eq_some_iff]
  split at parts
  · cases parts
    constructor
    · rintro (magnitude | magnitude)
      · obtain ⟨c, cs, ⟨⟩, digit⟩ := magnitude.head
        cases digit
      · exact ⟨_, magnitude, rfl⟩
    · rintro ⟨m, magnitude, rfl⟩
      exact .negative magnitude
  · rename_i unsigned
    cases parts
    constructor
    · rintro (magnitude | magnitude)
      · exact ⟨_, magnitude, rfl⟩
      · exact absurd rfl (unsigned _)
    · rintro ⟨m, magnitude, rfl⟩
      exact .positive magnitude

/-- A dollar sign is taken off the front. -/
theorem immediate_iff : Immediate text z ↔ Signed (match text with
    | '$' :: rest => rest
    | _ => text) z := by
  split
  · constructor
    · rintro (signed | signed)
      · obtain ⟨c, cs, ⟨⟩, digit | minus⟩ := signed.head
        · cases digit
        · cases minus
      · exact signed
    · exact .dollar
  · rename_i plain
    constructor
    · rintro (signed | signed)
      · exact signed
      · exact absurd rfl (plain _)
    · exact .plain

theorem immediate_eq_ok_iff :
    immediate width text = .ok n ↔ ∃ z, Immediate text z ∧ Represents width n z := by
  unfold immediate
  extract_lets body
  have same : ∀ z, Immediate text z ↔ Signed body z := fun z => immediate_iff
  clear_value body
  split
  rename_i negative digits parts
  have signed : ∀ z, Immediate text z ↔ _ := fun z => (same z).trans (signed_iff parts)
  simp only [signed]
  cases magnitude? digits with
  | none => simp
  | some m =>
    cases negative with
    | true =>
      simp only [if_true, Option.some.injEq, exists_eq_left', exists_eq_left, represents_neg]
      exact ite_eq_ok_iff
    | false =>
      simp only [Bool.false_eq_true, if_false, Option.some.injEq, exists_eq_left', exists_eq_left,
        represents_nat]
      exact ite_eq_ok_iff

/-- No number could be a label. -/
theorem Immediate.not_identifier (written : Immediate text z) : isIdentifier text = false := by
  have known : ∀ c : Char, c.isDigit = true → isLetter c = false := by
    intro c digit
    have below : c.toNat ≤ 57 := by
      simp only [Char.isDigit, Bool.and_eq_true, decide_eq_true_eq, UInt32.le_iff_toNat_le] at digit
      exact digit.2
    exact ascii_forall (fun c => c.isDigit = true → isLetter c = false) (by decide +kernel)
      (by omega) digit
  cases written with
  | plain signed =>
    obtain ⟨c, cs, rfl, digit | rfl⟩ := signed.head
    · simp [isIdentifier, known c digit]
    · rfl
  | dollar signed => rfl

end Numbers
end ScriptKit.Assembly
