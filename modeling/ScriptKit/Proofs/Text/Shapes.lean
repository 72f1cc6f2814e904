import Mathlib.Data.List.TakeWhile
import Mathlib.Data.Nat.Digits.Defs
import Mathlib.Tactic.Ring
import ScriptKit.Proofs.Text.Fields
import ScriptKit.Proofs.Text.Numeral

/-! What numerals, fields and trimmed texts are, whatever reads them. -/

namespace ScriptKit.Text

section Numerals

theorem toNat_lt_of_toLower {c : Char} (lower : c.toLower.toNat < 128) : c.toNat < 128 := by
  by_contra large
  have same : c.toLower = c := by
    apply dif_neg
    intro between
    have small : c.toNat ≤ 'Z'.toNat := UInt32.le_iff_toNat_le.mp between.2
    exact large (Nat.lt_of_le_of_lt small (by decide))
  exact large (same ▸ lower)

theorem ascii_forall (good : Char → Prop) (each : ∀ n < 128, good (.ofNat n)) {c : Char}
    (ascii : c.toNat < 128) :
    good c := by
  have here := each c.toNat ascii
  rwa [Char.ofNat_toNat] at here

/-- Digits of a base in either case, the highest first, and the number that they stand for. -/
def Numeral (base : Nat) (text : List Char) (n : Nat) : Prop :=
  text ≠ [] ∧ ∃ ds : List Nat,
    List.Forall₂ (fun c d => d < base ∧ c.toLower = d.digitChar) text ds ∧
    n = Nat.ofDigits base ds.reverse

theorem digitValue?_eq_some_iff (c : Char) (d : Nat) :
    digitValue? c = some d ↔ d < 16 ∧ c.toLower = d.digitChar := by
  by_cases ascii : c.toNat < 128
  · obtain ⟨bounded, known⟩ := ascii_forall (fun c => (∀ d ∈ digitValue? c, d < 16) ∧
      ∀ d < 16, digitValue? c = some d ↔ c.toLower = d.digitChar) (by decide +kernel) ascii
    exact ⟨fun found => ⟨bounded d found, (known d (bounded d found)).mp found⟩,
      fun lower => (known d lower.1).mpr lower.2⟩
  · have beyond : ∀ e : Char, e.toNat < 128 → ¬ c ≤ e := by
      intro e small below
      have := UInt32.le_iff_toNat_le.mp (Char.le_def.mp below)
      exact ascii (Nat.lt_of_le_of_lt this small)
    have digits : ∀ d < 16, d.digitChar.toNat < 128 := by decide
    constructor
    · intro found
      simp [digitValue?, beyond '9' (by decide), beyond 'f' (by decide), beyond 'F' (by decide)]
        at found
    · rintro ⟨small, lower⟩
      exact absurd (toNat_lt_of_toLower (lower ▸ digits d small)) ascii

theorem readFrom?_eq_some_iff {base : Nat} (small : base ≤ 16) (text : List Char) (n m : Nat) :
    readFrom? base n text = some m ↔
      ∃ ds : List Nat, List.Forall₂ (fun c d => d < base ∧ c.toLower = d.digitChar) text ds ∧
        m = n * base ^ ds.length + Nat.ofDigits base ds.reverse := by
  induction text generalizing n with
  | nil =>
    constructor
    · intro read
      exact ⟨[], .nil, by cases read; simp⟩
    · rintro ⟨ds, ⟨⟩, rfl⟩
      simp [readFrom?]
  | cons c text ih =>
    have step : readFrom? base n (c :: text) = some m ↔ ∃ d, (d < base ∧ c.toLower = d.digitChar) ∧
        readFrom? base (n * base + d) text = some m := by
      have unfolded : readFrom? base n (c :: text) = (digitValue? c).bind fun d =>
          if d < base then readFrom? base (n * base + d) text else none := by
        simp only [readFrom?, List.foldlM_cons]
        cases digitValue? c with
        | none => rfl
        | some d => by_cases digit : d < base <;> simp [digit]
      rw [unfolded, Option.bind_eq_some_iff]
      refine exists_congr fun d => ?_
      rw [digitValue?_eq_some_iff, Option.ite_none_right_eq_some, ← and_assoc]
      refine and_congr_left fun _ => ?_
      constructor
      · rintro ⟨⟨-, lower⟩, digit⟩
        exact ⟨digit, lower⟩
      · rintro ⟨digit, lower⟩
        exact ⟨⟨by omega, lower⟩, digit⟩
    have value : ∀ (d : Nat) (ds : List Nat),
        (n * base + d) * base ^ ds.length + Nat.ofDigits base ds.reverse =
        n * base ^ (d :: ds).length + Nat.ofDigits base (d :: ds).reverse := by
      intro d ds
      rw [Nat.ofDigits_reverse_cons, List.length_cons, pow_succ]
      ring
    rw [step]
    constructor
    · rintro ⟨d, digit, read⟩
      obtain ⟨ds, digits, rfl⟩ := (ih _).mp read
      exact ⟨d :: ds, .cons digit digits, value d ds⟩
    · rintro ⟨_, digits, rfl⟩
      cases digits with
      | cons digit digits => exact ⟨_, digit, (ih _).mpr ⟨_, digits, (value _ _).symm⟩⟩

theorem readNat?_eq_some_iff {base : Nat} (small : base ≤ 16) {text : List Char} {n : Nat} :
    readNat? base text = some n ↔ Numeral base text n := by
  cases text with
  | nil => exact ⟨by rintro ⟨⟩, fun numeral => absurd rfl numeral.1⟩
  | cons c text =>
    rw [readNat?_eq base (List.cons_ne_nil c text), readFrom?_eq_some_iff small]
    simp only [Numeral, Nat.zero_mul, Nat.zero_add, ne_eq, reduceCtorEq, not_false_eq_true,
      true_and]

theorem Numeral.isDigit {text : List Char} {n : Nat} (numeral : Numeral 10 text n) :
    ∀ c ∈ text, c.isDigit = true := by
  have known : ∀ n < 128, ∀ d < 10, (Char.ofNat n).toLower = d.digitChar →
      (Char.ofNat n).isDigit = true := by
    decide +kernel
  have ascii : ∀ d < 10, d.digitChar.toNat < 128 := by decide
  have digit : ∀ (c : Char) (d : Nat), d < 10 ∧ c.toLower = d.digitChar → c.isDigit = true := by
    rintro c d ⟨small, lower⟩
    exact ascii_forall (fun c => ∀ d < 10, c.toLower = d.digitChar → c.isDigit = true) known
      (toNat_lt_of_toLower (lower ▸ ascii d small)) d small lower
  obtain ⟨-, ds, each, -⟩ := numeral
  induction each with
  | nil => exact List.forall_mem_nil _
  | cons first _ ih => exact List.forall_mem_cons.mpr ⟨digit _ _ first, ih⟩

inductive SignedNumeral : List Char → Int → Prop where
  | plain {digits : List Char} {n : Nat} (numeral : Numeral 10 digits n) : SignedNumeral digits n
  | plus {digits : List Char} {n : Nat} (numeral : Numeral 10 digits n) :
      SignedNumeral ('+' :: digits) n
  | minus {digits : List Char} {n : Nat} (numeral : Numeral 10 digits n) :
      SignedNumeral ('-' :: digits) (-n)

theorem readInt?_eq_some_iff {text : List Char} {n : Int} :
    readInt? text = some n ↔ SignedNumeral text n := by
  have reads {digits : List Char} {k : Nat} := @readNat?_eq_some_iff 10 (by decide) digits k
  constructor
  · intro read
    unfold readInt? at read
    split at read
    all_goals
      obtain ⟨k, digits, rfl⟩ := Option.map_eq_some_iff.mp read
    · exact .minus (reads.mp digits)
    · exact .plus (reads.mp digits)
    · exact .plain (reads.mp digits)
  · intro numeral
    cases numeral with
    | plain numeral =>
      have unsigned : ∀ c, c.isDigit = false → c ∉ text := by
        intro c other member
        rw [numeral.isDigit c member] at other
        cases other
      rw [readInt?_unsigned (unsigned '-' rfl) (unsigned '+' rfl), reads.mpr numeral]
      rfl
    | plus numeral => rw [readInt?, reads.mpr numeral]; rfl
    | minus numeral => rw [readInt?, reads.mpr numeral]; rfl

end Numerals

section Span

variable {good : Char → Bool} {front back : List Char}

theorem exists_span (good : Char → Bool) (text : List Char) :
    ∃ front back, text = front ++ back ∧ (∀ c ∈ front, good c = true) ∧
      ∀ c ∈ back.head?, good c = false := by
  refine ⟨text.takeWhile good, text.dropWhile good, List.takeWhile_append_dropWhile.symm,
    fun c member => List.mem_takeWhile_imp member, fun c first => ?_⟩
  have stops := List.head?_dropWhile_not good text
  rw [Option.mem_def.mp first] at stops
  simpa using stops

theorem takeWhile_eq (each : ∀ c ∈ front, good c = true) (ends : ∀ c ∈ back.head?, good c = false) :
    (front ++ back).takeWhile good = front := by
  rw [List.takeWhile_append_of_pos each]
  cases back with
  | nil => exact List.append_nil front
  | cons c back => rw [List.takeWhile_cons_of_neg (by simp [ends c rfl]), List.append_nil]

theorem dropWhile_eq (each : ∀ c ∈ front, good c = true) (ends : ∀ c ∈ back.head?, good c = false) :
    (front ++ back).dropWhile good = back := by
  rw [List.dropWhile_append_of_pos each]
  cases back with
  | nil => rfl
  | cons c back => rw [List.dropWhile_cons_of_neg (by simp [ends c rfl])]

end Span

section Separated

variable {separates : Char → Bool}

inductive Separated (separates : Char → Bool) : List Char → List (List Char) → Prop where
  | nil {text : List Char} : (∀ c ∈ text, separates c = true) → Separated separates text []
  | cons {front piece rest : List Char} {pieces : List (List Char)} :
      (∀ c ∈ front, separates c = true) →
      piece ≠ [] → (∀ c ∈ piece, separates c = false) → (∀ c ∈ rest.head?, separates c = true) →
      Separated separates rest pieces →
      Separated separates (front ++ (piece ++ rest)) (piece :: pieces)

theorem fields_eq_nil {text : List Char} (separators : ∀ c ∈ text, separates c = true) :
    fields separates text = [] := by
  have skipped := fields_separators separators []
  rwa [List.append_nil] at skipped

theorem separated_fields (text : List Char) : Separated separates text (fields separates text) := by
  induction length : text.length using Nat.strongRecOn generalizing text with
  | ind n ih =>
    obtain ⟨front, behind, rfl, separators, ends⟩ := exists_span separates text
    cases behind with
    | nil =>
      rw [List.append_nil, fields_eq_nil separators]
      exact .nil separators
    | cons c cs =>
      obtain ⟨piece, rest, whole, plain, stops⟩ := exists_span (fun c => !separates c) (c :: cs)
      simp only [Bool.not_eq_true', Bool.not_eq_false'] at plain stops
      have some_char : piece ≠ [] := by
        rintro rfl
        have separator := stops c (by rw [← List.nil_append rest, ← whole]; rfl)
        exact absurd separator (by simp [ends c rfl])
      have shorter : rest.length < n := by
        have := List.length_pos_iff.mpr some_char
        rw [← length, whole, List.length_append, List.length_append]
        omega
      rw [whole, fields_separators separators, fields_piece some_char plain stops]
      exact .cons separators some_char plain stops (ih _ shorter rest rfl)

theorem Separated.append {text : List Char} {pieces : List (List Char)}
    (separated : Separated separates text pieces) {back : List Char}
    (separators : ∀ c ∈ back, separates c = true) :
    Separated separates (text ++ back) pieces := by
  induction separated with
  | nil each => exact .nil (List.forall_mem_append.mpr ⟨each, separators⟩)
  | @cons front piece rest pieces each some_char plain ends _ ih =>
    rw [List.append_assoc, List.append_assoc]
    refine .cons each some_char plain ?_ ih
    cases rest with
    | nil => exact fun c first => separators c (List.mem_of_mem_head? first)
    | cons c rest => exact ends

theorem fields_eq_iff {text : List Char} {pieces : List (List Char)} :
    fields separates text = pieces ↔ Separated separates text pieces := by
  constructor
  · rintro rfl
    exact separated_fields text
  · intro separated
    induction separated with
    | nil separators => exact fields_eq_nil separators
    | cons front some_char plain ends _ ih =>
      rw [fields_separators front, fields_piece some_char plain ends, ih]

/-- Separators at the end are of no account. -/
theorem fields_behind {back : List Char} (separators : ∀ c ∈ back, separates c = true)
    (text : List Char) :
    fields separates (text ++ back) = fields separates text :=
  fields_eq_iff.mpr ((separated_fields text).append separators)

end Separated

def Blank (text : List Char) : Prop :=
  ∀ c ∈ text, isWhiteSpace c = true

section Trim

variable {front back text : List Char}

theorem trim_blank_append (blank : Blank front) (text : List Char) :
    trim (front ++ text) = trim text := by
  have skipped : trimStart (front ++ text) = trimStart text := List.dropWhile_append_of_pos blank
  rw [trim, trim, skipped]

theorem trim_append_blank (blank : Blank back) (text : List Char) :
    trim (text ++ back) = trim text := by
  have reversed : Blank back.reverse := fun c member => blank c (List.mem_reverse.mp member)
  obtain ⟨front, rest, rfl, spaces, ends⟩ := exists_span isWhiteSpace text
  rw [List.append_assoc, trim_blank_append spaces, trim_blank_append spaces]
  cases rest with
  | nil =>
    have nothing := trim_blank_append blank []
    rwa [List.append_nil] at nothing
  | cons c rest =>
    have kept : ∀ text, trimStart (c :: text) = c :: text :=
      fun text => trimStart_eq fun d first => ends d first
    rw [trim, trim, List.cons_append, kept, kept, ← List.cons_append, List.reverse_append,
      trimStart, List.dropWhile_append_of_pos reversed]
    rfl

theorem exists_behind (text : List Char) :
    ∃ rest back, text = rest ++ back ∧ Blank back ∧ ∀ c ∈ rest.getLast?,
      isWhiteSpace c = false := by
  obtain ⟨front, back, whole, spaces, ends⟩ := exists_span isWhiteSpace text.reverse
  refine ⟨back.reverse, front.reverse, ?_, fun c member =>
    spaces c (List.mem_reverse.mp member), ?_⟩
  · rw [← List.reverse_append, ← whole, List.reverse_reverse]
  · rwa [List.getLast?_reverse]

/-- What trimming takes off is white space. -/
theorem exists_trim (text : List Char) :
    ∃ front back, text = front ++ trim text ++ back ∧ Blank front ∧ Blank back := by
  obtain ⟨front, behind, rfl, spaces, starts⟩ := exists_span isWhiteSpace text
  obtain ⟨rest, back, rfl, blank, ends⟩ := exists_behind behind
  have same : trim (front ++ (rest ++ back)) = rest := by
    rw [trim_blank_append spaces, trim_append_blank blank]
    apply trim_eq _ ends
    cases rest with
    | nil => rintro c ⟨⟩
    | cons c rest => exact starts
  refine ⟨front, back, ?_, spaces, blank⟩
  rw [same, List.append_assoc]

theorem trim_eq_nil_iff (text : List Char) : trim text = [] ↔ Blank text := by
  constructor
  · intro nothing
    obtain ⟨front, back, whole, blank, blank'⟩ := exists_trim text
    rw [whole, nothing, List.append_nil]
    exact List.forall_mem_append.mpr ⟨blank, blank'⟩
  · intro blank
    have skipped := trim_blank_append blank []
    rwa [List.append_nil] at skipped

end Trim

end ScriptKit.Text
