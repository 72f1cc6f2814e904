import Mathlib.Data.List.Forall2
import Mathlib.Data.List.Nodup
import ScriptKit.Proofs.Assembly.Grammar
import ScriptKit.Proofs.Assembly.Validity

/-! Where the code of a program in assembly has its instructions, and which programs have code.

Offsets are first counted from the sizes of instructions and only then are bytes written, so that a
label may be used before it stands anywhere. What is counted is what is written. -/

namespace ScriptKit.Assembly
open Text Disassembly

/-- The operand that a text means. `stands` tells which offset a label stands for. -/
inductive Means (stands : String → Nat → Prop) (spec : OperandSpec) (text : List Char) :
    Operand → Prop where
  | register {r : GeneralRegister} : spec.mode = .register → RegisterName text r.val →
      Means stands spec text (.register r)
  | immediate {n : UInt64} {z : Int} : spec.mode = .immediate → Immediate text z →
      Represents spec.width n.toNat z → Means stands spec text (.immediate n)
  | address {n : UInt64} {z : Int} : spec.mode = .address → Immediate text z →
      Represents spec.width n.toNat z → Means stands spec text (.address n)
  | label {n : UInt64} : spec.mode = .address → isIdentifier text = true →
      stands (String.ofList text) n.toNat →
      n.toNat < spec.width.count → Means stands spec text (.address n)

/-- The label is defined, and the offset is that of the first instruction behind it, or the size of
the code if there is none. -/
def Stands (items : List Item) (ds : List Decoded) (size : Nat) (name : String) (offset : Nat) :
    Prop :=
  ∃ before after, items = before ++ .label name :: after ∧
    offset = (ds[(Item.instructions before).length]?.map Decoded.offset).getD size

structure Lists (stands : String → Nat → Prop) (i : Instruction) (d : Decoded) : Prop where
  op : d.op = i.op
  operands : List.Forall₂ (fun part o => Means stands part.1 part.2 o)
      (i.op.operands.zip i.operands) d.operands

def Item.labels (items : List Item) : List String :=
  items.filterMap fun
    | label name => some name
    | instruction _ => none

section Operands

variable {labels : List (String × Nat)} {spec : OperandSpec} {specs : List OperandSpec}
  {text : List Char} {texts : List (List Char)} {n : Nat} {bytes : List UInt8}

theorem Represents.lt {width : Width} {z : Int} (represents : Represents width n z) :
    n < width.count := by
  obtain ⟨-, -, value⟩ := represents
  have positive : (0 : Int) < width.count := by cases width <;> decide
  have := Int.emod_lt_of_pos z positive
  omega

theorem Means.fits {stands : String → Nat → Prop} {o : Operand}
    (narrow : spec.mode = .register → spec.width = .byte) (means : Means stands spec text o) :
    o.Fits spec := by
  obtain ⟨width, mode⟩ := spec
  cases means with
  | register register _ =>
    cases register
    cases narrow rfl
    rfl
  | immediate immediate _ represents => exact ⟨immediate, represents.lt⟩
  | address address _ represents => exact ⟨address, represents.lt⟩
  | label address _ _ small => exact ⟨address, small⟩

theorem address_eq_ok_iff {width : Width} : address labels width text = .ok n ↔
    (∃ z, Immediate text z ∧ Represents width n z) ∨
      (isIdentifier text = true ∧ labels.lookup (String.ofList text) = some n ∧
        n < width.count) := by
  unfold address
  by_cases named : isIdentifier text = true
  · rw [if_pos named, or_iff_right, and_iff_right named]
    · cases labels.lookup (String.ofList text) with
      | none =>
        constructor
        · rintro ⟨⟩
        · rintro ⟨⟨⟩, -⟩
      | some offset =>
        refine ite_eq_ok_iff.trans ⟨?_, ?_⟩
        · rintro ⟨small, rfl⟩
          exact ⟨rfl, small⟩
        · rintro ⟨⟨⟩, small⟩
          exact ⟨small, rfl⟩
    · rintro ⟨z, written, -⟩
      cases written.not_identifier.symm.trans named
  · rw [if_neg named, immediate_eq_ok_iff, or_iff_left]
    exact fun label => named label.1

theorem toNat_ofNat {width : Width} (small : n < width.count) : (UInt64.ofNat n).toNat = n := by
  rw [UInt64.toNat_ofNat']
  exact Nat.mod_eq_of_lt (Nat.lt_of_lt_of_le small width.count_le)

abbrev Found (labels : List (String × Nat)) (name : String) (offset : Nat) : Prop :=
  labels.lookup name = some offset

/-- The value of an operand is that of the operand that its text means. -/
theorem operandValue_eq_ok_iff : operandValue labels spec text = .ok n ↔
    ∃ o, Means (Found labels) spec text o ∧ o.value = n := by
  obtain ⟨width, mode⟩ := spec
  cases mode with
  | register =>
    refine register_eq_ok_iff.trans ⟨?_, ?_⟩
    · rintro ⟨small, name⟩
      exact ⟨.register ⟨n, by omega⟩, .register rfl name, rfl⟩
    · rintro ⟨o, means, rfl⟩
      cases means with
      | @register r _ name => exact ⟨Nat.le_of_lt_succ r.isLt, name⟩
      | immediate mode => cases mode
      | address mode => cases mode
      | label mode => cases mode
  | immediate =>
    refine immediate_eq_ok_iff.trans ⟨?_, ?_⟩
    · rintro ⟨z, written, represents⟩
      have same := toNat_ofNat represents.lt
      exact ⟨.immediate (.ofNat n), .immediate rfl written (same.symm ▸ represents), same⟩
    · rintro ⟨o, means, rfl⟩
      cases means with
      | register mode => cases mode
      | immediate _ written represents => exact ⟨_, written, represents⟩
      | address mode => cases mode
      | label mode => cases mode
  | address =>
    refine address_eq_ok_iff.trans ⟨?_, ?_⟩
    · rintro (⟨z, written, represents⟩ | ⟨named, found, small⟩)
      · have same := toNat_ofNat represents.lt
        exact ⟨.address (.ofNat n), .address rfl written (same.symm ▸ represents), same⟩
      · have same := toNat_ofNat small
        exact ⟨.address (.ofNat n), .label rfl named (same.symm ▸ found) (same.symm ▸ small), same⟩
    · rintro ⟨o, means, rfl⟩
      cases means with
      | register mode => cases mode
      | immediate mode => cases mode
      | address _ written represents => exact .inl ⟨_, written, represents⟩
      | label _ named found small => exact .inr ⟨named, found, small⟩

theorem encodeOperands_eq_ok_iff (count : texts.length = specs.length) :
    encodeOperands labels specs texts = .ok bytes ↔
      ∃ os, List.Forall₂ (fun part o => Means (Found labels) part.1 part.2 o) (specs.zip texts) os ∧
        bytes = Operand.encode specs os := by
  induction specs generalizing texts bytes with
  | nil =>
    obtain rfl := List.length_eq_zero_iff.mp count
    constructor
    · intro encoded
      cases encoded
      exact ⟨[], .nil, rfl⟩
    · rintro ⟨os, -, rfl⟩
      rfl
  | cons spec specs ih =>
    obtain ⟨text, texts, rfl⟩ := List.exists_cons_of_length_eq_add_one count
    have count' : texts.length = specs.length := Nat.succ.inj count
    constructor
    · intro encoded
      obtain ⟨n, value, encoded⟩ := bind_eq_ok.mp encoded
      obtain ⟨back, rest, done⟩ := bind_eq_ok.mp encoded
      cases done
      obtain ⟨o, means, rfl⟩ := operandValue_eq_ok_iff.mp value
      obtain ⟨os, others, rfl⟩ := (ih count').mp rest
      exact ⟨o :: os, .cons means others, rfl⟩
    · rintro ⟨_, _ | ⟨means, others⟩, rfl⟩
      rw [encodeOperands, operandValue_eq_ok_iff.mpr ⟨_, means, rfl⟩,
        (ih count').mpr ⟨_, others, rfl⟩]
      rfl

end Operands

section Instructions

variable {labels : List (String × Nat)} {is : List Instruction} {bytes : List UInt8} {start : Nat}
  {ds : List Decoded} {items : List Item}

theorem Lists.fits {stands : String → Nat → Prop} {i : Instruction} {d : Decoded}
    (lists : Lists stands i d) (count : i.operands.length = i.op.operands.length) :
    List.Forall₂ Operand.Fits d.operands d.op.operands := by
  obtain ⟨op, operands⟩ := lists
  rw [op]
  have narrow := i.op.register_width
  generalize i.op.operands = specs at operands count narrow
  generalize i.operands = texts at operands count
  generalize d.operands = os at operands
  induction specs generalizing texts os with
  | nil =>
    cases operands
    exact .nil
  | cons spec specs ih =>
    obtain ⟨text, texts, rfl⟩ := List.exists_cons_of_length_eq_add_one count
    obtain ⟨first, others⟩ := List.forall_mem_cons.mp narrow
    cases operands with
    | cons means operands =>
      exact .cons (means.fits first) (ih others texts (Nat.succ.inj count) _ operands)

theorem encode_eq_ok_iff {i : Instruction} (count : i.operands.length = i.op.operands.length)
    (offset : Nat) :
    i.encode labels = .ok bytes ↔
      ∃ d : Decoded, d.offset = offset ∧ Lists (Found labels) i d ∧ bytes = d.bytes := by
  constructor
  · intro encoded
    obtain ⟨operands, written, rfl⟩ := encode_eq_ok encoded
    obtain ⟨os, each, rfl⟩ := (encodeOperands_eq_ok_iff count).mp written
    exact ⟨⟨offset, i.op, os⟩, rfl, ⟨rfl, each⟩, rfl⟩
  · rintro ⟨d, -, ⟨op, each⟩, rfl⟩
    rw [Instruction.encode, (encodeOperands_eq_ok_iff count).mpr ⟨_, each, rfl⟩, Decoded.bytes, op]

/-- Instructions that can be encoded are a row of code from any offset on. -/
theorem encodeAll_eq_ok_iff (counted : ∀ i ∈ is, i.operands.length = i.op.operands.length)
    (start : Nat) :
    encodeAll labels is = .ok bytes ↔
      ∃ ds, Row start ds bytes ∧ List.Forall₂ (Lists (Found labels)) is ds := by
  induction is generalizing bytes start with
  | nil =>
    constructor
    · intro encoded
      cases encoded
      exact ⟨[], .nil, .nil⟩
    · rintro ⟨_, row, ⟨⟩⟩
      cases row
      rfl
  | cons i is ih =>
    obtain ⟨count, counts⟩ := List.forall_mem_cons.mp counted
    constructor
    · intro encoded
      obtain ⟨front, first, encoded⟩ := bind_eq_ok.mp encoded
      obtain ⟨back, rest, done⟩ := bind_eq_ok.mp encoded
      cases done
      obtain ⟨d, rfl, lists, rfl⟩ := (encode_eq_ok_iff count start).mp first
      have laid : Laid d.op d.operands d.bytes := laid_iff.mpr ⟨lists.fits count, rfl⟩
      obtain ⟨ds, row, others⟩ := (ih counts (d.offset + d.bytes.length)).mp rest
      exact ⟨d :: ds, .cons laid row, .cons lists others⟩
    · rintro ⟨_, row, _ | ⟨lists, others⟩⟩
      cases row with
      | cons laid row =>
        obtain ⟨-, rfl⟩ := laid_iff.mp laid
        rw [encodeAll, (encode_eq_ok_iff count _).mpr ⟨_, rfl, lists, rfl⟩,
          (ih counts _).mpr ⟨_, row, others⟩]
        rfl

/-- Counting sizes leads to the offsets that instructions have. -/
theorem offsetAt_eq (row : Row start ds bytes) {k : Nat} (inside : k ≤ ds.length) :
    start + offsetAt (ds.map Decoded.op) k =
      (ds[k]?.map Decoded.offset).getD (start + bytes.length) := by
  induction row generalizing k with
  | nil =>
    obtain rfl := Nat.le_zero.mp inside
    rfl
  | @cons d ds piece bytes laid _ ih =>
    cases k with
    | zero => rfl
    | succ k =>
      have size : d.op.size = piece.length := laid.length_eq.symm
      rw [List.map_cons, offsetAt, List.length_append, size, ← Nat.add_assoc, ← Nat.add_assoc]
      exact ih (Nat.le_of_succ_le_succ inside)

theorem Item.mem_labels {name : String} : name ∈ Item.labels items ↔ .label name ∈ items := by
  unfold Item.labels
  rw [List.mem_filterMap]
  constructor
  · rintro ⟨item, member, same⟩
    cases item with
    | label other =>
      cases same
      exact member
    | instruction i => cases same
  · exact fun member => ⟨_, member, rfl⟩

theorem Item.indexOf?_eq_some_iff (distinct : (Item.labels items).Nodup) {name : String} {k : Nat} :
    indexOf? name items = some k ↔
      ∃ before after, items = before ++ .label name :: after ∧
        k = (instructions before).length := by
  induction items generalizing k with
  | nil =>
    constructor
    · rintro ⟨⟩
    · rintro ⟨before, after, whole, -⟩
      simp at whole
  | cons item items ih =>
    cases item with
    | label other =>
      obtain ⟨fresh, distinct'⟩ :=
        List.nodup_cons.mp (show (other :: Item.labels items).Nodup from distinct)
      rw [indexOf?]
      by_cases same : other = name
      · subst same
        rw [if_pos rfl]
        constructor
        · intro found
          cases found
          exact ⟨[], items, rfl, rfl⟩
        · rintro ⟨_ | ⟨first, before⟩, after, whole, rfl⟩
          · rfl
          · cases whole
            exact absurd (mem_labels.mpr (List.mem_append_right _ List.mem_cons_self)) fresh
      · rw [if_neg same, ih distinct']
        constructor
        · rintro ⟨before, after, rfl, rfl⟩
          exact ⟨.label other :: before, after, rfl, rfl⟩
        · rintro ⟨_ | ⟨first, before⟩, after, whole, rfl⟩
          · cases whole
            exact absurd rfl same
          · cases whole
            exact ⟨before, after, rfl, rfl⟩
    | instruction i =>
      rw [indexOf?, Option.map_eq_some_iff]
      simp only [ih distinct]
      constructor
      · rintro ⟨_, ⟨before, after, rfl, rfl⟩, rfl⟩
        exact ⟨.instruction i :: before, after, rfl, rfl⟩
      · rintro ⟨_ | ⟨first, before⟩, after, whole, rfl⟩
        · cases whole
        · cases whole
          exact ⟨_, ⟨before, after, rfl, rfl⟩, rfl⟩

/-- What the first pass counts for a label is the offset that the label stands for. -/
theorem found_iff_stands {result : Listing} (added : ({} : Listing).addItems items = .ok result)
    (distinct : (Item.labels items).Nodup) (row : Row 0 ds bytes)
    (ops : ds.map Decoded.op = Item.opcodes items) (name : String) (offset : Nat) :
    Found result.labels name offset ↔ Stands items ds bytes.length name offset := by
  have length : ds.length = (Item.instructions items).length := by
    simpa [Item.opcodes] using congrArg List.length ops
  have counted : ∀ {k}, Item.indexOf? name items = some k →
      offsetAt (Item.opcodes items) k = (ds[k]?.map Decoded.offset).getD bytes.length := by
    intro k found
    have counted := offsetAt_eq row (length ▸ Item.indexOf?_le found)
    rwa [Nat.zero_add, Nat.zero_add, ops] at counted
  rw [Found, Listing.addItems_labels added name]
  simp only [List.lookup_nil, Option.none_or, Nat.zero_add, Option.map_eq_some_iff]
  constructor
  · rintro ⟨k, found, rfl⟩
    obtain ⟨before, after, whole, place⟩ := (Item.indexOf?_eq_some_iff distinct).mp found
    exact ⟨before, after, whole, place ▸ counted found⟩
  · rintro ⟨before, after, whole, rfl⟩
    have found := (Item.indexOf?_eq_some_iff distinct).mpr ⟨before, after, whole, rfl⟩
    exact ⟨_, found, counted found⟩

end Instructions

section Repetition

variable {listing result : Listing} {items : List Item} {line : Nat} {raw : List Char}
  {raws : List (List Char)} {names : List String} {name : String}

def Listing.known (listing : Listing) : List String :=
  (listing.labels.map Prod.fst).reverse

theorem Listing.lookup_isSome_iff :
    (listing.labels.lookup name).isSome = true ↔ name ∈ listing.known := by
  rw [known, List.mem_reverse]
  induction listing.labels with
  | nil => simp
  | cons pair labels ih =>
    rw [List.lookup_cons, List.map_cons, List.mem_cons, ← ih]
    cases same : name == pair.1 with
    | true => simp [beq_iff_eq.mp same]
    | false => simp [beq_eq_false_iff_ne.mp same]

/-- Labels are taken as long as none is known already. -/
theorem Listing.addItems_cases (distinct : listing.known.Nodup) (items : List Item) :
    (∃ result, listing.addItems items = .ok result ∧
      result.known = listing.known ++ Item.labels items ∧
      result.known.Nodup) ∨
    ∃ front name back, Item.labels items = front ++ name :: back ∧ (listing.known ++ front).Nodup ∧
      name ∈ listing.known ++ front ∧ listing.addItems items = .error (.duplicateLabel name) := by
  induction items generalizing listing with
  | nil => exact .inl ⟨listing, rfl, (List.append_nil _).symm, distinct⟩
  | cons item items ih =>
    cases item with
    | label name =>
      have shape : Item.labels (.label name :: items) = name :: Item.labels items := rfl
      rw [shape, addItems, addItem]
      by_cases again : name ∈ listing.known
      · rw [if_pos (lookup_isSome_iff.mpr again)]
        exact .inr ⟨[], name, _, rfl, by simpa using distinct, by simpa using again, rfl⟩
      · rw [if_neg (mt lookup_isSome_iff.mp again)]
        have next :
          (show Listing from { listing with labels :=
            (name, listing.size) :: listing.labels }).known =
            listing.known ++ [name] := List.reverse_cons
        have distinct' : (listing.known ++ [name]).Nodup :=
          List.nodup_append.mpr ⟨distinct, List.nodup_singleton name,
            fun other member _ alone same => again (List.mem_singleton.mp alone ▸ same ▸ member)⟩
        rcases ih (next ▸ distinct') with
          ⟨result, added, all, unique⟩ | ⟨front, other, back, whole, fresh, found, failed⟩
        · exact .inl ⟨result, added, by rw [all, next, List.append_assoc, List.singleton_append],
            unique⟩
        · rw [next, List.append_assoc, List.singleton_append] at fresh found
          exact .inr ⟨name :: front, other, back, by rw [whole]; rfl, fresh, found, failed⟩
    | instruction i => exact ih distinct

theorem Item.labels_line (names : List String) (i : Option Instruction) :
    Item.labels (names.map .label ++ i.toList.map .instruction) = names := by
  unfold Item.labels
  rw [List.filterMap_append, List.filterMap_map, List.filterMap_map]
  cases i <;> simp

theorem Listing.addItems_append_eq (listing : Listing) (front back : List Item) :
    listing.addItems (front ++ back) = (listing.addItems front).bind (·.addItems back) := by
  induction front generalizing listing with
  | nil => rfl
  | cons item front ih =>
    rw [List.cons_append, addItems, addItems]
    cases listing.addItem item with
    | error kind => rfl
    | ok next => exact ih next

theorem Listing.addLine_eq_ok_iff : listing.addLine line raw = .ok result ↔
    ∃ items, Item.ofLine line raw = .ok items ∧ listing.addItems items = .ok result := by
  refine ⟨addLine_items, ?_⟩
  rintro ⟨items, read, added⟩
  unfold Item.ofLine at read
  unfold addLine
  generalize splitLabels (trim (dropComment raw)) = parts at read ⊢
  obtain ⟨names, text⟩ := parts
  dsimp only at read ⊢
  rw [define_eq]
  split at read
  · rename_i empty
    cases read
    simp only [added, if_pos empty]
    rfl
  · rename_i filled
    obtain ⟨i, instruction, done⟩ := bind_eq_ok.mp read
    cases done
    rw [addItems_append_eq] at added
    obtain ⟨middle, defined, added⟩ := bind_eq_ok.mp added
    simp only [defined, if_neg filled, instruction]
    exact added

theorem Listing.instruction_ne_duplicate (text : List Char) :
    instruction line text ≠ .error (.duplicateLabel name) := by
  unfold instruction
  dsimp only
  split
  · rintro ⟨⟩
  · split <;> rintro ⟨⟩

/-- Labels are looked at before the rest of their line is. -/
theorem Listing.addLine_eq_duplicate_iff {last : List Char} (heads : Heads raw names last) :
    listing.addLine line raw = .error (.duplicateLabel name) ↔
      listing.addItems (names.map .label) = .error (.duplicateLabel name) := by
  unfold addLine
  rw [heads.splitLabels_eq]
  dsimp only
  rw [define_eq]
  cases listing.addItems (names.map .label) with
  | error kind =>
    exact ⟨fun failed => congrArg _ (Except.error.inj failed),
      fun failed => congrArg _ (Except.error.inj failed)⟩
  | ok middle =>
    refine ⟨fun failed => ?_, by rintro ⟨⟩⟩
    replace failed : (if (trim last).isEmpty = true then Except.ok middle else _) = _ := failed
    split at failed
    · cases failed
    · cases read : Listing.instruction line (trim last) with
      | ok i =>
        rw [read] at failed
        cases failed
      | error kind =>
        rw [read] at failed
        cases failed
        exact absurd read (instruction_ne_duplicate _)

theorem not_nodup_of_again {known front back : List String} (again : name ∈ known ++ front) :
    ¬ (known ++ (front ++ name :: back)).Nodup := by
  rw [← List.append_assoc]
  intro distinct
  exact (List.nodup_append.mp distinct).2.2 name again name List.mem_cons_self rfl

/-- Fresh labels are taken. -/
theorem Listing.addItems_fresh (distinct : (listing.known ++ Item.labels items).Nodup) :
    ∃ result, listing.addItems items = .ok result ∧
      result.known = listing.known ++ Item.labels items := by
  rcases addItems_cases (List.nodup_append.mp distinct).1 items with
    ⟨result, added, all, -⟩ | ⟨front, name, back, whole, -, again, -⟩
  · exact ⟨result, added, all⟩
  · exact absurd (whole ▸ distinct) (not_nodup_of_again again)

theorem Item.labels_map (names : List String) : Item.labels (names.map .label) = names := by
  simpa using Item.labels_line names none

theorem Listing.addLine_fresh {i : Option Instruction} (here : Line line raw names i)
    (distinct : (listing.known ++ names).Nodup) :
    ∃ result, listing.addLine line raw = .ok result ∧ result.known = listing.known ++ names := by
  have read := ofLine_eq_ok_iff.mpr ⟨names, i, here, rfl⟩
  rw [← Item.labels_line names i] at distinct
  obtain ⟨result, added, all⟩ := addItems_fresh distinct
  rw [Item.labels_line] at all
  exact ⟨result, addLine_eq_ok_iff.mpr ⟨_, read, added⟩, all⟩

theorem Listing.line_of_addLine (distinct : listing.known.Nodup)
    (added : listing.addLine line raw = .ok result) :
    ∃ names i, Line line raw names i ∧ result.known = listing.known ++ names ∧
      result.known.Nodup := by
  obtain ⟨items, read, added⟩ := addLine_eq_ok_iff.mp added
  obtain ⟨names, i, here, rfl⟩ := ofLine_eq_ok_iff.mp read
  refine ⟨names, i, here, ?_⟩
  rcases addItems_cases distinct (names.map .label ++ i.toList.map .instruction) with
    ⟨result', added', all, unique⟩ | ⟨_, _, _, -, -, -, failed⟩
  · cases added.symm.trans added'
    rw [Item.labels_line] at all
    exact ⟨all, unique⟩
  · cases added.symm.trans failed

/-- Which of the labels of a line is known already. -/
theorem Listing.addItems_duplicate_iff (distinct : listing.known.Nodup) :
    listing.addItems (names.map .label) = .error (.duplicateLabel name) ↔
      ∃ front back, names = front ++ name :: back ∧ (listing.known ++ front).Nodup ∧
        name ∈ listing.known ++ front := by
  constructor
  · intro failed
    rcases addItems_cases distinct (names.map .label) with
      ⟨result, added, -⟩ | ⟨front, name', back, whole, fresh, again, failed'⟩
    · cases failed.symm.trans added
    · cases failed.symm.trans failed'
      exact ⟨front, back, Item.labels_map names ▸ whole, fresh, again⟩
  · rintro ⟨front, back, rfl, fresh, again⟩
    rw [← Item.labels_map front] at fresh
    obtain ⟨middle, added, all⟩ := addItems_fresh fresh
    rw [Item.labels_map] at all
    rw [List.map_append, addItems_append_eq, added]
    have known : (middle.labels.lookup name).isSome = true := lookup_isSome_iff.mpr (all ▸ again)
    change middle.addItems (.label name :: back.map .label) = _
    rw [addItems, addItem, if_pos known]
    rfl

/-- The first label that is defined again stands on a line: the lines before it can be read, and
their labels and those in front of it differ from each other. -/
def Repeats (known : List String) (first : Nat) (raws : List (List Char)) (line : Nat)
    (name : String) : Prop :=
  ∃ before raw after items front back last, raws = before ++ raw :: after ∧
    line = first + before.length ∧
    Lines first before items ∧ Heads raw (front ++ name :: back) last ∧
    (known ++ Item.labels items ++ front).Nodup ∧ name ∈ known ++ Item.labels items ++ front

theorem Item.labels_lines (names : List String) (i : Option Instruction) (items : List Item) :
    Item.labels (names.map .label ++ i.toList.map .instruction ++ items) =
      names ++ Item.labels items := by
  have joined : Item.labels (names.map .label ++ i.toList.map .instruction ++ items) =
      Item.labels (names.map .label ++ i.toList.map .instruction) ++ Item.labels items :=
        List.filterMap_append
  rw [joined, Item.labels_line]

theorem Listing.addLines_duplicate_iff {l : Nat} (distinct : listing.known.Nodup) :
    listing.addLines line raws = .error ⟨l, .duplicateLabel name⟩ ↔
      Repeats listing.known line raws l name := by
  induction raws generalizing listing line with
  | nil =>
    refine ⟨by rintro ⟨⟩, ?_⟩
    rintro ⟨before, raw, after, _, _, _, _, whole, -⟩
    simp at whole
  | cons raw raws ih =>
    rw [addLines]
    constructor
    · intro failed
      split at failed
      · rename_i kind here
        cases failed
        obtain ⟨names, last, heads⟩ := exists_heads raw
        obtain ⟨front, back, rfl, fresh, again⟩ :=
          (addItems_duplicate_iff distinct).mp ((addLine_eq_duplicate_iff heads).mp here)
        have nothing : listing.known ++ Item.labels [] ++ front = listing.known ++ front := by
          rw [List.append_assoc]
          rfl
        exact ⟨[], raw, raws, [], front, back, last, rfl, rfl, .nil, heads, nothing ▸ fresh,
          nothing ▸ again⟩
      · rename_i result added
        obtain ⟨names, i, here, all, unique⟩ := line_of_addLine distinct added
        obtain ⟨before, raw', after, items, front, back, last, rfl, rfl, lines, heads, fresh,
          again⟩ :=
          (ih unique).mp failed
        have more : listing.known ++
            Item.labels (names.map .label ++ i.toList.map .instruction ++ items) ++ front =
            result.known ++ Item.labels items ++ front := by
          rw [Item.labels_lines, all, List.append_assoc listing.known names]
        refine ⟨raw :: before, raw', after, _, front, back, last, rfl, ?_, .cons here lines, heads,
          more ▸ fresh, more ▸ again⟩
        rw [List.length_cons]
        omega
    · rintro ⟨_ | ⟨raw', before⟩, raw'', after, items, front, back, last, whole, rfl, lines, heads,
        fresh, again⟩
      · cases whole
        cases lines
        rw [show listing.known ++ Item.labels [] ++ front =
          listing.known ++ front by rw [List.append_assoc]; rfl]
          at fresh again
        have failed := (addItems_duplicate_iff distinct).mpr ⟨front, back, rfl, fresh, again⟩
        rw [(addLine_eq_duplicate_iff heads).mpr failed]
      · cases whole
        cases lines with
        | @cons _ _ _ names i items here lines =>
          rw [Item.labels_lines, ← List.append_assoc listing.known] at fresh again
          obtain ⟨result, added, all⟩ :=
            addLine_fresh here (List.nodup_append.mp (List.nodup_append.mp fresh).1).1
          have unique : result.known.Nodup :=
            all ▸ (List.nodup_append.mp (List.nodup_append.mp fresh).1).1
          rw [added]
          rw [← all] at fresh again
          refine (ih unique).mpr ⟨before, raw'', after, items, front, back, last, rfl, ?_, lines,
            heads, fresh, again⟩
          rw [List.length_cons]
          omega

/-- When lines can be read up to one that repeats a label, a repeated label is what is found. -/
theorem Listing.exists_duplicate {before after : List (List Char)} {last : List Char}
    (lines : Lines line before items) (heads : Heads raw names last)
    (distinct : listing.known.Nodup)
    (again : ¬ (listing.known ++ (Item.labels items ++ names)).Nodup) :
    ∃ l name, listing.addLines line (before ++ raw :: after) =
      .error ⟨l, .duplicateLabel name⟩ := by
  -- A line either repeats a label itself, or leaves a listing that knows its labels too.
  have stops : ∀ {listing : Listing} {line raw names last rest}, Heads raw names last →
      listing.known.Nodup →
      ¬ (listing.known ++ names).Nodup →
      ∃ l name, listing.addLines line (raw :: rest) = .error ⟨l, .duplicateLabel name⟩ := by
    intro listing line raw names last rest heads distinct again
    rcases addItems_cases distinct (names.map .label) with
      ⟨result, -, all, unique⟩ | ⟨_, name, _, -, -, -, failed⟩
    · rw [Item.labels_map] at all
      exact absurd (all ▸ unique) again
    · refine ⟨line, name, ?_⟩
      rw [addLines, (addLine_eq_duplicate_iff heads).mpr failed]
  induction lines generalizing listing with
  | nil => exact stops heads distinct again
  | @cons line raw' raws names' i items here _ ih =>
    by_cases fresh : (listing.known ++ names').Nodup
    · obtain ⟨result, added, all⟩ := addLine_fresh here fresh
      rw [Item.labels_lines, List.append_assoc, ← List.append_assoc listing.known, ← all] at again
      obtain ⟨l, name, failed⟩ := ih (all ▸ fresh) again
      refine ⟨l, name, ?_⟩
      rw [List.cons_append, addLines, added]
      exact failed
    · obtain ⟨last', heads'⟩ := here.heads
      exact stops heads' distinct fresh

end Repetition

section Errors

variable {labels : List (String × Nat)} {name : String}

theorem immediate_ne_duplicate (width : Width) (text : List Char) :
    immediate width text ≠ .error (.duplicateLabel name) := by
  fun_cases immediate width text <;> rintro ⟨⟩

theorem operandValue_ne_duplicate (spec : OperandSpec) (text : List Char) :
    operandValue labels spec text ≠ .error (.duplicateLabel name) := by
  unfold operandValue
  cases spec.mode with
  | register => fun_cases register text <;> rintro ⟨⟩
  | immediate => exact immediate_ne_duplicate spec.width text
  | address =>
    dsimp only
    fun_cases address labels spec.width text
    case case4 => exact immediate_ne_duplicate spec.width text
    all_goals rintro ⟨⟩

theorem encodeOperands_ne_duplicate (specs : List OperandSpec) (texts : List (List Char)) :
    encodeOperands labels specs texts ≠ .error (.duplicateLabel name) := by
  fun_induction encodeOperands labels specs texts with
  | case1 spec specs text texts ih =>
    cases value : operandValue labels spec text with
    | error kind =>
      intro failed
      cases failed
      exact operandValue_ne_duplicate spec text value
    | ok n =>
      cases rest : encodeOperands labels specs texts with
      | error kind =>
        intro failed
        cases failed
        exact ih rest
      | ok bytes => rintro ⟨⟩
  | case2 => rintro ⟨⟩

/-- Operands never fail for a label that is defined again. -/
theorem encodeAll_ne_duplicate (is : List Instruction) (line : Nat) :
    encodeAll labels is ≠ .error ⟨line, .duplicateLabel name⟩ := by
  induction is with
  | nil => rintro ⟨⟩
  | cons i is ih =>
    rw [encodeAll, Instruction.encode]
    cases operands : encodeOperands labels i.op.operands i.operands with
    | error kind =>
      intro failed
      cases failed
      exact encodeOperands_ne_duplicate _ _ operands
    | ok bytes =>
      cases rest : encodeAll labels is with
      | error e =>
        intro failed
        cases failed
        exact ih rest
      | ok bytes' => rintro ⟨⟩

end Errors

theorem addLines_eq_ok_iff {listing result : Listing} {line : Nat} {raws : List (List Char)} :
    listing.addLines line raws = .ok result ↔
      ∃ items, Lines line raws items ∧ listing.addItems items = .ok result := by
  constructor
  · intro added
    obtain ⟨items, read, added⟩ := Listing.addLines_items added
    exact ⟨items, ofLines_eq_ok_iff.mp read, added⟩
  · rintro ⟨items, lines, added⟩
    induction lines generalizing listing with
    | nil => exact congrArg Except.ok (Except.ok.inj added)
    | cons here _ ih =>
      rw [Listing.addItems_append_eq] at added
      obtain ⟨middle, first, rest⟩ := bind_eq_ok.mp added
      rw [Listing.addLines, Listing.addLine_eq_ok_iff.mpr
        ⟨_, ofLine_eq_ok_iff.mpr ⟨_, _, here, rfl⟩, first⟩]
      exact ih rest

theorem assemble_eq_ok_iff_encodeAll {source : String} {code : Bytecode} :
    assemble source = .ok code ↔
    ∃ items result, Lines 1 (Text.lines source.toList) items ∧
      ({} : Listing).addItems items = .ok result ∧
      encodeAll result.labels (Item.instructions items) = .ok code.toList := by
  unfold assemble Listing.ofSource
  constructor
  · intro accepted
    obtain ⟨listing, listed, encodes⟩ := bind_eq_ok.mp accepted
    obtain ⟨bytes, encoded, done⟩ := bind_eq_ok.mp encodes
    obtain ⟨result, added, reversed⟩ := bind_eq_ok.mp listed
    cases done
    cases reversed
    obtain ⟨items, lines, added⟩ := addLines_eq_ok_iff.mp added
    refine ⟨items, result, lines, added, ?_⟩
    rw [Listing.addItems_instructions added, List.append_nil, List.reverse_reverse] at encoded
    exact encoded
  · rintro ⟨items, result, lines, added, encoded⟩
    have reversed : result.instructions.reverse = Item.instructions items := by
      rw [Listing.addItems_instructions added, List.append_nil, List.reverse_reverse]
    rw [addLines_eq_ok_iff.mpr ⟨items, lines, added⟩]
    change (do return Bytecode.ofList (← encodeAll result.labels result.instructions.reverse)) = _
    rw [reversed, encoded]
    rfl

theorem Lists.map_op {stands : String → Nat → Prop} {is : List Instruction} {ds : List Decoded}
    (lists : List.Forall₂ (Lists stands) is ds) : ds.map Decoded.op = is.map Instruction.op := by
  induction lists with
  | nil => rfl
  | cons first _ ih => rw [List.map_cons, List.map_cons, first.op, ih]

theorem Listing.addItems_distinct {items : List Item} {result : Listing}
    (added : ({} : Listing).addItems items = .ok result) : (Item.labels items).Nodup := by
  rcases addItems_cases (show ({} : Listing).known.Nodup from List.nodup_nil) items with
    ⟨result', added', all, unique⟩ | ⟨_, _, _, -, -, -, failed⟩
  · rwa [all] at unique
  · cases added.symm.trans failed

/-- A program in assembly has code if all its lines can be read, each label stands at one place and
operands can be encoded, and then the code lists its instructions one by one. -/
theorem assemble_eq_ok_iff (source : String) (code : Bytecode) : assemble source = .ok code ↔
    ∃ items ds, Lines 1 (Text.lines source.toList) items ∧ (Item.labels items).Nodup ∧
      disassemble code = .ok ds ∧
      List.Forall₂ (Lists (Stands items ds code.size)) (Item.instructions items) ds := by
  have counted : ∀ {items}, Lines 1 (Text.lines source.toList) items →
      ∀ i ∈ Item.instructions items, i.operands.length = i.op.operands.length :=
    fun lines i member => Item.ofLines_counts (ofLines_eq_ok_iff.mpr lines) i
      (Item.mem_instructions.mp member)
  have same : ∀ {items result ds} {stands : String → Nat → Prop},
      ({} : Listing).addItems items = .ok result →
      Row 0 ds code.toList → List.Forall₂ (Lists stands) (Item.instructions items) ds →
      Found result.labels = Stands items ds code.size := by
    intro items result ds stands added row lists
    funext name offset
    rw [← code.length_toList]
    exact propext (found_iff_stands added (Listing.addItems_distinct added) row (Lists.map_op lists)
      name offset)
  rw [assemble_eq_ok_iff_encodeAll]
  constructor
  · rintro ⟨items, result, lines, added, encoded⟩
    obtain ⟨ds, row, lists⟩ := (encodeAll_eq_ok_iff (counted lines) 0).mp encoded
    rw [same added row lists] at lists
    exact ⟨items, ds, lines, Listing.addItems_distinct added,
      (disassemble_eq_ok_iff code ds).mpr row, lists⟩
  · rintro ⟨items, ds, lines, distinct, listed, lists⟩
    have row := (disassemble_eq_ok_iff code ds).mp listed
    have fresh : (({} : Listing).known ++ Item.labels items).Nodup := distinct
    obtain ⟨result, added, -⟩ := Listing.addItems_fresh fresh
    rw [← same added row lists] at lists
    exact ⟨items, result, lines, added,
      (encodeAll_eq_ok_iff (counted lines) 0).mpr ⟨ds, row, lists⟩⟩

theorem assemble_eq_duplicate_iff (source : String) (line : Nat) (name : String) :
    assemble source = .error ⟨line, .duplicateLabel name⟩ ↔
      Repeats [] 1 (Text.lines source.toList) line name := by
  have repeats : _ ↔ Repeats [] 1 (Text.lines source.toList) line name :=
    Listing.addLines_duplicate_iff (show ({} : Listing).known.Nodup from List.nodup_nil)
  rw [← repeats, assemble, Listing.ofSource]
  cases Listing.addLines {} 1 (Text.lines source.toList) with
  | error e =>
    exact ⟨fun failed => congrArg _ (Except.error.inj failed),
      fun failed => congrArg _ (Except.error.inj failed)⟩
  | ok listing =>
    refine ⟨fun failed => ?_, by rintro ⟨⟩⟩
    replace failed :
        (do return Bytecode.ofList (← encodeAll listing.labels listing.instructions.reverse)) = _ :=
      failed
    cases encoded : encodeAll listing.labels listing.instructions.reverse with
    | error e =>
      rw [encoded] at failed
      cases failed
      exact absurd encoded (encodeAll_ne_duplicate _ _)
    | ok bytes =>
      rw [encoded] at failed
      cases failed

/-- Code is laid out as the source has it. Each instruction of the source is listed by the
disassembler, in order, with its opcode and its operands, and a label as an operand is the offset of
the instruction behind the place where the label is defined, be this before or after. A label that
is defined again is what the assembler complains of whenever all lines before it can be read,
whatever else is wrong on its line or later. -/
theorem assemble_laid_out (source : String) :
    (∀ code, assemble source = .ok code ↔
      ∃ items ds, Lines 1 (Text.lines source.toList) items ∧ (Item.labels items).Nodup ∧
        disassemble code = .ok ds ∧
        List.Forall₂ (Lists (Stands items ds code.size)) (Item.instructions items) ds) ∧
    (∀ line name, assemble source = .error ⟨line, .duplicateLabel name⟩ ↔
      Repeats [] 1 (Text.lines source.toList) line name) ∧
    ∀ before raw after items names last, Text.lines source.toList = before ++ raw :: after →
      Lines 1 before items → Heads raw names last → ¬ (Item.labels items ++ names).Nodup →
      ∃ line name, assemble source = .error ⟨line, .duplicateLabel name⟩ := by
  refine ⟨assemble_eq_ok_iff source, assemble_eq_duplicate_iff source, ?_⟩
  intro before raw after items names last whole lines heads again
  have distinct : ({} : Listing).known.Nodup := List.nodup_nil
  obtain ⟨line, name, failed⟩ := Listing.exists_duplicate lines heads distinct again
  rw [← whole, Listing.addLines_duplicate_iff distinct] at failed
  exact ⟨line, name, (assemble_eq_duplicate_iff source line name).mpr failed⟩

/-- One label is used before it is defined, at the end, and one after. The second source defines a
label again on a line with an unknown mnemonic. -/
theorem assemble_laid_out_labels :
    let source := "jmp end\nback: mov_ir %R1, $-0x2 ; two\njnz %r1, back\nend:"
    let code : Bytecode :=
      ⟨#[7, 21, 0, 0, 0, 2, 1, 0xfe, 0xff, 0xff, 0xff, 0xff, 0xff, 0xff, 0xff, 8, 1, 5, 0, 0, 0]⟩
    (assemble source = .ok code ∧
      ∃ items ds, Lines 1 (Text.lines source.toList) items ∧ (Item.labels items).Nodup ∧
        disassemble code = .ok ds ∧
        List.Forall₂ (Lists (Stands items ds code.size)) (Item.instructions items) ds) ∧
    ∃ line name, assemble "a: nop\nb: a: halt" = .error ⟨line, .duplicateLabel name⟩ := by
  intro source code
  have accepted : assemble source = .ok code := by decide +kernel
  refine ⟨⟨accepted, ((assemble_laid_out source).1 code).mp accepted⟩, ?_⟩
  obtain ⟨names, last, heads⟩ := exists_heads "b: a: halt".toList
  have lines : Lines 1 ["a: nop".toList] [.label "a", .instruction ⟨1, .nop, []⟩] :=
    ofLines_eq_ok_iff.mp (by decide +kernel)
  have split : splitLabels (trim (dropComment "b: a: halt".toList)) =
      (["b", "a"], "halt".toList) := by decide +kernel
  obtain ⟨rfl, -⟩ := Prod.mk.inj (heads.splitLabels_eq.symm.trans split)
  exact (assemble_laid_out "a: nop\nb: a: halt").2.2 ["a: nop".toList] "b: a: halt".toList [] _ _
    last (by decide +kernel) lines
    heads (by decide)

end ScriptKit.Assembly
