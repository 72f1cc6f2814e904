import ScriptKit.Assembly.Encode
import ScriptKit.Proofs.Assembly.Encoding

/-! The labels and instructions that the lines of a program in assembly are made of. -/

namespace ScriptKit.Assembly

inductive Item where
  | label (name : String)
  | instruction (i : Instruction)
deriving DecidableEq, Repr

namespace Item

def instruction? : Item → Option Instruction
  | label _ => none
  | instruction i => some i

def ofLine (line : Nat) (raw : List Char) : Except AsmErrorKind (List Item) := do
  let (names, text) := splitLabels (Text.trim (dropComment raw))
  if text.isEmpty then return names.map label
  let i ← Listing.instruction line text
  return names.map label ++ [instruction i]

def instructions (items : List Item) : List Instruction :=
  items.filterMap instruction?

def opcodes (items : List Item) : List Opcode :=
  (instructions items).map Instruction.op

def ofLines (line : Nat) : List (List Char) → Except AsmErrorKind (List Item)
  | [] => .ok []
  | raw :: rest => do
    let first ← ofLine line raw
    let items ← ofLines (line + 1) rest
    return first ++ items

def ofSource (source : String) : Except AsmErrorKind (List Item) :=
  ofLines 1 (Text.lines source.toList)

/-- The index of the first instruction behind a label, or that of the end. -/
def indexOf? (name : String) : List Item → Option Nat
  | [] => none
  | label other :: items => if other = name then some 0 else indexOf? name items
  | instruction _ :: items => (indexOf? name items).map (· + 1)

end Item

namespace Listing

def addItem (listing : Listing) : Item → Except AsmErrorKind Listing
  | .label name =>
    if (listing.labels.lookup name).isSome then .error (.duplicateLabel name)
    else .ok { listing with labels := (name, listing.size) :: listing.labels }
  | .instruction i => .ok { listing with
      instructions := i :: listing.instructions
      size := listing.size + i.op.size }

def addItems (listing : Listing) : List Item → Except AsmErrorKind Listing
  | [] => .ok listing
  | item :: items => do addItems (← listing.addItem item) items

theorem addItems_append {listing middle : Listing} {front : List Item}
    (added : listing.addItems front = .ok middle) (back : List Item) :
    listing.addItems (front ++ back) = middle.addItems back := by
  induction front generalizing listing with
  | nil =>
    cases added
    rfl
  | cons item front ih =>
    obtain ⟨next, first, rest⟩ := bind_eq_ok.mp added
    rw [List.cons_append, addItems, first]
    exact ih rest

theorem define_eq (listing : Listing) (names : List String) :
    listing.define names = listing.addItems (names.map .label) := by
  induction names generalizing listing with
  | nil => rfl
  | cons name names ih =>
    rw [define, List.map_cons, addItems, addItem]
    split
    · rfl
    · exact ih _

theorem addLine_items {listing result : Listing} {line : Nat} {raw : List Char}
    (added : listing.addLine line raw = .ok result) :
    ∃ items, Item.ofLine line raw = .ok items ∧ listing.addItems items = .ok result := by
  unfold addLine at added
  unfold Item.ofLine
  generalize splitLabels (Text.trim (dropComment raw)) = parts at added ⊢
  obtain ⟨names, text⟩ := parts
  dsimp only at added ⊢
  obtain ⟨middle, defined, added⟩ := bind_eq_ok.mp added
  rw [define_eq] at defined
  split at added
  · rename_i empty
    cases added
    rw [if_pos empty]
    exact ⟨_, rfl, defined⟩
  · rename_i filled
    obtain ⟨i, read, added⟩ := bind_eq_ok.mp added
    rw [if_neg filled, read]
    refine ⟨_, rfl, ?_⟩
    rw [addItems_append defined]
    exact added

theorem addLines_items {listing result : Listing} {line : Nat} {raws : List (List Char)}
    (added : listing.addLines line raws = .ok result) :
    ∃ items, Item.ofLines line raws = .ok items ∧ listing.addItems items = .ok result := by
  induction raws generalizing listing line with
  | nil => exact ⟨[], rfl, congrArg Except.ok (Except.ok.inj added)⟩
  | cons raw raws ih =>
    unfold addLines at added
    split at added
    · cases added
    · rename_i middle first
      obtain ⟨front, read, added_front⟩ := addLine_items first
      obtain ⟨back, reads, added_back⟩ := ih added
      refine ⟨front ++ back, ?_, ?_⟩
      · rw [Item.ofLines, read, reads]
        rfl
      · rw [addItems_append added_front, added_back]

/-- Labels stand for the offsets of the instructions that they stand in front of. -/
theorem addItems_labels {listing result : Listing} {items : List Item}
    (added : listing.addItems items = .ok result) (name : String) :
    result.labels.lookup name = (listing.labels.lookup name).or
      ((Item.indexOf? name items).map (listing.size + offsetAt (Item.opcodes items) ·)) := by
  induction items generalizing listing with
  | nil =>
    cases added
    exact (Option.or_none).symm
  | cons item items ih =>
    cases item with
    | label other =>
      rw [addItems, addItem] at added
      split at added
      · cases added
      · rename_i fresh
        rw [ih added, Item.indexOf?]
        by_cases same : other = name
        · have unknown : listing.labels.lookup name = none := by
            rw [← same]
            exact Option.not_isSome_iff_eq_none.mp fresh
          rw [if_pos same, unknown, same, List.lookup_cons_self]
          cases Item.opcodes (.label name :: items) <;> rfl
        · have skipped : (name == other) = false := beq_eq_false_iff_ne.mpr (Ne.symm same)
          rw [if_neg same, List.lookup_cons, skipped]
          rfl
    | instruction i =>
      rw [ih added, Item.indexOf?, Option.map_map]
      congr 2
      funext k
      exact Nat.add_assoc _ _ _

theorem addItems_instructions {listing result : Listing} {items : List Item}
    (added : listing.addItems items = .ok result) :
    result.instructions = (Item.instructions items).reverse ++ listing.instructions := by
  induction items generalizing listing with
  | nil =>
    cases added
    rfl
  | cons item items ih =>
    cases item with
    | label other =>
      rw [addItems, addItem] at added
      split at added
      · cases added
      · rw [ih added]
        rfl
    | instruction i =>
      have shape : Item.instructions (.instruction i :: items) = i :: Item.instructions items := rfl
      rw [ih added, shape, List.reverse_cons, List.append_assoc, List.singleton_append]

end Listing

theorem Item.indexOf?_le {name : String} {items : List Item} {k : Nat}
    (found : indexOf? name items = some k) : k ≤ (instructions items).length := by
  induction items generalizing k with
  | nil => cases found
  | cons item items ih =>
    cases item with
    | label other =>
      rw [indexOf?] at found
      split at found
      · cases found
        exact Nat.zero_le _
      · exact ih found
    | instruction i =>
      obtain ⟨k', found', rfl⟩ := Option.map_eq_some_iff.mp found
      exact Nat.succ_le_succ (ih found')

theorem Item.mem_instructions {items : List Item} {i : Instruction} :
    i ∈ instructions items ↔ .instruction i ∈ items := by
  unfold instructions
  rw [List.mem_filterMap]
  constructor
  · rintro ⟨item, member, same⟩
    cases item with
    | label name => cases same
    | instruction j =>
      cases same
      exact member
  · intro member
    exact ⟨_, member, rfl⟩

theorem Listing.instruction_count {line : Nat} {text : List Char} {i : Instruction}
    (read : instruction line text = .ok i) : i.operands.length = i.op.operands.length := by
  unfold instruction at read
  dsimp only at read
  split at read
  · cases read
  · split at read
    · rename_i count
      cases read
      exact count
    · cases read

theorem Item.ofLine_counts {line : Nat} {raw : List Char} {items : List Item}
    (read : ofLine line raw = .ok items) :
    ∀ i, .instruction i ∈ items → i.operands.length = i.op.operands.length := by
  unfold ofLine at read
  dsimp only at read
  split at read
  · cases read
    intro i member
    obtain ⟨name, _, impossible⟩ := List.mem_map.mp member
    cases impossible
  · obtain ⟨j, parsed, done⟩ := bind_eq_ok.mp read
    cases done
    intro i member
    rcases List.mem_append.mp member with front | last
    · obtain ⟨name, _, impossible⟩ := List.mem_map.mp front
      cases impossible
    · cases List.mem_singleton.mp last
      exact Listing.instruction_count parsed

theorem Item.ofLines_counts {line : Nat} {raws : List (List Char)} {items : List Item}
    (read : ofLines line raws = .ok items) :
    ∀ i, .instruction i ∈ items → i.operands.length = i.op.operands.length := by
  induction raws generalizing line items with
  | nil =>
    cases read
    exact fun i member => nomatch member
  | cons raw raws ih =>
    obtain ⟨front, first, read⟩ := bind_eq_ok.mp read
    obtain ⟨back, rest, done⟩ := bind_eq_ok.mp read
    cases done
    intro i member
    rcases List.mem_append.mp member with here | later
    · exact ofLine_counts first i here
    · exact ih rest i later

theorem register_le {text : List Char} {n : Nat} (read : register text = .ok n) : n ≤ 9 := by
  unfold register at read
  split at read
  · dsimp only at read
    split at read
    · split at read
      · cases read
        assumption
      · cases read
    · cases read
  · cases read

theorem immediate_lt {width : Width} {text : List Char} {n : Nat}
    (read : immediate width text = .ok n) : n < width.count := by
  unfold immediate at read
  extract_lets body at read
  split at read
  split at read
  · cases read
  · split at read
    · split at read
      · cases read
        exact Nat.mod_lt _ (by cases width <;> decide)
      · cases read
    · split at read
      · cases read
        assumption
      · cases read

theorem encode_eq_ok {labels : List (String × Nat)} {bytes : List UInt8} {i : Instruction}
    (encoded : i.encode labels = .ok bytes) :
    ∃ operands, encodeOperands labels i.op.operands i.operands = .ok operands ∧
      bytes = i.op.byte :: operands := by
  unfold Instruction.encode at encoded
  split at encoded
  · rename_i operands done
    exact ⟨operands, done, (Except.ok.inj encoded).symm⟩
  · cases encoded

end ScriptKit.Assembly
