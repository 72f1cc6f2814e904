import ScriptKit.Assembly.Encode
import ScriptKit.Proofs.Assembly.Encoding
import ScriptKit.Proofs.Text.Fields
import ScriptKit.Proofs.Text.Numeral

/-! Code, disassembled and assembled again, is the same code.

Each line that is written has one instruction and nothing in it that the assembler takes for a
label, a comment or a separator, and each operand is read as the number it was written for. -/

namespace ScriptKit

def Assembly.isInert (c : Char) : Bool :=
  !Text.isWhiteSpace c && c ≠ ',' && c ≠ ';' && c ≠ '#'

theorem Assembly.isInert_digitChar {d : Nat} (digit : d < 16) : isInert d.digitChar = true := by
  revert d
  decide

namespace Operand
open Assembly

theorem toText_register (r : GeneralRegister) :
    (register r).toText.toList = '%' :: 'r' :: Nat.toDigits 10 r.val := by
  simp [toText, Register.toText, Register.name, String.toList_append, Nat.repr]

theorem toText_number (n : Nat) : (Text.hex 1 n).toList = '0' :: 'x' :: Nat.toDigits 16 n := by
  rw [Text.hex, Text.hexDigits_one, String.toList_append]
  exact congrArg (['0', 'x'] ++ ·) String.toList_ofList

theorem toText_ne_nil (o : Operand) : o.toText.toList ≠ [] := by
  cases o with
  | register r => simp [toText_register]
  | immediate n | address n => simp [toText, toText_number]

theorem toText_inert (o : Operand) : ∀ c ∈ o.toText.toList, isInert c = true := by
  have digits : ∀ base n, 1 < base → base ≤ 16 → ∀ c ∈ Nat.toDigits base n, isInert c = true := by
    intro base n large small c member
    obtain ⟨d, digit, rfl⟩ := Text.mem_toDigits large member
    exact isInert_digitChar (Nat.lt_of_lt_of_le digit small)
  cases o with
  | register r =>
    rw [toText_register]
    refine List.forall_mem_cons.mpr ⟨by decide, List.forall_mem_cons.mpr ⟨by decide, ?_⟩⟩
    exact digits 10 r.val (by decide) (by decide)
  | immediate n | address n =>
    rw [toText, toText_number]
    refine List.forall_mem_cons.mpr ⟨by decide, List.forall_mem_cons.mpr ⟨by decide, ?_⟩⟩
    exact digits 16 n.toNat (by decide) (by decide)

theorem register_toText (r : GeneralRegister) :
    Assembly.register (register r).toText.toList = .ok r.val := by
  rw [toText_register]
  simp only [Assembly.register, Text.readNat?_toDigits (show 1 < 10 by decide) (by decide)]
  exact if_pos (Nat.le_of_lt_succ r.isLt)

theorem immediate_hex {width : Width} {n : Nat} (fits : n < width.count) :
    Assembly.immediate width (Text.hex 1 n).toList = .ok n := by
  rw [toText_number]
  have read : magnitude? ('0' :: 'x' :: Nat.toDigits 16 n) = some n :=
    Text.readNat?_toDigits (by decide) (by decide) n
  simp [Assembly.immediate, read, fits]

theorem operandValue_toText {o : Operand} {spec : OperandSpec} (fits : o.Fits spec)
    (labels : List (String × Nat)) :
    Assembly.operandValue labels spec o.toText.toList = .ok o.value := by
  obtain ⟨width, mode⟩ := spec
  cases o with
  | register r =>
    cases fits
    exact register_toText r
  | immediate n =>
    obtain ⟨rfl, small⟩ := fits
    rw [Assembly.operandValue, toText]
    exact immediate_hex small
  | address n =>
    obtain ⟨rfl, small⟩ := fits
    -- A number begins with a digit and so is no label.
    have number : isIdentifier (address n).toText.toList = false := by
      rw [toText, toText_number]
      rfl
    have skip : Assembly.address labels width (address n).toText.toList =
        Assembly.immediate width (address n).toText.toList := by
      rw [Assembly.address, if_neg (by simp [number])]
    rw [Assembly.operandValue, skip, toText]
    exact immediate_hex small

theorem encodeOperands_toText {os : List Operand} {specs : List OperandSpec}
    (fit : List.Forall₂ Fits os specs) (labels : List (String × Nat)) :
    Assembly.encodeOperands labels specs (os.map fun o => o.toText.toList) =
      .ok (encode specs os) := by
  induction fit with
  | nil => rfl
  | cons fits _ ih =>
    rw [List.map_cons, Assembly.encodeOperands, operandValue_toText fits, ih]
    rfl

end Operand

namespace Opcode

theorem ofMnemonic?_mnemonic (op : Opcode) : ofMnemonic? op.mnemonic.toList = some op := by
  cases op <;> decide

/-- A mnemonic could be a label, were there a colon behind it. -/
theorem mnemonic_identifier (op : Opcode) : ∃ c cs, op.mnemonic.toList = c :: cs ∧
    isLetter c = true ∧ ∀ c ∈ cs, isLetterOrDigit c = true := by
  cases op <;> exact ⟨_, _, rfl, rfl, List.all_eq_true.mp rfl⟩

theorem mnemonic_inert (op : Opcode) : ∀ c ∈ op.mnemonic.toList, Assembly.isInert c = true := by
  apply List.all_eq_true.mp
  cases op <;> rfl

end Opcode

namespace Assembly

def Inert (texts : List (List Char)) : Prop :=
  ∀ text ∈ texts, text ≠ [] ∧ ∀ c ∈ text, isInert c = true

section Written

variable {texts : List (List Char)}

theorem mem_intercalate {c : Char} (member : c ∈ [',', ' '].intercalate texts) :
    c = ',' ∨ c = ' ' ∨ ∃ text ∈ texts, c ∈ text := by
  induction texts with
  | nil => cases member
  | cons text texts ih =>
    cases texts with
    | nil => exact .inr (.inr ⟨text, List.mem_singleton.mpr rfl, by simpa using member⟩)
    | cons next texts =>
      rw [List.intercalate_cons_cons, List.mem_append, List.mem_append] at member
      rcases member with (here | between) | later
      · exact .inr (.inr ⟨text, List.mem_cons_self, here⟩)
      · simp only [List.mem_cons, List.not_mem_nil, or_false] at between
        rcases between with comma | blank
        · exact .inl comma
        · exact .inr (.inl blank)
      · rcases ih later with comma | blank | ⟨text', member', inside⟩
        · exact .inl comma
        · exact .inr (.inl blank)
        · exact .inr (.inr ⟨text', List.mem_cons_of_mem _ member', inside⟩)

theorem intercalate_ne_nil (inert : Inert texts) (some_text : texts ≠ []) :
    [',', ' '].intercalate texts ≠ [] := by
  obtain ⟨text, texts, rfl⟩ := List.exists_cons_of_ne_nil some_text
  obtain ⟨c, cs, rfl⟩ := List.exists_cons_of_ne_nil (inert _ List.mem_cons_self).1
  rw [List.intercalate_cons_cons_left]
  exact List.cons_ne_nil _ _

theorem getLast?_intercalate (inert : Inert texts) :
    ∀ c ∈ ([',', ' '].intercalate texts).getLast?, isInert c = true := by
  induction texts with
  | nil => exact fun c member => nomatch member
  | cons text texts ih =>
    obtain ⟨⟨_, first⟩, others⟩ := List.forall_mem_cons.mp inert
    cases texts with
    | nil =>
      rw [List.intercalate_singleton]
      exact fun c member => first c (List.mem_of_getLast? member)
    | cons next texts =>
      have filled := intercalate_ne_nil others (List.cons_ne_nil _ _)
      rw [List.intercalate_cons_cons, List.getLast?_append_of_ne_nil _ filled]
      exact ih others

def writtenOperands (texts : List (List Char)) : List Char :=
  if texts.isEmpty then [] else ' ' :: [',', ' '].intercalate texts

theorem head?_writtenOperands (texts : List (List Char)) :
    ∀ c ∈ (writtenOperands texts).head?, c = ' ' := by
  unfold writtenOperands
  split
  · exact fun c member => nomatch member
  · exact fun c member => (Option.some.inj member).symm

theorem getLast?_writtenOperands (inert : Inert texts) :
    ∀ c ∈ (writtenOperands texts).getLast?, isInert c = true := by
  unfold writtenOperands
  split
  · exact fun c member => nomatch member
  · rename_i some_text
    have filled := intercalate_ne_nil inert (by simpa using some_text)
    rw [← List.singleton_append, List.getLast?_append_of_ne_nil _ filled]
    exact getLast?_intercalate inert

theorem fields_writtenOperands (inert : Inert texts) :
    Text.fields (fun c => c = ',' || Text.isWhiteSpace c) (writtenOperands texts) = texts := by
  have divided : Text.fields (fun c => c = ',' || Text.isWhiteSpace c)
      ([',', ' '].intercalate texts) = texts := by
    apply Text.fields_intercalate (List.cons_ne_nil _ _) (List.all_eq_true.mp rfl)
    intro text member
    obtain ⟨filled, plain⟩ := inert text member
    refine ⟨filled, fun c inside => ?_⟩
    have := plain c inside
    simp_all [isInert]
  unfold writtenOperands
  split
  · rename_i empty
    rw [List.isEmpty_iff.mp empty]
    rfl
  · rw [Text.fields_separator (by decide), divided]

theorem instruction_written {op : Opcode} (inert : Inert texts)
    (count : texts.length = op.operands.length) (line : Nat) :
    Listing.instruction line (op.mnemonic.toList ++ writtenOperands texts) =
      .ok ⟨line, op, texts⟩ := by
  have word : ∀ c ∈ op.mnemonic.toList, (!Text.isWhiteSpace c) = true := by
    intro c member
    have := op.mnemonic_inert c member
    simp_all [isInert]
  have behind : (writtenOperands texts).takeWhile (fun c => !Text.isWhiteSpace c) = [] ∧
      (writtenOperands texts).dropWhile (fun c => !Text.isWhiteSpace c) =
        writtenOperands texts := by
    have blank := head?_writtenOperands texts
    cases shape : writtenOperands texts with
    | nil => exact ⟨rfl, rfl⟩
    | cons c cs =>
      rw [shape] at blank
      cases blank c rfl
      exact ⟨rfl, rfl⟩
  unfold Listing.instruction
  rw [List.takeWhile_append_of_pos word, List.dropWhile_append_of_pos word, behind.1, behind.2,
    List.append_nil]
  dsimp only
  rw [op.ofMnemonic?_mnemonic]
  dsimp only
  rw [fields_writtenOperands inert, if_pos count]

theorem mem_written {op : Opcode} (inert : Inert texts) {c : Char}
    (member : c ∈ op.mnemonic.toList ++ writtenOperands texts) :
    isInert c = true ∨ c = ',' ∨ c = ' ' := by
  rcases List.mem_append.mp member with front | back
  · exact .inl (op.mnemonic_inert c front)
  · unfold writtenOperands at back
    split at back
    · cases back
    · rcases List.mem_cons.mp back with blank | inside
      · exact .inr (.inr blank)
      · rcases mem_intercalate inside with comma | blank | ⟨text, here, inside⟩
        · exact .inr (.inl comma)
        · exact .inr (.inr blank)
        · exact .inl ((inert text here).2 c inside)

theorem not_line_end {c : Char} (ordinary : isInert c = true ∨ c = ',' ∨ c = ' ') :
    c ≠ '\n' ∧ c ≠ '\r' ∧ c ≠ ';' ∧ c ≠ '#' := by
  refine ⟨?_, ?_, ?_, ?_⟩ <;> rintro rfl <;> revert ordinary <;> decide

theorem dropComment_written {op : Opcode} (inert : Inert texts) :
    dropComment (op.mnemonic.toList ++ writtenOperands texts) =
      op.mnemonic.toList ++ writtenOperands texts := by
  have all : ∀ c ∈ op.mnemonic.toList ++ writtenOperands texts, (c ≠ ';' && c ≠ '#') = true := by
    intro c member
    obtain ⟨_, _, semicolon, hash⟩ := not_line_end (mem_written inert member)
    simp [semicolon, hash]
  have whole : dropComment (op.mnemonic.toList ++ writtenOperands texts ++ []) =
      op.mnemonic.toList ++ writtenOperands texts ++ [] := List.takeWhile_append_of_pos all
  rwa [List.append_nil] at whole

theorem trim_written {op : Opcode} (inert : Inert texts) :
    Text.trim (op.mnemonic.toList ++ writtenOperands texts) =
      op.mnemonic.toList ++ writtenOperands texts := by
  have visible : ∀ {c}, isInert c = true → Text.isWhiteSpace c = false := by
    intro c inert
    simp_all [isInert]
  obtain ⟨first, rest, shape, _, _⟩ := op.mnemonic_identifier
  apply Text.trim_eq
  · rw [shape]
    intro c member
    apply visible (op.mnemonic_inert c _)
    rw [shape]
    exact Option.some.inj member ▸ List.mem_cons_self
  · -- The last character is one of an operand or, if there is none, of the mnemonic.
    intro c member
    apply visible
    rw [List.getLast?_append, Option.mem_def, Option.or_eq_some_iff] at member
    rcases member with back | ⟨_, front⟩
    · exact getLast?_writtenOperands inert c back
    · exact op.mnemonic_inert c (List.mem_of_getLast? front)

theorem label?_written (op : Opcode) (texts : List (List Char)) :
    label? (op.mnemonic.toList ++ writtenOperands texts) = none := by
  obtain ⟨first, rest, shape, letter, others⟩ := op.mnemonic_identifier
  rw [shape, List.cons_append, label?, if_pos letter, List.dropWhile_append_of_pos others]
  have blank := head?_writtenOperands texts
  cases behind : writtenOperands texts with
  | nil => rfl
  | cons c cs =>
    rw [behind] at blank
    cases blank c rfl
    rfl

theorem splitLabels_written (op : Opcode) (texts : List (List Char)) :
    splitLabels (op.mnemonic.toList ++ writtenOperands texts) =
      ([], op.mnemonic.toList ++ writtenOperands texts) := by
  rw [splitLabels]
  split
  · rfl
  · rename_i found
    rw [label?_written] at found
    cases found

theorem addLine_written {op : Opcode} (inert : Inert texts)
    (count : texts.length = op.operands.length) (listing : Listing) (line : Nat) :
    listing.addLine line (op.mnemonic.toList ++ writtenOperands texts) =
      .ok { listing with
        instructions := ⟨line, op, texts⟩ :: listing.instructions
        size := listing.size + op.size } := by
  have filled : (op.mnemonic.toList ++ writtenOperands texts).isEmpty = false := by
    obtain ⟨first, rest, shape, _, _⟩ := op.mnemonic_identifier
    rw [shape]
    rfl
  unfold Listing.addLine
  rw [dropComment_written inert, trim_written inert, splitLabels_written]
  simp only [Listing.define, Bind.bind, Except.bind, filled, instruction_written inert count]
  rfl

end Written

end Assembly

namespace Disassembly
open Assembly

def texts (d : Decoded) : List (List Char) :=
  d.operands.map fun o => o.toText.toList

theorem texts_inert (d : Decoded) : Inert (texts d) := by
  intro text member
  obtain ⟨o, _, rfl⟩ := List.mem_map.mp member
  exact ⟨o.toText_ne_nil, o.toText_inert⟩

theorem toText_eq (d : Decoded) :
    d.toText.toList = d.op.mnemonic.toList ++ writtenOperands (texts d) := by
  unfold Decoded.toText texts writtenOperands
  cases d.operands with
  | nil => exact (List.append_nil _).symm
  | cons o os =>
    dsimp only
    rw [String.toList_append, String.toList_append, String.toList_intercalate, List.map_map,
      List.append_assoc]
    rfl

def spelled (line : Nat) : List Decoded → List Instruction
  | [] => []
  | d :: ds => ⟨line, d.op, texts d⟩ :: spelled (line + 1) ds

def Fit (ds : List Decoded) : Prop :=
  ∀ d ∈ ds, List.Forall₂ Operand.Fits d.operands d.op.operands

theorem addLines_toText {ds : List Decoded} (fit : Fit ds) (listing : Listing) (line : Nat) :
    ∃ size, listing.addLines line (ds.map fun d => d.toText.toList) =
      .ok ⟨(spelled line ds).reverse ++ listing.instructions, size, listing.labels⟩ := by
  induction ds generalizing listing line with
  | nil => exact ⟨listing.size, rfl⟩
  | cons d ds ih =>
    obtain ⟨first, others⟩ := List.forall_mem_cons.mp fit
    have count : (texts d).length = d.op.operands.length := by
      rw [texts, List.length_map, first.length_eq]
    obtain ⟨size, added⟩ := ih others { listing with
      instructions := ⟨line, d.op, texts d⟩ :: listing.instructions
      size := listing.size + d.op.size } (line + 1)
    refine ⟨size, ?_⟩
    rw [List.map_cons, Listing.addLines, toText_eq, addLine_written (texts_inert d) count]
    dsimp only
    rw [added, spelled, List.reverse_cons, List.append_assoc]
    rfl

theorem encodeAll_spelled {ds : List Decoded} (fit : Fit ds) (labels : List (String × Nat))
    (line : Nat) : encodeAll labels (spelled line ds) = .ok (ds.flatMap Decoded.bytes) := by
  induction ds generalizing line with
  | nil => rfl
  | cons d ds ih =>
    obtain ⟨first, others⟩ := List.forall_mem_cons.mp fit
    have encoded : Instruction.encode labels ⟨line, d.op, texts d⟩ = .ok d.bytes := by
      rw [Instruction.encode, texts, Operand.encodeOperands_toText first]
      rfl
    rw [spelled, encodeAll, encoded, ih others]
    rfl

theorem lines_source (ds : List Decoded) :
    Text.lines (source ds).toList = ds.map fun d => d.toText.toList := by
  have joined : (source ds).toList =
      (ds.map fun d => d.toText.toList).flatMap (· ++ ['\n']) := by
    rw [source, String.toList_join, List.flatMap_map, List.flatMap_map]
    apply List.flatMap_congr
    intro d _
    exact String.toList_append
  rw [joined, Text.lines_flatMap]
  intro text member
  obtain ⟨d, _, rfl⟩ := List.mem_map.mp member
  rw [toText_eq]
  refine ⟨fun feed => ?_, fun back => ?_⟩
  · exact (not_line_end (mem_written (texts_inert d) feed)).1 rfl
  · exact (not_line_end (mem_written (texts_inert d) back)).2.1 rfl

theorem assemble_source {code : Bytecode} {ds : List Decoded}
    (accepted : disassemble code = .ok ds) :
    assemble (source ds) = .ok code := by
  obtain ⟨bytes, fit⟩ := decodeFrom_bytes accepted
  obtain ⟨size, added⟩ := addLines_toText fit {} 1
  have listed : Listing.ofSource (source ds) = .ok ⟨spelled 1 ds, size, []⟩ := by
    rw [Listing.ofSource, lines_source, added]
    simp only [Bind.bind, Except.bind, List.append_nil, List.reverse_reverse]
    rfl
  rw [assemble, listed]
  simp only [Bind.bind, Except.bind, encodeAll_spelled fit, ← bytes, List.drop_zero]
  rfl

/-- Code that can be disassembled is assembled again from its disassembly, byte by byte, and so is
the file it came in. A file is read as some code exactly if it is what is written for that code. -/
theorem round_trip :
    (∀ code ds, disassemble code = .ok ds → assemble (source ds) = .ok code) ∧
    (∀ file code ds, Container.decode file = .ok code → disassemble code = .ok ds →
      (assemble (source ds)).map Container.encode = .ok file) ∧
    ∀ file code, Container.decode file = .ok code ↔ file = Container.encode code := by
  refine ⟨fun _ _ accepted => assemble_source accepted, ?_, Container.decode_eq_ok_iff⟩
  intro file code ds read accepted
  rw [assemble_source accepted, (Container.decode_eq_ok_iff file code).mp read]
  rfl

/-- The greatest operands there are. -/
theorem round_trip_greatest :
    let code : Bytecode := ⟨#[2, 9, 255, 255, 255, 255, 255, 255, 255, 255,
      8, 9, 255, 255, 255, 255, 1]⟩
    let ds : List Decoded := [⟨0, .movIr, [.register 9, .immediate 0xffffffffffffffff]⟩,
      ⟨10, .jnz, [.register 9, .address 0xffffffff]⟩, ⟨16, .hlt, []⟩]
    disassemble code = .ok ds ∧ assemble (source ds) = .ok code ∧
      (assemble (source ds)).map Container.encode = .ok (Container.encode code) := by
  intro code ds
  have accepted : disassemble code = .ok ds := by
    cbv
  exact ⟨accepted, round_trip.1 code ds accepted,
    round_trip.2.1 _ code ds ((round_trip.2.2 _ code).mpr rfl) accepted⟩

end Disassembly

end ScriptKit
