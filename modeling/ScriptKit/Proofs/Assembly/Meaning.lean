import ScriptKit.Proofs.Assembly.Layout
import ScriptKit.Proofs.Machine.Reference

/-! What a program in assembly means, and that its code does just that.

Each instruction of the source is listed in the code, so the code holds what the instructions mean,
with offsets in place of indices. -/

namespace ScriptKit.Assembly
open Disassembly

/-- A label stands in front of the instruction with the index `k`, or at the end. -/
def Item.LabelAt (items : List Item) (name : String) (k : Nat) : Prop :=
  ∃ before after, items = before ++ .label name :: after ∧ k = (instructions before).length

/-- What an instruction does. A jump leads to the index of the instruction behind its label. -/
inductive Denotes (items : List Item) : Instruction → Instr Nat → Prop where
  | nop {line : Nat} : Denotes items ⟨line, .nop, []⟩ .nop
  | hlt {line : Nat} : Denotes items ⟨line, .hlt, []⟩ .hlt
  | load {line : Nat} {dst number : List Char} {r : GeneralRegister} {v : UInt64} {z : Int} :
      RegisterName dst r.val → Immediate number z → Represents .qword v.toNat z →
      Denotes items ⟨line, .movIr, [dst, number]⟩ (.load r v)
  | move {line : Nat} {dst src : List Char} {r s : GeneralRegister} :
      RegisterName dst r.val → RegisterName src s.val →
      Denotes items ⟨line, .movRr, [dst, src]⟩ (.move r s)
  | add {line : Nat} {dst src : List Char} {r s : GeneralRegister} :
      RegisterName dst r.val → RegisterName src s.val →
      Denotes items ⟨line, .addRr, [dst, src]⟩ (.add r s)
  | sub {line : Nat} {dst src : List Char} {r s : GeneralRegister} :
      RegisterName dst r.val → RegisterName src s.val →
      Denotes items ⟨line, .subRr, [dst, src]⟩ (.sub r s)
  | mul {line : Nat} {dst src : List Char} {r s : GeneralRegister} :
      RegisterName dst r.val → RegisterName src s.val →
      Denotes items ⟨line, .mulRr, [dst, src]⟩ (.mul r s)
  | jump {line : Nat} {target : List Char} {k : Nat} :
      Item.LabelAt items (String.ofList target) k →
      Denotes items ⟨line, .jmp, [target]⟩ (.jump k)
  | branch {line : Nat} {tested target : List Char} {r : GeneralRegister} {k : Nat} :
      RegisterName tested r.val → Item.LabelAt items (String.ofList target) k →
      Denotes items ⟨line, .jnz, [tested, target]⟩ (.branch r k)
  | dump {line : Nat} : Denotes items ⟨line, .regdump, []⟩ .dump
  | syscall {line : Nat} : Denotes items ⟨line, .syscall, []⟩ .syscall

/-- The source is a program in assembly that means these instructions. -/
def Spells (source : String) (program : List (Instr Nat)) : Prop :=
  ∃ items, Lines 1 (Text.lines source.toList) items ∧
    List.Forall₂ (Denotes items) (Item.instructions items) program

/-- Jumps lead to labels and not to numbers. -/
def LabelsOnly (items : List Item) : Prop :=
  ∀ i ∈ Item.instructions items, i.op = .jmp ∨ i.op = .jnz →
    ∀ target ∈ i.operands.getLast?, isIdentifier target = true

section Uniqueness

variable {items : List Item} {text : List Char} {i : Instruction} {p q : Instr Nat}

theorem RegisterName.unique {r s : GeneralRegister} (named : RegisterName text r.val)
    (named' : RegisterName text s.val) : r = s := by
  have read := register_eq_ok_iff.mpr ⟨Nat.le_of_lt_succ r.isLt, named⟩
  have read' := register_eq_ok_iff.mpr ⟨Nat.le_of_lt_succ s.isLt, named'⟩
  exact Fin.ext (Except.ok.inj (read.symm.trans read'))

theorem Represents.unique {v w : UInt64} {z z' : Int} (written : Immediate text z)
    (value : Represents .qword v.toNat z) (written' : Immediate text z')
    (value' : Represents .qword w.toNat z') : v = w := by
  have read := immediate_eq_ok_iff.mpr ⟨z, written, value⟩
  have read' := immediate_eq_ok_iff.mpr ⟨z', written', value'⟩
  exact UInt64.toNat.inj (Except.ok.inj (read.symm.trans read'))

theorem Item.LabelAt.unique (distinct : (Item.labels items).Nodup) {name : String} {k n : Nat}
    (at_k : LabelAt items name k) (at_n : LabelAt items name n) : k = n := by
  have found := (Item.indexOf?_eq_some_iff distinct).mpr at_k
  have found' := (Item.indexOf?_eq_some_iff distinct).mpr at_n
  exact Option.some.inj (found.symm.trans found')

theorem Denotes.unique (distinct : (Item.labels items).Nodup) (denotes : Denotes items i p)
    (denotes' : Denotes items i q) : p = q := by
  cases denotes with
  | nop | hlt | dump | syscall =>
    cases denotes'
    rfl
  | load named written value =>
    cases denotes' with
    | load named' written' value' =>
      rw [named.unique named', value.unique written written' value']
  | move named source =>
    cases denotes' with
    | move named' source' => rw [named.unique named', source.unique source']
  | add named source =>
    cases denotes' with
    | add named' source' => rw [named.unique named', source.unique source']
  | sub named source =>
    cases denotes' with
    | sub named' source' => rw [named.unique named', source.unique source']
  | mul named source =>
    cases denotes' with
    | mul named' source' => rw [named.unique named', source.unique source']
  | jump label =>
    cases denotes' with
    | jump label' => rw [label.unique distinct label']
  | branch named label =>
    cases denotes' with
    | branch named' label' => rw [named.unique named', label.unique distinct label']

end Uniqueness

section Operands

variable {stands : String → Nat → Prop} {width : Width} {text : List Char} {o : Operand}
  {line : Nat} {op : Opcode} {texts : List (List Char)} {d : Decoded}

theorem Means.exists_register (means : Means stands ⟨width, .register⟩ text o) :
    ∃ r : GeneralRegister, RegisterName text r.val ∧ o = .register r := by
  cases means with
  | register _ named => exact ⟨_, named, rfl⟩
  | immediate mode => cases mode
  | address mode => cases mode
  | label mode => cases mode

theorem Means.exists_immediate (means : Means stands ⟨width, .immediate⟩ text o) :
    ∃ v z, Immediate text z ∧ Represents width v.toNat z ∧ o = .immediate v := by
  cases means with
  | register mode => cases mode
  | immediate _ written value => exact ⟨_, _, written, value, rfl⟩
  | address mode => cases mode
  | label mode => cases mode

theorem Means.exists_label (named : isIdentifier text = true)
    (means : Means stands ⟨width, .address⟩ text o) :
    ∃ v : UInt64, stands (String.ofList text) v.toNat ∧ o = .address v := by
  cases means with
  | register mode => cases mode
  | immediate mode => cases mode
  | address _ written => cases written.not_identifier.symm.trans named
  | label _ _ found => exact ⟨_, found, rfl⟩

theorem Lists.exists_none (lists : Lists stands ⟨line, op, texts⟩ d)
    (count : texts.length = op.operands.length) (specs : op.operands = []) :
    texts = [] ∧ d.operands = [] := by
  have operands := lists.operands
  rw [specs] at count operands
  obtain rfl := List.length_eq_zero_iff.mp count
  exact ⟨rfl, List.forall₂_nil_left_iff.mp operands⟩

theorem Lists.exists_one {spec : OperandSpec} (lists : Lists stands ⟨line, op, texts⟩ d)
    (count : texts.length = op.operands.length) (specs : op.operands = [spec]) :
    ∃ text o, texts = [text] ∧ Means stands spec text o ∧ d.operands = [o] := by
  have operands := lists.operands
  rw [specs] at count operands
  obtain ⟨text, rfl⟩ := List.length_eq_one_iff.mp count
  obtain ⟨o, os, means, none, same⟩ := List.forall₂_cons_left_iff.mp operands
  cases List.forall₂_nil_left_iff.mp none
  exact ⟨text, o, rfl, means, same⟩

theorem Lists.exists_two {spec spec' : OperandSpec} (lists : Lists stands ⟨line, op, texts⟩ d)
    (count : texts.length = op.operands.length) (specs : op.operands = [spec, spec']) :
    ∃ text text' o o', texts = [text, text'] ∧ Means stands spec text o ∧
      Means stands spec' text' o' ∧ d.operands = [o, o'] := by
  have operands := lists.operands
  rw [specs] at count operands
  obtain ⟨text, text', rfl⟩ := List.length_eq_two.mp count
  obtain ⟨o, os, means, others, same⟩ := List.forall₂_cons_left_iff.mp operands
  obtain ⟨o', os', means', none, rfl⟩ := List.forall₂_cons_left_iff.mp others
  cases List.forall₂_nil_left_iff.mp none
  exact ⟨text, text', o, o', rfl, means, means', same⟩

theorem Lists.exists_registers (lists : Lists stands ⟨line, op, texts⟩ d)
    (count : texts.length = op.operands.length)
    (specs : op.operands = [⟨.byte, .register⟩, ⟨.byte, .register⟩]) :
    ∃ dst src, ∃ r s : GeneralRegister, texts = [dst, src] ∧ RegisterName dst r.val ∧
      RegisterName src s.val ∧ d.operands = [.register r, .register s] := by
  obtain ⟨dst, src, o, o', rfl, means, means', operands⟩ := lists.exists_two count specs
  obtain ⟨r, named, rfl⟩ := means.exists_register
  obtain ⟨s, named', rfl⟩ := means'.exists_register
  exact ⟨dst, src, r, s, rfl, named, named', operands⟩

end Operands

section Instructions

variable {items : List Item} {ds : List Decoded} {bytes : List UInt8}

structure Carries (ops : List Opcode) (p : Instr Nat) (d : Decoded) : Prop where
  op : d.op = p.op
  operands : d.operands = (p.map fun k => UInt64.ofNat (offsetAt ops k)).operands
  inside : ∀ place ∈ p.place?, place ≤ ops.length

theorem exists_labelAt (row : Row 0 ds bytes)
    (length : ds.length = (Item.instructions items).length) {name : String} {v : UInt64}
    (stands : Stands items ds bytes.length name v.toNat) :
    ∃ k, Item.LabelAt items name k ∧ v = UInt64.ofNat (offsetAt (ds.map Decoded.op) k) ∧
      k ≤ (ds.map Decoded.op).length := by
  obtain ⟨before, after, rfl, offset⟩ := stands
  have inside : (Item.instructions before).length ≤ ds.length := by
    rw [length, Item.instructions, Item.instructions, List.filterMap_append, List.length_append]
    exact Nat.le_add_right ..
  have counted := offsetAt_eq row inside
  rw [Nat.zero_add, Nat.zero_add, ← offset] at counted
  refine ⟨_, ⟨before, after, rfl, rfl⟩, ?_, by rwa [List.length_map]⟩
  rw [counted, UInt64.ofNat_toNat]

/-- An instruction that is listed in the code means something, and the code does it. -/
theorem Lists.exists_denoted (row : Row 0 ds bytes)
    (length : ds.length = (Item.instructions items).length) {i : Instruction} {d : Decoded}
    (lists : Lists (Stands items ds bytes.length) i d)
    (count : i.operands.length = i.op.operands.length)
    (labelled : i.op = .jmp ∨ i.op = .jnz → ∀ target ∈ i.operands.getLast?,
      isIdentifier target = true) :
    ∃ p, Denotes items i p ∧ Carries (ds.map Decoded.op) p d := by
  have same := lists.op
  obtain ⟨line, op, texts⟩ := i
  cases op with
  | nop =>
    obtain ⟨rfl, operands⟩ := lists.exists_none count rfl
    exact ⟨.nop, .nop, same, operands, by rintro _ ⟨⟩⟩
  | hlt =>
    obtain ⟨rfl, operands⟩ := lists.exists_none count rfl
    exact ⟨.hlt, .hlt, same, operands, by rintro _ ⟨⟩⟩
  | regdump =>
    obtain ⟨rfl, operands⟩ := lists.exists_none count rfl
    exact ⟨.dump, .dump, same, operands, by rintro _ ⟨⟩⟩
  | syscall =>
    obtain ⟨rfl, operands⟩ := lists.exists_none count rfl
    exact ⟨.syscall, .syscall, same, operands, by rintro _ ⟨⟩⟩
  | movRr =>
    obtain ⟨dst, src, r, s, rfl, named, named', operands⟩ := lists.exists_registers count rfl
    exact ⟨.move r s, .move named named', same, operands, by rintro _ ⟨⟩⟩
  | addRr =>
    obtain ⟨dst, src, r, s, rfl, named, named', operands⟩ := lists.exists_registers count rfl
    exact ⟨.add r s, .add named named', same, operands, by rintro _ ⟨⟩⟩
  | subRr =>
    obtain ⟨dst, src, r, s, rfl, named, named', operands⟩ := lists.exists_registers count rfl
    exact ⟨.sub r s, .sub named named', same, operands, by rintro _ ⟨⟩⟩
  | mulRr =>
    obtain ⟨dst, src, r, s, rfl, named, named', operands⟩ := lists.exists_registers count rfl
    exact ⟨.mul r s, .mul named named', same, operands, by rintro _ ⟨⟩⟩
  | movIr =>
    obtain ⟨dst, number, o, o', rfl, means, means', operands⟩ := lists.exists_two count rfl
    obtain ⟨r, named, rfl⟩ := means.exists_register
    obtain ⟨v, z, written, value, rfl⟩ := means'.exists_immediate
    exact ⟨.load r v, .load named written value, same, operands, by rintro _ ⟨⟩⟩
  | jmp =>
    obtain ⟨target, o, rfl, means, operands⟩ := lists.exists_one count rfl
    obtain ⟨v, stands, rfl⟩ := means.exists_label (labelled (.inl rfl) target rfl)
    obtain ⟨k, label, rfl, inside⟩ := exists_labelAt row length stands
    exact ⟨.jump k, .jump label, same, operands, by rintro _ ⟨⟩; exact inside⟩
  | jnz =>
    obtain ⟨tested, target, o, o', rfl, means, means', operands⟩ := lists.exists_two count rfl
    obtain ⟨r, named, rfl⟩ := means.exists_register
    obtain ⟨v, stands, rfl⟩ := means'.exists_label (labelled (.inr rfl) target rfl)
    obtain ⟨k, label, rfl, inside⟩ := exists_labelAt row length stands
    exact ⟨.branch r k, .branch named label, same, operands, by rintro _ ⟨⟩; exact inside⟩

end Instructions

section Programs

variable {program : List (Instr Nat)} {code : Bytecode} {ds : List Decoded}

/-- What holds of each pair can be chosen along a list. -/
theorem exists_between {α β γ : Type} {R : α → γ → Prop} {S : α → β → Prop} {T : β → γ → Prop}
    {as : List α} {cs : List γ} (pairs : List.Forall₂ R as cs)
    (each : ∀ a ∈ as, ∀ c, R a c → ∃ b, S a b ∧ T b c) :
    ∃ bs, List.Forall₂ S as bs ∧ List.Forall₂ T bs cs := by
  induction pairs with
  | nil => exact ⟨[], .nil, .nil⟩
  | cons pair _ ih =>
    obtain ⟨first, others⟩ := List.forall_mem_cons.mp each
    obtain ⟨b, left, right⟩ := first _ pair
    obtain ⟨bs, lefts, rights⟩ := ih others
    exact ⟨b :: bs, .cons left lefts, .cons right rights⟩

theorem exists_paired {α β : Type} {R : α → β → Prop} {as : List α} {bs : List β} {k : Nat} {a : α}
    (pairs : List.Forall₂ R as bs) (here : as[k]? = some a) : ∃ b, bs[k]? = some b ∧ R a b := by
  induction pairs generalizing k with
  | nil => cases here
  | cons first _ ih =>
    cases k with
    | zero =>
      cases here
      exact ⟨_, rfl, first⟩
    | succ k => exact ih here

theorem map_op_of_carries {ops : List Opcode} (carries : List.Forall₂ (Carries ops) program ds) :
    ds.map Decoded.op = program.map Instr.op := by
  induction carries with
  | nil => rfl
  | cons first _ ih => rw [List.map_cons, List.map_cons, first.op, ih]

/-- The code holds what its instructions do. -/
theorem holds_of_carries (listed : disassemble code = .ok ds)
    (carries : List.Forall₂ (Carries (ds.map Decoded.op)) program ds) : code.Holds program := by
  have row := (disassemble_eq_ok_iff code ds).mp listed
  have walks := (decodeFrom_eq_ok_iff (Nat.zero_le _)).mp listed
  have length := carries.length_eq
  have offset : ∀ k ≤ ds.length,
      byteOffset program k = (ds[k]?.map Decoded.offset).getD code.size := by
    intro k inside
    have counted := offsetAt_eq row inside
    rwa [Nat.zero_add, Nat.zero_add, code.length_toList, map_op_of_carries carries] at counted
  refine ⟨?_, ?_, ?_⟩
  · rw [length, offset _ (Nat.le_refl _), List.getElem?_eq_none (Nat.le_refl _)]
    rfl
  · intro p member
    obtain ⟨k, here⟩ := List.getElem?_of_mem member
    obtain ⟨d, -, carry⟩ := exists_paired carries here
    rw [length, ← List.length_map Decoded.op]
    exact carry.inside
  · intro k p here
    obtain ⟨d, there, carry⟩ := exists_paired carries here
    have inside : k < ds.length := (List.getElem?_eq_some_iff.mp there).1
    have place : byteOffset program k = d.offset := by
      rw [offset k (Nat.le_of_lt inside), there]
      rfl
    have operands := carry.operands
    rw [map_op_of_carries carries] at operands
    rw [place, walks.decodeAt (List.mem_of_getElem? there), ← carry.op]
    unfold Instr.relocate byteOffset
    rw [← operands]

/-- What a source spells that can be assembled is certain, and its code holds it. -/
theorem assemble_holds {source : String} (accepted : assemble source = .ok code)
    (labelled : ∀ items, Lines 1 (Text.lines source.toList) items → LabelsOnly items) :
    ∃ program, (∀ other, Spells source other ↔ other = program) ∧ code.Holds program := by
  obtain ⟨items, ds, lines, distinct, listed, lists⟩ := (assemble_eq_ok_iff source code).mp accepted
  have read := ofLines_eq_ok_iff.mpr lines
  have row := (disassemble_eq_ok_iff code ds).mp listed
  have length : ds.length = (Item.instructions items).length := lists.length_eq.symm
  rw [← code.length_toList] at lists
  obtain ⟨program, denoted, carries⟩ := exists_between lists fun i member d lists =>
    lists.exists_denoted row length (Item.ofLines_counts read i (Item.mem_instructions.mp member))
      (labelled items lines i member)
  refine ⟨program, fun other => ⟨?_, ?_⟩, holds_of_carries listed carries⟩
  · rintro ⟨items', lines', denoted'⟩
    cases read.symm.trans (ofLines_eq_ok_iff.mpr lines')
    have unique : Relator.RightUnique (Denotes items) := fun i p q => Denotes.unique distinct
    exact List.right_unique_forall₂' unique denoted' denoted
  · rintro rfl
    exact ⟨items, lines, denoted⟩

end Programs

/-- The code of a program in assembly does what the program says: wherever it is loaded, with any
budget and any output, it ends as the reference machine ends, after as many cycles and with the same
registers and dumps, and a fault is at the offset of the instruction that the reference machine is
at. -/
theorem run_assembled {source : String} {code : Bytecode} (accepted : assemble source = .ok code)
    (labelled : ∀ items, Lines 1 (Text.lines source.toList) items → LabelsOnly items) (m : Machine)
    (loaded : m.options.base ≠ 0) (fits : m.options.base.toNat + code.size < UInt64.size) :
    ∃ program, (∀ other, Spells source other ↔ other = program) ∧
      Machine.SameEnding m program (m.run code)
        (Reference.runFor m.limits program m.enough {}) ∧
      (m.options.budget ≠ none →
        (Reference.runFor m.limits program m.enough {}).2 ≠ .running) := by
  obtain ⟨program, spelled, holds⟩ := assemble_holds accepted labelled
  refine ⟨program, spelled, Machine.same_run holds loaded fits, fun limited => ?_⟩
  obtain ⟨budget, known⟩ := Option.ne_none_iff_exists'.mp limited
  apply Reference.runFor_ends known (Nat.zero_le budget)
  rw [Machine.enough, known]
  change budget < 0 + (budget + 1)
  omega

/-- Jumps back and ahead, the latter to a label behind the last instruction. -/
theorem run_assembled_jumps :
    let source := "loop: jnz %r0, loop\njmp end\nend:"
    let code : Bytecode := ⟨#[8, 0, 0, 0, 0, 0, 7, 11, 0, 0, 0]⟩
    let m : Machine := {}
    assemble source = .ok code ∧
      (∀ items, Lines 1 (Text.lines source.toList) items → LabelsOnly items) ∧
      ∃ program, (∀ other, Spells source other ↔ other = program) ∧
        Machine.SameEnding m program (m.run code)
          (Reference.runFor m.limits program m.enough {}) ∧
        (m.options.budget ≠ none →
          (Reference.runFor m.limits program m.enough {}).2 ≠ .running) := by
  intro source code m
  have accepted : assemble source = .ok code := by decide +kernel
  have spelled : Item.ofSource source = .ok [.label "loop",
      .instruction ⟨1, .jnz, [['%', 'r', '0'], ['l', 'o', 'o', 'p']]⟩,
      .instruction ⟨2, .jmp, [['e', 'n', 'd']]⟩, .label "end"] := by decide +kernel
  have labelled : ∀ items, Lines 1 (Text.lines source.toList) items → LabelsOnly items := by
    intro items lines
    cases spelled.symm.trans (ofLines_eq_ok_iff.mpr lines)
    unfold LabelsOnly
    decide
  exact ⟨accepted, labelled, run_assembled accepted labelled m (by decide) (by decide)⟩

/-- Letters of either case, a negative number in hexadecimal, a comment and a jump ahead. -/
example :
    let source := "MOV_IR %R3, $-0x10 ; sixteen\njnz %r3 end\nend: hlt"
    assemble source =
      .ok ⟨#[2, 3, 0xf0, 0xff, 0xff, 0xff, 0xff, 0xff, 0xff, 0xff, 8, 3, 16, 0, 0, 0, 1]⟩ ∧
      Spells source [.load 3 0xfffffffffffffff0, .branch 3 2, .hlt] := by
  intro source
  let items : List Item := [.instruction ⟨1, .movIr, ["%R3".toList, "$-0x10".toList]⟩,
    .instruction ⟨2, .jnz, ["%r3".toList, "end".toList]⟩, .label "end", .instruction ⟨3, .hlt, []⟩]
  have read : Item.ofSource source = .ok items := by decide +kernel
  have named : ∀ text ∈ ["%R3".toList, "%r3".toList], RegisterName text 3 := by
    intro text member
    exact (register_eq_ok_iff.mp (by revert text; decide)).2
  have number : immediate .qword "$-0x10".toList = .ok 0xfffffffffffffff0 := by decide
  obtain ⟨z, written, value⟩ := immediate_eq_ok_iff.mp number
  refine ⟨by decide +kernel, items, ofLines_eq_ok_iff.mp read, .cons (.load ?_ written value) ?_⟩
  · exact named _ (by decide)
  · refine .cons (.branch (named _ (by decide)) ⟨items.take 2, items.drop 3, rfl, rfl⟩) ?_
    exact .cons .hlt .nil

end ScriptKit.Assembly
