import Mathlib.Order.Bounds.Defs
import ScriptKit.Proofs.Assembly.Encoding

/-! Which bytes are code.

Code is a row of instructions, each of them an opcode with the operands that it asks for. Bytes can
be taken apart so in one way at most, and the disassembler finds it. Else it stops behind the last
whole instruction and says what is wrong first with the bytes there. -/

namespace ScriptKit

theorem Bytecode.length_toList (code : Bytecode) : code.toList.length = code.size :=
  Array.length_toList

theorem Bytecode.read_eq_error_iff (code : Bytecode) (width : Width) (address : Nat)
    (e : OutOfBounds) :
    code.read width address = .error e ↔
      (code.toList.drop address).length < width.size ∧ e = ⟨address, width.size, code.size⟩ := by
  have some_byte := width.size_pos
  rw [List.length_drop, length_toList, read]
  split
  · rename_i inside
    exact ⟨by rintro ⟨⟩, fun short => by omega⟩
  · rename_i outside
    refine ⟨fun failed => ⟨by omega, (Except.error.inj failed).symm⟩, fun short => ?_⟩
    rw [short.2]

theorem Opcode.ofByte?_eq_none_iff (b : UInt8) : ofByte? b = none ↔ 10 < b.toNat :=
  List.getElem?_eq_none_iff

namespace Disassembly

/-- The opcodes, the bytes that they are in code and the operands behind them. -/
inductive Format : Opcode → UInt8 → List OperandSpec → Prop where
  | nop : Format .nop 0 []
  | hlt : Format .hlt 1 []
  | movIr : Format .movIr 2 [⟨.byte, .register⟩, ⟨.qword, .immediate⟩]
  | movRr : Format .movRr 3 [⟨.byte, .register⟩, ⟨.byte, .register⟩]
  | addRr : Format .addRr 4 [⟨.byte, .register⟩, ⟨.byte, .register⟩]
  | subRr : Format .subRr 5 [⟨.byte, .register⟩, ⟨.byte, .register⟩]
  | mulRr : Format .mulRr 6 [⟨.byte, .register⟩, ⟨.byte, .register⟩]
  | jmp : Format .jmp 7 [⟨.dword, .address⟩]
  | jnz : Format .jnz 8 [⟨.byte, .register⟩, ⟨.dword, .address⟩]
  | regdump : Format .regdump 9 []
  | syscall : Format .syscall 10 []

inductive Laid : Opcode → List Operand → List UInt8 → Prop where
  | mk {op : Opcode} {b : UInt8} {specs : List OperandSpec} {os : List Operand} :
      Format op b specs →
      List.Forall₂ Operand.Fits os specs → Laid op os (b :: Operand.encode specs os)

def IsInstruction (piece : List UInt8) : Prop :=
  ∃ op os, Laid op os piece

inductive Row : Nat → List Decoded → List UInt8 → Prop where
  | nil {n : Nat} : Row n [] []
  | cons {d : Decoded} {ds : List Decoded} {piece bytes : List UInt8} : Laid d.op d.operands piece →
      Row (d.offset + piece.length) ds bytes → Row d.offset (d :: ds) (piece ++ bytes)

/-- What is wrong first with the operands that should be found in the bytes from `address` on. The
code has `total` bytes. -/
inductive BadOperands (total : Nat) :
    Nat → List OperandSpec → List UInt8 → DisasmErrorKind → Prop where
  | truncated {address : Nat} {spec : OperandSpec} {specs : List OperandSpec} {bytes : List UInt8} :
      bytes.length < spec.width.size →
      BadOperands total address (spec :: specs) bytes (.truncated ⟨address, spec.width.size, total⟩)
  | register {address : Nat} {spec : OperandSpec} {specs : List OperandSpec} {b : UInt8}
      {bytes : List UInt8} :
      spec.mode = .register → 9 < b.toNat →
      BadOperands total address (spec :: specs) (b :: bytes) (.invalidRegister b)
  | later {address : Nat} {spec : OperandSpec} {specs : List OperandSpec} {o : Operand}
      {bytes : List UInt8}
      {kind : DisasmErrorKind} : o.Fits spec →
      BadOperands total (address + spec.width.size) specs bytes kind →
      BadOperands total address (spec :: specs) (toBytes spec.width.size o.value ++ bytes) kind

inductive Defect (total offset : Nat) : List UInt8 → DisasmErrorKind → Prop where
  | opcode {b : UInt8} {bytes : List UInt8} : 10 < b.toNat →
      Defect total offset (b :: bytes) (.invalidOpcode b)
  | operands {op : Opcode} {b : UInt8} {specs : List OperandSpec} {bytes : List UInt8}
      {kind : DisasmErrorKind} : Format op b specs →
      BadOperands total (offset + 1) specs bytes kind → Defect total offset (b :: bytes) kind

theorem format_iff {op : Opcode} {b : UInt8} {specs : List OperandSpec} :
    Format op b specs ↔ b = op.byte ∧ specs = op.operands := by
  constructor
  · rintro ⟨⟩ <;> exact ⟨rfl, rfl⟩
  · rintro ⟨rfl, rfl⟩
    cases op <;> constructor

theorem laid_iff {op : Opcode} {os : List Operand} {piece : List UInt8} : Laid op os piece ↔
    List.Forall₂ Operand.Fits os op.operands ∧
    piece = op.byte :: Operand.encode op.operands os := by
  constructor
  · rintro ⟨format, fit⟩
    obtain ⟨rfl, rfl⟩ := format_iff.mp format
    exact ⟨fit, rfl⟩
  · rintro ⟨fit, rfl⟩
    exact .mk (format_iff.mpr ⟨rfl, rfl⟩) fit

section Operands

variable {code : Bytecode} {address : Nat} {spec : OperandSpec} {specs : List OperandSpec}
  {kind : DisasmErrorKind}

theorem operand_eq_error_iff (mode : Mode) (n : UInt64) : operand mode n = .error kind ↔
    mode = .register ∧ 9 < n.toUInt8.toNat ∧ kind = .invalidRegister n.toUInt8 := by
  cases mode with
  | immediate | address =>
    constructor
    · rintro ⟨⟩
    · rintro ⟨⟨⟩, -⟩
  | register =>
    rw [operand, GeneralRegister.ofByte?]
    by_cases small : n.toUInt8.toNat < 10
    · rw [dif_pos small]
      exact ⟨by rintro ⟨⟩, fun wrong => absurd wrong.2.1 (by omega)⟩
    · rw [dif_neg small]
      exact ⟨fun failed => ⟨rfl, by omega, (Except.error.inj failed).symm⟩,
        fun wrong => by rw [wrong.2.2]⟩

/-- A byte that is read stands at the address. -/
theorem read_byte {n : UInt64} (read : code.read .byte address = .ok n) :
    ∃ bytes, code.toList.drop address = n.toUInt8 :: bytes := by
  obtain ⟨-, bytes, written⟩ := (code.read_eq_ok_iff .byte address n).mp read
  exact ⟨bytes, written⟩

theorem operandAt_eq_error_iff (narrow : spec.mode = .register → spec.width = .byte) :
    operandAt code address spec = .error kind ↔
      ((code.toList.drop address).length < spec.width.size ∧
        kind = .truncated ⟨address, spec.width.size, code.size⟩) ∨
      (spec.mode = .register ∧ ∃ b bytes, code.toList.drop address = b :: bytes ∧ 9 < b.toNat ∧
        kind = .invalidRegister b) := by
  unfold operandAt
  cases read : code.read spec.width address with
  | error e =>
    obtain ⟨short, rfl⟩ := (code.read_eq_error_iff spec.width address e).mp read
    constructor
    · intro failed
      exact .inl ⟨short, (Except.error.inj failed).symm⟩
    · rintro (⟨-, rfl⟩ | ⟨register, b, bytes, here, -⟩)
      · rfl
      · rw [here, narrow register] at short
        exact absurd short (by simp [Width.size])
  | ok n =>
    have whole : ¬ (code.toList.drop address).length < spec.width.size := by
      intro short
      rw [(code.read_eq_error_iff spec.width address _).mpr ⟨short, rfl⟩] at read
      cases read
    refine Iff.trans (operand_eq_error_iff spec.mode n) ?_
    constructor
    · rintro ⟨register, large, rfl⟩
      obtain ⟨bytes, here⟩ := read_byte (narrow register ▸ read)
      exact .inr ⟨register, _, bytes, here, large, rfl⟩
    · rintro (⟨short, -⟩ | ⟨register, b, bytes, here, large, rfl⟩)
      · exact absurd short whole
      · obtain ⟨bytes', here'⟩ := read_byte (narrow register ▸ read)
        cases (List.cons.inj (here.symm.trans here')).1
        exact ⟨register, large, rfl⟩

/-- Operands are bad because the first one is, or it can be read and the others are bad. -/
theorem badOperands_cons_iff (narrow : spec.mode = .register → spec.width = .byte) :
    BadOperands code.size address (spec :: specs) (code.toList.drop address) kind ↔
      operandAt code address spec = .error kind ∨ ∃ o, operandAt code address spec = .ok o ∧
        BadOperands code.size (address + spec.width.size) specs
          (code.toList.drop (address + spec.width.size)) kind := by
  have behind : ∀ {o : Operand} {bytes : List UInt8},
      code.toList.drop address = toBytes spec.width.size o.value ++ bytes →
      code.toList.drop (address + spec.width.size) = bytes := by
    intro o bytes written
    have next := drop_behind written
    rwa [length_toBytes] at next
  constructor
  · intro bad
    generalize here : code.toList.drop address = bytes at bad
    cases bad with
    | truncated short => exact .inl ((operandAt_eq_error_iff narrow).mpr (.inl ⟨here ▸ short, rfl⟩))
    | register register large =>
      exact .inl ((operandAt_eq_error_iff narrow).mpr (.inr ⟨register, _, _, here, large, rfl⟩))
    | later fits bad =>
      exact .inr ⟨_, (operandAt_eq_ok_iff narrow code address _).mpr ⟨fits, _, here⟩,
        behind here ▸ bad⟩
  · rintro (failed | ⟨o, read, bad⟩)
    · rcases (operandAt_eq_error_iff narrow).mp failed with
        ⟨short, rfl⟩ | ⟨register, b, bytes, here, large, rfl⟩
      · exact .truncated short
      · rw [here]
        exact .register register large
    · obtain ⟨fits, bytes, written⟩ := (operandAt_eq_ok_iff narrow code address o).mp read
      rw [behind written] at bad
      rw [written]
      exact .later fits bad

theorem operands_eq_error_iff (narrow : ∀ spec ∈ specs, spec.mode = .register → spec.width = .byte)
    (code : Bytecode) (address : Nat) (kind : DisasmErrorKind) :
    operands code address specs = .error kind ↔
      BadOperands code.size address specs (code.toList.drop address) kind := by
  induction specs generalizing address with
  | nil => exact ⟨by rintro ⟨⟩, by rintro ⟨⟩⟩
  | cons spec specs ih =>
    obtain ⟨first, others⟩ := List.forall_mem_cons.mp narrow
    rw [operands_cons, badOperands_cons_iff first]
    cases operandAt code address spec with
    | error kind' => simp [Bind.bind, Except.bind]
    | ok o =>
      simp only [reduceCtorEq, false_or, Except.ok.injEq, exists_eq_left', ← ih others]
      cases operands code (address + spec.width.size) specs <;>
        simp [Bind.bind, Except.bind, pure, Except.pure]

theorem defect_cons_iff {total offset : Nat} {b : UInt8} {bytes : List UInt8}
    {kind : DisasmErrorKind} :
    Defect total offset (b :: bytes) kind ↔ (Opcode.ofByte? b = none ∧ kind = .invalidOpcode b) ∨
      ∃ op, Opcode.ofByte? b = some op ∧ BadOperands total (offset + 1) op.operands bytes kind := by
  constructor
  · intro defect
    generalize whole : b :: bytes = all at defect
    cases defect with
    | opcode large =>
      cases whole
      exact .inl ⟨(Opcode.ofByte?_eq_none_iff b).mpr large, rfl⟩
    | operands format bad =>
      cases whole
      obtain ⟨rfl, rfl⟩ := format_iff.mp format
      exact .inr ⟨_, Opcode.ofByte?_byte _, bad⟩
  · rintro (⟨unknown, rfl⟩ | ⟨op, known, bad⟩)
    · exact .opcode ((Opcode.ofByte?_eq_none_iff b).mp unknown)
    · exact .operands (format_iff.mpr ⟨(Opcode.byte_of_ofByte? known).symm, rfl⟩) bad

theorem decodeAt_eq_error_iff {code : Bytecode} {offset : Nat} (inside : offset < code.size)
    (e : DisasmError) :
    decodeAt code offset = .error e ↔
      e.offset = offset ∧ Defect code.size offset (code.toList.drop offset) e.kind := by
  obtain ⟨place, kind⟩ := e
  unfold decodeAt
  cases read : code.read .byte offset with
  | error e =>
    have short := ((code.read_eq_error_iff .byte offset e).mp read).1
    rw [List.length_drop, code.length_toList, Width.size] at short
    omega
  | ok n =>
    obtain ⟨bytes, here⟩ := read_byte read
    have next : code.toList.drop (offset + 1) = bytes :=
      drop_behind (show code.toList.drop offset = [n.toUInt8] ++ bytes from here)
    dsimp only
    rw [here, defect_cons_iff, ← next]
    cases Opcode.ofByte? n.toUInt8 with
    | none => simp [eq_comm]
    | some op =>
      simp only [reduceCtorEq, false_and, false_or, Option.some.injEq, exists_eq_left',
        ← operands_eq_error_iff op.register_width]
      cases operands code (offset + 1) op.operands <;> simp [eq_comm]

end Operands

section Walk

variable {code : Bytecode} {start stop stop' : Nat} {d : Decoded} {ds ds' : List Decoded}

inductive Walks (code : Bytecode) : Nat → List Decoded → Nat → Prop where
  | nil {n : Nat} : Walks code n [] n
  | cons {n : Nat} {d : Decoded} {ds : List Decoded} {stop : Nat} : decodeAt code n = .ok d →
      Walks code (n + d.size) ds stop → Walks code n (d :: ds) stop

theorem decodeAt_inside (read : decodeAt code start = .ok d) : start + d.size ≤ code.size := by
  obtain ⟨-, fit, rest, written⟩ := (decodeAt_eq_ok_iff code start d).mp read
  have lengths := congrArg List.length written
  have some_byte := d.op.size_pos
  rw [List.length_drop, List.length_append, Decoded.length_bytes fit, code.length_toList,
    Decoded.size] at lengths
  rw [Decoded.size]
  omega

theorem decodeAt_eq_ok_iff_laid (d : Decoded) : decodeAt code start = .ok d ↔
    d.offset = start ∧ ∃ piece, Laid d.op d.operands piece ∧ piece <+: code.toList.drop start := by
  rw [decodeAt_eq_ok_iff]
  refine and_congr_right fun _ => ?_
  constructor
  · rintro ⟨fit, rest, written⟩
    exact ⟨d.bytes, laid_iff.mpr ⟨fit, rfl⟩, rest, written.symm⟩
  · rintro ⟨piece, laid, rest, written⟩
    obtain ⟨fit, rfl⟩ := laid_iff.mp laid
    exact ⟨fit, rest, written.symm⟩

theorem Laid.length_eq {piece : List UInt8} (laid : Laid d.op d.operands piece) :
    piece.length = d.size := by
  obtain ⟨fit, rfl⟩ := laid_iff.mp laid
  exact Decoded.length_bytes fit

/-- What can be read is what is laid out in the bytes. -/
theorem walks_iff : Walks code start ds stop ↔
    ∃ bytes, Row start ds bytes ∧ bytes <+: code.toList.drop start ∧
      start + bytes.length = stop := by
  constructor
  · intro walks
    induction walks with
    | nil => exact ⟨[], .nil, List.nil_prefix, rfl⟩
    | cons read _ ih =>
      obtain ⟨rfl, piece, laid, rest, written⟩ := (decodeAt_eq_ok_iff_laid _).mp read
      obtain ⟨bytes, row, ahead, stop⟩ := ih
      rw [← laid.length_eq] at row ahead stop
      refine ⟨piece ++ bytes, .cons laid row, ?_, ?_⟩
      · rw [← written, List.prefix_append_right_inj, ← drop_behind written.symm]
        exact ahead
      · rw [List.length_append, ← Nat.add_assoc, stop]
  · rintro ⟨bytes, row, ahead, rfl⟩
    induction row with
    | nil => exact .nil
    | @cons d ds piece bytes laid row ih =>
      obtain ⟨rest, written⟩ := ahead
      rw [List.append_assoc] at written
      refine .cons ((decodeAt_eq_ok_iff_laid d).mpr ⟨rfl, piece, laid, _, written⟩) ?_
      rw [List.length_append, ← Nat.add_assoc, ← laid.length_eq]
      apply ih
      rw [drop_behind written.symm]
      exact List.prefix_append _ _

theorem Walks.decodeAt (walks : Walks code start ds stop) (member : d ∈ ds) :
    decodeAt code d.offset = .ok d := by
  induction walks with
  | nil => cases member
  | cons read _ ih =>
    rcases List.mem_cons.mp member with rfl | later
    · rwa [((decodeAt_eq_ok_iff code _ _).mp read).1]
    · exact ih later

theorem Walks.le (walks : Walks code start ds stop) : start ≤ stop := by
  induction walks with
  | nil => exact Nat.le_refl _
  | cons _ _ ih => exact Nat.le_of_add_right_le ih

def Ends (code : Bytecode) (offset : Nat) : Prop :=
  ∀ d, decodeAt code offset ≠ .ok d

theorem ends_of_error {code : Bytecode} {offset : Nat} {e : DisasmError}
    (failed : decodeAt code offset = .error e) :
    Ends code offset := by
  intro d read
  cases failed.symm.trans read

theorem ends_size (code : Bytecode) : Ends code code.size := by
  intro d read
  have inside := decodeAt_inside read
  have some_byte := d.op.size_pos
  rw [Decoded.size] at inside
  omega

/-- Every walk is the front part of one that cannot go on. -/
theorem Walks.front (walks : Walks code start ds stop) (ends : Ends code stop)
    (walks' : Walks code start ds' stop') :
    ∃ more, ds = ds' ++ more ∧ Walks code stop' more stop := by
  induction walks generalizing ds' with
  | nil =>
    cases walks' with
    | nil => exact ⟨[], rfl, .nil⟩
    | cons read => exact absurd read (ends _)
  | cons read walks ih =>
    cases walks' with
    | nil => exact ⟨_, rfl, .cons read walks⟩
    | cons read' walks' =>
      cases read.symm.trans read'
      obtain ⟨more, rfl, rest⟩ := ih ends walks'
      exact ⟨more, rfl, rest⟩

theorem Walks.unique (walks : Walks code start ds stop) (ends : Ends code stop)
    (walks' : Walks code start ds' stop') (ends' : Ends code stop') : ds = ds' ∧ stop = stop' := by
  obtain ⟨more, rfl, rest⟩ := walks.front ends walks'
  cases rest with
  | nil => exact ⟨List.append_nil _, rfl⟩
  | cons read => exact absurd read (ends' _)

def Outcome (code : Bytecode) (start : Nat) : Except DisasmError (List Decoded) → Prop
  | .ok ds => Walks code start ds code.size
  | .error e =>
    e.offset < code.size ∧ decodeAt code e.offset = .error e ∧ ∃ ds, Walks code start ds e.offset

theorem decodeFrom_outcome (inside : start ≤ code.size) :
    Outcome code start (decodeFrom code start) := by
  fun_induction decodeFrom code start with
  | case1 start early e failed =>
    have place := ((decodeAt_eq_error_iff early e).mp failed).1
    exact ⟨place ▸ early, place ▸ failed, [], place ▸ .nil⟩
  | case2 start early d read ih =>
    have later := ih (decodeAt_inside read)
    cases reads : decodeFrom code (start + d.size) with
    | error e =>
      rw [reads] at later
      obtain ⟨within, failed, ds, walks⟩ := later
      exact ⟨within, failed, d :: ds, .cons read walks⟩
    | ok ds =>
      rw [reads] at later
      exact .cons read later
  | case3 start late =>
    cases Nat.le_antisymm inside (Nat.le_of_not_lt late)
    exact .nil

theorem decodeFrom_eq_ok_iff (inside : start ≤ code.size) :
    decodeFrom code start = .ok ds ↔ Walks code start ds code.size := by
  have outcome := decodeFrom_outcome inside
  generalize decodeFrom code start = r at outcome
  constructor
  · rintro rfl
    exact outcome
  · intro walks
    cases r with
    | ok ds' => rw [(walks.unique (ends_size code) outcome (ends_size code)).1]
    | error e =>
      obtain ⟨within, failed, ds', walks'⟩ := outcome
      have same := walks.unique (ends_size code) walks' (ends_of_error failed)
      exact absurd within (Nat.not_lt.mpr same.2.le)

theorem decodeFrom_eq_error_iff (inside : start ≤ code.size) (e : DisasmError) :
    decodeFrom code start = .error e ↔
      e.offset < code.size ∧ decodeAt code e.offset = .error e ∧
      ∃ ds, Walks code start ds e.offset := by
  have outcome := decodeFrom_outcome inside
  generalize decodeFrom code start = r at outcome
  constructor
  · rintro rfl
    exact outcome
  · rintro ⟨within, failed, ds, walks⟩
    have ends := ends_of_error failed
    cases r with
    | ok ds' =>
      exact absurd within (Nat.not_lt.mpr (walks.unique ends outcome (ends_size code)).2.ge)
    | error e' =>
      obtain ⟨-, failed', ds', walks'⟩ := outcome
      have place := (walks.unique ends walks' (ends_of_error failed')).2
      rw [place] at failed
      rw [Except.error.inj (failed'.symm.trans failed)]

end Walk

section Rows

variable {code : Bytecode} {start : Nat} {ds : List Decoded} {bytes : List UInt8}

theorem Row.exists_pieces (row : Row start ds bytes) :
    ∃ pieces : List (List UInt8), (∀ piece ∈ pieces, IsInstruction piece) ∧
      bytes = pieces.flatten := by
  induction row with
  | nil => exact ⟨[], List.forall_mem_nil _, rfl⟩
  | @cons d ds piece bytes laid _ ih =>
    obtain ⟨pieces, each, rfl⟩ := ih
    exact ⟨piece :: pieces, List.forall_mem_cons.mpr ⟨⟨d.op, d.operands, laid⟩, each⟩, rfl⟩

/-- Instructions can be laid out from any offset on. -/
theorem exists_row {pieces : List (List UInt8)} (each : ∀ piece ∈ pieces, IsInstruction piece)
    (start : Nat) : ∃ ds, Row start ds pieces.flatten := by
  induction pieces generalizing start with
  | nil => exact ⟨[], .nil⟩
  | cons piece pieces ih =>
    obtain ⟨⟨op, os, laid⟩, others⟩ := List.forall_mem_cons.mp each
    obtain ⟨ds, row⟩ := ih others (start + piece.length)
    exact ⟨⟨start, op, os⟩ :: ds, Row.cons (d := ⟨start, op, os⟩) laid row⟩

theorem disassemble_eq_ok_iff (code : Bytecode) (ds : List Decoded) :
    disassemble code = .ok ds ↔ Row 0 ds code.toList := by
  rw [disassemble, decodeFrom_eq_ok_iff (Nat.zero_le _), walks_iff, List.drop_zero]
  constructor
  · rintro ⟨bytes, row, ahead, length⟩
    rw [Nat.zero_add, ← code.length_toList] at length
    exact ahead.eq_of_length length ▸ row
  · intro row
    exact ⟨_, row, List.prefix_rfl, by rw [Nat.zero_add, code.length_toList]⟩

end Rows

/-- The disassembler accepts the rows of instructions and nothing else, and gives the one row that
the bytes are. Else it stops where the longest row of instructions at the front ends, with what is
wrong there first. -/
theorem disassemble_exact (code : Bytecode) :
    ((∃ ds, disassemble code = .ok ds) ↔
      ∃ pieces : List (List UInt8), (∀ piece ∈ pieces, IsInstruction piece) ∧
        code.toList = pieces.flatten) ∧
    (∀ ds, disassemble code = .ok ds ↔ Row 0 ds code.toList) ∧
    ∀ e, disassemble code = .error e ↔
      IsGreatest {n | ∃ ds bytes, Row 0 ds bytes ∧ bytes <+: code.toList ∧ bytes.length = n}
        e.offset ∧
        Defect code.size e.offset (code.toList.drop e.offset) e.kind := by
  have whole : ∀ n, (∃ ds bytes, Row 0 ds bytes ∧ bytes <+: code.toList ∧ bytes.length = n) ↔
      ∃ ds, Walks code 0 ds n := by
    intro n
    simp only [walks_iff, List.drop_zero, Nat.zero_add]
  refine ⟨⟨?_, ?_⟩, disassemble_eq_ok_iff code, fun e => ?_⟩
  · rintro ⟨ds, accepted⟩
    exact ((disassemble_eq_ok_iff code ds).mp accepted).exists_pieces
  · rintro ⟨pieces, each, written⟩
    obtain ⟨ds, row⟩ := exists_row each 0
    exact ⟨ds, (disassemble_eq_ok_iff code ds).mpr (written ▸ row)⟩
  · rw [disassemble, decodeFrom_eq_error_iff (Nat.zero_le _)]
    constructor
    · rintro ⟨inside, failed, ds, walks⟩
      have ends := ends_of_error failed
      refine ⟨⟨(whole _).mpr ⟨ds, walks⟩, ?_⟩, ((decodeAt_eq_error_iff inside e).mp failed).2⟩
      intro n reached
      obtain ⟨ds', walks'⟩ := (whole n).mp reached
      obtain ⟨more, -, rest⟩ := walks.front ends walks'
      exact rest.le
    · rintro ⟨greatest, defect⟩
      have inside : e.offset < code.size := by
        by_contra outside
        rw [List.drop_eq_nil_of_le (code.length_toList ▸ Nat.le_of_not_lt outside)] at defect
        cases defect
      exact ⟨inside, (decodeAt_eq_error_iff inside e).mpr ⟨rfl, defect⟩, (whole _).mp greatest.1⟩

/-- The second instruction lacks its last register. -/
example : disassemble ⟨#[1, 4, 0]⟩ = .error ⟨1, .truncated ⟨3, 1, 3⟩⟩ := by cbv

/-- Of two bad registers the first one counts. -/
example : disassemble ⟨#[3, 0x0c, 0x0b]⟩ = .error ⟨0, .invalidRegister 0x0c⟩ := by cbv

end Disassembly

end ScriptKit
