import ScriptKit.Machine.Basic
import ScriptKit.Proofs.Assembly.Encoding

/-! Instructions as values, and the two readers of code.

The machine fetches each operand when it needs it, the disassembler reads all of them by the table
of opcodes first. They find the same instructions and stumble over the same bytes. -/

namespace ScriptKit

/-- An instruction with its operands. A jump leads to a place of type `α`. -/
inductive Instr (α : Type) where
  | nop
  | hlt
  | load (dst : GeneralRegister) (n : UInt64)
  | move (dst src : GeneralRegister)
  | add (dst src : GeneralRegister)
  | sub (dst src : GeneralRegister)
  | mul (dst src : GeneralRegister)
  | jump (target : α)
  | branch (r : GeneralRegister) (target : α)
  | dump
  | syscall
deriving DecidableEq, Repr

namespace Instr

variable {α : Type}

def op : Instr α → Opcode
  | nop => .nop
  | hlt => .hlt
  | load .. => .movIr
  | move .. => .movRr
  | add .. => .addRr
  | sub .. => .subRr
  | mul .. => .mulRr
  | jump _ => .jmp
  | branch .. => .jnz
  | dump => .regdump
  | syscall => .syscall

def operands : Instr UInt64 → List Operand
  | nop | hlt | dump | syscall => []
  | load dst n => [.register dst, .immediate n]
  | move dst src | add dst src | sub dst src | mul dst src => [.register dst, .register src]
  | jump target => [.address target]
  | branch r target => [.register r, .address target]

def assign (g : Vector UInt64 10) : GeneralRegister → UInt64 → Vector UInt64 10
  | ⟨dst, inRange⟩, v => g.set dst v inRange

def general (i : Instr α) (g : Vector UInt64 10) : Vector UInt64 10 :=
  match i with
  | load dst n => assign g dst n
  | move dst src => assign g dst (g.get src)
  | add dst src => assign g dst (g.get dst + g.get src)
  | sub dst src => assign g dst (g.get dst - g.get src)
  | mul dst src => assign g dst (g.get dst * g.get src)
  | _ => g

def target? (i : Instr α) (g : Vector UInt64 10) : Option α :=
  match i with
  | jump target => some target
  | branch r target => if g.get r = 0 then none else some target
  | _ => none

/-- Where the machine goes on. Targets count from the instruction start. -/
def flow (i : Instr UInt64) (rs : Registers) : Flow :=
  match i with
  | hlt => .jump 0
  | _ =>
    match i.target? rs.general with
    | some target => .jump (rs.is + target)
    | none => .next

theorem flow_branch (r : GeneralRegister) (target : UInt64) (rs : Registers) :
    (branch r target).flow rs =
      if rs.get (.general r) = 0 then .next else .jump (rs.is + target) := by
  by_cases zero : rs.general.get r = 0
  · have zero' : rs.get (.general r) = 0 := zero
    simp only [flow, target?, if_pos zero, if_pos zero']
  · have nonzero : ¬rs.get (.general r) = 0 := zero
    simp only [flow, target?, if_neg zero, if_neg nonzero]

def ip (i : Instr UInt64) (rs : Registers) : UInt64 :=
  match i.flow rs with
  | .jump address => address
  | .next => rs.ip + UInt64.ofNat i.op.size

/-- The output afterwards, unless the instruction cannot be executed. -/
def out (i : Instr α) (rs : Registers) (sink : Sink) : Except FaultKind Sink :=
  match i with
  | dump => (sink.write rs.dump).mapError .io
  | syscall => .error .syscallUnimplemented
  | _ => .ok sink

theorem out_error {i : Instr α} {rs : Registers} {sink : Sink} {kind : FaultKind}
    (failed : i.out rs sink = .error kind) :
    (∃ message, kind = .io message) ∨ kind = .syscallUnimplemented := by
  cases i with
  | dump =>
    unfold out at failed
    cases written : sink.write rs.dump with
    | ok after =>
      rw [written] at failed
      cases failed
    | error message =>
      rw [written] at failed
      cases failed
      exact .inl ⟨message, rfl⟩
  | syscall =>
    cases failed
    exact .inr rfl
  | _ => cases failed

end Instr

/-- The fault of a machine that stumbles over what the disassembler stumbles over. -/
def DisasmErrorKind.fault : DisasmErrorKind → FaultKind
  | invalidOpcode b => .invalidOpcode b
  | invalidRegister b => .invalidRegister b
  | truncated e => .outOfBounds e

theorem DisasmErrorKind.fault_injective : Function.Injective fault := by
  intro kind kind' same
  cases kind <;> cases kind' <;> cases same <;> rfl

namespace Machine
open Disassembly

def perform (m : Machine) (i : Instr UInt64) : Machine × Progress :=
  match i.out m.registers m.out with
  | .error kind => (m.begin i.op, .faulted ⟨kind, m.registers.ip⟩)
  | .ok out =>
    let registers := { m.registers with
      general := i.general m.registers.general
      ip := i.ip m.registers }
    ({ m.begin i.op with registers, out }, if registers.ip = 0 then .halted else .running)

/-- The disassembler reads an operand where the machine fetches what it stands for, or both fail for
the same reason. -/
def SameOperand {β γ : Type} (operand : β → Operand) (value : β → γ)
    (read : Except DisasmErrorKind Operand) (fetched : Except FaultKind γ) : Prop :=
  (∃ kind, read = .error kind ∧ fetched = .error kind.fault) ∨
    ∃ b, read = .ok (operand b) ∧ fetched = .ok (value b)

section Operands

variable (code : Bytecode) (address : Nat)

theorem fetchRegister_same : SameOperand .register .general
    (operandAt code address ⟨.byte, .register⟩) (fetchRegister code address) := by
  unfold operandAt fetchRegister fetch
  cases code.read .byte address with
  | error e => exact .inl ⟨.truncated e, rfl, rfl⟩
  | ok b =>
    simp only [Except.mapError, Bind.bind, Except.bind, operand]
    cases GeneralRegister.ofByte? b.toUInt8 with
    | none => exact .inl ⟨.invalidRegister b.toUInt8, rfl, rfl⟩
    | some r => exact .inr ⟨r, rfl, rfl⟩

theorem fetch_same (width : Width) : SameOperand .immediate (fun n => n)
    (operandAt code address ⟨width, .immediate⟩) (fetch code width address) := by
  unfold operandAt fetch
  cases code.read width address with
  | error e => exact .inl ⟨.truncated e, rfl, rfl⟩
  | ok n => exact .inr ⟨n, rfl, rfl⟩

theorem fetchTarget_same (m : Machine) : SameOperand .address (m.registers.is + ·)
    (operandAt code address ⟨.dword, .address⟩) (m.fetchTarget code address) := by
  unfold operandAt fetchTarget fetch
  cases code.read .dword address with
  | error e => exact .inl ⟨.truncated e, rfl, rfl⟩
  | ok n => exact .inr ⟨n, rfl, rfl⟩

end Operands

/-- What an instruction leaves that has done its work, before the machine moves on. -/
def worked (m : Machine) (i : Instr UInt64) : EStateM.Result Fault Machine Flow :=
  match i.out m.registers m.out with
  | .error kind => .error ⟨kind, m.registers.ip⟩ m
  | .ok out =>
    let registers := { m.registers with general := i.general m.registers.general }
    .ok (i.flow m.registers) { m with registers, out }

/-- The machine at some opcode finds the operands that the disassembler reads there, and does what
the instruction says. Or both fail for the same reason. -/
def AgreesWithOperands (m : Machine) (code : Bytecode) (offset : Nat) (op : Opcode) : Prop :=
  (∃ kind, operands code (offset + 1) op.operands = .error kind ∧
    execute code offset op m = .error ⟨kind.fault, m.registers.ip⟩ m) ∨
  ∃ i : Instr UInt64, i.op = op ∧ operands code (offset + 1) op.operands = .ok i.operands ∧
    execute code offset op m = m.worked i

section Opcodes

variable {m : Machine} {code : Bytecode} {offset : Nat} {op : Opcode} {β β' γ γ' : Type}

theorem agrees_of_one {spec : OperandSpec} {operand : β → Operand} {value : β → γ}
    {fetched : Except FaultKind γ} {k : γ → Handler Flow}
    (specs : op.operands = [spec])
    (same : SameOperand operand value (operandAt code (offset + 1) spec) fetched)
    (executes : execute code offset op m = (orFail fetched >>= k) m)
    (works : ∀ b, ∃ i : Instr UInt64, i.op = op ∧ i.operands = [operand b] ∧
      k (value b) m = m.worked i) : m.AgreesWithOperands code offset op := by
  unfold AgreesWithOperands
  rw [specs, executes, operands_cons]
  rcases same with ⟨kind, read, fetches⟩ | ⟨b, read, fetches⟩
  · rw [read, fetches]
    exact .inl ⟨kind, rfl, rfl⟩
  · obtain ⟨i, opcode, written, worked⟩ := works b
    rw [read, fetches]
    exact .inr ⟨i, opcode, congrArg Except.ok written.symm, worked⟩

theorem agrees_of_two {spec spec' : OperandSpec} {operand : β → Operand} {operand' : β' → Operand}
    {value : β → γ} {value' : β' → γ'} {fetched : Except FaultKind γ}
    {fetched' : Except FaultKind γ'} {k : γ → γ' → Handler Flow}
    (specs : op.operands = [spec, spec'])
    (same : SameOperand operand value (operandAt code (offset + 1) spec) fetched)
    (same' : SameOperand operand' value' (operandAt code (offset + 1 + spec.width.size) spec')
      fetched')
    (executes : execute code offset op m =
      (do
        let a ← orFail fetched
        let b ← orFail fetched'
        k a b : Handler Flow) m)
    (works : ∀ a b, ∃ i : Instr UInt64, i.op = op ∧ i.operands = [operand a, operand' b] ∧
      k (value a) (value' b) m = m.worked i) : m.AgreesWithOperands code offset op := by
  unfold AgreesWithOperands
  rw [specs, executes, operands_cons, operands_cons]
  rcases same with ⟨kind, read, fetches⟩ | ⟨a, read, fetches⟩
  · rw [read, fetches]
    exact .inl ⟨kind, rfl, rfl⟩
  rcases same' with ⟨kind, read', fetches'⟩ | ⟨b, read', fetches'⟩
  · rw [read, fetches, read', fetches']
    exact .inl ⟨kind, rfl, rfl⟩
  · obtain ⟨i, opcode, written, worked⟩ := works a b
    rw [read, fetches, read', fetches']
    exact .inr ⟨i, opcode, congrArg Except.ok written.symm, worked⟩

theorem agrees_of_combine (f : UInt64 → UInt64 → UInt64)
    (make : GeneralRegister → GeneralRegister → Instr UInt64)
    (specs : op.operands = [⟨.byte, .register⟩, ⟨.byte, .register⟩])
    (executes : execute code offset op = combine code offset f)
    (makes : ∀ dst src, (make dst src).op = op ∧
      (make dst src).operands = [.register dst, .register src] ∧
      m.worked (make dst src) = .ok .next (m.setRegister (.general dst)
        (f (m.registers.get (.general dst)) (m.registers.get (.general src))))) :
    m.AgreesWithOperands code offset op := by
  apply agrees_of_two specs (fetchRegister_same code _) (fetchRegister_same code _)
    (congrFun executes m)
  intro dst src
  obtain ⟨opcode, written, worked⟩ := makes dst src
  exact ⟨make dst src, opcode, written, worked.symm⟩

variable (m code offset op)

theorem execute_agrees_with_operands : m.AgreesWithOperands code offset op := by
  cases op with
  | nop => exact .inr ⟨.nop, rfl, rfl, rfl⟩
  | hlt => exact .inr ⟨.hlt, rfl, rfl, rfl⟩
  | movIr =>
    apply agrees_of_two rfl (fetchRegister_same code _) (fetch_same code _ .qword) rfl
    exact fun dst n => ⟨.load dst n, rfl, rfl, rfl⟩
  | movRr => exact agrees_of_combine (fun _ src => src) .move rfl rfl fun _ _ => ⟨rfl, rfl, rfl⟩
  | addRr => exact agrees_of_combine (· + ·) .add rfl rfl fun _ _ => ⟨rfl, rfl, rfl⟩
  | subRr => exact agrees_of_combine (· - ·) .sub rfl rfl fun _ _ => ⟨rfl, rfl, rfl⟩
  | mulRr => exact agrees_of_combine (· * ·) .mul rfl rfl fun _ _ => ⟨rfl, rfl, rfl⟩
  | jmp =>
    apply agrees_of_one rfl (fetchTarget_same code _ m) rfl
    exact fun n => ⟨.jump n, rfl, rfl, rfl⟩
  | jnz =>
    apply agrees_of_two (k := fun r target => do
        return if (← get).registers.get r = 0 then Flow.next else .jump target)
      rfl (fetchRegister_same code _) (fetchTarget_same code _ m)
    · unfold execute
      cases fetchRegister code (offset + 1) <;> rfl
    · intro r n
      refine ⟨.branch r n, rfl, rfl, ?_⟩
      exact congrArg (EStateM.Result.ok · m) (Instr.flow_branch r n m.registers).symm
  | regdump =>
    refine .inr ⟨.dump, rfl, rfl, ?_⟩
    unfold worked Instr.out
    have executes : execute code offset .regdump m =
        (do
          let out ← orFail ((m.out.write m.registers.dump).mapError .io)
          set { m with out }
          return .next : Handler Flow) m := rfl
    rw [executes]
    dsimp only
    cases m.out.write m.registers.dump <;> rfl
  | syscall => exact .inr ⟨.syscall, rfl, rfl, rfl⟩

end Opcodes

def offset (m : Machine) : Nat :=
  m.registers.ip.toNat - m.registers.is.toNat

/-- Nothing keeps the machine from looking at the next instruction, and it lies in the code. -/
structure Poised (m : Machine) (code : Bytecode) : Prop where
  going : m.registers.ip ≠ 0
  clear : m.obstacle? = none
  lower : m.registers.is ≤ m.registers.ip
  upper : m.registers.ip.toNat < m.registers.is.toNat + code.size

theorem Poised.inside {m : Machine} {code : Bytecode} (poised : m.Poised code) :
    m.offset < code.size := by
  have upper := poised.upper
  have lower := UInt64.le_iff_toNat_le.mp poised.lower
  unfold offset
  omega

theorem perform_eq (m : Machine) (i : Instr UInt64) :
    m.perform i = match (m.begin i.op).worked i with
      | .error f m => (m, .faulted f)
      | .ok flow m =>
        let m := m.moveOn i.op flow
        (m, if m.registers.ip = 0 then .halted else .running) := by
  have same : (m.begin i.op).worked i = match i.out m.registers m.out with
      | .error kind => .error ⟨kind, m.registers.ip⟩ (m.begin i.op)
      | .ok out => .ok (i.flow m.registers) { m.begin i.op with
          registers := { m.registers with general := i.general m.registers.general }
          out } := rfl
  rw [same]
  unfold perform Instr.ip
  cases i.out m.registers m.out with
  | error kind => rfl
  | ok out => cases i.flow m.registers <;> rfl

/-- A step is what the disassembler's reading of the next instruction makes of it. -/
theorem step_cases {m : Machine} {code : Bytecode} (poised : m.Poised code) :
    (∃ kind, decodeAt code m.offset = .error ⟨m.offset, kind⟩ ∧
      (m.step code).2 = .faulted ⟨kind.fault, m.registers.ip⟩) ∨
    ∃ i : Instr UInt64, decodeAt code m.offset = .ok ⟨m.offset, i.op, i.operands⟩ ∧
      m.step code = m.perform i := by
  have offset_eq : m.registers.ip.toNat - m.registers.is.toNat = m.offset := rfl
  unfold step decodeAt
  rw [if_neg poised.going, poised.clear, current, offset_eq, if_pos ⟨poised.lower, poised.inside⟩]
  unfold fetch
  cases code.read .byte m.offset with
  | error e => exact .inl ⟨.truncated e, rfl, rfl⟩
  | ok b =>
    simp only [Except.mapError, Bind.bind, Except.bind]
    cases Opcode.ofByte? b.toUInt8 with
    | none => exact .inl ⟨.invalidOpcode b.toUInt8, rfl, rfl⟩
    | some op =>
      dsimp only [pure, Except.pure]
      -- The machine has counted the instruction before it looks at operands.
      rcases execute_agrees_with_operands (m.begin op) code m.offset op with
        ⟨kind, read, executed⟩ | ⟨i, rfl, read, executed⟩
      · rw [read, executed]
        exact .inl ⟨kind, rfl, rfl⟩
      · rw [read, executed]
        exact .inr ⟨i, rfl, (perform_eq m i).symm⟩

/-- What has been read is not stumbled over any more. -/
theorem perform_faults_later (m : Machine) (i : Instr UInt64) (kind : DisasmErrorKind)
    (ip : UInt64) : (m.perform i).2 ≠ .faulted ⟨kind.fault, ip⟩ := by
  unfold perform
  cases ended : i.out m.registers m.out with
  | error k =>
    dsimp only
    intro same
    cases same
    rcases Instr.out_error ended with ⟨_, impossible⟩ | impossible <;> cases kind <;>
      cases impossible
  | ok out =>
    dsimp only
    split
    · exact fun same => nomatch same
    · exact fun same => nomatch same

/-- The machine and the disassembler read code alike: they stumble over the same bytes for the same
reason, and else the machine executes what the disassembler has read. -/
theorem step_agrees_with_decodeAt {m : Machine} {code : Bytecode} (poised : m.Poised code) :
    (∀ kind : DisasmErrorKind, (∃ ip, (m.step code).2 = .faulted ⟨kind.fault, ip⟩) ↔
      decodeAt code m.offset = .error ⟨m.offset, kind⟩) ∧
    ∀ d, decodeAt code m.offset = .ok d →
      ∃ i : Instr UInt64, i.op = d.op ∧ i.operands = d.operands ∧ m.step code = m.perform i := by
  rcases step_cases poised with ⟨kind, read, stepped⟩ | ⟨i, read, stepped⟩
  · rw [read, stepped]
    refine ⟨fun kind' => ⟨?_, ?_⟩, fun d same => nomatch same⟩
    · rintro ⟨ip, same⟩
      have kinds : kind.fault = kind'.fault := congrArg Fault.kind (Progress.faulted.inj same)
      rw [DisasmErrorKind.fault_injective kinds]
    · intro same
      cases same
      exact ⟨m.registers.ip, rfl⟩
  · rw [read, stepped]
    refine ⟨fun kind => ⟨?_, fun same => nomatch same⟩, ?_⟩
    · rintro ⟨ip, same⟩
      exact absurd same (perform_faults_later m i kind ip)
    · intro d same
      cases same
      exact ⟨i, rfl, rfl, rfl⟩

/-- A jump cut off after its register, and the same jump whole. -/
theorem step_agrees_with_decodeAt_jnz :
    let cut : Bytecode := ⟨#[8, 3, 0, 0]⟩
    let whole : Bytecode := ⟨#[8, 3, 2, 0, 0, 0]⟩
    let m : Machine := load {}
    m.Poised cut ∧ m.Poised whole ∧
      (∃ ip, (m.step cut).2 = .faulted ⟨.outOfBounds ⟨2, 4, 4⟩, ip⟩) ∧
      ∃ i : Instr UInt64, i.op = .jnz ∧ i.operands = [.register 3, .address 2] ∧
        m.step whole = m.perform i := by
  have cut : (load {}).Poised ⟨#[8, 3, 0, 0]⟩ := ⟨by decide, by decide, by decide, by decide⟩
  have whole : (load {}).Poised ⟨#[8, 3, 2, 0, 0, 0]⟩ :=
    ⟨by decide, by decide, by decide, by decide⟩
  refine ⟨cut, whole, ?_, ?_⟩
  · exact ((step_agrees_with_decodeAt cut).1 (.truncated ⟨2, 4, 4⟩)).mpr rfl
  · exact (step_agrees_with_decodeAt whole).2 ⟨0, .jnz, [.register 3, .address 2]⟩ rfl

end Machine

end ScriptKit
