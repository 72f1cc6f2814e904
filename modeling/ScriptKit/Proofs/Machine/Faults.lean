import ScriptKit.Proofs.Assembly.Validity
import ScriptKit.Proofs.Machine.Runs

/-! What a fault leaves behind.

An instruction fetches all it needs before it writes to the machine, and where it writes it cannot
fail any more. So an instruction that fails has changed nothing but the count of cycles, and a
machine that gives up has the registers that the last completed instruction left, or those it was
loaded with. -/

namespace ScriptKit

/-- Whether an instruction that has begun raises such a fault. The others are raised in front of
one. -/
def FaultKind.isOwn : FaultKind → Bool
  | invalidRegister _ | outOfBounds _ | syscallUnimplemented | io _ => true
  | invalidOpcode _ | ipOutOfRange | budgetExhausted _ | cancelled | zeroBase => false

theorem Bytecode.read_byte_inside {code : Bytecode} {address : Nat} (inside : address < code.size) :
    ∃ b, code.read .byte address = .ok b :=
  ⟨_, if_pos inside⟩

namespace Handler

variable {α β : Type} {h : Handler α}

/-- A handler that fails leaves the machine as it was, and the fault tells its instruction
pointer. -/
def Atomic (h : Handler α) : Prop :=
  ∀ ⦃m n : Machine⦄ ⦃f : Fault⦄, h m = .error f n → n = m ∧ f.ip = m.registers.ip

structure Reads (h : Handler α) : Prop where
  keeps : ∀ ⦃m n : Machine⦄ ⦃a : α⦄, h m = .ok a n → n = m
  atomic : h.Atomic

theorem atomic_of_ok (safe : ∀ m, ∃ a n, h m = .ok a n) : h.Atomic := by
  intro m n f failed
  obtain ⟨a, n', done⟩ := safe m
  cases done.symm.trans failed

/-- As long as a handler only reads, it may fail. -/
theorem Reads.bind (reads : h.Reads) {k : α → Handler β} (rest : ∀ a, (k a).Atomic) :
    (h >>= k).Atomic := by
  intro m n f failed
  simp only [Bind.bind, EStateM.bind] at failed
  cases done : h m with
  | error f' n' =>
    rw [done] at failed
    cases failed
    exact reads.atomic done
  | ok a n' =>
    rw [done] at failed
    obtain rfl := reads.keeps done
    exact rest a failed

theorem reads_get : Reads (get : Handler Machine) := by
  constructor
  · rintro m n a done
    cases done
    rfl
  · exact atomic_of_ok fun m => ⟨m, m, rfl⟩

theorem atomic_fail (kind : FaultKind) : Atomic (Machine.fail kind : Handler α) := by
  rintro m n f failed
  cases failed
  exact ⟨rfl, rfl⟩

theorem reads_orFail (fetched : Except FaultKind α) : Reads (Machine.orFail fetched) := by
  cases fetched with
  | error kind =>
    constructor
    · intro m n a done
      cases done
    · exact atomic_fail kind
  | ok a =>
    constructor
    · rintro m n b done
      cases done
      rfl
    · exact atomic_of_ok fun m => ⟨a, m, rfl⟩

end Handler

namespace Machine

variable {code : Bytecode} {m n : Machine} {f : Fault}

def Fumbles (m : Machine) (code : Bytecode) (kind : FaultKind) : Prop :=
  ∃ op offset f n, m.begun? code = some (op, offset) ∧
    execute code offset op (m.begin op) = .error f n ∧ f.kind = kind

section Handlers
open Handler

theorem atomic_combine (code : Bytecode) (offset : Nat) (g : UInt64 → UInt64 → UInt64) :
    Atomic (combine code offset g) := by
  refine (reads_orFail _).bind fun dst => (reads_orFail _).bind fun src =>
    reads_get.bind fun m => ?_
  exact atomic_of_ok fun _ => ⟨_, _, rfl⟩

theorem atomic_execute (code : Bytecode) (offset : Nat) (op : Opcode) :
    Atomic (execute code offset op) := by
  cases op with
  | nop | hlt => exact atomic_of_ok fun m => ⟨_, m, rfl⟩
  | movIr =>
    refine (reads_orFail _).bind fun dst => (reads_orFail _).bind fun v => ?_
    exact atomic_of_ok fun _ => ⟨_, _, rfl⟩
  | movRr => exact atomic_combine code offset fun _ src => src
  | addRr => exact atomic_combine code offset (· + ·)
  | subRr => exact atomic_combine code offset (· - ·)
  | mulRr => exact atomic_combine code offset (· * ·)
  | jmp =>
    refine reads_get.bind fun m => (reads_orFail _).bind fun target => ?_
    exact atomic_of_ok fun n => ⟨_, n, rfl⟩
  | jnz =>
    refine (reads_orFail _).bind fun r => reads_get.bind fun m =>
      (reads_orFail _).bind fun target => ?_
    exact atomic_of_ok fun n => ⟨_, n, rfl⟩
  | regdump =>
    -- The output is asked before the machine is given a new one.
    refine reads_get.bind fun m => (reads_orFail _).bind fun out => ?_
    exact atomic_of_ok fun _ => ⟨_, _, rfl⟩
  | syscall => exact atomic_fail .syscallUnimplemented

end Handlers

section Kinds

variable {kind : FaultKind}

theorem obstacle_not_own (blocked : m.obstacle? = some kind) : kind.isOwn = false := by
  unfold obstacle? at blocked
  split at blocked
  · cases blocked
    rfl
  · split at blocked
    · split at blocked
      · cases blocked
        rfl
      · cases blocked
    · cases blocked

theorem current_not_own (lost : m.current code = .error kind) : kind.isOwn = false := by
  unfold current fetch at lost
  dsimp only at lost
  split at lost
  · rename_i inside
    obtain ⟨b, read⟩ := Bytecode.read_byte_inside inside.2
    rw [read] at lost
    simp only [Except.mapError, Bind.bind, Except.bind] at lost
    split at lost
    · cases lost
    · cases lost
      rfl
  · cases lost
    rfl

/-- What is wrong with the operands of an instruction is never its opcode. -/
theorem isOwn_of_badOperands {total address : Nat} {specs : List OperandSpec} {bytes : List UInt8}
    {e : DisasmErrorKind} (bad : Disassembly.BadOperands total address specs bytes e) :
    e.fault.isOwn = true := by
  induction bad with
  | truncated => rfl
  | register => rfl
  | later _ _ ih => exact ih

theorem execute_own {offset : Nat} {op : Opcode} (failed : execute code offset op m = .error f n) :
    f.kind.isOwn = true := by
  rcases execute_agrees_with_operands m code offset op with
    ⟨e, read, executed⟩ | ⟨i, _, _, executed⟩
  · cases executed.symm.trans failed
    exact isOwn_of_badOperands
      ((Disassembly.operands_eq_error_iff op.register_width code _ e).mp read)
  · rw [executed, worked] at failed
    cases written : i.out m.registers m.out with
    | error kind =>
      rw [written] at failed
      cases failed
      rcases Instr.out_error written with ⟨_, rfl⟩ | rfl <;> rfl
    | ok out =>
      rw [written] at failed
      cases failed

end Kinds

/-- A step that fails keeps the registers and the output, and counts the instruction just if it has
begun. -/
structure Keeps (code : Bytecode) (m n : Machine) (f : Fault) : Prop where
  registers : n.registers = m.registers
  out : n.out = m.out
  ip : f.ip = m.registers.ip
  cycles : n.cycles = m.cycles + if f.kind.isOwn then 1 else 0
  own : f.kind.isOwn = true ↔ m.Fumbles code f.kind

theorem keeps_before {kind : FaultKind} (nothing : m.begun? code = none)
    (other : kind.isOwn = false) :
    Keeps code m m ⟨kind, m.registers.ip⟩ := by
  refine ⟨rfl, rfl, rfl, by simp [other], ?_⟩
  simp [Fumbles, nothing, other]

theorem step_faulted (stepped : m.step code = (n, .faulted f)) : Keeps code m n f := by
  have going : m.registers.ip ≠ 0 := by
    intro stopped
    rw [step, if_pos stopped] at stepped
    cases stepped
  cases blocked : m.obstacle? with
  | some kind =>
    have nothing : m.begun? code = none := by rw [begun?, if_neg going, blocked]
    rw [step, if_neg going, blocked] at stepped
    cases stepped
    exact keeps_before nothing (obstacle_not_own blocked)
  | none =>
    have begins : m.begun? code = (m.current code).toOption := begun?_eq going blocked
    cases looked : m.current code with
    | error kind =>
      rw [looked] at begins
      cases (step_lost going blocked looked).symm.trans stepped
      exact keeps_before begins (current_not_own looked)
    | ok found =>
      obtain ⟨op, offset⟩ := found
      rw [looked] at begins
      rw [step_found going blocked looked] at stepped
      cases executed : execute code offset op (m.begin op) with
      | error g left =>
        rw [executed] at stepped
        cases stepped
        have own := execute_own executed
        obtain ⟨rfl, ip⟩ := atomic_execute code offset op executed
        refine ⟨rfl, rfl, ip, by simp [begin, own], ?_⟩
        exact ⟨fun _ => ⟨op, offset, f, _, begins, executed, rfl⟩, fun _ => own⟩
      | ok flow after =>
        rw [executed, conclude] at stepped
        have progress := congrArg Prod.snd stepped
        dsimp only at progress
        split at progress <;> cases progress

/-- How a run is left that a fault has ended: `done` instructions were completed, and they had made
of the machine what `last` is. -/
structure Aborted (m : Machine) (code : Bytecode) (f : Fault) (done : Nat) (last : Machine) :
    Prop where
  completed : runFor code done m.load = (last, .running) ∧ (history code done m.load).length = done
  registers : (m.run code).1.registers = last.registers
  out : (m.run code).1.out = last.out
  ip : f.ip = (m.run code).1.registers.ip
  state : (m.run code).1.state = .faulted
  /-- The instruction that has begun counts, though it was not completed. -/
  cycles : (m.run code).1.cycles = done + if f.kind.isOwn then 1 else 0
  own : f.kind.isOwn = true ↔ last.Fumbles code f.kind

/-- A fault is atomic. Only a machine that cannot be loaded has no instructions to tell of. -/
theorem fault_atomic (m : Machine) (code : Bytecode) {f : Fault}
    (faulted : (m.run code).2 = .faulted f) (other : f.kind ≠ .zeroBase) :
    m.options.base ≠ 0 ∧ ∃ done last, m.Aborted code f done last := by
  have loaded : m.options.base ≠ 0 := by
    intro unloaded
    rw [run, if_pos unloaded] at faulted
    cases faulted
    exact other rfl
  refine ⟨loaded, ?_⟩
  have comes := (run_loaded code loaded).1
  rcases runFor_cases code m.enough m.load with ⟨n, ran⟩ | ⟨done, early, last, ran, ended⟩
  · rw [comes, ran] at faulted
    cases faulted
  · rw [(runFor_last ran ended early).1] at comes
    rw [comes, settle_snd] at faulted
    have stepped : last.step code = ((last.step code).1, .faulted f) := Prod.ext rfl faulted
    have keeps := step_faulted stepped
    rw [stepped, settle] at comes
    have counted : last.cycles = done := (cycles_reached ran).trans (Nat.zero_add done)
    refine ⟨done, last, ⟨ran, length_history ran⟩, ?_, ?_, ?_, ?_, ?_, keeps.own⟩
    · rw [comes]
      exact keeps.registers
    · rw [comes]
      exact keeps.out
    · rw [comes]
      exact keeps.ip.trans (congrArg Registers.ip keeps.registers.symm)
    · rw [comes]
    · rw [comes, ← counted]
      exact keeps.cycles

/-- A sum with a register that does not exist, behind an instruction that was completed. -/
theorem fault_atomic_register :
    let code : Bytecode := ⟨#[2, 0, 7, 0, 0, 0, 0, 0, 0, 0, 4, 0, 12]⟩
    let m : Machine := {}
    let f : Fault := ⟨.invalidRegister 12, 0x100a⟩
    (m.run code).2 = .faulted f ∧ f.kind ≠ .zeroBase ∧ (∃ done last, m.Aborted code f done last) ∧
      (m.run code).1.cycles = 2 ∧ (m.run code).1.registers.general[0] = 7 := by
  intro code m f
  have faulted : (m.run code).2 = .faulted f := by decide
  have other : f.kind ≠ .zeroBase := by decide
  exact ⟨faulted, other, (fault_atomic m code faulted other).2, by decide, by decide⟩

end Machine

end ScriptKit
