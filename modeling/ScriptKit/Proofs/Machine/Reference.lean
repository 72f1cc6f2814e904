import ScriptKit.Proofs.Machine.Decoding
import ScriptKit.Proofs.Machine.Registers

/-! A machine that executes a list of instructions by index, and code that holds this list.

Of memory, addresses and bytes the reference machine knows nothing. The machine that runs the code
stays at the offset of the instruction that the reference machine is at. -/

namespace ScriptKit

namespace Instr

variable {α β : Type}

def map (f : α → β) : Instr α → Instr β
  | nop => nop
  | hlt => hlt
  | load dst n => load dst n
  | move dst src => move dst src
  | add dst src => add dst src
  | sub dst src => sub dst src
  | mul dst src => mul dst src
  | jump target => jump (f target)
  | branch r target => branch r (f target)
  | dump => dump
  | syscall => syscall

@[simp] theorem op_map (f : α → β) (i : Instr α) : (i.map f).op = i.op := by
  cases i <;> rfl

@[simp] theorem general_map (f : α → β) (i : Instr α) (g : Vector UInt64 10) :
    (i.map f).general g = i.general g := by
  cases i <;> rfl

theorem target?_map (f : α → β) (i : Instr α) (g : Vector UInt64 10) :
    (i.map f).target? g = (i.target? g).map f := by
  cases i with
  | branch r target =>
    simp only [map, target?]
    split <;> rfl
  | _ => rfl

def place? : Instr α → Option α
  | jump target | branch _ target => some target
  | _ => none

theorem place?_of_target? {i : Instr α} {g : Vector UInt64 10} {target : α}
    (taken : i.target? g = some target) : i.place? = some target := by
  cases i with
  | jump _ => exact taken
  | branch r _ =>
    simp only [target?] at taken
    split at taken
    · cases taken
    · exact taken
  | _ => cases taken

def Plain : Instr α → Prop
  | hlt | dump | syscall => False
  | _ => True

theorem Plain.map {i : Instr α} (plain : i.Plain) (f : α → β) : (i.map f).Plain := by
  cases i with
  | hlt | dump | syscall => exact plain.elim
  | _ => exact trivial

/-- Where the machine goes on, unless it stops. -/
theorem ip_of_ne_hlt {i : Instr UInt64} (goes : i ≠ hlt) (rs : Registers) : i.ip rs =
    ((i.target? rs.general).map (rs.is + ·)).getD (rs.ip + UInt64.ofNat i.op.size) := by
  have flows : i.flow rs = (i.target? rs.general).elim .next (.jump <| rs.is + ·) := by
    cases i with
    | hlt => exact absurd rfl goes
    | branch r target => by_cases zero : rs.general.get r = 0 <;> simp [flow, target?, zero]
    | _ => rfl
  rw [ip, flows]
  cases i.target? rs.general <;> rfl

theorem Plain.ne_hlt {i : Instr α} (plain : i.Plain) : i ≠ hlt := by
  rintro rfl
  exact plain

theorem plain_or (i : Instr α) : i = hlt ∨ i = dump ∨ i = syscall ∨ i.Plain := by
  cases i <;> simp [Plain]

/-- Opcode and operands tell what the instruction is. -/
theorem eq_of_operands {i j : Instr UInt64} (ops : i.op = j.op) (same : i.operands = j.operands) :
    i = j := by
  cases i <;> cases j <;> cases ops <;> cases same <;> rfl

end Instr

inductive Ending where
  | running | halted | faulted (kind : FaultKind)
deriving DecidableEq, Repr

def Machine.Progress.ending : Machine.Progress → Ending
  | running => .running
  | halted => .halted
  | faulted f => .faulted f.kind

/-- What may keep a run from going on: someone who cancels it, a budget of cycles, and an output
that refuses a dump after so many others. -/
structure Limits where
  cancelled : Bool
  budget : Option Nat
  refusal? : Nat → Option String

def Limits.obstacle? (limits : Limits) (cycles : Nat) : Option FaultKind :=
  if limits.cancelled then some .cancelled
  else
    match limits.budget with
    | some n => if n ≤ cycles then some (.budgetExhausted n) else none
    | none => none

/-- A machine that is at the instruction with some index. `dumps` are the general registers at each
dump so far. -/
structure Reference where
  general : Vector UInt64 10 := Vector.replicate 10 0
  index : Nat := 0
  cycles : Nat := 0
  dumps : List (Vector UInt64 10) := []

namespace Reference

/-- One instruction. Behind the last one there is nothing to be at. -/
def step (limits : Limits) (program : List (Instr Nat)) (r : Reference) : Reference × Ending :=
  match limits.obstacle? r.cycles with
  | some kind => (r, .faulted kind)
  | none =>
    match program[r.index]? with
    | none => (r, .faulted .ipOutOfRange)
    | some i =>
      let counted := { r with cycles := r.cycles + 1 }
      match i with
      | .hlt => (counted, .halted)
      | .syscall => (counted, .faulted .syscallUnimplemented)
      | .dump =>
        match limits.refusal? r.dumps.length with
        | none => ({ counted with index := r.index + 1, dumps := r.dumps ++ [r.general] }, .running)
        | some message => (counted, .faulted (.io message))
      | i =>
        ({ counted with
          general := i.general r.general
          index := (i.target? r.general).getD (r.index + 1) }, .running)

def runFor (limits : Limits) (program : List (Instr Nat)) : Nat → Reference → Reference × Ending
  | 0, r => (r, .running)
  | n + 1, r =>
    match r.step limits program with
    | (r, .running) => runFor limits program n r
    | ended => ended

end Reference

def byteOffset (program : List (Instr Nat)) (index : Nat) : Nat :=
  offsetAt (program.map Instr.op) index

/-- The instruction as code has it, a jump leading to an offset. -/
def Instr.relocate (program : List (Instr Nat)) (i : Instr Nat) : Instr UInt64 :=
  i.map fun place => UInt64.ofNat (byteOffset program place)

structure Bytecode.Holds (code : Bytecode) (program : List (Instr Nat)) : Prop where
  size : code.size = byteOffset program program.length
  inside : ∀ i ∈ program, ∀ place ∈ i.place?, place ≤ program.length
  decodes : ∀ (k : Nat) (i : Instr Nat), program[k]? = some i →
    decodeAt code (byteOffset program k) =
      .ok ⟨byteOffset program k, i.op, (i.relocate program).operands⟩

theorem byteOffset_succ {program : List (Instr Nat)} {k : Nat} {i : Instr Nat}
    (here : program[k]? = some i) :
    byteOffset program (k + 1) = byteOffset program k + i.op.size := by
  apply offsetAt_succ
  rw [List.getElem?_map, here]
  rfl

theorem Bytecode.Holds.byteOffset_le {code : Bytecode} {program : List (Instr Nat)}
    (holds : code.Holds program) {k : Nat} (inside : k ≤ program.length) :
    byteOffset program k ≤ code.size := by
  rw [holds.size]
  exact offsetAt_le _ inside

theorem Reference.step_plain {limits : Limits} {program : List (Instr Nat)} {r : Reference}
    {i : Instr Nat} (clear : limits.obstacle? r.cycles = none) (here : program[r.index]? = some i)
    (plain : i.Plain) : r.step limits program =
      ({ r with
        general := i.general r.general
        index := (i.target? r.general).getD (r.index + 1)
        cycles := r.cycles + 1 }, .running) := by
  unfold step
  rw [clear, here]
  cases i with
  | hlt | dump | syscall => exact plain.elim
  | _ => rfl

namespace Machine

theorem perform_plain (m : Machine) {i : Instr UInt64} (plain : i.Plain) :
    m.perform i =
      ({ m.begin i.op with
        registers := { m.registers with
          general := i.general m.registers.general
          ip := i.ip m.registers } },
        if i.ip m.registers = 0 then .halted else .running) := by
  cases i with
  | hlt | dump | syscall => exact plain.elim
  | _ => rfl

def limits (m : Machine) : Limits where
  cancelled := m.cancelled
  budget := m.options.budget
  refusal? count :=
    m.out.refusal? (List.replicate count Registers.dumpSize ++ m.out.sizes) Registers.dumpSize

structure Follows (start m : Machine) (r : Reference) : Prop where
  options : m.options = start.options
  cancelled : m.cancelled = start.cancelled
  is : m.registers.is = start.options.base
  general : m.registers.general = r.general
  cycles : m.cycles = r.cycles
  refusal? : m.out.refusal? = start.out.refusal?
  sizes : m.out.sizes = List.replicate r.dumps.length Registers.dumpSize ++ start.out.sizes
  text : ∃ shown : List Registers, shown.map Registers.general = r.dumps ∧
    m.out.text = start.out.text ++ String.join (shown.map Registers.dump)

structure At (start : Machine) (program : List (Instr Nat)) (m : Machine) (r : Reference) :
    Prop where
  follows : Follows start m r
  index : r.index ≤ program.length
  ip : m.registers.ip.toNat =
    start.options.base.toNat + byteOffset program r.index

structure SameEnding (start : Machine) (program : List (Instr Nat)) (ran : Machine × Progress)
    (ref : Reference × Ending) : Prop where
  ending : ran.2.ending = ref.2
  follows : Follows start ran.1 ref.1
  ip : ∀ f, ran.2 = .faulted f → f.ip.toNat =
    start.options.base.toNat + byteOffset program ref.1.index

section Step

variable {start m : Machine} {code : Bytecode} {program : List (Instr Nat)} {r : Reference}

theorem limits_obstacle? (m : Machine) (cycles : Nat) :
    m.limits.obstacle? cycles = ({ m with cycles } : Machine).obstacle? := rfl

theorem Follows.obstacle? (follows : Follows start m r) :
    m.obstacle? = start.limits.obstacle? r.cycles := by
  rw [limits_obstacle?]
  unfold Machine.obstacle?
  rw [follows.options, follows.cancelled, follows.cycles]

theorem Follows.begin (follows : Follows start m r) (op : Opcode) :
    Follows start (m.begin op) { r with cycles := r.cycles + 1 } :=
  { follows with cycles := congrArg (· + 1) follows.cycles }

theorem At.ip_ne_zero (located : At start program m r) (loaded : start.options.base ≠ 0) :
    m.registers.ip ≠ 0 := by
  intro zero
  have ip := located.ip
  rw [zero] at ip
  apply loaded
  apply UInt64.toNat_inj.mp
  rw [UInt64.toNat_zero] at ip ⊢
  omega

theorem At.offset_eq (located : At start program m r) :
    m.offset = byteOffset program r.index := by
  unfold offset
  rw [located.ip, located.follows.is, Nat.add_sub_cancel_left]

/-- There is no instruction where the program ends. -/
theorem At.current_end (located : At start program m r) (holds : code.Holds program)
    (done : program[r.index]? = none) : m.current code = .error .ipOutOfRange := by
  have last : r.index = program.length :=
    Nat.le_antisymm located.index (List.getElem?_eq_none_iff.mp done)
  apply if_neg
  rintro ⟨_, inside⟩
  have here : m.offset < code.size := inside
  rw [located.offset_eq, last, holds.size] at here
  exact Nat.lt_irrefl _ here

theorem At.poised (located : At start program m r) (holds : code.Holds program)
    (loaded : start.options.base ≠ 0) (clear : m.obstacle? = none) {i : Instr Nat}
    (here : program[r.index]? = some i) : m.Poised code := by
  have inside : byteOffset program r.index < code.size := by
    have bound : r.index + 1 ≤ program.length := (List.getElem?_eq_some_iff.mp here).1
    have upper := holds.byteOffset_le bound
    have positive := i.op.size_pos
    rw [byteOffset_succ here] at upper
    omega
  constructor
  case going => exact located.ip_ne_zero loaded
  case clear => exact clear
  case lower =>
    rw [UInt64.le_iff_toNat_le, located.ip, located.follows.is]
    exact Nat.le_add_right _ _
  case upper =>
    rw [located.ip, located.follows.is]
    exact Nat.add_lt_add_left inside _

/-- The machine executes the instruction that the reference machine is at. -/
theorem At.step_eq (located : At start program m r) (holds : code.Holds program)
    (loaded : start.options.base ≠ 0) (clear : m.obstacle? = none) {i : Instr Nat}
    (here : program[r.index]? = some i) :
    m.step code = m.perform (i.relocate program) := by
  have read := holds.decodes r.index i here
  rw [← located.offset_eq] at read
  rcases step_cases (located.poised holds loaded clear here) with
    ⟨kind, failed, _⟩ | ⟨j, decoded, stepped⟩
  · rw [failed] at read
    cases read
  · rw [decoded] at read
    obtain ⟨_, ops, operands⟩ := Decoded.mk.inj (Except.ok.inj read)
    have same : j = i.relocate program :=
      Instr.eq_of_operands (ops.trans (Instr.op_map _ i).symm) operands
    rw [stepped, same]

theorem toNat_base_add {base : UInt64} {n : Nat} (fits : base.toNat + n < UInt64.size) :
    (base + UInt64.ofNat n).toNat = base.toNat + n := by
  have small : n < UInt64.size := by omega
  rw [UInt64.toNat_add, UInt64.toNat_ofNat', Nat.mod_eq_of_lt small]
  exact Nat.mod_eq_of_lt fits

/-- Whether a dump is refused does not depend on what is dumped. -/
theorem write_dump (sink : Sink) (rs : Registers) :
    sink.write rs.dump =
      match sink.refusal? sink.sizes Registers.dumpSize with
      | some message => .error message
      | none => .ok { sink with
          text := sink.text ++ rs.dump
          sizes := Registers.dumpSize :: sink.sizes } := by
  have size := rs.utf8ByteSize_dump
  have filled : rs.dump ≠ "" := by
    intro empty
    rw [empty] at size
    cases size
  cases refused : sink.refusal? sink.sizes Registers.dumpSize <;>
    simp only [Sink.write, if_neg filled, size, refused]

theorem Follows.refusal_eq (follows : Follows start m r) :
    m.out.refusal? m.out.sizes Registers.dumpSize = start.limits.refusal? r.dumps.length := by
  rw [follows.refusal?, follows.sizes]
  rfl

def Same (start : Machine) (program : List (Instr Nat)) (ran : Machine × Progress)
    (ref : Reference × Ending) : Prop :=
  SameEnding start program ran ref ∧ (ref.2 = .running → At start program ran.1 ref.1)

theorem At.same_fault (located : At start program m r) (kind : FaultKind) :
    Same start program (m, .faulted ⟨kind, m.registers.ip⟩) (r, .faulted kind) := by
  refine ⟨⟨rfl, located.follows, ?_⟩, fun running => nomatch running⟩
  intro f same
  cases same
  exact located.ip

theorem At.same_syscall (located : At start program m r) :
    Same start program (m.perform .syscall)
      ({ r with cycles := r.cycles + 1 }, .faulted .syscallUnimplemented) := by
  refine ⟨⟨rfl, located.follows.begin .syscall, ?_⟩, fun running => nomatch running⟩
  intro f same
  cases same
  exact located.ip

theorem At.same_hlt (located : At start program m r) :
    Same start program (m.perform .hlt) ({ r with cycles := r.cycles + 1 }, .halted) := by
  refine ⟨⟨rfl, ?_, fun f same => nomatch same⟩, fun running => nomatch running⟩
  exact { located.follows.begin .hlt with }

/-- The machine arrives at the instruction that the reference machine goes on with. -/
theorem Follows.same_next {m' : Machine} {r' : Reference} (follows : Follows start m' r')
    (holds : code.Holds program) (loaded : start.options.base ≠ 0)
    (fits : start.options.base.toNat + code.size < UInt64.size)
    (inside : r'.index ≤ program.length)
    (leads : m'.registers.ip = start.options.base + UInt64.ofNat (byteOffset program r'.index)) :
    Same start program (m', if m'.registers.ip = 0 then .halted else .running) (r', .running) := by
  have upper := holds.byteOffset_le inside
  have arrived : At start program m' r' := by
    refine ⟨follows, inside, ?_⟩
    rw [leads]
    exact toNat_base_add (by omega)
  rw [if_neg (arrived.ip_ne_zero loaded)]
  exact ⟨⟨rfl, follows, fun f same => nomatch same⟩, fun _ => arrived⟩

theorem At.ip_eq (located : At start program m r) (holds : code.Holds program)
    (fits : start.options.base.toNat + code.size < UInt64.size) :
    m.registers.ip = start.options.base + UInt64.ofNat (byteOffset program r.index) := by
  have upper := holds.byteOffset_le located.index
  apply UInt64.toNat_inj.mp
  rw [located.ip]
  exact (toNat_base_add (by omega)).symm

theorem At.ip_next (located : At start program m r) (holds : code.Holds program)
    (fits : start.options.base.toNat + code.size < UInt64.size) {i : Instr Nat}
    (here : program[r.index]? = some i) :
    m.registers.ip + UInt64.ofNat i.op.size =
      start.options.base + UInt64.ofNat (byteOffset program (r.index + 1)) := by
  rw [located.ip_eq holds fits, byteOffset_succ here, UInt64.ofNat_add, UInt64.add_assoc]

theorem At.same_dump (located : At start program m r) (holds : code.Holds program)
    (loaded : start.options.base ≠ 0) (fits : start.options.base.toNat + code.size < UInt64.size)
    (here : program[r.index]? = some .dump) :
    Same start program (m.perform .dump)
      (match start.limits.refusal? r.dumps.length with
      | none =>
        ({ r with
          index := r.index + 1
          cycles := r.cycles + 1
          dumps := r.dumps ++ [r.general] }, .running)
      | some message => ({ r with cycles := r.cycles + 1 }, .faulted (.io message))) := by
  have counted := located.follows.begin .regdump
  have bound : r.index + 1 ≤ program.length := (List.getElem?_eq_some_iff.mp here).1
  unfold perform Instr.out
  dsimp only
  rw [write_dump, located.follows.refusal_eq]
  cases start.limits.refusal? r.dumps.length with
  | none =>
    apply Follows.same_next _ holds loaded fits bound (located.ip_next holds fits here)
    obtain ⟨shown, general, text⟩ := located.follows.text
    refine { counted with sizes := ?_, text := ⟨shown ++ [m.registers], ?_, ?_⟩ }
    · dsimp only
      rw [located.follows.sizes, List.length_append, List.length_singleton, List.replicate_succ,
        List.cons_append]
    · rw [List.map_append, general, List.map_singleton, located.follows.general]
    · dsimp only
      rw [text, List.map_append, String.join_append, List.map_singleton, String.join_cons,
        String.join_nil, String.append_empty, String.append_assoc]
  | some message =>
    refine ⟨⟨rfl, counted, ?_⟩, fun running => nomatch running⟩
    intro f same
    cases same
    exact located.ip

theorem At.same_plain (located : At start program m r) (holds : code.Holds program)
    (loaded : start.options.base ≠ 0) (fits : start.options.base.toNat + code.size < UInt64.size)
    {i : Instr Nat} (here : program[r.index]? = some i) (plain : i.Plain) :
    Same start program (m.perform (i.relocate program))
      ({ r with
        general := i.general r.general
        index := (i.target? r.general).getD (r.index + 1)
        cycles := r.cycles + 1 }, .running) := by
  have relocated : (i.relocate program).Plain := plain.map _
  have counted := located.follows.begin i.op
  have opcode : (i.relocate program).op = i.op := Instr.op_map _ i
  rw [perform_plain m relocated, opcode]
  apply Follows.same_next _ holds loaded fits
  · dsimp only
    cases taken : i.target? r.general with
    | none => exact (List.getElem?_eq_some_iff.mp here).1
    | some place =>
      exact holds.inside i (List.mem_of_getElem? here) place (Instr.place?_of_target? taken)
  · dsimp only
    rw [Instr.ip_of_ne_hlt relocated.ne_hlt, Instr.relocate, Instr.target?_map,
      located.follows.general, located.follows.is]
    cases i.target? r.general with
    | none =>
      simp only [Option.map_none, Option.getD_none, Instr.op_map]
      exact located.ip_next holds fits here
    | some place => rfl
  · refine { counted with general := ?_ }
    dsimp only
    rw [Instr.relocate, Instr.general_map, located.follows.general]

theorem At.same_step (located : At start program m r) (holds : code.Holds program)
    (loaded : start.options.base ≠ 0)
    (fits : start.options.base.toNat + code.size < UInt64.size) :
    Same start program (m.step code) (r.step start.limits program) := by
  have going := located.ip_ne_zero loaded
  have same_obstacle := located.follows.obstacle?
  cases blocked : m.obstacle? with
  | some kind =>
    rw [blocked] at same_obstacle
    unfold step Reference.step
    rw [if_neg going, blocked, ← same_obstacle]
    exact located.same_fault kind
  | none =>
    have clear := same_obstacle.symm.trans blocked
    cases here : program[r.index]? with
    | none =>
      unfold step Reference.step
      rw [if_neg going, blocked, located.current_end holds here, clear, here]
      exact located.same_fault .ipOutOfRange
    | some i =>
      rw [located.step_eq holds loaded blocked here]
      rcases i.plain_or with rfl | rfl | rfl | plain
      · unfold Reference.step
        rw [clear, here]
        exact located.same_hlt
      · unfold Reference.step
        rw [clear, here]
        exact located.same_dump holds loaded fits here
      · unfold Reference.step
        rw [clear, here]
        exact located.same_syscall
      · rw [Reference.step_plain clear here plain]
        exact located.same_plain holds loaded fits here plain

/-- As long as the reference machine is at an instruction, the machine is at its offset, and both
end alike. -/
theorem At.same_runFor (located : At start program m r) (holds : code.Holds program)
    (loaded : start.options.base ≠ 0)
    (fits : start.options.base.toNat + code.size < UInt64.size) (n : Nat) :
    SameEnding start program (runFor code n m) (Reference.runFor start.limits program n r) := by
  induction n generalizing m r with
  | zero => exact ⟨rfl, located.follows, fun f same => nomatch same⟩
  | succ n ih =>
    obtain ⟨same, next⟩ := located.same_step holds loaded fits
    unfold runFor Reference.runFor
    generalize m.step code = ran at same next
    generalize r.step start.limits program = ref at same next
    obtain ⟨m', progress⟩ := ran
    obtain ⟨r', ending⟩ := ref
    obtain rfl : progress.ending = ending := same.ending
    -- Only a step after which both go on has to leave the machine at an instruction again.
    cases progress with
    | running => exact ih (next rfl)
    | halted => exact ⟨rfl, { same.follows with }, fun f same => nomatch same⟩
    | faulted f => exact ⟨rfl, { same.follows with }, same.ip⟩

end Step

/-- A program is at its first instruction when it is loaded. -/
theorem at_load (start : Machine) (program : List (Instr Nat)) :
    At start program start.load {} := by
  have follows : Follows start start.load {} := by
    refine ⟨rfl, rfl, rfl, rfl, rfl, rfl, rfl, [], rfl, ?_⟩
    exact String.append_empty.symm
  refine ⟨follows, Nat.zero_le _, ?_⟩
  cases program <;> rfl

theorem same_run {start : Machine} {code : Bytecode} {program : List (Instr Nat)}
    (holds : code.Holds program) (loaded : start.options.base ≠ 0)
    (fits : start.options.base.toNat + code.size < UInt64.size) :
    SameEnding start program (start.run code)
      (Reference.runFor start.limits program start.enough {}) := by
  unfold run
  rw [if_neg loaded]
  exact (at_load start program).same_runFor holds loaded fits start.enough

end Machine

namespace Reference

theorem step_running {limits : Limits} {program : List (Instr Nat)} {r r' : Reference}
    (running : r.step limits program = (r', .running)) :
    limits.obstacle? r.cycles = none ∧ r'.cycles = r.cycles + 1 := by
  unfold step at running
  split at running
  · cases running
  · rename_i clear
    refine ⟨clear, ?_⟩
    split at running
    · cases running
    · dsimp only at running
      split at running
      · cases running
      · cases running
      · split at running <;> cases running
        rfl
      · cases running
        rfl

theorem cycles_lt {limits : Limits} {budget cycles : Nat} (limited : limits.budget = some budget)
    (clear : limits.obstacle? cycles = none) : cycles < budget := by
  unfold Limits.obstacle? at clear
  rw [limited] at clear
  split at clear
  · cases clear
  · dsimp only at clear
    split at clear
    · cases clear
    · omega

/-- A budget is used up in the end. -/
theorem runFor_ends {limits : Limits} {program : List (Instr Nat)} {budget : Nat}
    (limited : limits.budget = some budget) {n : Nat} {r : Reference} (within : r.cycles ≤ budget)
    (enough : budget < r.cycles + n) : (runFor limits program n r).2 ≠ .running := by
  induction n generalizing r with
  | zero => omega
  | succ n ih =>
    unfold runFor
    split
    · rename_i r' running
      obtain ⟨clear, counted⟩ := step_running running
      have below := cycles_lt limited clear
      apply ih <;> omega
    · rename_i going
      intro running
      exact going _ (Prod.ext rfl running)

end Reference

end ScriptKit
