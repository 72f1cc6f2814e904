import ScriptKit.Proofs.Machine.Runs

/-! The address at which a program is loaded.

A program counts from the instruction start and cannot read its own address. Two machines that have
it at different addresses stay at the same offset, so they do the same, and only the instruction
pointer and the instruction start in their dumps tell them apart. -/

namespace ScriptKit

/-- An address for some code, far enough from the last one for the end of the code and for every
target of a jump. -/
structure LoadAddress (code : Bytecode) where
  base : UInt64
  nonzero : base ≠ 0
  fits : base.toNat + max code.size 0xffffffff < UInt64.size

def Registers.moved (rs : Registers) (base : UInt64) : Registers :=
  { rs with
    ip := base + (rs.ip - rs.is)
    is := base }

namespace LoadAddress

variable {code : Bytecode} {offset : Nat}

theorem toNat_add (a : LoadAddress code) (near : offset ≤ max code.size 0xffffffff) :
    (a.base + UInt64.ofNat offset).toNat = a.base.toNat + offset :=
  Machine.toNat_base_add (Nat.lt_of_le_of_lt (Nat.add_le_add_left near _) a.fits)

theorem add_ne_zero (a : LoadAddress code) (near : offset ≤ max code.size 0xffffffff) :
    a.base + UInt64.ofNat offset ≠ 0 := by
  intro zero
  have sum := a.toNat_add near
  rw [zero, UInt64.toNat_zero] at sum
  exact a.nonzero (UInt64.toNat_inj.mp (Nat.eq_zero_of_add_eq_zero_right sum.symm))

end LoadAddress

def Instr.nextOffset (i : Instr UInt64) (g : Vector UInt64 10) (offset : Nat) : Nat :=
  ((i.target? g).map UInt64.toNat).getD (offset + i.op.size)

namespace Registers

structure AtOffset {code : Bytecode} (rs : Registers) (a : LoadAddress code) (offset : Nat) :
    Prop where
  near : offset ≤ max code.size 0xffffffff
  is : rs.is = a.base
  ip : rs.ip = a.base + UInt64.ofNat offset

namespace AtOffset

variable {code : Bytecode} {rs rs' : Registers} {a a' : LoadAddress code} {offset : Nat}

theorem toNat_ip (located : rs.AtOffset a offset) : rs.ip.toNat = a.base.toNat + offset := by
  rw [located.ip, a.toNat_add located.near]

theorem going (located : rs.AtOffset a offset) : rs.ip ≠ 0 := by
  rw [located.ip]
  exact a.add_ne_zero located.near

theorem below (located : rs.AtOffset a offset) : rs.is ≤ rs.ip := by
  rw [UInt64.le_iff_toNat_le, located.toNat_ip, located.is]
  exact Nat.le_add_right _ _

theorem toNat_sub (located : rs.AtOffset a offset) : rs.ip.toNat - rs.is.toNat = offset := by
  rw [located.toNat_ip, located.is, Nat.add_sub_cancel_left]

theorem eq_moved (located : rs.AtOffset a offset) (located' : rs'.AtOffset a' offset)
    (general : rs'.general = rs.general) : rs' = rs.moved a'.base := by
  have ip : rs'.ip = a'.base + (rs.ip - rs.is) := by
    rw [located.ip, located'.ip, located.is, UInt64.add_comm a.base, UInt64.add_sub_cancel]
  have is := located'.is
  obtain ⟨g, p, s⟩ := rs'
  subst ip general is
  rfl

/-- An instruction that has been read leads to an offset again, unless it stops the machine. -/
theorem next (located : rs.AtOffset a offset) {i : Instr UInt64}
    (decoded : decodeAt code offset = .ok ⟨offset, i.op, i.operands⟩) (goes : i ≠ .hlt) :
    { rs with general := i.general rs.general, ip := i.ip rs : Registers }.AtOffset a
      (i.nextOffset rs.general offset) := by
  obtain ⟨inside, narrow⟩ := Machine.decoded_inside decoded
  unfold Instr.nextOffset
  constructor
  case is => exact located.is
  case near =>
    cases taken : i.target? rs.general with
    | none => exact Nat.le_trans inside (Nat.le_max_left _ _)
    | some target =>
      exact Nat.le_trans (narrow target (Instr.place?_of_target? taken)) (Nat.le_max_right _ _)
  case ip =>
    dsimp only
    rw [Instr.ip_of_ne_hlt goes, located.is, located.ip]
    cases i.target? rs.general with
    | none =>
      rw [Option.map_none, Option.map_none, Option.getD_none, Option.getD_none, UInt64.ofNat_add,
        UInt64.add_assoc]
    | some target =>
      rw [Option.map_some, Option.map_some, Option.getD_some, Option.getD_some, UInt64.ofNat_toNat]

end AtOffset

end Registers

namespace Machine

def withBase (m : Machine) (base : UInt64) : Machine :=
  { m with options := { m.options with base } }

variable {code : Bytecode}

/-- What two machines have in common that run a program at the addresses `a` and `a'`. Each has
written its dumps behind `text`. -/
structure Abreast (a a' : LoadAddress code) (text : String) (m m' : Machine) : Prop where
  budget : m'.options.budget = m.options.budget
  cancelled : m'.cancelled = m.cancelled
  state : m'.state = m.state
  cycles : m'.cycles = m.cycles
  general : m'.registers.general = m.registers.general
  is : m.registers.is = a.base
  is' : m'.registers.is = a'.base
  refusal? : m'.out.refusal? = m.out.refusal?
  sizes : m'.out.sizes = m.out.sizes
  dumps : ∃ shown : List Registers,
    m.out.text = text ++ String.join (shown.map Registers.dump) ∧
    m'.out.text = text ++ String.join (shown.map fun rs => (rs.moved a'.base).dump)

structure Level (a a' : LoadAddress code) (text : String) (m m' : Machine) (offset : Nat) :
    Prop where
  abreast : Abreast a a' text m m'
  here : m.registers.AtOffset a offset
  there : m'.registers.AtOffset a' offset

structure SameOutcome (a a' : LoadAddress code) (text : String) (ran ran' : Machine × Progress) :
    Prop where
  ending : ran'.2.ending = ran.2.ending
  abreast : Abreast a a' text ran.1 ran'.1
  ip : ∀ f f', ran.2 = .faulted f → ran'.2 = .faulted f' →
    ∃ offset, f.ip.toNat = a.base.toNat + offset ∧ f'.ip.toNat = a'.base.toNat + offset

def SameStep (a a' : LoadAddress code) (text : String) (ran ran' : Machine × Progress) : Prop :=
  SameOutcome a a' text ran ran' ∧
    (ran.2 = .running → ∃ offset, Level a a' text ran.1 ran'.1 offset)

variable {a a' : LoadAddress code} {text : String} {m m' n n' : Machine} {offset : Nat}

section State

theorem Abreast.obstacle? (abreast : Abreast a a' text m m') : m'.obstacle? = m.obstacle? := by
  unfold Machine.obstacle?
  rw [abreast.cancelled, abreast.budget, abreast.cycles]

theorem Abreast.begin (abreast : Abreast a a' text m m') (op : Opcode) :
    Abreast a a' text (m.begin op) (m'.begin op) :=
  { abreast with cycles := congrArg (· + 1) abreast.cycles }

theorem Level.moved (level : Level a a' text m m' offset) :
    m'.registers = m.registers.moved a'.base :=
  level.here.eq_moved level.there level.abreast.general

theorem Level.current_eq (level : Level a a' text m m' offset) :
    m'.current code = m.current code := by
  unfold current
  simp only [level.here.toNat_sub, level.there.toNat_sub, level.here.below, level.there.below]

end State

section Step

theorem Level.same_fault (level : Level a a' text m m' offset) (abreast : Abreast a a' text n n')
    (kind : FaultKind) :
    SameStep a a' text (n, .faulted ⟨kind, m.registers.ip⟩)
      (n', .faulted ⟨kind, m'.registers.ip⟩) := by
  refine ⟨⟨rfl, abreast, ?_⟩, fun running => nomatch running⟩
  intro f f' same same'
  cases same
  cases same'
  exact ⟨offset, level.here.toNat_ip, level.there.toNat_ip⟩

theorem Abreast.same_halt (abreast : Abreast a a' text n n') :
    SameStep a a' text (n, .halted) (n', .halted) :=
  ⟨⟨rfl, abreast, fun _ _ same => nomatch same⟩, fun running => nomatch running⟩

theorem Level.same_next (level : Level a a' text n n' offset) :
    SameStep a a' text (n, .running) (n', .running) :=
  ⟨⟨rfl, level.abreast, fun _ _ same => nomatch same⟩, fun _ => ⟨offset, level⟩⟩

theorem Level.out (level : Level a a' text m m' offset) (i : Instr UInt64) :
    (∃ kind, i.out m.registers m.out = .error kind ∧ i.out m'.registers m'.out = .error kind) ∨
    ∃ out out', i.out m.registers m.out = .ok out ∧ i.out m'.registers m'.out = .ok out' ∧
      Abreast a a' text { m with out } { m' with out := out' } := by
  cases i with
  | syscall => exact .inl ⟨.syscallUnimplemented, rfl, rfl⟩
  | dump =>
    unfold Instr.out
    dsimp only
    -- All dumps have one size, so both outputs take this one or both refuse it.
    rw [write_dump, write_dump, level.abreast.refusal?, level.abreast.sizes]
    cases m.out.refusal? m.out.sizes Registers.dumpSize with
    | some message => exact .inl ⟨.io message, rfl, rfl⟩
    | none =>
      refine .inr ⟨_, _, rfl, rfl, ?_⟩
      obtain ⟨shown, here, there⟩ := level.abreast.dumps
      refine { level.abreast with
        sizes := rfl
        refusal? := rfl
        dumps := ⟨shown ++ [m.registers], ?_, ?_⟩ }
      · simp only [here, List.map_append, String.join_append, List.map_singleton, String.join_cons,
          String.join_nil, String.append_empty, String.append_assoc]
      · simp only [there, level.moved, List.map_append, String.join_append, List.map_singleton,
          String.join_cons, String.join_nil, String.append_empty, String.append_assoc]
  | _ => exact .inr ⟨m.out, m'.out, rfl, rfl, level.abreast⟩

theorem Level.same_perform (level : Level a a' text m m' offset) {i : Instr UInt64}
    (decoded : decodeAt code offset = .ok ⟨offset, i.op, i.operands⟩) :
    SameStep a a' text (m.perform i) (m'.perform i) := by
  unfold perform
  rcases level.out i with ⟨kind, failed, failed'⟩ | ⟨out, out', written, written', abreast⟩
  · rw [failed, failed']
    exact level.same_fault (level.abreast.begin i.op) kind
  · rw [written, written']
    dsimp only
    have general : i.general m'.registers.general = i.general m.registers.general :=
      congrArg i.general abreast.general
    -- Only `hlt` leads to the same address from everywhere. All else leads to the same offset.
    by_cases stops : i = .hlt
    · subst stops
      exact Abreast.same_halt { abreast.begin .hlt with general }
    · have here := level.here.next decoded stops
      have there := level.there.next decoded stops
      have same : i.nextOffset m'.registers.general offset =
          i.nextOffset m.registers.general offset := by
        rw [level.abreast.general]
      have onward : i.ip m.registers ≠ 0 := here.going
      have onward' : i.ip m'.registers ≠ 0 := there.going
      rw [if_neg onward, if_neg onward']
      rw [same] at there
      exact Level.same_next ⟨{ abreast.begin i.op with general }, here, there⟩

theorem Level.same_step (level : Level a a' text m m' offset) :
    SameStep a a' text (m.step code) (m'.step code) := by
  cases blocked : m.obstacle? with
  | some kind =>
    have blocked' := level.abreast.obstacle?.trans blocked
    unfold step
    rw [if_neg level.here.going, if_neg level.there.going, blocked, blocked']
    exact level.same_fault level.abreast kind
  | none =>
    have blocked' := level.abreast.obstacle?.trans blocked
    cases step_together level.here.going level.there.going blocked blocked' level.current_eq with
    | lost kind _ here there =>
      rw [here, there]
      exact level.same_fault level.abreast kind
    | stumbled op kind _ here there =>
      rw [here, there]
      exact level.same_fault (level.abreast.begin op) kind.fault
    | performed i _ decoded here there =>
      have located : m.offset = offset := level.here.toNat_sub
      rw [here, there]
      rw [located] at decoded
      exact level.same_perform decoded

end Step

section Run

theorem Progress.ending_eq_running {progress : Progress} :
    progress.ending = .running ↔ progress = .running := by
  cases progress with
  | running => exact ⟨fun _ => rfl, fun _ => rfl⟩
  | halted | faulted => constructor <;> intro same <;> cases same

theorem SameOutcome.running_iff {ran ran' : Machine × Progress}
    (same : SameOutcome a a' text ran ran') :
    ran'.2 = .running ↔ ran.2 = .running := by
  rw [← Progress.ending_eq_running, same.ending, Progress.ending_eq_running]

/-- As long as one machine goes on, the other one is at the same offset. -/
theorem Level.reached (level : Level a a' text m m' offset) {k : Nat}
    (ran : runFor code k m = (n, .running)) :
    ∃ n' offset, runFor code k m' = (n', .running) ∧ Level a a' text n n' offset := by
  induction k generalizing m m' offset with
  | zero =>
    cases ran
    exact ⟨m', offset, rfl, level⟩
  | succ k ih =>
    obtain ⟨next, stepped, ran⟩ := runFor_succ ran
    obtain ⟨same, levels⟩ := level.same_step
    rw [stepped] at same levels
    have stepped' : m'.step code = ((m'.step code).1, .running) :=
      Prod.ext rfl (same.running_iff.mpr rfl)
    obtain ⟨offset', level'⟩ := levels rfl
    obtain ⟨n', last, ran', reached⟩ := ih level' ran
    exact ⟨n', last, (runFor_running stepped' k).trans ran', reached⟩

theorem SameOutcome.settle {ran ran' : Machine × Progress} (same : SameOutcome a a' text ran ran') :
    SameOutcome a a' text (settle ran) (settle ran') := by
  obtain ⟨n, progress⟩ := ran
  obtain ⟨n', progress'⟩ := ran'
  have abreast := same.abreast
  have ending : progress'.ending = progress.ending := same.ending
  cases progress with
  | running =>
    cases progress' with
    | running => exact same
    | halted | faulted => cases ending
  | halted =>
    cases progress' with
    | halted => exact ⟨rfl, { abreast with state := rfl }, same.ip⟩
    | running | faulted => cases ending
  | faulted f =>
    cases progress' with
    | faulted f' => exact ⟨ending, { abreast with state := rfl }, same.ip⟩
    | running | halted => cases ending

theorem Level.same_runFor (level : Level a a' text m m' offset) (k : Nat) :
    SameOutcome a a' text (runFor code k m) (runFor code k m') := by
  -- If the first run has a last step, the other one takes its last step there too.
  rcases runFor_cases code k m with ⟨n, ran⟩ | ⟨j, early, last, ran, ended⟩
  · obtain ⟨n', _, ran', level'⟩ := level.reached ran
    rw [ran, ran']
    exact level'.same_next.1
  · obtain ⟨last', _, ran', level'⟩ := level.reached ran
    have same := level'.same_step.1
    have ended' : (last'.step code).2 ≠ .running := fun going => ended (same.running_iff.mp going)
    rw [(runFor_last ran ended early).1, (runFor_last ran' ended' early).1]
    exact same.settle

theorem level_load (m : Machine) (a a' : LoadAddress code) :
    Level a a' m.out.text (m.withBase a.base).load (m.withBase a'.base).load 0 := by
  have dumps : ∃ shown : List Registers,
      m.out.text = m.out.text ++ String.join (shown.map Registers.dump) ∧
      m.out.text = m.out.text ++ String.join (shown.map fun rs => (rs.moved a'.base).dump) :=
    ⟨[], String.append_empty.symm, String.append_empty.symm⟩
  have abreast : Abreast a a' m.out.text (m.withBase a.base).load (m.withBase a'.base).load :=
    ⟨rfl, rfl, rfl, rfl, rfl, rfl, rfl, rfl, rfl, dumps⟩
  have loaded : ∀ b : LoadAddress code, (m.withBase b.base).load.registers.AtOffset b 0 :=
    fun _ => ⟨Nat.zero_le _, rfl, (UInt64.add_zero _).symm⟩
  exact ⟨abreast, loaded a, loaded a'⟩

end Run

structure Relocatable (m : Machine) (a a' : LoadAddress code) : Prop where
  outcome : SameOutcome a a' m.out.text ((m.withBase a.base).run code)
      ((m.withBase a'.base).run code)
  ends : ∀ limit ∈ m.options.budget, ((m.withBase a.base).run code).2 ≠ .running
  /-- The machines also agree on the way, and their instruction pointers stay behind the instruction
  start. -/
  course : ∀ k n, runFor code k (m.withBase a.base).load = (n, .running) →
    ∃ n', runFor code k (m.withBase a'.base).load = (n', .running) ∧
      n'.registers = n.registers.moved a'.base ∧
      n.registers.is = a.base ∧ n.registers.is ≤ n.registers.ip ∧ n'.registers.is ≤ n'.registers.ip

/-- The address does not matter: the same end, the same general registers and cycles, the same dumps
but for the instruction pointer and the instruction start, and a fault at the same offset. -/
theorem relocatable (m : Machine) (code : Bytecode) (a a' : LoadAddress code) :
    m.Relocatable a a' := by
  have level := level_load m a a'
  constructor
  case outcome =>
    have run : (m.withBase a.base).run code = _ := (run_loaded code a.nonzero).1
    have run' : (m.withBase a'.base).run code = _ := (run_loaded code a'.nonzero).1
    rw [run, run']
    exact level.same_runFor m.enough
  case ends => exact fun limit limited => run_ends code limited
  case course =>
    intro k n ran
    obtain ⟨n', offset, ran', level'⟩ := level.reached ran
    exact ⟨n', ran', level'.moved, level'.here.is, level'.here.below, level'.there.below⟩

/-- A jump, a dump and `hlt`, low and high. -/
theorem relocatable_dump :
    let code : Bytecode := ⟨#[7, 6, 0, 0, 0, 0, 9, 1]⟩
    let m : Machine := {}
    ∃ low high : LoadAddress code, low.base = 0x1000 ∧ high.base = 0xffff000000000000 ∧
      m.Relocatable low high ∧ ((m.withBase low.base).run code).2 = .halted := by
  intro code m
  have low : 0x1000 + max code.size 0xffffffff < UInt64.size := by decide
  have high : 0xffff000000000000 + max code.size 0xffffffff < UInt64.size := by decide
  have halts : ((m.withBase 0x1000).run code).2 = .halted := by decide +kernel
  exact ⟨⟨0x1000, by decide, low⟩, ⟨0xffff000000000000, by decide, high⟩, rfl, rfl,
    relocatable m code _ _, halts⟩

end Machine

end ScriptKit
