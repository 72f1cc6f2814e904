import ScriptKit.Proofs.Machine.Runs

/-! How a run comes to a good end.

The machine stops when its instruction pointer is zero. `hlt` puts it there. So does an instruction
at the very end of all addresses, for the address behind the last one is zero again. Wherever else a
program is left, the machine reports it. -/

namespace ScriptKit

theorem Opcode.size_le (op : Opcode) : op.size ≤ 10 := by
  cases op <;> decide

/-- The place behind the instruction, or that of its target, is one that 64 bits cannot tell from
zero. -/
def Instr.Wraps (i : Instr UInt64) (base offset : Nat) : Prop :=
  base + offset + i.op.size = UInt64.size ∨ ∃ target ∈ i.place?, base + target.toNat = UInt64.size

theorem toNat_add_toNat {a b : UInt64} (nonzero : a ≠ 0) (wraps : a + b = 0) :
    a.toNat + b.toNat = UInt64.size := by
  have positive : a.toNat ≠ 0 := fun zero => nonzero (UInt64.toNat_inj.mp zero)
  have first := a.toNat_lt
  have second := b.toNat_lt
  have sum := congrArg UInt64.toNat wraps
  rw [UInt64.toNat_add, UInt64.toNat_zero] at sum
  simp only [UInt64.size]
  omega

/-- The instruction pointer becomes zero by `hlt`, or by counting too far. -/
theorem Instr.eq_hlt_or_wraps {i : Instr UInt64} {rs : Registers} (nonzero : rs.is ≠ 0)
    (below : rs.is ≤ rs.ip) (zero : i.ip rs = 0) :
    i = .hlt ∨ i.Wraps rs.is.toNat (rs.ip.toNat - rs.is.toNat) := by
  have lower := UInt64.le_iff_toNat_le.mp below
  have going : rs.ip ≠ 0 := by
    rintro stopped
    rw [stopped, UInt64.toNat_zero] at lower
    exact nonzero (UInt64.toNat_inj.mp (Nat.le_zero.mp lower))
  have behind : rs.ip + UInt64.ofNat i.op.size = 0 →
      i.Wraps rs.is.toNat (rs.ip.toNat - rs.is.toNat) := by
    intro wraps
    have small := i.op.size_le
    have sum := toNat_add_toNat going wraps
    rw [UInt64.toNat_ofNat', Nat.mod_eq_of_lt (by omega)] at sum
    exact .inl (by omega)
  by_cases stops : i = .hlt
  · exact .inl stops
  · rw [ip_of_ne_hlt stops] at zero
    cases taken : i.target? rs.general with
    | none =>
      rw [taken] at zero
      exact .inr (behind zero)
    | some target =>
      rw [taken] at zero
      exact .inr (.inr ⟨target, place?_of_target? taken, toNat_add_toNat nonzero zero⟩)

theorem Instr.not_wraps {code : Bytecode} {i : Instr UInt64} {base offset : Nat}
    (decoded : decodeAt code offset = .ok ⟨offset, i.op, i.operands⟩)
    (fits : base + max code.size 0xffffffff < UInt64.size) : ¬ i.Wraps base offset := by
  obtain ⟨inside, near⟩ := Machine.decoded_inside decoded
  rintro (behind | ⟨target, place, leads⟩)
  · omega
  · have bound := near target place
    omega

namespace Machine

variable {code : Bytecode} {m : Machine}

theorem last_of_halted (loaded : m.options.base ≠ 0) (halted : (m.run code).2 = .halted) :
    ∃ (i : Instr UInt64) (offset : Nat), (m.executed code).getLast? = some (i.op, offset) ∧
      decodeAt code offset = .ok ⟨offset, i.op, i.operands⟩ ∧
      (i = .hlt ∨ i.Wraps m.options.base.toNat offset) := by
  obtain ⟨run, executed⟩ := run_loaded code loaded
  rw [run] at halted
  rcases runFor_cases code m.enough m.load with ⟨n, ran⟩ | ⟨k, early, last, ran, ended⟩
  · rw [ran] at halted
    cases halted
  · obtain ⟨comes, lists⟩ := runFor_last ran ended early
    have going := going_loaded loaded ran
    have start := (kept_loaded ran).1
    rw [comes, settle_snd] at halted
    have stepped : last.step code = ((last.step code).1, .halted) := Prod.ext rfl halted
    obtain ⟨clear, i, looked, decoded, done⟩ := step_fine going stepped fun f same => nomatch same
    obtain ⟨out, _, stops⟩ := perform_fine done fun f same => nomatch same
    -- The machine has stopped, which only the instruction pointer tells.
    have zero : i.ip last.registers = 0 := by
      by_contra onward
      rw [if_neg onward] at stops
      cases stops
    refine ⟨i, last.offset, ?_, decoded, ?_⟩
    · rw [executed, lists, begun?_eq going clear, looked]
      exact List.getLast?_concat
    · rw [← start] at loaded ⊢
      exact Instr.eq_hlt_or_wraps loaded (current_eq_ok looked).2.1 zero

theorem run_outside (loaded : m.options.base ≠ 0) {k : Nat} (early : k < m.enough) {n : Machine}
    (ran : runFor code k m.load = (n, .running))
    (outside : n.registers.ip < m.options.base ∨
      m.options.base.toNat + code.size ≤ n.registers.ip.toNat) :
    ∃ kind, m.run code = ({ n with state := .faulted }, .faulted ⟨kind, n.registers.ip⟩) ∧
      (kind = .ipOutOfRange ∨ n.obstacle? = some kind) := by
  have going := going_loaded loaded ran
  have faults : ∃ kind, n.step code = (n, .faulted ⟨kind, n.registers.ip⟩) ∧
      (kind = .ipOutOfRange ∨ n.obstacle? = some kind) := by
    cases blocked : n.obstacle? with
    | some kind =>
      refine ⟨kind, ?_, .inr rfl⟩
      unfold step
      rw [if_neg going, blocked]
    | none =>
      refine ⟨.ipOutOfRange, step_lost going blocked (if_neg ?_), .inl rfl⟩
      rintro ⟨lower, upper⟩
      rw [(kept_loaded ran).1, UInt64.le_iff_toNat_le] at lower
      rw [(kept_loaded ran).1] at upper
      rcases outside with before | behind
      · have := UInt64.lt_iff_toNat_lt.mp before
        omega
      · omega
  obtain ⟨kind, stepped, reason⟩ := faults
  have ended : (n.step code).2 ≠ .running := by
    rw [stepped]
    exact fun same => nomatch same
  refine ⟨kind, ?_, reason⟩
  rw [(run_loaded code loaded).1, (runFor_last ran ended early).1, stepped]
  rfl

/-- A run that ends well has executed `hlt` last, or an instruction behind which the addresses start
at zero again. There is none if the program is loaded far enough from the last address. Leaving the
program for any other address is a fault. -/
theorem halted_last (m : Machine) (code : Bytecode) (loaded : m.options.base ≠ 0) :
    ((m.run code).2 = .halted →
      ∃ (i : Instr UInt64) (offset : Nat), (m.executed code).getLast? = some (i.op, offset) ∧
        decodeAt code offset = .ok ⟨offset, i.op, i.operands⟩ ∧
        (i = .hlt ∨ i.Wraps m.options.base.toNat offset)) ∧
    (m.options.base.toNat + max code.size 0xffffffff < UInt64.size → (m.run code).2 = .halted →
      ∃ offset, (m.executed code).getLast? = some (.hlt, offset)) ∧
    ∀ k < m.enough, ∀ n, runFor code k m.load = (n, .running) →
      n.registers.ip < m.options.base ∨ m.options.base.toNat + code.size ≤ n.registers.ip.toNat →
      ∃ kind, m.run code = ({ n with state := .faulted }, .faulted ⟨kind, n.registers.ip⟩) ∧
        (kind = .ipOutOfRange ∨ n.obstacle? = some kind) := by
  refine ⟨last_of_halted loaded, fun fits halted => ?_, fun k early n ran outside =>
    run_outside loaded early ran outside⟩
  obtain ⟨i, offset, last, decoded, rfl | wraps⟩ := last_of_halted loaded halted
  · exact ⟨offset, last⟩
  · exact absurd wraps (Instr.not_wraps decoded fits)

theorem halted_last_hlt :
    let m : Machine := {}
    m.options.base ≠ 0 ∧ (m.run ⟨#[0, 1]⟩).2 = .halted ∧
      ∃ offset, (m.executed ⟨#[0, 1]⟩).getLast? = some (.hlt, offset) := by
  intro m
  have halted : (m.run ⟨#[0, 1]⟩).2 = .halted := by decide
  exact ⟨by decide, halted, (halted_last m ⟨#[0, 1]⟩ (by decide)).2.1 (by decide) halted⟩

/-- A program of one `nop`, loaded at the last address, ends well. So does one that jumps to its end
there. -/
theorem halts_without_hlt :
    let last : Machine := { options := { base := 0xffffffffffffffff } }
    let near : Machine := { options := { base := 0xfffffffffffffffb } }
    (last.run ⟨#[0]⟩).2 = .halted ∧ last.executed ⟨#[0]⟩ = [(.nop, 0)] ∧
      (near.run ⟨#[7, 5, 0, 0, 0]⟩).2 = .halted ∧
      near.executed ⟨#[7, 5, 0, 0, 0]⟩ = [(.jmp, 0)] := by
  decide

end Machine

end ScriptKit
