import ScriptKit.Proofs.Machine.Reference

/-! Runs of the machine, step by step.

What a machine does with an instruction is told by the instruction and by its registers. So two
machines that look at the same place in the code go on together. A run is the list of instructions
that it begins, and what it has come to when it is over does not depend on how far it could have
gone. -/

namespace ScriptKit.Machine
open Disassembly

variable {code : Bytecode} {m m' n : Machine}

section Together

theorem current_eq_ok {op : Opcode} {offset : Nat} (found : m.current code = .ok (op, offset)) :
    offset = m.offset ∧ m.registers.is ≤ m.registers.ip ∧ m.offset < code.size ∧
      ∀ os, operands code (offset + 1) op.operands = .ok os →
        decodeAt code offset = .ok ⟨offset, op, os⟩ := by
  unfold current at found
  dsimp only at found
  split at found
  · rename_i inside
    obtain ⟨b, fetched, found⟩ := bind_eq_ok.mp found
    split at found
    · rename_i op' known
      cases found
      refine ⟨rfl, inside.1, inside.2, fun os read => ?_⟩
      have byte : code.read .byte (m.registers.ip.toNat - m.registers.is.toNat) = .ok b := by
        unfold fetch at fetched
        cases reads : code.read .byte (m.registers.ip.toNat - m.registers.is.toNat) with
        | error e =>
          rw [reads] at fetched
          cases fetched
        | ok b' =>
          rw [reads] at fetched
          cases fetched
          rfl
      unfold decodeAt
      simp only [byte, known, read]
    · cases found
  · cases found

theorem current_error {kind : FaultKind} (failed : m.current code = .error kind) :
    kind = .ipOutOfRange ∨ ∃ e : DisasmErrorKind, kind = e.fault := by
  unfold current fetch at failed
  dsimp only at failed
  split at failed
  · cases reads : code.read .byte (m.registers.ip.toNat - m.registers.is.toNat) with
    | error e =>
      rw [reads] at failed
      cases failed
      exact .inr ⟨.truncated e, rfl⟩
    | ok b =>
      simp only [reads, Except.mapError, Bind.bind, Except.bind] at failed
      split at failed
      · cases failed
      · cases failed
        exact .inr ⟨.invalidOpcode b.toUInt8, rfl⟩
  · cases failed
    exact .inl rfl

theorem execute_together (m m' : Machine) (code : Bytecode) (offset : Nat) (op : Opcode) :
    (∃ kind : DisasmErrorKind, execute code offset op m = .error ⟨kind.fault, m.registers.ip⟩ m ∧
      execute code offset op m' = .error ⟨kind.fault, m'.registers.ip⟩ m') ∨
    ∃ i : Instr UInt64, i.op = op ∧ operands code (offset + 1) op.operands = .ok i.operands ∧
      execute code offset op m = m.worked i ∧ execute code offset op m' = m'.worked i := by
  have agrees' := execute_agrees_with_operands m' code offset op
  rcases execute_agrees_with_operands m code offset op with
    ⟨kind, read, here⟩ | ⟨i, opcode, read, here⟩
  · rcases agrees' with ⟨kind', read', there⟩ | ⟨j, _, read', _⟩
    · cases read.symm.trans read'
      exact .inl ⟨kind, here, there⟩
    · cases read.symm.trans read'
  · rcases agrees' with ⟨kind', read', _⟩ | ⟨j, opcode', read', there⟩
    · cases read.symm.trans read'
    · have same : i = j :=
        Instr.eq_of_operands (opcode.trans opcode'.symm) (Except.ok.inj (read.symm.trans read'))
      subst same
      exact .inr ⟨i, opcode, read, here, there⟩

/-- What two machines do that look at the same place. They find nothing there, or they stumble over
an operand, or they execute the same instruction. -/
inductive Together (code : Bytecode) (m m' : Machine) : Prop where
  | lost (kind : FaultKind) (looked : m.current code = .error kind)
    (here : m.step code = (m, .faulted ⟨kind, m.registers.ip⟩))
    (there : m'.step code = (m', .faulted ⟨kind, m'.registers.ip⟩))
  | stumbled (op : Opcode) (kind : DisasmErrorKind) (looked : m.current code = .ok (op, m.offset))
    (here : m.step code = (m.begin op, .faulted ⟨kind.fault, m.registers.ip⟩))
    (there : m'.step code = (m'.begin op, .faulted ⟨kind.fault, m'.registers.ip⟩))
  | performed (i : Instr UInt64) (looked : m.current code = .ok (i.op, m.offset))
    (decoded : decodeAt code m.offset = .ok ⟨m.offset, i.op, i.operands⟩)
    (here : m.step code = m.perform i) (there : m'.step code = m'.perform i)

def conclude (op : Opcode) : EStateM.Result Fault Machine Flow → Machine × Progress
  | .error f n => (n, .faulted f)
  | .ok flow n =>
    (n.moveOn op flow, if (n.moveOn op flow).registers.ip = 0 then .halted else .running)

theorem conclude_worked (m : Machine) (i : Instr UInt64) :
    conclude i.op ((m.begin i.op).worked i) = m.perform i := by
  rw [perform_eq]
  cases (m.begin i.op).worked i <;> rfl

theorem step_lost (going : m.registers.ip ≠ 0) (clear : m.obstacle? = none) {kind : FaultKind}
    (looked : m.current code = .error kind) :
    m.step code = (m, .faulted ⟨kind, m.registers.ip⟩) := by
  unfold step
  rw [if_neg going, clear, looked]

theorem step_found (going : m.registers.ip ≠ 0) (clear : m.obstacle? = none) {op : Opcode}
    {offset : Nat} (looked : m.current code = .ok (op, offset)) :
    m.step code = conclude op (execute code offset op (m.begin op)) := by
  unfold step
  rw [if_neg going, clear, looked]
  dsimp only
  cases execute code offset op (m.begin op) <;> rfl

theorem step_together (going : m.registers.ip ≠ 0) (going' : m'.registers.ip ≠ 0)
    (clear : m.obstacle? = none) (clear' : m'.obstacle? = none)
    (same : m'.current code = m.current code) : Together code m m' := by
  cases looked : m.current code with
  | error kind =>
    exact .lost kind looked (step_lost going clear looked)
      (step_lost going' clear' (same.trans looked))
  | ok found =>
    obtain ⟨op, offset⟩ := found
    obtain ⟨rfl, _, _, decodes⟩ := current_eq_ok looked
    have here := step_found going clear looked
    have there := step_found going' clear' (same.trans looked)
    rcases execute_together (m.begin op) (m'.begin op) code m.offset op with
      ⟨kind, does, does'⟩ | ⟨i, rfl, read, does, does'⟩
    · rw [does] at here
      rw [does'] at there
      exact .stumbled op kind looked here there
    · rw [does, conclude_worked] at here
      rw [does', conclude_worked] at there
      exact .performed i looked (decodes _ read) here there

theorem step_alone (code : Bytecode) (going : m.registers.ip ≠ 0) (clear : m.obstacle? = none) :
    Together code m m :=
  step_together going going clear clear rfl

end Together

section Extent

/-- An instruction that has been read lies in the code, and its target is a number of 32 bits. -/
theorem decoded_inside {offset : Nat} {i : Instr UInt64}
    (decoded : decodeAt code offset = .ok ⟨offset, i.op, i.operands⟩) :
    offset + i.op.size ≤ code.size ∧ ∀ target ∈ i.place?, target.toNat ≤ 0xffffffff := by
  obtain ⟨_, fit, rest, written⟩ := (decodeAt_eq_ok_iff code offset _).mp decoded
  constructor
  · have lengths := congrArg List.length written
    have positive := i.op.size_pos
    rw [List.length_drop, List.length_append, Decoded.length_bytes fit, Decoded.size,
      show code.toList.length = code.size from Array.length_toList] at lengths
    dsimp only at lengths
    omega
  · intro target place
    have narrow : ∀ o : Operand, o = .address target → o.Fits ⟨.dword, .address⟩ →
        target.toNat ≤ 0xffffffff := by
      rintro o rfl fits
      exact Nat.le_of_lt_succ fits.2
    cases i with
    | jump other =>
      cases place
      cases fit with
      | cons fits _ => exact narrow _ rfl fits
    | branch r other =>
      cases place
      cases fit with
      | cons _ fit =>
        cases fit with
        | cons fits _ => exact narrow _ rfl fits
    | _ => cases place

end Extent

section Progress

theorem perform_fine {i : Instr UInt64} {progress : Progress} (done : m.perform i = (n, progress))
    (fine : ∀ f, progress ≠ .faulted f) :
    ∃ out, n = { m.begin i.op with
        registers := { m.registers with
          general := i.general m.registers.general
          ip := i.ip m.registers }
        out } ∧
      progress = if i.ip m.registers = 0 then .halted else .running := by
  unfold perform at done
  cases written : i.out m.registers m.out with
  | error kind =>
    rw [written] at done
    cases done
    exact absurd rfl (fine _)
  | ok out =>
    rw [written] at done
    cases done
    exact ⟨out, rfl, rfl⟩

theorem step_fine {progress : Progress} (going : m.registers.ip ≠ 0)
    (stepped : m.step code = (n, progress)) (fine : ∀ f, progress ≠ .faulted f) :
    m.obstacle? = none ∧ ∃ i : Instr UInt64, m.current code = .ok (i.op, m.offset) ∧
      decodeAt code m.offset = .ok ⟨m.offset, i.op, i.operands⟩ ∧ m.perform i = (n, progress) := by
  cases blocked : m.obstacle? with
  | some kind =>
    unfold step at stepped
    rw [if_neg going, blocked] at stepped
    cases stepped
    exact absurd rfl (fine _)
  | none =>
    refine ⟨rfl, ?_⟩
    cases step_alone code going blocked with
    | lost kind _ here _ =>
      cases here.symm.trans stepped
      exact absurd rfl (fine _)
    | stumbled op kind _ here _ =>
      cases here.symm.trans stepped
      exact absurd rfl (fine _)
    | performed i looked decoded here _ => exact ⟨i, looked, decoded, here.symm.trans stepped⟩

theorem step_running (stepped : m.step code = (n, .running)) :
    m.registers.ip ≠ 0 ∧ m.obstacle? = none ∧ n.registers.ip ≠ 0 ∧
      ∃ i : Instr UInt64, m.current code = .ok (i.op, m.offset) ∧
        decodeAt code m.offset = .ok ⟨m.offset, i.op, i.operands⟩ ∧
        m.perform i = (n, .running) := by
  have going : m.registers.ip ≠ 0 := by
    intro stopped
    unfold step at stepped
    rw [if_pos stopped] at stepped
    cases stepped
  obtain ⟨clear, i, looked, decoded, done⟩ := step_fine going stepped fun f same => nomatch same
  obtain ⟨out, rfl, goes⟩ := perform_fine done fun f same => nomatch same
  refine ⟨going, clear, ?_, i, looked, decoded, done⟩
  intro stopped
  rw [if_pos (show i.ip m.registers = 0 from stopped)] at goes
  cases goes

end Progress

section History

/-- The instruction that a step begins, with its offset, unless something keeps the machine from
it. -/
def begun? (m : Machine) (code : Bytecode) : Option (Opcode × Nat) :=
  if m.registers.ip = 0 then none
  else
    match m.obstacle? with
    | some _ => none
    | none => (m.current code).toOption

def history (code : Bytecode) : Nat → Machine → List (Opcode × Nat)
  | 0, _ => []
  | n + 1, m =>
    (m.begun? code).toList ++
      match m.step code with
      | (m, .running) => history code n m
      | _ => []

def executed (m : Machine) (code : Bytecode) : List (Opcode × Nat) :=
  if m.options.base = 0 then [] else history code m.enough m.load

theorem begun?_eq (going : m.registers.ip ≠ 0) (clear : m.obstacle? = none) :
    m.begun? code = (m.current code).toOption := by
  unfold begun?
  rw [if_neg going, clear]

theorem perform_cycles (m : Machine) (i : Instr UInt64) :
    (m.perform i).1.cycles = m.cycles + 1 := by
  unfold perform
  cases i.out m.registers m.out <;> rfl

theorem step_cycles (m : Machine) (code : Bytecode) :
    (m.step code).1.cycles = m.cycles + (m.begun? code).toList.length := by
  by_cases stopped : m.registers.ip = 0
  · unfold step begun?
    rw [if_pos stopped, if_pos stopped]
    rfl
  · cases blocked : m.obstacle? with
    | some kind =>
      unfold step begun?
      rw [if_neg stopped, if_neg stopped, blocked]
      rfl
    | none =>
      rw [begun?_eq stopped blocked]
      cases step_alone code stopped blocked with
      | lost kind looked here _ =>
        rw [here, looked]
        rfl
      | stumbled op kind looked here _ =>
        rw [here, looked]
        rfl
      | performed i looked _ here _ =>
        rw [here, looked, perform_cycles]
        rfl

def settle : Machine × Progress → Machine × Progress
  | (m, .running) => (m, .running)
  | (m, .halted) => ({ m with state := .halted }, .halted)
  | (m, .faulted f) => ({ m with state := .faulted }, .faulted f)

@[simp] theorem settle_snd (ran : Machine × Progress) : (settle ran).2 = ran.2 := by
  obtain ⟨m, progress⟩ := ran
  cases progress <;> rfl

@[simp] theorem settle_cycles (ran : Machine × Progress) :
    (settle ran).1.cycles = ran.1.cycles := by
  obtain ⟨m, progress⟩ := ran
  cases progress <;> rfl

theorem runFor_running (stepped : m.step code = (n, .running)) (k : Nat) :
    runFor code (k + 1) m = runFor code k n := by
  rw [runFor, stepped]

theorem history_running (stepped : m.step code = (n, .running)) (k : Nat) :
    history code (k + 1) m = (m.begun? code).toList ++ history code k n := by
  rw [history, stepped]

theorem runFor_ended (ended : (m.step code).2 ≠ .running) (k : Nat) :
    runFor code (k + 1) m = settle (m.step code) := by
  rw [runFor]
  generalize m.step code = ran at ended
  obtain ⟨n, progress⟩ := ran
  cases progress with
  | running => exact absurd rfl ended
  | halted => rfl
  | faulted f => rfl

theorem history_ended (ended : (m.step code).2 ≠ .running) (k : Nat) :
    history code (k + 1) m = (m.begun? code).toList := by
  rw [history]
  generalize m.step code = ran at ended
  obtain ⟨n, progress⟩ := ran
  cases progress with
  | running => exact absurd rfl ended
  | halted => exact List.append_nil _
  | faulted f => exact List.append_nil _

theorem step_or (m : Machine) (code : Bytecode) :
    (∃ n, m.step code = (n, .running)) ∨ (m.step code).2 ≠ .running := by
  cases stepped : m.step code with
  | mk n progress =>
    cases progress with
    | running => exact .inl ⟨n, rfl⟩
    | halted => exact .inr fun same => nomatch same
    | faulted f => exact .inr fun same => nomatch same

theorem runFor_succ {k : Nat} (ran : runFor code (k + 1) m = (n, .running)) :
    ∃ next, m.step code = (next, .running) ∧ runFor code k next = (n, .running) := by
  rcases step_or m code with ⟨next, stepped⟩ | ended
  · exact ⟨next, stepped, (runFor_running stepped k).symm.trans ran⟩
  · rw [runFor_ended ended] at ran
    have running := congrArg Prod.snd ran
    rw [settle_snd] at running
    exact absurd running ended

/-- What every step keeps that goes on, counting steps, a run keeps. -/
theorem reached {P : Nat → Machine → Prop}
    (kept : ∀ k m n, P k m → m.step code = (n, .running) → P (k + 1) n) {j k : Nat} (start : P j m)
    (ran : runFor code k m = (n, .running)) : P (j + k) n := by
  induction k generalizing j m with
  | zero =>
    cases ran
    exact start
  | succ k ih =>
    obtain ⟨next, stepped, ran⟩ := runFor_succ ran
    have later := ih (kept j m next start stepped) ran
    rwa [Nat.add_assoc, Nat.add_comm 1 k] at later

theorem runFor_add {k : Nat} (ran : runFor code k m = (n, .running)) (j : Nat) :
    runFor code (k + j) m = runFor code j n ∧
      history code (k + j) m = history code k m ++ history code j n := by
  induction k generalizing m with
  | zero =>
    cases ran
    rw [Nat.zero_add]
    exact ⟨rfl, rfl⟩
  | succ k ih =>
    obtain ⟨next, stepped, ran⟩ := runFor_succ ran
    obtain ⟨comes, lists⟩ := ih ran
    rw [Nat.add_right_comm, runFor_running stepped, history_running stepped,
      history_running stepped, comes, lists, List.append_assoc]
    exact ⟨rfl, rfl⟩

theorem runFor_cases (code : Bytecode) (k : Nat) (m : Machine) :
    (∃ n, runFor code k m = (n, .running)) ∨
    ∃ j < k, ∃ last, runFor code j m = (last, .running) ∧ (last.step code).2 ≠ .running := by
  induction k generalizing m with
  | zero => exact .inl ⟨m, rfl⟩
  | succ k ih =>
    rcases step_or m code with ⟨next, stepped⟩ | ended
    · rcases ih next with ⟨n, ran⟩ | ⟨j, early, last, ran, ended⟩
      · exact .inl ⟨n, (runFor_running stepped k).trans ran⟩
      · exact .inr ⟨j + 1, by omega, last, (runFor_running stepped j).trans ran, ended⟩
    · exact .inr ⟨0, by omega, m, rfl, ended⟩

/-- What a run is after its last step, however many more it might have taken. -/
theorem runFor_last {j k : Nat} {last : Machine} (ran : runFor code j m = (last, .running))
    (ended : (last.step code).2 ≠ .running) (enough : j < k) :
    runFor code k m = settle (last.step code) ∧
      history code k m = history code j m ++ (last.begun? code).toList := by
  obtain ⟨d, rfl⟩ : ∃ d, k = j + (d + 1) := ⟨k - j - 1, by omega⟩
  obtain ⟨comes, lists⟩ := runFor_add ran (d + 1)
  rw [comes, lists, runFor_ended ended, history_ended ended]
  exact ⟨rfl, rfl⟩

theorem runFor_shorter {j k : Nat} (ran : runFor code k m = (n, .running)) (shorter : j ≤ k) :
    ∃ n', runFor code j m = (n', .running) := by
  rcases runFor_cases code j m with going | ⟨i, early, last, before, ended⟩
  · exact going
  · have stopped := (runFor_last before ended (Nat.lt_of_lt_of_le early shorter)).1
    have running := congrArg Prod.snd (stopped.symm.trans ran)
    rw [settle_snd] at running
    exact absurd running ended

theorem cycles_runFor (code : Bytecode) (k : Nat) (m : Machine) :
    (runFor code k m).1.cycles = m.cycles + (history code k m).length := by
  induction k generalizing m with
  | zero => rfl
  | succ k ih =>
    have counted := step_cycles m code
    rcases step_or m code with ⟨next, stepped⟩ | ended
    · rw [stepped] at counted
      rw [runFor_running stepped, history_running stepped, ih, List.length_append, ← Nat.add_assoc,
        ← counted]
    · rw [runFor_ended ended, history_ended ended, settle_cycles, counted]

theorem begun?_of_running (stepped : m.step code = (n, .running)) :
    ∃ first, m.begun? code = some first := by
  obtain ⟨going, clear, _, i, looked, _⟩ := step_running stepped
  refine ⟨(i.op, m.offset), ?_⟩
  rw [begun?_eq going clear, looked]
  rfl

theorem length_history {k : Nat} (ran : runFor code k m = (n, .running)) :
    (history code k m).length = k := by
  induction k generalizing m with
  | zero => rfl
  | succ k ih =>
    obtain ⟨next, stepped, ran⟩ := runFor_succ ran
    obtain ⟨first, begins⟩ := begun?_of_running stepped
    rw [history_running stepped, begins, List.length_append, ih ran]
    exact Nat.add_comm 1 k

theorem cycles_reached {k : Nat} (ran : runFor code k m = (n, .running)) :
    n.cycles = m.cycles + k := by
  have counted := cycles_runFor code k m
  rwa [ran, length_history ran] at counted

end History

section Loaded

theorem run_loaded (code : Bytecode) (loaded : m.options.base ≠ 0) :
    m.run code = runFor code m.enough m.load ∧ m.executed code = history code m.enough m.load :=
  ⟨if_neg loaded, if_neg loaded⟩

theorem going_loaded (loaded : m.options.base ≠ 0) {k : Nat}
    (ran : runFor code k m.load = (n, .running)) : n.registers.ip ≠ 0 := by
  have start : m.load.registers.ip ≠ 0 := loaded
  exact reached (P := fun _ n => n.registers.ip ≠ 0)
    (fun _ _ _ _ stepped => (step_running stepped).2.2.1) (j := 0) start ran

/-- No instruction moves the instruction start or changes the options. -/
theorem kept_loaded {k : Nat} (ran : runFor code k m.load = (n, .running)) :
    n.registers.is = m.options.base ∧ n.options = m.options := by
  have start : m.load.registers.is = m.options.base ∧ m.load.options = m.options := ⟨rfl, rfl⟩
  apply reached (P := fun _ n => n.registers.is = m.options.base ∧ n.options = m.options) _ (j := 0)
    start ran
  intro k before after same stepped
  obtain ⟨_, _, _, i, _, _, done⟩ := step_running stepped
  obtain ⟨out, rfl, _⟩ := perform_fine done fun f same => nomatch same
  exact same

theorem run_ends (code : Bytecode) {limit : Nat} (limited : m.options.budget = some limit) :
    (m.run code).2 ≠ .running := by
  intro running
  by_cases unloaded : m.options.base = 0
  · unfold run at running
    rw [if_pos unloaded] at running
    cases running
  · have enough : m.enough = limit + 1 := by
      unfold enough
      rw [limited]
    rw [(run_loaded code unloaded).1, enough] at running
    have ran : runFor code (limit + 1) m.load = ((runFor code (limit + 1) m.load).1, .running) :=
      Prod.ext rfl running
    -- The machine that goes on after its budget is used up has an obstacle before it.
    obtain ⟨n, before⟩ := runFor_shorter ran (Nat.le_succ limit)
    obtain ⟨next, stepped, _⟩ := runFor_succ ((runFor_add before 1).1.symm.trans ran)
    have spent : limit ≤ n.cycles := by
      rw [cycles_reached before]
      exact Nat.le_add_left limit _
    have clear := (step_running stepped).2.1
    unfold obstacle? at clear
    rw [(kept_loaded before).2, limited] at clear
    dsimp only at clear
    rw [if_pos spent] at clear
    split at clear <;> cases clear

end Loaded

end ScriptKit.Machine
