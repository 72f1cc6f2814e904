import ScriptKit.Proofs.Machine.Runs

/-! What a budget of cycles does to a run.

A machine without a budget sets the course. With a budget it goes the same way, instruction for
instruction, and is stopped where the budget is used up, if it has not come to an end before. -/

namespace ScriptKit.Machine

def withBudget (m : Machine) (budget : Option Nat) : Machine :=
  { m with options := { m.options with budget } }

structure Free (m : Machine) : Prop where
  budget : m.options.budget = none
  cancelled : m.cancelled = false

variable {code : Bytecode} {m n : Machine} {budget : Option Nat}

theorem Free.clear (free : m.Free) : m.obstacle? = none := by
  unfold obstacle?
  rw [free.cancelled, free.budget]
  rfl

theorem Free.clear_within (free : m.Free) (within : ∀ limit ∈ budget, m.cycles < limit) :
    (m.withBudget budget).obstacle? = none := by
  unfold obstacle? withBudget
  rw [free.cancelled]
  cases budget with
  | none => rfl
  | some limit => exact if_neg (Nat.not_le_of_lt (within limit rfl))

theorem Free.exhausted (free : m.Free) :
    (m.withBudget (some m.cycles)).obstacle? = some (.budgetExhausted m.cycles) := by
  unfold obstacle? withBudget
  rw [free.cancelled]
  exact if_pos (Nat.le_refl m.cycles)

theorem Free.step (free : m.Free) (stepped : m.step code = (n, .running)) : n.Free := by
  obtain ⟨_, _, _, i, _, _, done⟩ := step_running stepped
  obtain ⟨out, rfl, _⟩ := perform_fine done fun f same => nomatch same
  exact ⟨free.budget, free.cancelled⟩

theorem Free.reached (free : m.Free) {k : Nat} (ran : runFor code k m = (n, .running)) : n.Free :=
  Machine.reached (fun _ _ _ free stepped => Free.step free stepped) (j := 0) free ran

theorem Free.not_exhausted (free : m.Free) (code : Bytecode) (limit : Nat) (ip : UInt64) :
    (m.step code).2 ≠ .faulted ⟨.budgetExhausted limit, ip⟩ := by
  intro spent
  by_cases stopped : m.registers.ip = 0
  · unfold Machine.step at spent
    rw [if_pos stopped] at spent
    cases spent
  · cases step_alone code stopped free.clear with
    | lost kind looked here _ =>
      rw [here] at spent
      rcases current_error looked with rfl | ⟨e, rfl⟩
      · cases spent
      · cases e <;> cases spent
    | stumbled op kind _ here _ =>
      rw [here] at spent
      cases kind <;> cases spent
    | performed i _ _ here _ =>
      rw [here, perform] at spent
      cases written : i.out m.registers m.out with
      | error kind =>
        rw [written] at spent
        rcases Instr.out_error written with ⟨_, rfl⟩ | rfl <;> cases spent
      | ok out =>
        rw [written] at spent
        dsimp only at spent
        split at spent <;> cases spent

theorem perform_withBudget (m : Machine) (i : Instr UInt64) (budget : Option Nat) :
    (m.withBudget budget).perform i = ((m.perform i).1.withBudget budget, (m.perform i).2) := by
  have same : i.out (m.withBudget budget).registers (m.withBudget budget).out =
    i.out m.registers m.out := rfl
  unfold perform
  rw [same]
  cases i.out m.registers m.out <;> rfl

theorem Free.step_withBudget (free : m.Free) (code : Bytecode)
    (within : ∀ limit ∈ budget, m.cycles < limit) :
    (m.withBudget budget).step code = ((m.step code).1.withBudget budget, (m.step code).2) ∧
      (m.withBudget budget).begun? code = m.begun? code := by
  by_cases stopped : m.registers.ip = 0
  · unfold Machine.step begun?
    rw [if_pos stopped, if_pos stopped]
    exact ⟨if_pos stopped, if_pos stopped⟩
  · have clear := free.clear_within within
    have same : (m.withBudget budget).current code = m.current code := rfl
    rw [begun?_eq stopped free.clear, begun?_eq (m := m.withBudget budget) stopped clear, same]
    refine ⟨?_, rfl⟩
    have both : Together code m (m.withBudget budget) :=
      step_together stopped stopped free.clear clear same
    cases both with
    | lost kind _ here there =>
      rw [here, there]
      rfl
    | stumbled op kind _ here there =>
      rw [here, there]
      rfl
    | performed i _ _ here there => rw [here, there, perform_withBudget]

theorem Free.runFor_withBudget (free : m.Free) {k : Nat} (ran : runFor code k m = (n, .running))
    (within : ∀ limit ∈ budget, m.cycles + k ≤ limit) :
    runFor code k (m.withBudget budget) = (n.withBudget budget, .running) ∧
      history code k (m.withBudget budget) = history code k m := by
  induction k generalizing m with
  | zero =>
    cases ran
    exact ⟨rfl, rfl⟩
  | succ k ih =>
    obtain ⟨next, stepped, ran⟩ := runFor_succ ran
    obtain ⟨steps, begins⟩ := free.step_withBudget code fun limit some =>
      Nat.lt_of_lt_of_le (by omega) (within limit some)
    rw [stepped] at steps
    have counted : next.cycles = m.cycles + 1 := cycles_reached (runFor_running stepped 0)
    obtain ⟨comes, lists⟩ := ih (free.step stepped) ran fun limit some => by
      rw [counted]
      have := within limit some
      omega
    rw [runFor_running steps, history_running steps, comes, lists, begins, history_running stepped]
    exact ⟨rfl, rfl⟩

section Run

variable {limit j : Nat}

theorem Free.load (undisturbed : m.cancelled = false) : (m.withBudget none).load.Free :=
  ⟨rfl, undisturbed⟩

theorem run_exhausted (loaded : m.options.base ≠ 0) (undisturbed : m.cancelled = false)
    (ran : runFor code limit (m.withBudget none).load = (n, .running)) :
    (m.withBudget (some limit)).run code = ({ n.withBudget (some limit) with state := .faulted },
      .faulted ⟨.budgetExhausted limit, n.registers.ip⟩) ∧
    (m.withBudget (some limit)).executed code = history code limit (m.withBudget none).load := by
  have free := Free.load undisturbed
  have counted : n.cycles = limit := (cycles_reached ran).trans (Nat.zero_add limit)
  have within : ∀ k ∈ some limit, (m.withBudget none).load.cycles + limit ≤ k := by
    rintro k ⟨⟩
    exact Nat.le_of_eq (Nat.zero_add limit)
  obtain ⟨comes, lists⟩ := free.runFor_withBudget ran within
  have going := going_loaded (m := m.withBudget none) loaded ran
  have blocked := (free.reached ran).exhausted
  rw [counted] at blocked
  -- The budget shows in the step that comes when all of it is used up.
  have stops : (n.withBudget (some limit)).step code =
      (n.withBudget (some limit), .faulted ⟨.budgetExhausted limit, n.registers.ip⟩) := by
    unfold Machine.step
    rw [if_neg (show (n.withBudget (some limit)).registers.ip ≠ 0 from going), blocked]
    rfl
  have nothing : (n.withBudget (some limit)).begun? code = none := by
    unfold begun?
    rw [if_neg (show (n.withBudget (some limit)).registers.ip ≠ 0 from going), blocked]
  obtain ⟨ends, lists'⟩ := runFor_last comes (by rw [stops]; exact fun same => nomatch same)
    (Nat.lt_succ_self limit)
  obtain ⟨run, executed⟩ := run_loaded (m := m.withBudget (some limit)) code loaded
  rw [stops] at ends
  rw [nothing, lists, Option.toList_none, List.append_nil] at lists'
  exact ⟨run.trans ends, executed.trans lists'⟩

theorem run_ended (loaded : m.options.base ≠ 0) (undisturbed : m.cancelled = false) {last : Machine}
    (ran : runFor code j (m.withBudget none).load = (last, .running))
    (ended : (last.step code).2 ≠ .running) (within : ∀ limit ∈ budget, j < limit)
    (soon : j < UInt64.size) :
    (m.withBudget budget).run code =
      settle ((last.step code).1.withBudget budget, (last.step code).2) ∧
    (m.withBudget budget).executed code =
      history code j (m.withBudget none).load ++ (last.begun? code).toList := by
  have free := Free.load undisturbed
  have counted : last.cycles = j := (cycles_reached ran).trans (Nat.zero_add j)
  obtain ⟨comes, lists⟩ := free.runFor_withBudget ran fun limit some =>
    Nat.le_of_lt ((Nat.zero_add j).symm ▸ within limit some)
  obtain ⟨steps, begins⟩ := (free.reached ran).step_withBudget code fun limit some =>
    counted.symm ▸ within limit some
  have enough : j < (m.withBudget budget).enough := by
    cases budget with
    | none => exact soon
    | some limit => exact Nat.lt_succ_of_lt (within limit rfl)
  obtain ⟨ends, lists'⟩ := runFor_last comes (by rw [steps]; exact ended) enough
  obtain ⟨run, executed⟩ := run_loaded (m := m.withBudget budget) code loaded
  rw [steps] at ends
  rw [begins, lists] at lists'
  exact ⟨run.trans ends, executed.trans lists'⟩

end Run

structure Budgeted (m : Machine) (code : Bytecode) (n : Nat) : Prop where
  ends : ((m.withBudget (some n)).run code).2 ≠ .running
  atMost : ((m.withBudget (some n)).executed code).length ≤ n
  /-- If it is not used up, a larger budget changes nothing, and none at all does not either. -/
  spare : (∀ k ip, ((m.withBudget (some n)).run code).2 ≠ .faulted ⟨.budgetExhausted k, ip⟩) →
    ∀ budget : Option Nat, (∀ k ∈ budget, n ≤ k) →
      (m.withBudget budget).run code = (((m.withBudget (some n)).run code).1.withBudget budget,
        ((m.withBudget (some n)).run code).2) ∧
      (m.withBudget budget).executed code = (m.withBudget (some n)).executed code
  /-- If it is used up, a smaller budget is used up earlier on the same way. -/
  spent : ∀ k ip, ((m.withBudget (some n)).run code).2 = .faulted ⟨.budgetExhausted k, ip⟩ →
    k = n ∧ ((m.withBudget (some n)).run code).1.cycles = n ∧
    ((m.withBudget (some n)).executed code).length = n ∧
    ∀ j < n, ∃ reached, runFor code j (m.withBudget (some n)).load = (reached, .running) ∧
      (m.withBudget (some j)).run code = ({ reached.withBudget (some j) with state := .faulted },
        .faulted ⟨.budgetExhausted j, reached.registers.ip⟩) ∧
      (m.withBudget (some j)).executed code = ((m.withBudget (some n)).executed code).take j

section Cases

variable {limit : Nat}

theorem settle_withBudget (m : Machine) (progress : Progress) (budget budget' : Option Nat) :
    settle (m.withBudget budget, progress) =
      ((settle (m.withBudget budget', progress)).1.withBudget budget,
        (settle (m.withBudget budget', progress)).2) := by
  cases progress <;> rfl

theorem budgeted_zeroBase (unloaded : m.options.base = 0) (limit : Nat) :
    m.Budgeted code limit := by
  have run : ∀ budget, (m.withBudget budget).run code =
      ({ m.withBudget budget with state := .faulted }, .faulted ⟨.zeroBase, 0⟩) :=
    fun _ => if_pos unloaded
  have executed : ∀ budget, (m.withBudget budget).executed code = [] := fun _ => if_pos unloaded
  constructor
  case ends => exact run_ends code rfl
  case atMost =>
    rw [executed]
    exact Nat.zero_le limit
  case spare =>
    intro _ budget _
    rw [run, run, executed, executed]
    exact ⟨rfl, rfl⟩
  case spent =>
    intro k ip spent
    rw [run] at spent
    cases spent

theorem budgeted_exhausted (loaded : m.options.base ≠ 0) (undisturbed : m.cancelled = false)
    (ran : runFor code limit (m.withBudget none).load = (n, .running)) : m.Budgeted code limit := by
  obtain ⟨run, executed⟩ := run_exhausted loaded undisturbed ran
  have counted : n.cycles = limit := (cycles_reached ran).trans (Nat.zero_add limit)
  constructor
  case ends => exact run_ends code rfl
  case atMost => rw [executed, length_history ran]
  case spare =>
    intro unspent
    rw [run] at unspent
    exact absurd rfl (unspent limit _)
  case spent =>
    intro k ip spent
    rw [run] at spent ⊢
    cases spent
    refine ⟨rfl, counted, by rw [executed, length_history ran], fun j fewer => ?_⟩
    obtain ⟨reached, before⟩ := runFor_shorter ran (Nat.le_of_lt fewer)
    obtain ⟨run', executed'⟩ := run_exhausted loaded undisturbed before
    have within : ∀ k ∈ some limit, (m.withBudget none).load.cycles + j ≤ k := by
      rintro k ⟨⟩
      exact (Nat.zero_add j).symm ▸ Nat.le_of_lt fewer
    refine ⟨_, ((Free.load undisturbed).runFor_withBudget before within).1, run', ?_⟩
    obtain ⟨d, rfl⟩ : ∃ d, limit = j + d := ⟨limit - j, by omega⟩
    rw [executed', executed, (runFor_add before d).2, List.take_left' (length_history before)]

theorem budgeted_ended (loaded : m.options.base ≠ 0) (undisturbed : m.cancelled = false) {j : Nat}
    {last : Machine} (ran : runFor code j (m.withBudget none).load = (last, .running))
    (ended : (last.step code).2 ≠ .running) (early : j < limit) (small : limit < UInt64.size) :
    m.Budgeted code limit := by
  have unspent := ((Free.load undisturbed).reached ran).not_exhausted code
  have run : ∀ budget : Option Nat, (∀ k ∈ budget, limit ≤ k) →
      (m.withBudget budget).run code =
        settle ((last.step code).1.withBudget budget, (last.step code).2) ∧
      (m.withBudget budget).executed code =
        history code j (m.withBudget none).load ++ (last.begun? code).toList := by
    intro budget within
    apply run_ended loaded undisturbed ran ended _ (Nat.lt_trans early small)
    exact fun k some => Nat.lt_of_lt_of_le early (within k some)
  obtain ⟨runs, executes⟩ := run (some limit) fun k same => Nat.le_of_eq (Option.some.inj same)
  constructor
  case ends => exact run_ends code rfl
  case atMost =>
    rw [executes, List.length_append, length_history ran]
    have one := Option.length_toList_le (o := last.begun? code)
    omega
  case spare =>
    intro _ budget within
    obtain ⟨runs', executes'⟩ := run budget within
    rw [runs, runs', executes, executes']
    exact ⟨settle_withBudget _ _ budget (some limit), rfl⟩
  case spent =>
    intro k ip spent
    rw [runs, settle_snd] at spent
    exact absurd spent (unspent k ip)

end Cases

/-- A budget is exact. It stops a run after as many instructions as it says and never earlier, and
more of it or none at all only matters to a run that it has stopped. -/
theorem budget_exact (m : Machine) (code : Bytecode) (undisturbed : m.cancelled = false)
    (n : UInt64) : m.Budgeted code n.toNat := by
  by_cases loaded : m.options.base = 0
  · exact budgeted_zeroBase loaded n.toNat
  · -- Without a budget the run goes on for `n` steps, or it does not.
    rcases runFor_cases code n.toNat (m.withBudget none).load with
      ⟨reached, ran⟩ | ⟨j, early, last, ran, ended⟩
    · exact budgeted_exhausted loaded undisturbed ran
    · exact budgeted_ended loaded undisturbed ran ended early n.toNat_lt

/-- A jump to itself uses up every budget. -/
theorem budget_exact_spin :
    let spin : Bytecode := ⟨#[7, 0, 0, 0, 0]⟩
    let m : Machine := {}
    m.cancelled = false ∧ m.Budgeted spin 3 ∧
      ((m.withBudget (some 3)).run spin).2 = .faulted ⟨.budgetExhausted 3, 0x1000⟩ := by
  intro spin m
  exact ⟨rfl, budget_exact m spin rfl 3, by decide⟩

end ScriptKit.Machine
