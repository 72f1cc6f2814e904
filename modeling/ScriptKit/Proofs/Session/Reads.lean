import ScriptKit.Proofs.Session.Stepwise
import ScriptKit.Proofs.Stream.Lines

/-! The lines that a session's calls of `read` take.

A call is met in the run in single steps, at which it stands by itself wherever it comes from, also
from a filter. Each call that is not refused takes the next line, and nothing else takes any. -/

namespace ScriptKit

namespace Eval

variable {α : Type}

theorem run_write (text : String) (span : Span) (w : World) :
    write text span w =
      match w.out.write text with
      | .ok out => .ok () { w with out }
      | .error message => .error ⟨.io message, some span⟩ w := by
  simp only [write, run_get]
  cases w.out.write text <;> rfl

def KeepsInput (m : Eval α) : Prop :=
  ∀ w, match m w with
    | .ok _ w' => w'.input = w.input
    | .error _ w' => w'.input = w.input

theorem keepsInput_fail (kind : RuntimeErrorKind) (span : Span) :
    KeepsInput (fail kind span : Eval α) :=
  fun _ => rfl

theorem keepsInput_writeAll (args : List Value) (ending : String) (span : Span) :
    KeepsInput (Builtin.writeAll args ending span) := by
  intro w
  simp only [Builtin.writeAll, Bind.bind, EStateM.bind, run_write]
  cases w.out.write _ <;> rfl

theorem keepsInput_leave (args : List Value) (span : Span) :
    KeepsInput (Builtin.leave args span) := by
  unfold Builtin.leave
  split
  · exact keepsInput_fail _ span
  · split <;> exact keepsInput_fail _ span
  · exact keepsInput_fail _ span
  · exact keepsInput_fail _ span

theorem keepsInput_perform {b : Builtin} (other : b ≠ .read) (args : List Value) (span : Span) :
    KeepsInput (b.perform args span) := by
  cases b with
  | read => exact absurd rfl other
  | println | print => exact keepsInput_writeAll args _ span
  | array | vector => exact fun _ => rfl
  | arrayFilter => exact keepsInput_fail _ span
  | exit => exact keepsInput_leave args span

end Eval

structure ReadCall where
  args : List Value
  span : Span
  world : World

namespace ReadCall

def result (call : ReadCall) : EStateM.Result RuntimeError World Value :=
  Builtin.read.perform call.args call.span call.world

/-- Why a call takes no line: it has too many arguments, or a prompt that is no text or that cannot
be written. -/
def refusal? (call : ReadCall) : Option RuntimeErrorKind :=
  match call.args with
  | [] => none
  | [.text prompt] =>
    match call.world.out.write prompt with
    | .ok _ => none
    | .error message => some (.io message)
  | [_] => some (.builtinArgument .read "a string prompt")
  | args => some (.builtinArity .read "0 or 1" args.length)

def leaving (call : ReadCall) (input : List UInt8) : World :=
  match call.args with
  | [.text prompt] =>
    { call.world with input, out := (call.world.out.write prompt).toOption.getD call.world.out }
  | _ => { call.world with input }

/-- What a call gives when `k` of the lines were taken before it. Afterwards it is `j` lines. -/
inductive Answered (lines : List (List UInt8)) (call : ReadCall) (k : Nat) : Nat → Prop where
  | refused {kind : RuntimeErrorKind} (refuses : call.refusal? = some kind)
      (failed : call.result = .error ⟨kind, some call.span⟩ call.world) : Answered lines call k k
  | text {line : List UInt8} {text content : String} (takes : call.refusal? = none)
      (here : lines[k]? = some line)
      (decoded : decodeText? line = some text) (unended : Unended text content)
      (given : call.result = .ok (.text content) (call.leaving (lines.drop (k + 1)).flatten)) :
      Answered lines call k (k + 1)
  | garbled {line : List UInt8} (takes : call.refusal? = none) (here : lines[k]? = some line)
      (undecoded : decodeText? line = none)
      (failed : call.result = .error ⟨.io notText, some call.span⟩
        (call.leaving (lines.drop (k + 1)).flatten)) :
      Answered lines call k (k + 1)
  | exhausted (takes : call.refusal? = none) (past : lines.length ≤ k)
      (given : call.result = .ok .null (call.leaving [])) : Answered lines call k k

inductive Served (lines : List (List UInt8)) : Nat → List ReadCall → Nat → Prop where
  | nil {k : Nat} : Served lines k [] k
  | cons {k j m : Nat} {call : ReadCall} {calls : List ReadCall}
      (unread : call.world.input = (lines.drop k).flatten) (answered : call.Answered lines k j)
      (later : Served lines j calls m) : Served lines k (call :: calls) m

theorem Served.append {lines : List (List UInt8)} {k j m : Nat} {calls calls' : List ReadCall}
    (first : Served lines k calls j) (second : Served lines j calls' m) :
    Served lines k (calls ++ calls') m := by
  induction first with
  | nil => exact second
  | cons unread answered later ih => exact .cons unread answered (ih second)

theorem input_leaving (call : ReadCall) (input : List UInt8) :
    (call.leaving input).input = input := by
  unfold leaving
  split <;> rfl

theorem perform_prompt (prompt : String) (span : Span) (w : World) :
    Builtin.read.perform [.text prompt] span w =
      match w.out.write prompt with
      | .ok out => Builtin.takeInput span { w with out }
      | .error message => .error ⟨.io message, some span⟩ w := by
  simp only [Builtin.perform, Builtin.readInput, Bind.bind, EStateM.bind, Eval.run_write]
  cases w.out.write prompt <;> rfl

theorem takeInput_eq {line rest : List UInt8} {w : World} (taken : takeLine w.input = (line, rest))
    (span : Span) :
    Builtin.takeInput span w =
      if line = [] then .ok .null w
      else
        match decodeText? (dropLineEnd line) with
        | some text => .ok (.text text) { w with input := rest }
        | none => .error ⟨.io notText, some span⟩ { w with input := rest } := by
  have got : (get : Eval World) w = .ok w w := rfl
  simp only [Builtin.takeInput, Eval.readLine, Bind.bind, EStateM.bind, got, taken,
    List.isEmpty_iff]
  by_cases ended : line = []
  · simp only [if_pos ended]
    rfl
  · simp only [if_neg ended]
    cases decodeText? (dropLineEnd line) <;> rfl

/-- A call is refused as it stands, or it takes what comes next. -/
theorem result_eq (call : ReadCall) :
    call.result =
      match call.refusal? with
      | some kind => .error ⟨kind, some call.span⟩ call.world
      | none => Builtin.takeInput call.span (call.leaving call.world.input) := by
  obtain ⟨args, span, w⟩ := call
  rcases args with _ | ⟨v, _ | ⟨u, rest⟩⟩
  · rfl
  · cases v with
    | text prompt =>
      simp only [result, refusal?, leaving, perform_prompt]
      cases w.out.write prompt <;> rfl
    | _ => rfl
  · cases v <;> rfl

variable {input : List UInt8} {lines : List (List UInt8)} {k : Nat}

def after (call : ReadCall) : World :=
  match call.result with
  | .ok _ w => w
  | .error _ w => w

theorem leaving_again (call : ReadCall) (a b : List UInt8) :
    { call.leaving a with input := b } = call.leaving b := by
  unfold leaving
  split <;> rfl

theorem exists_answered (call : ReadCall) (cut : Lines input lines)
    (unread : call.world.input = (lines.drop k).flatten) :
    ∃ j, call.Answered lines k j ∧ call.after.input = (lines.drop j).flatten := by
  have result := call.result_eq
  have taken := cut.takeLine_drop k
  rw [← unread, ← call.input_leaving call.world.input] at taken
  cases refuses : call.refusal? with
  | some kind =>
    rw [refuses] at result
    exact ⟨k, .refused refuses result, by simpa only [after, result] using unread⟩
  | none =>
    rw [refuses] at result
    cases here : lines[k]? with
    | none =>
      have past := List.getElem?_eq_none_iff.mp here
      have nothing : (lines.drop k).flatten = [] := by
        rw [List.drop_eq_nil_of_le past, List.flatten_nil]
      rw [here] at taken
      rw [takeInput_eq taken, Option.getD_none, if_pos rfl, unread, nothing] at result
      exact ⟨k, .exhausted refuses past result,
        by simp only [after, result, input_leaving, nothing]⟩
    | some line =>
      have filled := cut.filled (List.mem_of_getElem? here)
      rw [here] at taken
      rw [takeInput_eq taken, Option.getD_some, if_neg filled, leaving_again] at result
      refine ⟨k + 1, ?_⟩
      rcases decodeText?_dropLineEnd line with
        ⟨undecoded, dropped⟩ | ⟨text, content, decoded, dropped, unended⟩
      · rw [dropped] at result
        exact ⟨.garbled refuses here undecoded result, by simp only [after, result, input_leaving]⟩
      · rw [dropped] at result
        exact ⟨.text refuses here decoded unended result,
          by simp only [after, result, input_leaving]⟩

end ReadCall

namespace Stepwise

def Step.HasInput (input : List UInt8) : Step → Prop
  | .next c => c.world.input = input
  | .ended _ w => w.input = input
  | .dangling => True

def Config.reads (c : Config) : List ReadCall :=
  match c.control with
  | .call (.builtin .read) args span => [⟨args, span, c.world⟩]
  | _ => []

def readCalls (ast : Ast) (limit : Nat) : Nat → Config → List ReadCall
  | 0, _ => []
  | n + 1, c =>
    match step ast limit c with
    | .next d => c.reads ++ readCalls ast limit n d
    | _ => c.reads

section Steps

variable (c : Config)

theorem input_follow? (plan : Option Plan) : (c.follow? plan).HasInput c.world.input := by
  cases plan with
  | none => trivial
  | some p => rfl

theorem input_seek (id : ScopeId) (x : String) (purpose : Purpose) :
    (c.seek id x purpose).HasInput c.world.input := by
  unfold Config.seek
  split
  · trivial
  · split
    · rfl
    · split <;> rfl
    · rfl
    · split <;> rfl
    · rfl

theorem input_declare (scope : ScopeId) (b : Binding) (span : Span) (control : Control) :
    (c.declare scope b span control).HasInput c.world.input := by
  unfold Config.declare
  split
  · trivial
  · split <;> rfl

theorem input_capture (scope : ScopeId) (func : FuncId) :
    (c.capture scope func).HasInput c.world.input := by
  unfold Config.capture
  split
  · trivial
  · rfl

theorem input_body (funcs : Array Func) (frame : ScopeId) (f : FuncId) :
    (c.body funcs frame f).HasInput c.world.input :=
  input_follow? ..

theorem input_perform {b : Builtin} (other : b ≠ .read) (args : List Value) (span : Span) :
    (c.perform b args span).HasInput c.world.input := by
  have keeps := Eval.keepsInput_perform other args span c.world
  unfold Config.perform
  cases ended : b.perform args span c.world with
  | ok v w =>
    rw [ended] at keeps
    exact keeps
  | error e w =>
    rw [ended] at keeps
    exact keeps

theorem input_call (funcs : Array Func) (limit : Nat) (args : List Value) (span : Span)
    {g : Callable} (other : g ≠ .builtin .read) :
    (c.call funcs limit args span g).HasInput c.world.input := by
  unfold Config.call
  split
  · split
    · trivial
    · split
      · rfl
      · split <;> rfl
  · exact input_follow? ..
  · exact input_perform c (fun same => other (congrArg _ same)) args span

theorem step_read {args : List Value} {span : Span}
    (due : c.control = .call (.builtin .read) args span) (ast : Ast) (limit : Nat) :
    (step ast limit c).HasInput (ReadCall.mk args span c.world).after.input := by
  obtain ⟨control, stack, depth, world⟩ := c
  cases due
  simp only [step, Config.call, Config.perform, ReadCall.after, ReadCall.result]
  cases Builtin.read.perform args span world <;> rfl

/-- No step but a call of `read` takes any input. -/
theorem step_other (nothing : c.reads = []) (ast : Ast) (limit : Nat) :
    (step ast limit c).HasInput c.world.input := by
  obtain ⟨control, stack, depth, world⟩ := c
  cases control with
  | expr scope id => exact input_follow? ..
  | stmt scope id => exact input_follow? ..
  | block scope id => exact input_follow? ..
  | nest parent id => rfl
  | seek frame x purpose => exact input_seek ..
  | capture scope func => exact input_capture ..
  | declare scope b span => exact input_declare ..
  | call g args span =>
    refine input_call _ _ _ _ _ fun same => ?_
    subst same
    cases nothing
  | bind frame f params args span =>
    rcases params with _ | ⟨p, ps⟩
    · exact input_body ..
    · rcases args with _ | ⟨v, vs⟩
      · exact input_body ..
      · exact input_declare ..
  | value v =>
    rcases stack with _ | ⟨k, rest⟩
    · rfl
    · cases k <;> rfl
  | error e =>
    rcases stack with _ | ⟨k, rest⟩
    · rfl
    · cases k <;> rfl

end Steps

variable {input : List UInt8} {lines : List (List UInt8)} {k : Nat} {c : Config}

theorem step_served (cut : Lines input lines) (unread : c.world.input = (lines.drop k).flatten)
    (ast : Ast) (limit : Nat) :
    ∃ j, ReadCall.Served lines k c.reads j ∧
      (step ast limit c).HasInput (lines.drop j).flatten := by
  by_cases nothing : c.reads = []
  · rw [nothing]
    exact ⟨k, .nil, unread ▸ step_other c nothing ast limit⟩
  · obtain ⟨args, span, due⟩ : ∃ args span, c.control = .call (.builtin .read) args span := by
      unfold Config.reads at nothing
      split at nothing
      · exact ⟨_, _, ‹_›⟩
      · exact absurd rfl nothing
    have reads : c.reads = [⟨args, span, c.world⟩] := by simp only [Config.reads, due]
    obtain ⟨j, answered, left⟩ := ReadCall.exists_answered ⟨args, span, c.world⟩ cut unread
    rw [reads]
    exact ⟨j, .cons unread answered .nil, left ▸ step_read c due ast limit⟩

theorem run_served (cut : Lines input lines) (unread : c.world.input = (lines.drop k).flatten)
    (ast : Ast) (limit n : Nat) :
    ∃ m, ReadCall.Served lines k (readCalls ast limit n c) m ∧
      (run ast limit n c).HasInput (lines.drop m).flatten := by
  induction n generalizing c k with
  | zero => exact ⟨k, .nil, unread⟩
  | succ n ih =>
    obtain ⟨j, served, left⟩ := step_served cut unread ast limit
    unfold readCalls run
    generalize step ast limit c = taken at left ⊢
    cases taken with
    | next d =>
      obtain ⟨m, served', left'⟩ := ih left
      exact ⟨m, served.append served', left'⟩
    | ended answer w => exact ⟨j, served, left⟩
    | dangling => exact ⟨j, served, left⟩

end Stepwise

namespace Session
open Stepwise (start)

/-- The calls of `read` in all runs that actions lead to, each run in single steps to its end. -/
inductive Calls : Session → List Action → List ReadCall → Prop where
  | nil {s : Session} : Calls s [] []
  | idle {s : Session} {next : Action} {rest : List Action} {calls : List ReadCall}
      (nothing : s.evaluation? next = none) (later : Calls (s.perform next) rest calls) :
        Calls s (next :: rest) calls
  | run {s t : Session} {b : Block} {next : Action} {rest : List Action} {n : Nat}
      {calls : List ReadCall}
      (runs : s.evaluation? next = some (t, b))
      (ended : Stepwise.run t.ast t.options.maxDepth n (start b.id t.world) =
        .ended (t.run b).1 (t.run b).2.world)
      (later : Calls (s.perform next) rest calls) :
      Calls s (next :: rest) (Stepwise.readCalls t.ast t.options.maxDepth n (start b.id t.world) ++
        calls)

variable {s : Session} {input : List UInt8} {lines : List (List UInt8)} {actions : List Action}
  {calls : List ReadCall}

theorem Sound.exists_calls (sound : s.Sound) (actions : List Action) :
    ∃ calls, s.Calls actions calls := by
  induction actions generalizing s with
  | nil => exact ⟨[], .nil⟩
  | cons next rest ih =>
    obtain ⟨calls, later⟩ := ih (sound.perform next)
    cases runs : s.evaluation? next with
    | none => exact ⟨calls, .idle runs later⟩
    | some ran =>
      obtain ⟨t, b⟩ := ran
      obtain ⟨sound', has, -, -⟩ := sound.evaluation? runs
      obtain ⟨n, ended⟩ := sound'.run_ends has
      exact ⟨_, .run runs ended later⟩

theorem Calls.served (made : s.Calls actions calls) (sound : s.Sound) (cut : Lines input lines)
    {k : Nat} (unread : s.world.input = (lines.drop k).flatten) :
    ∃ m, ReadCall.Served lines k calls m ∧
      (s.after actions).world.input = (lines.drop m).flatten := by
  induction made generalizing k with
  | nil => exact ⟨k, .nil, unread⟩
  | @idle s next rest calls nothing later ih =>
    obtain ⟨sound', same⟩ := sound.idle nothing
    exact ih sound' (same ▸ unread)
  | @run s t b next rest n calls runs ended later ih =>
    obtain ⟨-, -, world, same⟩ := sound.evaluation? runs
    obtain ⟨j, served, left⟩ :=
      Stepwise.run_served cut (c := start b.id t.world) (world ▸ unread) t.ast
      t.options.maxDepth n
    rw [ended] at left
    obtain ⟨m, served', left'⟩ := ih (sound.perform next) (same ▸ left)
    exact ⟨m, served.append served', left'⟩

/-- Whatever a session goes through, its calls of `read` share out the lines of its input. A call
that is not refused takes the next line, also if that is no text, and gives it without its end.
After the last line there is nothing to be taken. -/
theorem reads_share_lines (maxDepth : Nat) (out : Sink) (input : List UInt8)
    (actions : List Action) :
    ∃ lines, Lines input lines ∧
      (∃ calls, (fresh maxDepth out input).Calls actions calls) ∧
      ∀ calls, (fresh maxDepth out input).Calls actions calls →
        ∃ m, ReadCall.Served lines 0 calls m ∧
          ((fresh maxDepth out input).after actions).world.input = (lines.drop m).flatten := by
  obtain ⟨lines, cut⟩ := Lines.exists_lines input
  have sound := sound_fresh maxDepth out input
  exact ⟨lines, cut, sound.exists_calls actions, fun calls made =>
    made.served sound cut cut.flatten_eq.symm⟩

end Session

end ScriptKit
