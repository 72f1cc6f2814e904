import ScriptKit.Proofs.Eval.Simulation
import ScriptKit.Proofs.Scope.Hygiene

/-! What an evaluation leaves of the frames that were there.

A block or a call runs in a frame of its own. What it declares goes into that frame, which is not
one of those that were there. -/

namespace ScriptKit

def Eval.worldAfter {α : Type} (m : Eval α) (w : World) : World :=
  match m w with
  | .ok _ w => w
  | .error _ w => w

namespace Eval
open Scopes (Kept)

/-- Tables stay in order, and all frames but one are kept, whether the computation fails or not. -/
def Keeps {α : Type} (free : Option ScopeId) (m : Eval α) : Prop :=
  ∀ w, w.scopes.Tidy →
    (worldAfter m w).scopes.Tidy ∧ Kept free w.scopes (worldAfter m w).scopes

variable {α β : Type} {free : Option ScopeId}

theorem Keeps.bind {m : Eval α} {k : α → Eval β} (first : Keeps free m)
    (rest : ∀ a, Keeps free (k a)) :
    Keeps free (m >>= k) := by
  intro w tidy
  obtain ⟨tidy', kept⟩ := first w tidy
  simp only [worldAfter, Bind.bind, EStateM.bind] at tidy' kept ⊢
  cases ended : m w with
  | error e w' =>
    rw [ended] at tidy' kept
    exact ⟨tidy', kept⟩
  | ok a w' =>
    rw [ended] at tidy' kept
    obtain ⟨tidy'', kept'⟩ := rest a w' tidy'
    exact ⟨tidy'', kept.trans kept'⟩

theorem Keeps.weaken {m : Eval α} (keeps : Keeps none m) (free : Option ScopeId) : Keeps free m :=
  fun w tidy => ⟨(keeps w tidy).1, (keeps w tidy).2.weaken free⟩

theorem keeps_of_same {m : Eval α} (same : ∀ w, (worldAfter m w).scopes = w.scopes) :
    Keeps free m := by
  intro w tidy
  rw [same w]
  exact ⟨tidy, .refl free _⟩

theorem keeps_pure (a : α) : Keeps free (pure a) :=
  keeps_of_same fun _ => rfl

theorem keeps_fail (kind : RuntimeErrorKind) (span : Span) : Keeps free (fail kind span : Eval α) :=
  keeps_of_same fun _ => rfl

theorem keeps_write (text : String) (span : Span) : Keeps free (write text span) := by
  apply keeps_of_same
  intro w
  simp only [worldAfter, write, run_get]
  cases w.out.write text <;> rfl

theorem keeps_readLine (span : Span) : Keeps free (readLine span) := by
  apply keeps_of_same
  intro w
  simp only [worldAfter, readLine, run_get]
  by_cases ended : (takeLine w.input).1.isEmpty = true
  · rw [if_pos ended]
    rfl
  · rw [if_neg ended]
    cases decodeText? (dropLineEnd (takeLine w.input).1) <;> rfl

theorem keeps_scopes : Keeps free scopes :=
  keeps_of_same fun _ => rfl

theorem keeps_name (scope : ScopeId) (x : String) (span : Span) :
    Keeps free (Evaluator.name scope x span) := by
  refine keeps_scopes.bind fun s => ?_
  cases s.resolve? scope x with
  | some v => exact keeps_pure v
  | none =>
    cases Builtin.ofName? x with
    | some b => exact keeps_pure _
    | none => exact keeps_fail _ span

theorem keeps_closure (scope : ScopeId) (func : FuncId) : Keeps none (closure scope func) :=
  fun _ tidy => tidy.capture scope

theorem keeps_assign (scope : ScopeId) (x : String) (v : Value) (span : Span) :
    Keeps none (assign scope x v span) := by
  intro w tidy
  simp only [worldAfter, assign_eq, run_scopes]
  cases done : w.scopes.assign scope x v with
  | error e => exact ⟨tidy, .refl none _⟩
  | ok t => exact tidy.assign done

theorem keeps_declare (scope : ScopeId) (b : Binding) (span : Span) :
    Keeps (some scope) (declare scope b span) := by
  intro w tidy
  simp only [worldAfter, declare_eq, run_scopes]
  cases done : w.scopes.declare scope b with
  | error e => exact ⟨tidy, .refl _ _⟩
  | ok t =>
    obtain ⟨tidy', gains⟩ := tidy.declare done
    exact ⟨tidy', gains.1⟩

theorem keeps_inFrame {parent : ScopeId} {body : ScopeId → Eval Value}
    (inside : ∀ frame, Keeps (some frame) (body frame)) :
    Keeps none (inFrame Scopes.release parent body) := by
  intro w tidy
  obtain ⟨tidy', kept⟩ := inside w.scopes.size { w with scopes := w.scopes.push parent }
    (tidy.push parent)
  -- The new frame is none of those that were there, and these are all below the mark.
  have back : ∀ (t : Scopes) (v : Value), Kept (some w.scopes.size) (w.scopes.push parent) t →
      Kept none w.scopes (t.release w.scopes.size v) := by
    intro t v kept i f _ found
    have old : i < w.scopes.size := (Array.getElem?_eq_some_iff.mp found).1
    have apart : i ≠ w.scopes.size := Nat.ne_of_lt old
    have found' : (w.scopes.push parent).frames[i]? = some f := by
      rw [Scopes.getElem?_push, if_neg apart, found]
    obtain ⟨g, here, same⟩ := kept i f (fun other => apart (Option.some.inj other).symm) found'
    exact ⟨g, by rw [Scopes.getElem?_release_of_lt old, here], same⟩
  simp only [worldAfter, inFrame] at tidy' kept ⊢
  cases ended : body w.scopes.size { w with scopes := w.scopes.push parent } with
  | ok v w' =>
    rw [ended] at tidy' kept
    exact ⟨tidy'.release, back _ v kept⟩
  | error e w' =>
    rw [ended] at tidy' kept
    exact ⟨tidy'.release, back _ .null kept⟩

end Eval

namespace Evaluator
open Eval

/-- A run beside itself. A time is a frame in which variables may be declared. -/
def keeping : Coupling id .same Scopes.release Scopes.release where
  Time := Option ScopeId
  later free free' := free = free'
  inner _ _ := True
  rename _ := id
  live _ _ := True
  home _ _ := True
  own free i := free = some i
  later_refl _ := rfl
  later_trans := Eq.trans
  inner_of_later _ := trivial
  live_of_home _ := trivial
  live_of_own _ := trivial
  live_mono _ _ := trivial
  home_mono _ _ := trivial
  own_mono same own := same ▸ own
  rename_eq _ _ := rfl
  distinct _ _ same := same
  numbers := Relocation.number_same .func
  near := Eq
  near_move := Span.eq_move_same
  lenient := False
  holds free m _ := Keeps free m
  pure _ := keeps_pure _
  bind first next := first.bind fun a => next rfl ⟨rfl, fun _ _ => trivial⟩
  fail kind span _ _ := keeps_fail kind span
  missing lenient := lenient.elim
  name x span _ _ _ := keeps_name _ x span
  closure func _ := (keeps_closure _ func).weaken _
  declare x v _ isConst span _ owns _ _ := by
    rw [owns.2]
    exact keeps_declare _ ⟨x, v, isConst⟩ span
  assign x v _ span _ _ _ _ := (keeps_assign _ x v span).weaken _
  write text span _ _ := (keeps_write text span)
  readLine {_ span _} _ := (keeps_readLine span)
  inFrame _ inside := (keeps_inFrame fun frame => inside trivial ⟨rfl, rfl⟩).weaken _

abbrev RulesKeep (rules : Rules) : Prop :=
  keeping.RulesHold rules rules

theorem rulesFor_keep (funcs : Array Func) (depth : Nat) :
    RulesKeep (rulesFor funcs Scopes.release depth) := by
  apply Coupling.rulesFor
  intro f
  cases found : funcs[f]? with
  | none => exact .inr ⟨rfl, .inl rfl⟩
  | some func => exact .inl ⟨func, rfl, by rw [Func.respell_id, Func.move_same]⟩

variable {rules : Rules}

theorem keeps_expr (keep : RulesKeep rules) (scope : ScopeId) (e : Expr) :
    Keeps none (expr rules scope e) :=
  keep.expr (t := none) ⟨rfl, trivial⟩ e

theorem keeps_stmt (keep : RulesKeep rules) (scope : ScopeId) (st : Stmt) :
    Keeps (some scope) (stmt rules scope st) :=
  keep.stmt (t := some scope) ⟨rfl, rfl⟩ st

theorem keeps_block (keep : RulesKeep rules) (scope : ScopeId) (b : Block) :
    Keeps (some scope) (block rules scope b) :=
  keep.block (t := some scope) ⟨rfl, rfl⟩ b

end Evaluator

def Stmt.declares? : Stmt → Option (String × Bool)
  | .declare _ x _ isConst => some (x, isConst)
  | .function _ x _ => some (x, false)
  | _ => none

namespace Eval
open Scopes (Kept Gains)

/-- A statement keeps all frames, but for the name that it declares when it succeeds. -/
def Declares (scope : ScopeId) (declared : Option (String × Bool)) (m : Eval Value) : Prop :=
  ∀ w, w.scopes.Tidy → match m w, declared with
    | .ok v w', some (x, isConst) => Gains scope ⟨x, v, isConst⟩ w.scopes w'.scopes
    | .ok _ w', none => Kept none w.scopes w'.scopes
    | .error _ w', _ => Kept none w.scopes w'.scopes

theorem Keeps.declaresNone {m : Eval Value} (keeps : Keeps none m) (scope : ScopeId) :
    Declares scope none m := by
  intro w tidy
  have kept := (keeps w tidy).2
  unfold worldAfter at kept
  cases ended : m w with
  | ok v w' =>
    rw [ended] at kept
    exact kept
  | error e w' =>
    rw [ended] at kept
    exact kept

theorem Keeps.declares {m : Eval Value} (keeps : Keeps none m) (scope : ScopeId) (x : String)
    (isConst : Bool) (span : Span) :
    Declares scope (some (x, isConst)) (do
      let v ← m
      declare scope ⟨x, v, isConst⟩ span
      return v) := by
  intro w tidy
  obtain ⟨tidy', kept⟩ := keeps w tidy
  simp only [worldAfter] at tidy' kept
  cases ended : m w with
  | error e w' =>
    rw [ended] at kept
    simp only [Bind.bind, EStateM.bind, ended]
    exact kept
  | ok v w' =>
    rw [ended] at tidy' kept
    cases done : w'.scopes.declare scope ⟨x, v, isConst⟩ with
    | error e =>
      simp only [Bind.bind, EStateM.bind, ended]
      have failed : declare scope ⟨x, v, isConst⟩ span w' =
          .error ⟨scopeError x e, some span⟩ w' := by
        simp only [declare_eq, run_scopes, done]
        rfl
      rw [failed]
      exact kept
    | ok t =>
      simp only [Bind.bind, EStateM.bind, ended]
      have declared : declare scope ⟨x, v, isConst⟩ span w' = .ok () { w' with scopes := t } := by
        simp only [declare_eq, run_scopes, done]
        rfl
      rw [declared]
      exact kept.gains (tidy'.declare done).2

end Eval

namespace Evaluator

variable {rules : Rules}

theorem stmt_declares (keep : RulesKeep rules) (scope : ScopeId) (st : Stmt) :
    Eval.Declares scope st.declares? (stmt rules scope st) := by
  cases st with
  | expr id e => exact (keeps_expr keep scope e).declaresNone scope
  | declare node x e isConst => exact (keeps_expr keep scope e).declares scope x isConst node.span
  | assign node x e =>
    exact ((keeps_expr keep scope e).bind fun v =>
      (Eval.keeps_assign scope x v node.span).bind fun _ => Eval.keeps_pure v).declaresNone scope
  | function node x f => exact (Eval.keeps_closure scope f.id).declares scope x false node.span
  | block id b =>
    simp only [stmt, keep.first]
    exact (Eval.keeps_inFrame fun child => keeps_block keep child b).declaresNone scope

theorem stmts_grow (keep : RulesKeep rules) (scope : ScopeId) (last : Value) (ss : List Stmt)
    (w : World) (tidy : w.scopes.Tidy) :
    w.scopes.Grows (Eval.worldAfter (stmts rules scope last ss) w).scopes := by
  induction ss generalizing last w with
  | nil => exact .refl _
  | cons st ss ih =>
    have first := stmt_declares keep scope st w tidy
    have tidy' := (keeps_stmt keep scope st w tidy).1
    simp only [Eval.worldAfter, stmts, Bind.bind, EStateM.bind] at tidy' ih ⊢
    cases ended : stmt rules scope st w with
    | error e w' =>
      rw [ended] at first
      exact Scopes.Kept.grows first
    | ok v w' =>
      rw [ended] at first tidy'
      refine Scopes.Grows.trans ?_ (ih v w' tidy')
      cases declared : st.declares? with
      | none =>
        rw [declared] at first
        exact Scopes.Kept.grows first
      | some named =>
        rw [declared] at first
        exact Scopes.Gains.grows first

end Evaluator

end ScriptKit
