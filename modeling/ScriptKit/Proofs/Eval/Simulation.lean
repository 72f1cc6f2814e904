import ScriptKit.Proofs.Eval.Coupling
import ScriptKit.Proofs.Scope.Correspondence

/-! Evaluation with and without giving frames back.

Two computations belong together if from worlds that correspond they end alike, in worlds that
correspond too. What was said of a value before holds afterwards, so values may be kept
meanwhile. -/

namespace ScriptKit

def Scopes.retain (_mark : Nat) (_result : Value) (s : Scopes) : Scopes := s

theorem Eval.run_scopes {α : Type} (k : Scopes → Eval α) (w : World) :
    (Eval.scopes >>= k) w = k w.scopes w := rfl

theorem Eval.run_get {α : Type} (k : World → Eval α) (w : World) : (get >>= k) w = k w w := rfl

theorem Eval.declare_eq (scope : ScopeId) (b : Binding) (span : Span) :
    Eval.declare scope b span = (do
      match (← Eval.scopes).declare scope b with
      | .ok s => Eval.setScopes s
      | .error e => Eval.fail (Eval.scopeError b.name e) span) := by
  funext w
  simp only [Eval.declare, Eval.run_scopes, Scopes.declareIn_eq]
  cases w.scopes.declare scope b <;> rfl

theorem Eval.assign_eq (scope : ScopeId) (name : String) (value : Value) (span : Span) :
    Eval.assign scope name value span = (do
      match (← Eval.scopes).assign scope name value with
      | .ok s => Eval.setScopes s
      | .error e => Eval.fail (Eval.scopeError name e) span) := by
  funext w
  simp only [Eval.assign, Eval.run_scopes, Scopes.assignFrom_eq]
  cases w.scopes.assign scope name value <;> rfl

theorem Sink.text_write {a a' : Sink} {text : String} (written : a.write text = .ok a') :
    a'.text = a.text ++ text := by
  unfold Sink.write at written
  split at written
  · rename_i empty
    cases written
    rw [empty, String.append_empty]
  · split at written
    · cases written
    · cases written
      rfl

theorem Sink.refusal?_write {a a' : Sink} {text : String} (written : a.write text = .ok a') :
    a'.refusal? = a.refusal? := by
  unfold Sink.write at written
  split at written
  · cases written
    rfl
  · split at written
    · cases written
    · cases written
      rfl

namespace Correspondence

structure WorldMatch (c : Correspondence) (w w' : World) : Prop where
  scopes : c.ScopesMatch w.scopes w'.scopes
  out : w'.out = w.out
  input : w'.input = w.input

inductive Agree {α β : Type} (c : Correspondence) (R : Correspondence → α → β → Prop) :
    EStateM.Result RuntimeError World α → EStateM.Result RuntimeError World β → Prop where
  | ok {d : Correspondence} {a : α} {b : β} {w w' : World} :
      c ≤ d → R d a b → d.WorldMatch w w' → Agree c R (.ok a w) (.ok b w')
  | error {d : Correspondence} {e : RuntimeError} {w w' : World} :
      c ≤ d → d.WorldMatch w w' → Agree c R (.error e w) (.error e w')

/-- The computations agree now and at any later time. -/
def Simulates {α β : Type} (c : Correspondence) (R : Correspondence → α → β → Prop)
    (m : Eval α) (m' : Eval β) : Prop :=
  ∀ d, c ≤ d → ∀ w w', d.WorldMatch w w' → Agree d R (m w) (m' w')

section Combinators

variable {α β γ δ : Type} {c : Correspondence} {R : Correspondence → α → β → Prop}
  {Q : Correspondence → γ → δ → Prop}

theorem Agree.mono {d : Correspondence} (later : c ≤ d)
    {r : EStateM.Result RuntimeError World α} {r' : EStateM.Result RuntimeError World β}
    (agree : Agree d R r r') : Agree c R r r' := by
  cases agree with
  | ok more related worlds => exact .ok (le_trans later more) related worlds
  | error more worlds => exact .error (le_trans later more) worlds

theorem Simulates.bind {m : Eval α} {m' : Eval β} {k : α → Eval γ} {k' : β → Eval δ}
    (first : Simulates c R m m')
    (next : ∀ {d a b}, c ≤ d → R d a b → Simulates d Q (k a) (k' b)) :
    Simulates c Q (m >>= k) (m' >>= k') := by
  intro d later w w' worlds
  have agree := first d later w w' worlds
  simp only [Bind.bind, EStateM.bind]
  generalize m w = r at agree
  generalize m' w' = r' at agree
  cases agree with
  | @ok e _ _ w₁ w₁' more related worlds' =>
    exact (next (le_trans later more) related e (le_refl e) w₁ w₁' worlds').mono more
  | error more worlds' => exact .error more worlds'

theorem simulates_pure {a : α} {b : β} (related : ∀ d, c ≤ d → R d a b) :
    Simulates c R (pure a : Eval α) (pure b : Eval β) :=
  fun d later _ _ worlds => .ok (le_refl d) (related d later) worlds

theorem simulates_fail (kind : RuntimeErrorKind) (span : Span) :
    Simulates c R (Eval.fail kind span : Eval α) (Eval.fail kind span : Eval β) :=
  fun d _ _ _ worlds => .error (le_refl d) worlds

end Combinators

def ScopeMatch (c : Correspondence) (i j : ScopeId) : Prop :=
  j = c.rename i ∧ c.live i

theorem ScopeMatch.mono {c d : Correspondence} (later : c ≤ d) {i j : ScopeId}
    (same : c.ScopeMatch i j) : d.ScopeMatch i j :=
  ⟨same.1.trans (later.rename i (c.live_lt same.2)).symm, later.live i same.2⟩

def pairing : Pairing where
  Time := Correspondence
  later := (· ≤ ·)
  inner := (· ≤ ·)
  rename := rename
  live := live
  home := home
  own := live
  later_refl := le_refl
  later_trans := le_trans
  inner_of_later le := le
  live_of_home {c _} := c.live_of_home
  live_of_own live := live
  live_mono le := le.live _
  home_mono le := le.home _
  own_mono le := le.live _
  rename_eq {c _ i} le live := le.rename i (c.live_lt live)
  distinct {c _ _} home home' :=
    c.rename_inj (c.live_lt (c.live_of_home home)) (c.live_lt (c.live_of_home home'))

section Primitives

variable {c : Correspondence} {i j : ScopeId}

theorem simulates_name (scope : c.ScopeMatch i j) (x : String) (span : Span) :
    Simulates c ValueMatch (Evaluator.name i x span) (Evaluator.name j x span) := by
  intro d later w w' worlds
  obtain ⟨rfl, live⟩ := scope.mono later
  obtain ⟨found, holds⟩ := lookup?_match worlds.scopes x i live
  have resolved : w'.scopes.resolve? (d.rename i) x =
      (w.scopes.resolve? i x).map (Value.rename d.rename) := by
    simp only [Scopes.resolve?, found, Option.map_map]
    rfl
  simp only [Evaluator.name, Eval.run_scopes, resolved]
  cases value : w.scopes.resolve? i x with
  | none =>
    simp only [Option.map_none]
    cases Builtin.ofName? x with
    | none => exact .error (le_refl d) worlds
    | some b => exact .ok (le_refl d) (valueMatch_of_no_envs d rfl) worlds
  | some v =>
    obtain ⟨b, looked, rfl⟩ := Option.map_eq_some_iff.mp value
    exact .ok (le_refl d) ⟨rfl, holds b looked⟩ worlds

theorem simulates_closure (scope : c.ScopeMatch i j) (func : FuncId) :
    Simulates c ValueMatch (Eval.closure i func) (Eval.closure j func) := by
  intro d later w w' worlds
  obtain ⟨rfl, live⟩ := scope.mono later
  have noted := capture_match worlds.scopes live
  refine .ok (le_noting d i live) ⟨rfl, ?_⟩ ⟨noted, worlds.out, worlds.input⟩
  intro e member
  exact .inr (List.mem_singleton.mp member)

theorem simulates_declare (scope : c.ScopeMatch i j) {v w : Value} (same : c.ValueMatch v w)
    (name : String) (isConst : Bool) (span : Span) :
    Simulates c pairing.Alike (Eval.declare i ⟨name, v, isConst⟩ span)
      (Eval.declare j ⟨name, w, isConst⟩ span) := by
  intro d later w₁ w₁' worlds
  obtain ⟨rfl, live⟩ := scope.mono later
  obtain ⟨rfl, holds⟩ := same.mono later
  simp only [Eval.declare_eq, Eval.run_scopes]
  rcases declare_match worlds.scopes live (b := ⟨name, v, isConst⟩) holds with
    ⟨s, t, hs, ht, scopes⟩ | ⟨e, hs, ht⟩
  · simp only [Binding.rename] at ht
    rw [hs, ht]
    exact .ok (le_refl d) Pairing.alike_unit ⟨scopes, worlds.out, worlds.input⟩
  · simp only [Binding.rename] at ht
    rw [hs, ht]
    exact .error (le_refl d) worlds

theorem simulates_assign (scope : c.ScopeMatch i j) {v w : Value} (same : c.ValueMatch v w)
    (name : String) (span : Span) :
    Simulates c pairing.Alike (Eval.assign i name v span) (Eval.assign j name w span) := by
  intro d later w₁ w₁' worlds
  obtain ⟨rfl, live⟩ := scope.mono later
  obtain ⟨rfl, holds⟩ := same.mono later
  simp only [Eval.assign_eq, Eval.run_scopes]
  rcases assign_match worlds.scopes live name holds with ⟨s, t, hs, ht, scopes⟩ | ⟨e, hs, ht⟩
  · rw [hs, ht]
    exact .ok (le_refl d) Pairing.alike_unit ⟨scopes, worlds.out, worlds.input⟩
  · rw [hs, ht]
    exact .error (le_refl d) worlds

theorem simulates_write (text : String) (span : Span) :
    Simulates c pairing.Alike (Eval.write text span) (Eval.write text span) := by
  intro d later w w' worlds
  simp only [Eval.write, Eval.run_get, worlds.out]
  cases w.out.write text with
  | error message => exact .error (le_refl d) worlds
  | ok out => exact .ok (le_refl d) Pairing.alike_unit ⟨worlds.scopes, rfl, worlds.input⟩

theorem simulates_readLine (span : Span) :
    Simulates c pairing.Alike (Eval.readLine span) (Eval.readLine span) := by
  intro d later w w' worlds
  simp only [Eval.readLine, Eval.run_get, worlds.input]
  split
  · exact .ok (le_refl d) (Pairing.alike_line _) worlds
  · have taken : d.WorldMatch { w with input := (takeLine w.input).2 }
        { w' with input := (takeLine w.input).2 } := ⟨worlds.scopes, worlds.out, rfl⟩
    cases decodeText? (dropLineEnd (takeLine w.input).1) with
    | none => exact .error (le_refl d) taken
    | some text => exact .ok (le_refl d) (Pairing.alike_line _) taken

/-- A block or a call: its frames are given back by the first run and stay in the second. -/
theorem simulates_inFrame (scope : c.ScopeMatch i j) {body body' : ScopeId → Eval Value}
    (same : ∀ d, c ≤ d → ∀ k l, d.ScopeMatch k l → Simulates d ValueMatch (body k) (body' l)) :
    Simulates c ValueMatch (Eval.inFrame Scopes.release i body)
      (Eval.inFrame Scopes.retain j body') := by
  intro d later w w' worlds
  obtain ⟨rfl, live⟩ := scope.mono later
  have mark : w.scopes.size = d.size := worlds.scopes.size
  have positive : 0 < d.size := d.live_lt worlds.scopes.global
  have opened := push_match worlds.scopes live
  have more := le_opening d w'.scopes.size worlds.scopes.inside
  have fresh : (d.opening w'.scopes.size worlds.scopes.inside).ScopeMatch d.size w'.scopes.size :=
    ⟨by simp only [opening, Nat.lt_irrefl, if_false], .inr rfl⟩
  have agree := same _ (le_trans later more) _ _ fresh _ (le_refl _)
    { w with scopes := w.scopes.push i } { w' with scopes := w'.scopes.push (d.rename i) }
    ⟨opened, worlds.out, worlds.input⟩
  simp only [Eval.inFrame, mark, Scopes.retain]
  generalize body d.size _ = r at agree
  generalize body' w'.scopes.size _ = r' at agree
  cases agree with
  | ok after related worlds' =>
    obtain ⟨e, still, scopes, result⟩ :=
      release_match (le_trans more after) worlds'.scopes positive related
    exact .ok still result ⟨scopes, worlds'.out, worlds'.input⟩
  | error after worlds' =>
    obtain ⟨e, still, scopes, _⟩ := release_match (le_trans more after) worlds'.scopes positive
      (valueMatch_of_no_envs _ (v := .null) rfl)
    exact .error still ⟨scopes, worlds'.out, worlds'.input⟩

end Primitives

/-- Runs of which only the first gives frames back. -/
def reclaiming : Coupling id .same Scopes.release Scopes.retain where
  toPairing := pairing
  numbers := Relocation.number_same .func
  near := Eq
  near_move := Span.eq_move_same
  lenient := False
  holds c m m' := Simulates c pairing.Alike m m'
  pure alike := simulates_pure fun _ later => alike.mono later
  bind first next := first.bind next
  fail kind span _ near := by
    rw [RuntimeErrorKind.respell_id, ← near]
    exact simulates_fail kind span
  missing lenient := lenient.elim
  name x span _ sees near := near ▸ simulates_name sees x span
  closure func sees := simulates_closure sees func
  declare x _ _ isConst span _ owns alike near :=
    near ▸ (simulates_declare owns alike x isConst span)
  assign x _ _ span _ sees alike near := near ▸ simulates_assign sees alike x span
  write text span _ near := near ▸ simulates_write text span
  readLine near := near ▸ simulates_readLine _
  inFrame sees inside := simulates_inFrame sees fun _ later _ _ owns => inside later owns

theorem simulates_block (funcs : Array Func) (depth : Nat) {c : Correspondence} {i j : ScopeId}
    (scope : c.ScopeMatch i j) (b : Block) :
    Simulates c ValueMatch (Evaluator.block (Evaluator.rulesFor funcs Scopes.release depth) i b)
      (Evaluator.block (Evaluator.rulesFor funcs Scopes.retain depth) j b) := by
  have functions : reclaiming.Functions funcs funcs := by
    intro f
    cases found : funcs[f]? with
    | none => exact .inr ⟨rfl, .inl rfl⟩
    | some func => exact .inl ⟨func, rfl, by rw [Func.respell_id, Func.move_same]⟩
  have same := (Coupling.rulesFor functions depth).block (t := c) scope b
  rwa [Block.respell_id, Block.move_same] at same

end Correspondence
end ScriptKit
