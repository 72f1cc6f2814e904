import ScriptKit.Proofs.Eval.Echo
import ScriptKit.Proofs.Session.Sources
import ScriptKit.Proofs.Session.Stepwise
import ScriptKit.Proofs.Tree.Joining

/-! Two sources in one.

Joined by a line feed and a semicolon, two sources are read as the statements of the first one and
then those of the second. -/

namespace ScriptKit

theorem Setting.Tokens.blind_eq {S : Setting} {t t' : Token} (same : S.Tokens t t') {r : Relocation}
    (shifts : ∀ x, r.offset x = S.shift + x) : t'.blind = t.move r fun _ => .origin := by
  simp only [Token.blind, Token.move, Span.move, same.kind, same.text, same.span, shifts,
    Relocation.same]

/-- No word, number, operator or comment of the first source runs on into the second. -/
theorem scan_joined {a b : String} {ts us vs : List Token} {last : Token}
    (first : scan a 0 = .ok ts) (ended : Parser.Ended ts us last) (second : scan b 0 = .ok vs)
    {r : Relocation} (shifts : ∀ x, r.offset x = byteLength a.toList + 2 + x) :
    ∃ tokens semi, scan (a ++ "\n;" ++ b) 0 = .ok tokens ∧ semi.kind = .semicolon ∧
      tokens.map Token.blind =
        us.map Token.blind ++ semi :: vs.map (Token.move r fun _ => .origin) := by
  let S : Setting := ⟨0, 0, 0, .more b.toList, False, False.elim⟩
  have beside : S.Beside (.ofText a.toList 0) (.ofText (a ++ "\n;" ++ b).toList 0) :=
    ⟨rfl, rfl, ⟨by simp [S, Scanner.ofText], False.elim⟩, by simp [S, Scanner.ofText, Behind.text]⟩
  obtain ⟨us₁, last₁, us', whole, -, -, each, follows⟩ := beside.tokens_ok first
  obtain ⟨rfl, same⟩ := List.append_inj' (ended.whole.symm.trans whole) rfl
  cases same
  cases follows with
  | nothing _ alone => cases alone
  | more semi j kind behind base offset scanned =>
    have rest : j.rest = b.toList := (Behind.more.inj behind).symm
    have stop := (Scanner.tokens_within first last (by simp [whole])).2.2 ended.kind
    let T : Setting := ⟨0, 0, byteLength a.toList + 2, .nothing, False, False.elim⟩
    have beside' : T.Beside (.ofText b.toList 0) j := by
      refine ⟨rfl, base, ⟨?_, False.elim⟩, ?_⟩
      · simp only [S, T, stop, Scanner.stop, Scanner.ofText, Head.start] at offset ⊢
        omega
      · simp [T, Scanner.ofText, Behind.text, rest]
    obtain ⟨ws, last', ws', rfl, -, -, each', follows'⟩ := beside'.tokens_ok second
    cases follows' with
    | more _ _ _ behind => cases behind
    | nothing final _ same scanned' =>
      refine ⟨_, semi.blind, by rw [scan, scanned, scanned']; rfl, kind, ?_⟩
      have unmoved : us'.map Token.blind = us.map Token.blind :=
        Setting.map_tokens each fun same => same.blind_eq (r := .same) fun x => by
          simp [S, Relocation.same]
      have moved : ws'.map Token.blind = ws.map (Token.move r fun _ => .origin) :=
        Setting.map_tokens each' fun same => same.blind_eq shifts
      simp only [List.map_append, List.map_cons, List.map_nil, unmoved, moved, same.blind_eq shifts]

def Relocation.blank : Relocation :=
  .flat fun family i => if family = .func then i else 0

theorem Relocation.andThen_blank {r q : Relocation}
    (same : ∀ i, r.number .func i = q.number .func i) :
    r.andThen .blank = q.andThen .blank := by
  apply Relocation.ext
  · funext family i
    cases family with
    | func => exact same i
    | _ => rfl
  · rfl

/-- Read apart or joined, two sources have the same statements and functions, wherever these
stand. -/
theorem reading_joined {a b : String} {first second : Block} {astA astB : Ast}
    (readA : reading a = (.ok first, astA)) (readB : reading b = (.ok second, astB))
    {q : Relocation} (numbers : ∀ i, q.number .func i = astA.funcs.size + i) :
    ∃ both astJ, reading (a ++ "\n;" ++ b) = (.ok both, astJ) ∧
      both.stmts.map (Stmt.move .blank) =
        (first.stmts ++ (second.move q).stmts).map (Stmt.move .blank) ∧
      astJ.funcs.map (Func.move .blank) =
        (astA.funcs ++ astB.funcs.map (Func.move q)).map (Func.move .blank) := by
  obtain ⟨ts, scannedA, parsedA⟩ := reading_eq_ok.mp readA
  obtain ⟨vs, scannedB, parsedB⟩ := reading_eq_ok.mp readB
  obtain ⟨us, last, endedA, only⟩ := scan_ended scannedA
  obtain ⟨ws, last', endedB, -⟩ := scan_ended scannedB
  have blindA : Parser.Ended (ts.map Token.blind) (us.map Token.blind) last.blind :=
    ⟨by simp [endedA.whole], endedA.kind⟩
  obtain ⟨r, shifts, numbers', joins⟩ :=
    parseProgram_joined blindA (List.forall_mem_map.mpr only) endedB
    ((parseProgram_blind endedA).mpr parsedA) parsedB (byteLength a.toList + 2)
  obtain ⟨tokens, semi, scanned, kind, shown⟩ := scan_joined scannedA endedA scannedB shifts
  obtain ⟨both, astJ, parsed, stmts, funcs⟩ := joins semi kind
  obtain ⟨us', last'', ended, -⟩ := scan_ended scanned
  rw [← shown, parseProgram_blind ended] at parsed
  have same : r.andThen .blank = q.andThen .blank :=
    Relocation.andThen_blank fun i => (numbers' i).trans (numbers i).symm
  refine ⟨both, astJ, reading_eq_ok.mpr ⟨tokens, scanned, parsed⟩, ?_, ?_⟩
  · simp only [stmts, Block.stmts_move, List.map_append, List.map_map]
    congr 2
    funext s
    simp only [Function.comp, ← Stmt.move_andThen, same]
  · simp only [funcs, Array.map_append, Array.map_map]
    congr 2
    funext f
    simp only [Function.comp, ← Func.move_andThen, same]

namespace Evaluator

theorem stmts_append (rules : Rules) (scope : ScopeId) (last : Value) (ss ss' : List Stmt) :
    stmts rules scope last (ss ++ ss') =
      (do let v ← stmts rules scope last ss
          stmts rules scope v ss') := by
  induction ss generalizing last with
  | nil => rfl
  | cons s ss ih => simp only [List.cons_append, stmts, bind_assoc, ih]

theorem stmts_last (rules : Rules) (scope : ScopeId) (last last' : Value) {ss : List Stmt}
    (some : ss ≠ []) :
    stmts rules scope last ss = stmts rules scope last' ss := by
  cases ss with
  | nil => exact absurd rfl some
  | cons s ss => rfl

theorem block_eq (rules : Rules) (scope : ScopeId) (b : Block) :
    block rules scope b = stmts rules scope .null b.stmts := by
  cases b
  rfl

theorem moved_map (r : Relocation) (funcs more : Array Func) :
    Moved r funcs ((funcs ++ more).map (Func.move r)) := by
  intro f func found
  have inside := (Array.getElem?_eq_some_iff.mp found).1
  rw [Array.getElem?_map, Array.getElem?_append_left inside, found]
  rfl

/-- Both the statements of two programs in one, and those of the second run when the first has
ended, do what these do with nothing known of where they stand. -/
theorem echo_joined {funcs more funcs' : Array Func} {first second both : Block}
    (sameFuncs : funcs'.map (Func.move .blank) = (funcs ++ more).map (Func.move .blank))
    (sameStmts : both.stmts.map (Stmt.move .blank) =
      (first.stmts ++ second.stmts).map (Stmt.move .blank))
    (reclaim : Nat → Value → Scopes → Scopes) (depth : Nat) (scope : ScopeId) {v : Value}
    {w w₁ : World} (ran : block (rulesFor funcs reclaim depth) scope first w = .ok v w₁) :
    let rules := rulesFor ((funcs ++ more).map (Func.move .blank)) reclaim depth
    let rest := second.stmts.map (Stmt.move .blank)
    Echo (block (rulesFor funcs' reclaim depth) scope both w) (stmts rules scope v rest w₁) ∧
      Echo (block (rulesFor (funcs ++ more) reclaim depth) scope second w₁)
        (stmts rules scope .null rest w₁) := by
  intro rules rest
  have kept : ∀ i, Relocation.blank.number .func i = i := fun _ => rfl
  have older := moved_map .blank funcs more
  have apart : Moved .blank (funcs ++ more) ((funcs ++ more).map (Func.move .blank)) := by
    simpa using moved_map .blank (funcs ++ more) #[]
  have joined : Moved .blank funcs' ((funcs ++ more).map (Func.move .blank)) := by
    simpa [sameFuncs] using moved_map .blank funcs' #[]
  have done := echoes_block kept older reclaim depth scope first w
  rw [ran, block_eq, Block.stmts_move] at done
  have together := echoes_block kept joined reclaim depth scope both w
  rw [block_eq rules, Block.stmts_move, sameStmts, List.map_append, stmts_append] at together
  have second' := echoes_block kept apart reclaim depth scope second w₁
  rw [block_eq rules, Block.stmts_move] at second'
  refine ⟨?_, second'⟩
  generalize first' : stmts rules scope .null (first.stmts.map (Stmt.move .blank)) w = r at done
  cases done
  simpa only [Bind.bind, EStateM.bind, first'] using together

end Evaluator

namespace Session

def outcome : EStateM.Result RuntimeError World Value → Except RuntimeError Value × World
  | .ok v w => (.ok v, w)
  | .error e w => (.error e, w)

theorem run_eq_outcome (s : Session) (b : Block) :
    s.run b =
      let rules := Evaluator.rulesFor s.ast.funcs s.options.reclaim s.options.maxDepth
      let ended := outcome (Evaluator.block rules Scopes.globalId b s.world)
      (ended.1, { s with world := ended.2 }) := by
  unfold run
  dsimp only
  cases Evaluator.block _ Scopes.globalId b s.world <;> rfl

inductive Alike :
    EStateM.Result RuntimeError World Value → EStateM.Result RuntimeError World Value → Prop where
  | ok (v : Value) (w : World) : Alike (.ok v w) (.ok v w)
  | error {e e' : RuntimeError} (w : World) : e'.kind = e.kind → Alike (.error e w) (.error e' w)

/-- A source that was read misses nothing, so that its run has a full echo. -/
theorem Sound.echo {s t : Session} (sound : s.Sound) {source : String} {b : Block}
    (parsed : s.parse source = (.ok b, t))
    {result result' : EStateM.Result RuntimeError World Value}
    (ran : Evaluator.block (Evaluator.rulesFor t.ast.funcs t.options.reclaim t.options.maxDepth)
      Scopes.globalId b t.world = result) (echo : Echo result result') :
    Alike result result' := by
  cases echo with
  | ok v w => exact .ok v w
  | error w same => exact .error w same
  | @missing e w r lost =>
    obtain ⟨sound', has⟩ := sound.parse source
    rw [parsed] at sound' has
    dsimp only at sound' has
    obtain ⟨n, ended⟩ := sound'.run_ends (has b rfl)
    have ordinary : (Stepwise.run t.ast t.options.maxDepth n
        (Stepwise.start b.id t.world)).Ordinary :=
      Stepwise.run_ordinary _ _ n trivial
    have failed : (t.run b).1 = .error e := by
      rw [run_eq_outcome]
      dsimp only
      rw [ran]
      rfl
    rw [ended, failed] at ordinary
    exact absurd lost (Bool.eq_false_iff.mp ordinary)

/-- Statements begun after `v` have `v` for their value if there are none of them. -/
theorem Alike.joined {rules : Rules} {scope : ScopeId} {v : Value} {w : World} {ss : List Stmt}
    {result result' : EStateM.Result RuntimeError World Value}
    (apart : Alike result (Evaluator.stmts rules scope .null ss w))
    (joined : Alike result' (Evaluator.stmts rules scope v ss w)) :
    (outcome result').2 = (outcome result).2 ∧
      ((∃ u, (outcome result).1 = .ok u ∧ (outcome result').1 = .ok (if ss.isEmpty then v else u)) ∨
        ∃ e e', (outcome result).1 = .error e ∧ (outcome result').1 = .error e' ∧
          e'.kind = e.kind) := by
  cases ss with
  | nil =>
    cases apart
    cases joined
    exact ⟨rfl, .inl ⟨.null, rfl, rfl⟩⟩
  | cons st ss =>
    rw [Evaluator.stmts_last rules scope v .null (by simp)] at joined
    generalize Evaluator.stmts rules scope .null (st :: ss) w = common at apart joined
    cases apart with
    | ok u w =>
      cases joined
      exact ⟨rfl, .inl ⟨u, rfl, rfl⟩⟩
    | error w same =>
      cases joined with
      | error _ same' => exact ⟨rfl, .inr ⟨_, _, rfl, rfl, same'.symm.trans same⟩⟩

theorem parse_eq (s : Session) (source : String) :
    let r := Relocation.behind s.ast s.ast.sourceEnd
    s.parse source = (((reading source).1.map (Block.move r)).mapError (Error.move r),
      { s with ast := (s.ast.reserve (byteLength source.toList)).extend r (reading source).2
        }) := by
  intro r
  unfold parse
  rw [parseSource_eq]

theorem parse_of_reading (s : Session) {source : String} {b : Block} {ast : Ast}
    (read : reading source = (.ok b, ast)) :
    let r := Relocation.behind s.ast s.ast.sourceEnd
    s.parse source =
      (.ok (b.move r), { s with ast :=
        (s.ast.reserve (byteLength source.toList)).extend r ast }) := by
  intro r
  rw [parse_eq, read]
  rfl

theorem reading_of_parse {s : Session} {source : String} {b : Block}
    (parses : (s.parse source).1 = .ok b) :
    ∃ b₀ ast, reading source = (.ok b₀, ast) ∧ b = b₀.move (.behind s.ast s.ast.sourceEnd) := by
  rw [parse_eq] at parses
  cases read : reading source with
  | mk result ast =>
    rw [read] at parses
    cases result with
    | error e => cases parses
    | ok b₀ => exact ⟨b₀, ast, rfl, (Except.ok.inj parses).symm⟩

theorem parses_of_eval {s : Session} {source : String} {v : Value}
    (ended : (s.eval source).1 = .ok v) :
    ∃ b, (s.parse source).1 = .ok b := by
  cases parsed : s.parse source with
  | mk result t =>
    cases result with
    | ok b => exact ⟨b, rfl⟩
    | error e =>
      rw [eval_of_error parsed] at ended
      cases ended

theorem parse_fresh (maxDepth : Nat) (out : Sink) (input : List UInt8) {source : String} {b : Block}
    {ast : Ast} (read : reading source = (.ok b, ast)) :
    ∃ ast', (fresh maxDepth out input).parse source =
      (.ok b, { fresh maxDepth out input with ast := ast' }) ∧
      ast'.funcs = ast.funcs := by
  have same : Relocation.behind (fresh maxDepth out input).ast
      (fresh maxDepth out input).ast.sourceEnd = .same :=
    Relocation.behind_empty
  have moved : Func.move .same = id := funext Func.move_same
  refine ⟨(({} : Ast).reserve (byteLength source.toList)).extend .same ast, ?_, ?_⟩
  · rw [parse_of_reading _ read, same, Block.move_same]
    rfl
  · simp [Ast.extend, Ast.reserve, moved]

/-- Two sources in one session do what they do as one source, joined by a line feed and a semicolon,
if the first ends well and the second can be read. -/
theorem eval_joined (maxDepth : Nat) (out : Sink) (input : List UInt8) (a b : String) (v : Value)
    (second : Block) (ended : ((fresh maxDepth out input).eval a).1 = .ok v)
    (parses : ((fresh maxDepth out input).parse b).1 = .ok second) :
    let joined := (fresh maxDepth out input).eval (a ++ "\n;" ++ b)
    let apart := ((fresh maxDepth out input).eval a).2.eval b
    joined.2.world = apart.2.world ∧
      joined.2.ast.funcs.map (Func.move .blank) = apart.2.ast.funcs.map (Func.move .blank) ∧
      ((∃ u, apart.1 = .ok u ∧ joined.1 = .ok (if second.stmts.isEmpty then v else u)) ∨
        ∃ e e', apart.1 = .error (.runtime e) ∧ joined.1 = .error (.runtime e') ∧
          e'.kind = e.kind) := by
  intro joined apart
  let s := fresh maxDepth out input
  have sound : s.Sound := sound_fresh maxDepth out input
  obtain ⟨first', parsesA⟩ := parses_of_eval ended
  obtain ⟨first, astA, readA, -⟩ := reading_of_parse parsesA
  obtain ⟨later, astB, readB, rfl⟩ := reading_of_parse parses
  obtain ⟨astA', parsedA, funcsA⟩ := parse_fresh maxDepth out input readA
  -- The first source has run.
  have evalA := eval_of_parse parsedA
  rw [run_eq_outcome] at evalA
  dsimp only at evalA
  generalize ran : Evaluator.block _ Scopes.globalId first (fresh maxDepth out input).world =
    result at evalA
  rw [evalA] at ended
  cases result with
  | error e w => cases ended
  | ok v' w₁ =>
    cases ended
    let s₁ : Session := { s with ast := astA', world := w₁ }
    have after : (s.eval a).2 = s₁ := by rw [evalA]; rfl
    have sound₁ : s₁.Sound := after ▸ sound.perform (.eval a)
    -- The second source is read behind it.
    let q := Relocation.behind astA' astA'.sourceEnd
    have parsedB := s₁.parse_of_reading readB
    have evalB := eval_of_parse parsedB
    rw [run_eq_outcome] at evalB
    dsimp only at evalB
    -- Both are read as one.
    obtain ⟨both, astJ, readJ, sameStmts, sameFuncs⟩ :=
      reading_joined readA readB (q := q) fun i => by
      rw [← funcsA]
      rfl
    obtain ⟨astJ', parsedJ, funcsJ⟩ := parse_fresh maxDepth out input readJ
    have evalJ := eval_of_parse parsedJ
    rw [run_eq_outcome] at evalJ
    dsimp only at evalJ
    rw [← funcsA, ← funcsJ] at sameFuncs
    obtain ⟨together, second⟩ := Evaluator.echo_joined sameFuncs sameStmts _ _ _ ran
    have agree := (sound₁.echo parsedB rfl second).joined (sound.echo parsedJ rfl together)
    simp only [joined, apart, show ((fresh maxDepth out input).eval a).2 = s₁ from after, evalB,
      evalJ]
    have isEmpty : ((later.move q).stmts.map (Stmt.move .blank)).isEmpty =
        (later.move (.behind s.ast s.ast.sourceEnd)).stmts.isEmpty := by simp
    rw [isEmpty] at agree
    refine ⟨agree.1, sameFuncs, ?_⟩
    rcases agree.2 with ⟨u, same, same'⟩ | ⟨e, e', same, same', kind⟩
    · exact .inl ⟨u, congrArg (Except.mapError _) same, congrArg (Except.mapError _) same'⟩
    · exact .inr ⟨_, _, congrArg (Except.mapError _) same, congrArg (Except.mapError _) same', kind⟩

/-- The first source ends in a comment, and the second begins as if it went on with a call. -/
theorem eval_joined_comment :
    let s := fresh 8 {} []
    let a := "var n = 1; function add(x) { n = n + x; add } // so far"
    let b := "(2); println(add(n)(1)); add(null)"
    ∃ v second, (s.eval a).1 = .ok v ∧ (s.parse b).1 = .ok second ∧
      (s.eval (a ++ "\n;" ++ b)).2.world = ((s.eval a).2.eval b).2.world := by
  intro s a b
  have ends : (s.eval a).1.isOk = true := by decide +kernel
  have parses : (s.parse b).1.isOk = true := by decide +kernel
  cases ended : (s.eval a).1 with
  | error e =>
    rw [ended] at ends
    cases ends
  | ok v =>
    cases parsed : (s.parse b).1 with
    | error e =>
      rw [parsed] at parses
      cases parses
    | ok second => exact ⟨v, second, rfl, rfl, (eval_joined 8 {} [] a b v second ended parsed).1⟩

end Session

end ScriptKit
