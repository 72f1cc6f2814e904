import ScriptKit.Proofs.Eval.Lockstep
import ScriptKit.Proofs.Session.Images
import ScriptKit.Proofs.Session.Joining

/-! A source that cannot be read leaves nothing behind that a later one could see.

It takes numbers of functions and bytes. The numbers show where a closure is printed, and then also
by the length of their text, if the output is limited. Nothing else shows. -/

namespace ScriptKit

/-- Outputs that `a` and `b` have grown to, with the writer of `a` behind both. They are equal if
`exact`, and the same was written to both if `quiet`. -/
def Bond.since (exact quiet : Prop) (a b : Sink) : Bond where
  same := exact ∨ quiet
  strict := exact
  messages := a.MayRefuse
  holds := fun a' b' => (a'.refusal? = a.refusal? ∧ b'.refusal? = a.refusal?) ∧ (exact → b' = a') ∧
    ∃ text text', a'.text = a.text ++ text ∧ b'.text = b.text ++ text' ∧ (quiet → text' = text)
  written := by
    rintro a₁ b₁ a₂ b₂ more more' ⟨⟨same, same'⟩, equal, text, text', here, there, alike⟩ texts
      written written'
    refine ⟨⟨?_, ?_⟩, fun holds => ?_, text ++ more, text' ++ more', ?_, ?_, fun holds => ?_⟩
    · rw [Sink.refusal?_write written, same]
    · rw [Sink.refusal?_write written', same']
    · rw [equal holds, texts (.inl holds), written] at written'
      exact (Except.ok.inj written').symm
    · rw [Sink.text_write written, here, String.append_assoc]
    · rw [Sink.text_write written', there, String.append_assoc]
    · rw [alike holds, texts (.inr holds)]
  known := by
    rintro a₁ b₁ message ⟨⟨same, same'⟩, -⟩ (⟨sizes, size, said⟩ | ⟨sizes, size, said⟩)
    · exact ⟨sizes, size, same ▸ said⟩
    · exact ⟨sizes, size, same' ▸ said⟩
  refused := by
    rintro holds a₁ b₁ more more' ⟨-, equal, -⟩ texts message
    rw [equal holds, texts (.inl holds)]

namespace Session
open Stepwise (start)

def WritesClosure (s : Session) (source : String) : Prop :=
  ∃ t b n c, s.evaluation? (.eval source) = some (t, b) ∧
    Stepwise.run t.ast t.options.maxDepth n (start b.id t.world) = .next c ∧ c.control.PrintsClosure

def FillsOutput (s : Session) (source : String) : Prop :=
  ∃ e, (s.eval source).1 = .error (.runtime e) ∧ e.IsRefusal s.world.out.MayRefuse

def Ever (does : Session → String → Prop) (s : Session) : List String → Prop
  | [] => False
  | source :: rest => does s source ∨ (s.eval source).2.Ever does rest

theorem ever_append (does : Session → String → Prop) (s : Session) (before rest : List String) :
    s.Ever does (before ++ rest) ↔
      s.Ever does before ∨ (s.after (before.map .eval)).Ever does rest := by
  induction before generalizing s with
  | nil =>
    simp only [List.nil_append, Ever, false_or]
    rfl
  | cons source before ih =>
    simp only [List.cons_append, Ever, ih, or_assoc]
    rfl

/-- The second session is the first, moved, but for what was written. -/
structure Image (r : Relocation) (d : Nat) (s t : Session) : Prop where
  left : s.Sound
  right : t.Sound
  options : t.options = s.options
  begins : t.ast.sourceEnd = s.ast.sourceEnd + d
  ast : s.ast.Image r t.ast
  scopes : t.world.scopes = s.world.scopes.relink r.func
  input : t.world.input = s.world.input
  writer : t.world.out.refusal? = s.world.out.refusal?

section Images

variable {r : Relocation} {d : Nat} {s t : Session}

theorem Image.parse (image : Image r d s t) (source : String) :
    (t.parse source).1 = ((s.parse source).1.map (Block.move r)).mapError (Error.move r) ∧
      Image r d (s.parse source).2 (t.parse source).2 := by
  obtain ⟨outcome, read⟩ := image.ast.read source
  refine ⟨outcome, (image.left.parse source).1, (image.right.parse source).1, image.options,
    ?_, read, image.scopes, image.input, image.writer⟩
  have begins := image.begins
  simp only [parse_eq, Ast.sourceEnd_read]
  omega

theorem Image.twin (image : Image r d s t) {exact quiet : Prop}
    (outs : exact → t.world.out = s.world.out) :
    s.world.Twin r.func (.since exact quiet s.world.out t.world.out) t.world where
  scopes := image.scopes
  out :=
    ⟨⟨rfl, image.writer⟩, outs, "", "", String.append_empty.symm, String.append_empty.symm,
      fun _ => rfl⟩
  input := image.input

/-- A block and its image give the same answer. -/
theorem Image.run (faithful : r.Faithful) (image : Image r d s t) {bond : Bond}
    (twin : s.world.Twin r.func bond t.world) {b : Block} (has : s.ast.Has (.block b))
    (has' : t.ast.Has (.block (b.move r)))
    (quiet : bond.same → (∀ i, r.func i = i) ∨ ∀ n c,
      Stepwise.run s.ast s.options.maxDepth n (start b.id s.world) = .next c →
      ¬ c.control.PrintsClosure) :
    Stepwise.Step.Together r bond (.ended (s.run b).1 (s.run b).2.world)
      (.ended (t.run (b.move r)).1 (t.run (b.move r)).2.world) := by
  obtain ⟨n, ended⟩ := image.left.run_ends has
  obtain ⟨n', ended'⟩ := image.right.run_ends has'
  rw [image.options] at ended'
  have begin : (start b.id s.world).Twin r bond (start (b.move r).id t.world) := by
    refine ⟨?_, rfl, rfl, twin⟩
    simp only [start, Block.id_move, Stepwise.Control.move]
  exact Stepwise.ended_together image.ast.moves faithful.injective begin quiet ended ended'

structure SameEval (f : FuncId → FuncId) (d : Nat) (s t : Session) (source : String) : Prop where
  begins : t.ast.sourceEnd = s.ast.sourceEnd + d
  answer : (t.eval source).1 = ((s.eval source).1.map (Value.relink f)).mapError (Error.later d)
  scopes : (t.eval source).2.world.scopes = (s.eval source).2.world.scopes.relink f
  input : (t.eval source).2.world.input = (s.eval source).2.world.input

theorem Image.eval_unread (image : Image r d s t) {source : String} {e : Error}
    (failed : (reading source).1 = .error e) :
    SameEval r.func d s t source ∧ Image r d (s.eval source).2 (t.eval source).2 ∧
      (s.eval source).2.world = s.world ∧ (t.eval source).2.world = t.world := by
  have unread : ∀ u : Session, u.parse source =
      (.error (e.move (.behind u.ast u.ast.sourceEnd)), (u.parse source).2) := by
    intro u
    rw [parse_eq, failed]
    rfl
  have here := eval_of_error (unread s)
  have there := eval_of_error (unread t)
  have answers : (t.eval source).1 =
      ((s.eval source).1.map (Value.relink r.func)).mapError (Error.later d) := by
    rw [here, there]
    exact congrArg Except.error (Error.move_behind failed image.begins)
  refine ⟨⟨image.begins, answers, ?_, ?_⟩, ?_, ?_, ?_⟩
  · rw [here, there]
    exact image.scopes
  · rw [here, there]
    exact image.input
  · rw [here, there]
    exact (image.parse source).2
  · rw [here]
    rfl
  · rw [there]
    rfl

theorem Image.after_run (image : Image r d s t) {b b' : Block} (has : s.ast.Has (.block b))
    (has' : t.ast.Has (.block b'))
    (scopes : (t.run b').2.world.scopes = (s.run b).2.world.scopes.relink r.func)
    (input : (t.run b').2.world.input = (s.run b).2.world.input)
    (writer : (t.run b').2.world.out.refusal? = (s.run b).2.world.out.refusal?) :
    Image r d (s.run b).2 (t.run b').2 := by
  refine ⟨image.left.run has, image.right.run has', ?_, ?_, ?_, scopes, input, writer⟩ <;>
    rw [run_eq s b, run_eq t b']
  · exact image.options
  · exact image.begins
  · exact image.ast

theorem fillsOutput_of_refused {b : Block} {source : String} (parsed : s.parse source = (.ok b, t))
    {e : RuntimeError} (failed : (t.run b).1 = .error e)
    (refusal : e.IsRefusal s.world.out.MayRefuse) :
    s.FillsOutput source := by
  refine ⟨e.relativeTo s.ast.sourceEnd (byteLength source.toList), ?_, refusal⟩
  rw [eval_of_parse parsed, failed]
  rfl

/-- Unless an output is full, a source does the same in both sessions. -/
theorem Image.eval (faithful : r.Faithful) (image : Image r d s t) {exact quiet : Prop}
    (outs : exact → t.world.out = s.world.out) (source : String)
    (fixed : exact ∨ quiet → (∀ i, r.func i = i) ∨ ¬ s.WritesClosure source)
    (granted : exact ∨ ¬ s.FillsOutput source ∧ ¬ t.FillsOutput source) :
    SameEval r.func d s t source ∧ Image r d (s.eval source).2 (t.eval source).2 ∧
      (Bond.since exact quiet s.world.out t.world.out).holds (s.eval source).2.world.out
        (t.eval source).2.world.out := by
  have twin : s.world.Twin r.func (.since exact quiet s.world.out t.world.out) t.world :=
    image.twin outs
  cases read : (reading source).1 with
  | error e =>
    obtain ⟨same, after, world, world'⟩ := image.eval_unread read
    refine ⟨same, after, ?_⟩
    rw [world, world']
    exact twin.out
  | ok b₀ =>
    obtain ⟨outcome, parsed⟩ := image.parse source
    let b := b₀.move (.behind s.ast s.ast.sourceEnd)
    have here : s.parse source = (.ok b, (s.parse source).2) := by
      rw [parse_eq, read]
      rfl
    have there : t.parse source = (.ok (b.move r), (t.parse source).2) := by
      refine Prod.ext (outcome.trans ?_) rfl
      rw [here]
      rfl
    have has := (image.left.parse source).2 b (congrArg Prod.fst here)
    have has' := (image.right.parse source).2 (b.move r) (congrArg Prod.fst there)
    have ran :=
      parsed.run faithful twin has has' fun same =>
        (fixed same).imp id fun silent n c reached prints =>
      silent ⟨_, b, n, c, by rw [evaluation?, here], reached, prints⟩
    rcases ran with ⟨answers, worlds⟩ | ⟨loose, refused⟩
    · obtain ⟨⟨same, same'⟩, -⟩ := worlds.out
      have after := parsed.after_run has has' worlds.scopes worlds.input (same'.trans same.symm)
      have relative : ∀ e : RuntimeError,
          (e.move r).relativeTo t.ast.sourceEnd (byteLength source.toList) =
            e.relativeTo s.ast.sourceEnd (byteLength source.toList) :=
        fun e => e.relativeTo_move faithful image.ast.offsets _
      refine ⟨⟨image.begins, ?_, ?_, ?_⟩, ?_, ?_⟩ <;> rw [eval_of_parse here, eval_of_parse there]
      · rw [answers]
        cases ((s.parse source).2.run b).1 with
        | ok v => rfl
        | error e => simp only [Except.map, Except.mapError, Error.later, relative]
      · exact worlds.scopes
      · exact worlds.input
      · exact after
      · exact worlds.out
    · rcases granted with strict | ⟨room, room'⟩
      · exact absurd strict loose
      · rcases refused with ⟨e, failed, refusal⟩ | ⟨e, failed, refusal⟩
        · exact absurd (fillsOutput_of_refused here failed refusal) room
        · have same : s.world.out.MayRefuse = t.world.out.MayRefuse := by
            unfold Sink.MayRefuse
            rw [image.writer]
          exact absurd (fillsOutput_of_refused there failed (same ▸ refusal)) room'

/-- One relocation is good for all sources. -/
theorem Image.after (faithful : r.Faithful) (image : Image r d s t) {exact : Prop}
    (outs : exact → t.world.out = s.world.out) (before : List String)
    (fixed : exact → (∀ i, r.func i = i) ∨ ¬ s.Ever WritesClosure before)
    (granted : exact ∨ ¬ s.Ever FillsOutput before ∧ ¬ t.Ever FillsOutput before) :
    Image r d (s.after (before.map .eval)) (t.after (before.map .eval)) ∧
      (exact → (t.after (before.map .eval)).world.out =
        (s.after (before.map .eval)).world.out) := by
  induction before generalizing s t with
  | nil => exact ⟨image, outs⟩
  | cons source rest ih =>
    simp only [Ever, not_or] at fixed granted
    have first : exact ∨ ¬ s.FillsOutput source ∧ ¬ t.FillsOutput source :=
      granted.imp id fun room => ⟨room.1.1, room.2.1⟩
    have others : exact ∨ ¬ (s.eval source).2.Ever FillsOutput rest ∧
        ¬ (t.eval source).2.Ever FillsOutput rest :=
      granted.imp id fun room => ⟨room.1.2, room.2.2⟩
    have quiet : exact ∨ False → (∀ i, r.func i = i) ∨ ¬ s.WritesClosure source := fun holds =>
      (fixed (holds.resolve_right id)).imp id fun silent => silent.1
    obtain ⟨-, after, -, same, -⟩ := image.eval faithful outs source quiet first
    exact ih after same (fun holds => (fixed holds).imp id fun silent => silent.2) others

/-- What comes of a source after some others. -/
theorem Image.eval_after (faithful : r.Faithful) (image : Image r d s t) (exact quiet : Prop)
    (outs : exact → t.world.out = s.world.out) (before : List String) (source : String)
    (fixed : exact → (∀ i, r.func i = i) ∨ ¬ s.Ever WritesClosure (before ++ [source]))
    (quietly : quiet → ¬ (s.after (before.map .eval)).WritesClosure source)
    (granted : exact ∨ ¬ s.Ever FillsOutput (before ++ [source]) ∧
      ¬ t.Ever FillsOutput (before ++ [source])) :
    let s' := s.after (before.map .eval)
    let t' := t.after (before.map .eval)
    SameEval r.func d s' t' source ∧ (Bond.since exact quiet s'.world.out t'.world.out).holds
      (s'.eval source).2.world.out (t'.eval source).2.world.out := by
  intro s' t'
  simp only [ever_append, Ever, or_false, not_or] at fixed granted
  obtain ⟨image', outs'⟩ := image.after faithful outs before
    (fun holds => (fixed holds).imp id fun silent => silent.1)
    (granted.imp id fun room => ⟨room.1.1, room.2.1⟩)
  have last : exact ∨ quiet → (∀ i, r.func i = i) ∨ ¬ s'.WritesClosure source := by
    rintro (holds | holds)
    · exact (fixed holds).imp id fun silent => silent.2
    · exact .inr (quietly holds)
  obtain ⟨same, -, written⟩ := image'.eval faithful outs' source last
    (granted.imp id fun room => ⟨room.1.2, room.2.2⟩)
  exact ⟨same, written⟩

/-- If the numbers of functions show nowhere, or if they are the same, then so are the outputs. -/
theorem Image.eval_exact (faithful : r.Faithful) (image : Image r d s t)
    (out : t.world.out = s.world.out) (before : List String) (source : String)
    (fixed : (∀ i, r.func i = i) ∨ ¬ s.Ever WritesClosure (before ++ [source])) :
    let s' := s.after (before.map .eval)
    let t' := t.after (before.map .eval)
    SameEval r.func d s' t' source ∧
    (t'.eval source).2.world.out = (s'.eval source).2.world.out := by
  intro s' t'
  obtain ⟨same, -, equal, -⟩ :=
    image.eval_after faithful True False (fun _ => out) before source (fun _ => fixed)
    False.elim (.inl trivial)
  exact ⟨same, equal trivial⟩

/-- If no output is full, what was printed before does not matter. -/
theorem Image.eval_roomy (faithful : r.Faithful) (image : Image r d s t) (before : List String)
    (source : String) (room : ¬ s.Ever FillsOutput (before ++ [source]) ∧
      ¬ t.Ever FillsOutput (before ++ [source])) :
    let s' := s.after (before.map .eval)
    let t' := t.after (before.map .eval)
    SameEval r.func d s' t' source ∧ (¬ s'.WritesClosure source → ∃ text,
      (s'.eval source).2.world.out.text = s'.world.out.text ++ text ∧
      (t'.eval source).2.world.out.text = t'.world.out.text ++ text) := by
  intro s' t'
  obtain ⟨same, -, -, text, text', here, there, alike⟩ :=
    image.eval_after faithful False (¬ s'.WritesClosure source)
    False.elim before source False.elim id (.inr room)
  exact ⟨same, fun quiet => ⟨text, here, alike quiet ▸ there⟩⟩

theorem SameEval.identical {f : FuncId → FuncId} {source : String} (same : SameEval f d s t source)
    (fixed : ∀ i, f i = i) (out : (t.eval source).2.world.out = (s.eval source).2.world.out) :
    (t.eval source).1 = (s.eval source).1.mapError (Error.later d) ∧
      (t.eval source).2.world = (s.eval source).2.world := by
  have values : ∀ v : Value, v.relink f = v := fun v => Value.relink_eq f fun c _ => fixed c.1
  have scopes := same.scopes
  rw [Scopes.relink_eq f fun _ _ _ _ c _ => fixed c.1] at scopes
  constructor
  · rw [same.answer]
    cases (s.eval source).1 with
    | error e => rfl
    | ok v => simp only [Except.map, values]
  · have input := same.input
    generalize (t.eval source).2.world = w' at scopes out input
    generalize (s.eval source).2.world = w at scopes out input
    cases w
    cases w'
    cases scopes
    cases out
    cases input
    rfl

end Images

theorem eval_ast (s : Session) (source : String) :
    (s.eval source).2.ast = (parseSource source s.ast).2 := by
  cases parsed : s.parse source with
  | mk result t =>
    have read : t.ast = (parseSource source s.ast).2 := congrArg (·.2.ast) parsed.symm
    cases result with
    | error e => rw [eval_of_error parsed, read]
    | ok b =>
      rw [eval_of_parse parsed, run_eq]
      exact read

theorem spanned_after (maxDepth : Nat) (out : Sink) (input : List UInt8) (actions : List Action) :
    ((fresh maxDepth out input).after actions).ast.Spanned := by
  have kept : ∀ s : Session, s.ast.Spanned → (s.after actions).ast.Spanned := by
    induction actions with
    | nil => exact fun s spanned => spanned
    | cons next rest ih =>
      intro s spanned
      apply ih
      cases next with
      | parse source => exact spanned.read source
      | eval source =>
        rw [perform, eval_ast]
        exact spanned.read source
      | run id =>
        rw [perform]
        split
        · rw [run_eq]
          exact spanned
        · exact spanned
  exact kept _ Ast.spanned_empty

theorem parseSource_lex {source : String} {ast : Ast} {cause : LexError}
    (failed : (parseSource source ast).1 = .error (.lex cause)) :
    (parseSource source ast).2 = ast.reserve (byteLength source.toList) := by
  rcases parseSource_cases source ast with
    ⟨e, -, read⟩ | ⟨tokens, -, ⟨b, after, -, read⟩ | ⟨e, after, -, read⟩⟩
  · rw [read]
  all_goals
    rw [read] at failed
    cases failed

/-- No variable holds a closure of a function to come. -/
theorem Sound.relink_eq {s : Session} (sound : s.Sound) {f : FuncId → FuncId}
    (fixed : ∀ i < s.ast.funcs.size, f i = i) : s.world.scopes.relink f = s.world.scopes := by
  apply Scopes.relink_eq
  intro frame member b held c inside
  obtain ⟨i, found⟩ := Array.getElem?_of_mem member
  exact fixed _ ((sound.scopes.frames i frame found).held b held c inside).1

theorem Sound.image {s t : Session} (sound : s.Sound) (spanned : s.ast.Spanned) {bad : String}
    {e : Error} (unread : s.parse bad = (.error e, t)) :
    Image (.around s.ast t.ast) (t.ast.sourceEnd - s.ast.sourceEnd) s t := by
  have parsed : t = (s.parse bad).2 := congrArg Prod.snd unread.symm
  have keeps : s.ast.Keeps t.ast := parsed ▸ (parseSource_closed sound.closed bad).2.1
  have longer : s.ast.sourceEnd ≤ t.ast.sourceEnd := by
    rw [parsed, parse_eq, Ast.sourceEnd_read]
    omega
  have world : t.world = s.world := parsed ▸ rfl
  have fixed : ∀ i < s.ast.funcs.size, (Relocation.around s.ast t.ast).func i = i :=
    fun i old => Relocation.number_around_of_lt old
  constructor
  case left => exact sound
  case right => exact parsed ▸ (sound.parse bad).1
  case options => exact parsed ▸ rfl
  case begins => omega
  case ast => exact Ast.image_around sound.closed spanned keeps longer
  case scopes => rw [world, sound.relink_eq fixed]
  case input => rw [world]
  case writer => rw [world]

/-- A source that cannot be read changes no variable, no output, no input and no node. Up to new
numbers of functions, later sources have the same answers and leave the same variables and input as
without it, unless closures were printed and a limited output is full in one of the two sessions.
What they write is the same if no closure is printed. If the source was not even a sequence of
tokens, nothing at all is different. -/
theorem syntax_error_unobservable (maxDepth : Nat) (out : Sink) (input : List UInt8)
    (actions : List Action) (bad : String) (e : Error)
    (failed : (((fresh maxDepth out input).after actions).parse bad).1 = .error e) :
    let s := (fresh maxDepth out input).after actions
    let t := (s.eval bad).2
    (s.eval bad).1 = .error e ∧ t.options = s.options ∧ t.world = s.world ∧ s.ast.Keeps t.ast ∧
    ∃ (f : FuncId → FuncId) (d : Nat), Function.Injective f ∧ (∀ i < s.ast.funcs.size, f i = i) ∧
      ∀ (before : List String) (source : String),
        let s' := s.after (before.map .eval)
        let t' := t.after (before.map .eval)
        let unscanned := ∃ cause, e = .lex cause
        let silent := ¬ s.Ever WritesClosure (before ++ [source])
        let room :=
          ¬ s.Ever FillsOutput (before ++ [source]) ∧ ¬ t.Ever FillsOutput (before ++ [source])
        (unscanned ∨ silent ∨ room → SameEval f d s' t' source) ∧
        (silent → (t'.eval source).2.world.out = (s'.eval source).2.world.out) ∧
        (room → ¬ s'.WritesClosure source → ∃ text,
          (s'.eval source).2.world.out.text = s'.world.out.text ++ text ∧
          (t'.eval source).2.world.out.text = t'.world.out.text ++ text) ∧
        (unscanned → (t'.eval source).1 = (s'.eval source).1.mapError (Error.later d) ∧
          (t'.eval source).2.world = (s'.eval source).2.world) := by
  intro s t
  have sound : s.Sound := (sound_fresh maxDepth out input).after actions
  have unread : s.parse bad = (.error e, (s.parse bad).2) := Prod.ext failed rfl
  have evaluated := eval_of_error unread
  have t_eq : t = (s.parse bad).2 := congrArg Prod.snd evaluated
  have image := sound.image (spanned_after maxDepth out input actions) unread
  have keeps := (parseSource_closed sound.closed bad).2.1
  rw [← t_eq] at image
  have faithful := Relocation.faithful_around s.ast t.ast
  have world : t.world = s.world := t_eq ▸ rfl
  have numbered : (∃ cause, e = .lex cause) → ∀ i, (Relocation.around s.ast t.ast).func i = i := by
    rintro ⟨cause, rfl⟩ i
    have read : t.ast = s.ast.reserve (byteLength bad.toList) := t_eq ▸ parseSource_lex failed
    have count : t.ast.count .func = s.ast.count .func := read ▸ rfl
    simp only [Relocation.func, Relocation.around, count, Nat.sub_self, Nat.add_zero, ite_self]
  refine ⟨congrArg Prod.fst evaluated, t_eq ▸ rfl, world, t_eq ▸ keeps,
    (Relocation.around s.ast t.ast).func, t.ast.sourceEnd - s.ast.sourceEnd, faithful.injective,
    fun i old => Relocation.number_around_of_lt old, ?_⟩
  intro before source s' t' unscanned silent room
  have exactly := image.eval_exact faithful (congrArg World.out world) before source
  have roomy := image.eval_roomy faithful before source
  refine ⟨?_, fun quiet => (exactly (.inr quiet)).2, fun granted => (roomy granted).2,
    fun lexical => ?_⟩
  · rintro (lexical | quiet | granted)
    · exact (exactly (.inl (numbered lexical))).1
    · exact (exactly (.inr quiet)).1
    · exact (roomy granted).1
  · have fixed := numbered lexical
    obtain ⟨same, out⟩ := exactly (.inl fixed)
    exact same.identical fixed out

/-- Functions before the error, and closures that are made and printed later. -/
theorem syntax_error_unobservable_functions :
    let s := (fresh 8 {} []).after [.eval "var f = fn(x) => x"]
    let t := (s.eval "[fn() => 0, fn() => 1").2
    ∃ e, (s.parse "[fn() => 0, fn() => 1").1 = .error e ∧ ∃ g d, Function.Injective g ∧
      SameEval g d (s.after [.eval "var h = fn() => f"]) (t.after [.eval "var h = fn() => f"])
        "println(h); h" := by
  intro s t
  have unread : (s.parse "[fn() => 0, fn() => 1").1.isOk = false := by decide +kernel
  have here : (s.eval "var h = fn() => f").1.isOk = true ∧
      ((s.eval "var h = fn() => f").2.eval "println(h); h").1.isOk = true := by decide +kernel
  have there : (t.eval "var h = fn() => f").1.isOk = true ∧
      ((t.eval "var h = fn() => f").2.eval "println(h); h").1.isOk = true := by decide +kernel
  have roomy : ∀ u : Session, (u.eval "var h = fn() => f").1.isOk = true ∧
      ((u.eval "var h = fn() => f").2.eval "println(h); h").1.isOk = true →
      ¬ u.Ever FillsOutput (["var h = fn() => f"] ++ ["println(h); h"]) := by
    rintro u ⟨first, second⟩ (⟨e, failed, -⟩ | ⟨e, failed, -⟩ | wrong)
    · rw [failed] at first
      cases first
    · rw [failed] at second
      cases second
    · exact wrong
  cases failed : (s.parse "[fn() => 0, fn() => 1").1 with
  | ok b =>
    rw [failed] at unread
    cases unread
  | error e =>
    obtain ⟨-, -, -, -, g, d, injective, -, later⟩ := syntax_error_unobservable 8 {} [] _ _ e failed
    exact ⟨e, rfl, g, d, injective,
      (later ["var h = fn() => f"] "println(h); h").1 (.inr (.inr ⟨roomy s here, roomy t there⟩))⟩

/-- A number with one digit more does not fit into the output. -/
theorem syntax_error_fills_output :
    let s := fresh 128 { limit := some 14 } []
    let bad :=
      "[fn() => 0, fn() => 1, fn() => 2, fn() => 3, fn() => 4, fn() => 5, fn() => 6, fn() => 7, " ++
      "fn() => 8, fn() => 9"
    (s.parse bad).1.isOk = false ∧ (s.eval "println(fn() => 0)").1.isOk = true ∧
      ((s.eval bad).2.eval "println(fn() => 0)").1.isOk = false := by
  decide +kernel

end Session

end ScriptKit
