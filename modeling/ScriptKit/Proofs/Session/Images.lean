import ScriptKit.Proofs.Session.Forest
import ScriptKit.Proofs.Session.Sources
import ScriptKit.Proofs.Session.Stepwise
import ScriptKit.Proofs.Tree.Images

/-! Catalogues that differ only by nodes and bytes which nothing speaks of.

A source gives the same nodes in both, and one relocation takes the first catalogue into the second,
however many sources are read. -/

namespace ScriptKit

theorem Token.move_upTo {t : Token} {stop : Nat} (start : t.span.start ≤ stop)
    (ends : t.span.stop ≤ stop) :
    t.move (.upTo stop) id = t := by
  have span : t.span.move (.upTo stop) = t.span := by
    simp only [Span.move, Relocation.upTo, Nat.min_eq_right start, Nat.min_eq_right ends]
  simp only [Token.move, span, id]

theorem reading_within (source : String) {family : Family} {i : Nat} {p : Part}
    (found : (reading source).2.node? family i = some p) :
    p.move (.upTo (byteLength source.toList)) = p := by
  let stop := byteLength source.toList
  unfold reading at found
  cases scanned : scan source 0 with
  | error e =>
    rw [scanned] at found
    cases family <;> simp [Ast.node?] at found
  | ok tokens =>
    rw [scanned] at found
    dsimp only at found
    -- Drawing the tokens back changes none of them, and so nothing that is read from them.
    have each : ∀ t ∈ tokens, t.move (.upTo stop) id = t := by
      intro t member
      obtain ⟨start, ends, -⟩ := Scanner.tokens_within scanned t member
      simp only [Scanner.stop, Scanner.ofText, Head.start, Nat.zero_add] at start ends
      exact Token.move_upTo start ends
    have fixed : tokens.map (Token.move (.upTo stop) id) = tokens := by
      rw [List.map_congr_left each, List.map_id']
    obtain ⟨us, last, ended, -⟩ := scan_ended scanned
    have moved := parseProgram_moved ended {} (.upTo stop)
      (fun family i => by cases family <;> exact (Nat.zero_add i).symm) id {}
    rw [fixed, Ast.extend_empty] at moved
    have same : (parseProgram tokens {}).2 =
        ({} : Ast).extend (.upTo stop) (parseProgram tokens {}).2 :=
      congrArg Prod.snd moved
    generalize (parseProgram tokens {}).2 = ast at same found
    have none_before : ({} : Ast).count family = 0 := by cases family <;> rfl
    have image : ast.node? family i = (ast.node? family i).map (Part.move (.upTo stop)) := by
      conv_lhs => rw [same, Ast.node?_extend, none_before, if_neg (Nat.not_lt_zero i), Nat.sub_zero]
    rw [found] at image
    exact (Option.some.inj image).symm

theorem Ast.spanned_empty : ({} : Ast).Spanned := by
  intro family i p found
  cases family <;> simp [Ast.node?] at found

theorem Ast.sourceEnd_read (ast read : Ast) (r : Relocation) (n : Nat) :
    ((ast.reserve n).extend r read).sourceEnd = ast.sourceEnd + n + 1 + read.sourceEnd := rfl

theorem Ast.Spanned.read {ast : Ast} (spanned : ast.Spanned) (source : String) :
    (parseSource source ast).2.Spanned := by
  rw [parseSource_eq]
  intro family i p found
  dsimp only at found ⊢
  rw [Ast.sourceEnd_read]
  rw [Ast.node?_extend] at found
  split at found
  · rw [Session.node?_reserve] at found
    obtain ⟨stop, inside, clamped⟩ := spanned family i p found
    exact ⟨stop, by omega, clamped⟩
  · obtain ⟨p, read, rfl⟩ := Option.map_eq_some_iff.mp found
    let n := byteLength source.toList
    let r := Relocation.behind ast ast.sourceEnd
    have swap : r.andThen (.upTo (ast.sourceEnd + n)) = (Relocation.upTo n).andThen r := by
      apply Relocation.ext
      · rfl
      · funext x
        exact Nat.add_min_add_left ast.sourceEnd n x
    refine ⟨ast.sourceEnd + n, by omega, ?_⟩
    rw [← Part.move_andThen, swap, Part.move_andThen, reading_within source read]

/-- The second catalogue has all of the first, moved, and goes on where the first does. -/
structure Ast.Image (r : Relocation) (ast ast' : Ast) : Prop where
  moves : ast.Moves r ast'
  numbers : ∀ family i, r.number family (ast.count family + i) = ast'.count family + i
  offsets : ∀ x, r.offset (ast.sourceEnd + x) = ast'.sourceEnd + x

theorem Ast.Image.behind {r : Relocation} {ast ast' : Ast} (image : ast.Image r ast') :
    (Relocation.behind ast ast.sourceEnd).andThen r = .behind ast' ast'.sourceEnd := by
  apply Relocation.ext
  · funext family i
    exact image.numbers family i
  · funext x
    exact image.offsets x

/-- Reading a source gives the same outcome in both catalogues, moved. -/
theorem Ast.Image.read {r : Relocation} {ast ast' : Ast} (image : ast.Image r ast')
    (source : String) :
    (parseSource source ast').1 =
        ((parseSource source ast).1.map (Block.move r)).mapError (Error.move r) ∧
      (parseSource source ast).2.Image r (parseSource source ast').2 := by
  rw [parseSource_eq, parseSource_eq, ← image.behind]
  constructor
  · generalize (reading source).1 = outcome
    cases outcome with
    | error e => simp only [Except.map, Except.mapError, Error.move_andThen]
    | ok b => simp only [Except.map, Except.mapError, Block.move_andThen]
  · constructor
    case moves =>
      intro family i p found
      dsimp only at found ⊢
      rw [Ast.node?_extend, Ast.count_reserve, Session.node?_reserve] at found ⊢
      split at found
      · have old := image.moves family i p found
        have inside := (Ast.isSome_node? family _).mp (by rw [old]; rfl)
        rw [if_pos inside, old]
      · rename_i new
        obtain ⟨p, read, rfl⟩ := Option.map_eq_some_iff.mp found
        have number := image.numbers family (i - ast.count family)
        rw [Nat.add_sub_of_le (Nat.le_of_not_lt new)] at number
        rw [number, if_neg (by omega), Nat.add_sub_cancel_left, read, Option.map_some,
          Part.move_andThen]
    case numbers =>
      intro family i
      simp only [Ast.count_extend, Ast.count_reserve]
      rw [Nat.add_assoc, image.numbers, Nat.add_assoc]
    case offsets =>
      intro x
      simp only [Ast.sourceEnd_read]
      rw [Nat.add_assoc, Nat.add_assoc, Nat.add_assoc, image.offsets]
      omega

namespace Relocation

/-- Nothing comes to be the same, and offsets keep their order. -/
structure Faithful (r : Relocation) : Prop where
  injective : Function.Injective r.func
  strict : ∀ {x y}, x < y → r.offset x < r.offset y

/-- Makes room behind a catalogue for what another one has in addition. -/
def around (ast ast' : Ast) : Relocation where
  number :=
    fun family i => if i < ast.count family then i else i + (ast'.count family - ast.count family)
  offset := fun x => if x < ast.sourceEnd then x else x + (ast'.sourceEnd - ast.sourceEnd)
  mono := fun le => by split <;> split <;> omega

variable {ast ast' : Ast}

theorem number_around_of_lt {family : Family} {i : Nat} (old : i < ast.count family) :
    (around ast ast').number family i = i :=
  if_pos old

theorem faithful_around (ast ast' : Ast) : (around ast ast').Faithful := by
  constructor
  · intro i j same
    have numbers : (around ast ast').number .func i = (around ast ast').number .func j := same
    simp only [around] at numbers
    show @Eq Nat i j
    split at numbers <;> split at numbers <;> omega
  · intro x y less
    simp only [around]
    split <;> split <;> omega

end Relocation

theorem Ast.image_around {ast ast' : Ast} (closed : ast.Closed) (spanned : ast.Spanned)
    (keeps : ast.Keeps ast') (longer : ast.sourceEnd ≤ ast'.sourceEnd) :
    ast.Image (.around ast ast') ast' := by
  constructor
  case moves =>
    intro family i p found
    have inside := (Ast.isSome_node? family i).mp (by rw [found]; rfl)
    have fixed : p.move (.around ast ast') = p :=
      spanned.move_eq closed (fun _ _ old => Relocation.number_around_of_lt old)
        (fun x old => if_pos old) found
    rw [Relocation.number_around_of_lt inside, fixed, keeps family i p found]
  case numbers =>
    intro family i
    have more := keeps.count_le family
    simp only [Relocation.around]
    rw [if_neg (by omega)]
    omega
  case offsets =>
    intro x
    simp only [Relocation.around]
    rw [if_neg (by omega)]
    omega

section Spans

variable {r : Relocation} {base base' : Nat}

theorem Span.within?_move (faithful : r.Faithful) (shifts : ∀ x, r.offset (base + x) = base' + x)
    (s : Span) (len : Nat) : (s.move r).within? base' len = s.within? base len := by
  -- An offset before the base stays before it, and any other keeps its distance.
  have placed : ∀ x, base ≤ x ∧ r.offset x = base' + (x - base) ∨
      x < base ∧ r.offset x < base' := by
    intro x
    rcases Nat.lt_or_ge x base with before | behind
    · have less := faithful.strict before
      have first := shifts 0
      rw [Nat.add_zero, Nat.add_zero] at first
      exact .inr ⟨before, by omega⟩
    · have here := shifts (x - base)
      rw [Nat.add_sub_of_le behind] at here
      exact .inl ⟨behind, here⟩
  have start := placed s.start
  have stop := placed s.stop
  have inside : base' ≤ r.offset s.start ∧ r.offset s.stop ≤ base' + len ↔
      base ≤ s.start ∧ s.stop ≤ base + len := by
    omega
  have first : base ≤ s.start → r.offset s.start - base' = s.start - base := by omega
  have last : r.offset s.stop - base' = s.stop - base := by omega
  simp only [Span.within?, Span.move, inside, last]
  split
  · rename_i within
    rw [first within.1]
  · rfl

theorem RuntimeError.relativeTo_move (faithful : r.Faithful)
    (shifts : ∀ x, r.offset (base + x) = base' + x) (e : RuntimeError) (len : Nat) :
    (e.move r).relativeTo base' len = e.relativeTo base len := by
  cases e with
  | mk kind span =>
    cases span with
    | none => rfl
    | some span =>
      simp only [RuntimeError.move, RuntimeError.relativeTo, Option.map_some, Option.bind_some,
        Span.within?_move faithful shifts]

end Spans

def Span.later (d : Nat) (s : Span) : Span :=
  ⟨s.start + d, s.stop + d⟩

/-- The same error of a source that begins `d` bytes later. The span of a runtime error is counted
from the beginning of its source already. -/
def Error.later (d : Nat) : Error → Error
  | .lex e => .lex { e with span := e.span.later d }
  | .parse e => .parse { e with span := e.span.later d }
  | .runtime e => .runtime e

theorem reading_error {source : String} {e : Error} (failed : (reading source).1 = .error e) :
    (∃ cause, e = .lex cause) ∨ ∃ cause, e = .parse cause := by
  unfold reading at failed
  generalize scan source 0 = scanned at failed
  cases scanned with
  | error cause =>
    cases failed
    exact .inl ⟨cause, rfl⟩
  | ok tokens =>
    dsimp only at failed
    generalize (parseProgram tokens {}).1 = parsed at failed
    cases parsed with
    | error cause =>
      cases failed
      exact .inr ⟨cause, rfl⟩
    | ok b => cases failed

theorem Error.move_behind {source : String} {e : Error} (failed : (reading source).1 = .error e)
    {ast ast' : Ast} {d : Nat} (start : ast'.sourceEnd = ast.sourceEnd + d) :
    e.move (.behind ast' ast'.sourceEnd) = (e.move (.behind ast ast.sourceEnd)).later d := by
  have spans : ∀ s : Span, s.move (.behind ast' ast'.sourceEnd) =
      (s.move (.behind ast ast.sourceEnd)).later d := by
    intro s
    simp only [Span.move, Span.later, Relocation.behind, start, Span.mk.injEq]
    omega
  rcases reading_error failed with ⟨cause, rfl⟩ | ⟨cause, rfl⟩
  · simp only [Error.move, Error.later, LexError.move, spans]
  · simp only [Error.move, Error.later, ParseError.move, spans]

section Anywhere

variable (source : String) (ast : Ast)

/-- Every catalogue goes on behind its nodes as the empty one does from the start. -/
theorem Ast.image_empty : ({} : Ast).Image (.behind ast ast.sourceEnd) ast where
  moves := by
    intro family i p found
    cases family <;> simp [Ast.node?] at found
  numbers := by
    intro family i
    cases family <;> simp [Relocation.behind, Ast.count]
  offsets := fun x => by simp [Relocation.behind]

theorem sourceEnd_reading : (reading source).2.sourceEnd = 0 := by
  have reserved := (parseSource_laid Ast.closed_empty Ast.apart_empty source).reserved
  rw [parseSource_eq, Ast.sourceEnd_read, byteLength_toList] at reserved
  simp only [Layout.ofSource, Ast.reserve] at reserved
  omega

theorem parseSource_nodes : (parseSource source ast).2 =
    ast.extend (.behind ast ast.sourceEnd) (parseSource source {}).2 := by
  have alone : (parseSource source {}).2 =
      (({} : Ast).reserve (byteLength source.toList)).extend .same (reading source).2 := by
    rw [parseSource_eq, Relocation.behind_empty]
  have exprs : Expr.move .same = id := funext Expr.move_same
  have stmts : Stmt.move .same = id := funext Stmt.move_same
  have blocks : Block.move .same = id := funext Block.move_same
  have funcs : Func.move .same = id := funext Func.move_same
  rw [alone, parseSource_eq]
  simp [Ast.extend, Ast.reserve, exprs, stmts, blocks, funcs, sourceEnd_reading, Nat.add_assoc]

/-- A source is read alike whatever the catalogue holds. It can be read if it can be read on its
own, and then gives the same tree, with every number behind those of its family and every span
behind the earlier sources. So do the nodes that it adds, also when it is wrong further on. An error
has the same span, moved, and is the same otherwise. The offsets that it takes up are its bytes and
one more. -/
theorem parseSource_shifted (source : String) (ast : Ast) :
    let shift := Relocation.behind ast ast.sourceEnd
    let alone := parseSource source {}
    let here := parseSource source ast
    here.1.isOk = alone.1.isOk ∧
    here.1 = (alone.1.map (Block.move shift)).mapError (Error.move shift) ∧
    here.2 = ast.extend shift alone.2 ∧
    here.2.sourceEnd = ast.sourceEnd + source.utf8ByteSize + 1 := by
  intro shift alone here
  have outcome : here.1 = (alone.1.map (Block.move shift)).mapError (Error.move shift) :=
    ((Ast.image_empty ast).read source).1
  refine ⟨?_, outcome, parseSource_nodes source ast, ?_⟩
  · rw [outcome]
    cases alone.1 <;> rfl
  · have ends : here.2.sourceEnd = ast.sourceEnd + byteLength source.toList + 1 +
        (reading source).2.sourceEnd :=
      congrArg (·.2.sourceEnd) (parseSource_eq source ast)
    rw [ends, sourceEnd_reading, byteLength_toList, Nat.add_zero]

end Anywhere

end ScriptKit
