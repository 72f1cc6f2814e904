import Mathlib.Data.List.Nodup
import ScriptKit.Proofs.Tree.Nesting
import ScriptKit.Proofs.Tree.Parsing

/-! Where the nodes of a source lie.

Tokens stand in order, and a parser only moves forward. What it has finished ends before the next
token begins, and the nodes it holds are loose, so a node made of them covers them all and takes
them away from every other. -/

namespace ScriptKit

/-- A source that is being read: the catalogue before it, the offsets at which something of it can
begin or end, those of them at which it can begin, and the places of offsets. -/
structure Layout where
  old : Ast
  good : Nat → Prop
  opens : Nat → Prop
  place : Nat → Place

namespace Layout

variable (S : Layout)

structure Fine (s : Span) : Prop where
  ordered : s.start ≤ s.stop
  starts : S.good s.start
  stops : S.good s.stop
  opens : S.opens s.start

structure Fits (p : Part) : Prop where
  fine : S.Fine p.span
  inside : ∀ q ∈ p.parts, q.span.Inside p.span

structure Laid (ast : Ast) : Prop where
  closed : ast.Closed
  keeps : S.old.Keeps ast
  apart : ast.Apart
  fits : ∀ p, ast.Has p → S.old.count p.family ≤ p.number → S.Fits p
  reserved : ast.sourceEnd = S.old.sourceEnd

structure Stands (t : Token) : Prop where
  fine : S.Fine t.span
  place : t.first = S.place t.span.start

structure Blamed (e : ParseError) : Prop where
  fine : S.Fine e.span
  place : e.place = S.place e.span.start

/-- Tokens in order, up to `endOfInput`, which is empty. -/
inductive Lined : List Token → Prop where
  | last {t : Token} : t.kind = .endOfInput → S.Stands t → t.span.stop ≤ t.span.start → Lined [t]
  | more {t u : Token} {ts : List Token} : t.kind ≠ .endOfInput → S.Stands t →
      t.span.stop ≤ u.span.start →
      Lined (u :: ts) → Lined (t :: u :: ts)

/-- The parser holds loose nodes that end before the next token, which begins at `floor` or
later. -/
structure Ready (floor : Nat) (held : List Part) (s : ParseState) : Prop where
  lined : S.Lined s.tokens
  laid : S.Laid s.ast
  loose : s.ast.Loose held
  floor : floor ≤ (Parser.current s.tokens).span.start
  past : ∀ q ∈ held, S.Fine q.span ∧ q.span.stop ≤ (Parser.current s.tokens).span.start

structure Next (floor : Nat) (held : List Part) (t : Token) : Prop extends S.Stands t where
  floor : floor ≤ t.span.start
  past : ∀ q ∈ held, q.span.stop ≤ t.span.start

def Faces (t : Token) (floor : Nat) (held : List Part) (s : ParseState) : Prop :=
  S.Ready floor held s ∧ Parser.current s.tokens = t

def Gives (floor : Nat) (held : List Part) (low : Nat) (ps : List Part) (s : ParseState) : Prop :=
  S.Ready floor (ps ++ held) s ∧ ∀ q ∈ ps, low ≤ q.span.start

/-- From a state of the one sort a parser comes to a state of the other, or fails with all nodes
laid out and at a token. -/
def Holds {α : Type} (before : ParseState → Prop) (m : ParseM α) (after : α → ParseState → Prop) :
    Prop :=
  ∀ s, before s → match m s with
    | .ok a s' => after a s'
    | .error e s' => S.Laid s'.ast ∧ S.Blamed e

variable {S}

section Nodes

variable {s t : Span} {ast : Ast} {p : Part} {held : List Part}

theorem Fine.join (fine : S.Fine s) (fine' : S.Fine t) : S.Fine (s.join t) := by
  have ordered := fine.ordered
  constructor
  · simp only [Span.join]
    omega
  · rcases Nat.le_total s.start t.start with less | less
    · simpa [Span.join, less] using fine.starts
    · simpa [Span.join, less] using fine'.starts
  · rcases Nat.le_total s.stop t.stop with less | less
    · simpa [Span.join, less] using fine'.stops
    · simpa [Span.join, less] using fine.stops
  · rcases Nat.le_total s.start t.start with less | less
    · simpa [Span.join, less] using fine.opens
    · simpa [Span.join, less] using fine'.opens

theorem Laid.enter (laid : S.Laid ast) (loose : ast.Loose (p.parts ++ held))
    (next : p.number = ast.count p.family) (fits : S.Fits p) : S.Laid (ast.enter p) where
  closed :=
    Ast.closed_enter laid.closed next fun q member => loose.has q (List.mem_append_left _ member)
  keeps := laid.keeps.trans (Ast.keeps_enter ast p)
  apart := laid.apart.enter loose next
  fits := by
    intro q has new
    rcases (Ast.has_enter_iff next).mp has with rfl | old
    · exact fits
    · exact laid.fits q old new
  reserved := by
    rw [← laid.reserved]
    cases p <;> rfl

end Nodes

section Rules

variable {α β : Type} {before before' : ParseState → Prop} {after : α → ParseState → Prop}
  {later : β → ParseState → Prop} {m : ParseM α} {k : α → ParseM β}

theorem Holds.bind (first : S.Holds before m after) (rest : ∀ a, S.Holds (after a) (k a) later) :
    S.Holds before (m >>= k) later := by
  intro s ready
  have done := first s ready
  simp only [Bind.bind, EStateM.bind]
  cases ended : m s with
  | error e s' =>
    rw [ended] at done
    exact done
  | ok a s' =>
    rw [ended] at done
    exact rest a s' done

theorem Holds.imp {after' : α → ParseState → Prop} (holds : S.Holds before m after)
    (weaker : ∀ a s, after a s → after' a s) : S.Holds before m after' := by
  intro s ready
  have done := holds s ready
  cases ended : m s with
  | error e s' =>
    rw [ended] at done
    exact done
  | ok a s' =>
    rw [ended] at done
    exact weaker a s' done

theorem Holds.of_imp (holds : S.Holds before m after) (stronger : ∀ s, before' s → before s) :
    S.Holds before' m after :=
  fun s ready => holds s (stronger s ready)

theorem holds_pure {a : α} (done : ∀ s, before s → after a s) : S.Holds before (pure a) after :=
  done

theorem holds_throw {e : ParseError} (laid : ∀ s, before s → S.Laid s.ast) (blamed : S.Blamed e) :
    S.Holds before (throw e) after :=
  fun s ready => ⟨laid s ready, blamed⟩

/-- What is known of a state without regard to the state can be used from there on. -/
theorem holds_given {φ : Prop} (holds : φ → S.Holds before m after) :
    S.Holds (fun s => before s ∧ φ) m after :=
  fun s ready => holds ready.2 s ready.1

theorem Holds.bind_given {φ : α → Prop} (first : S.Holds before m fun a s => after a s ∧ φ a)
    (rest : ∀ a, φ a → S.Holds (after a) (k a) later) : S.Holds before (m >>= k) later :=
  first.bind fun a => holds_given (rest a)

end Rules

section Tokens

open ScriptKit.Parser

variable {α : Type} {s : ParseState} {t : Token} {floor low : Nat} {held held' ps : List Part}
  {after : α → ParseState → Prop}

theorem Ready.lower (ready : S.Ready floor held s) (less : low ≤ floor) : S.Ready low held s :=
  ⟨ready.lined, ready.laid, ready.loose, Nat.le_trans less ready.floor, ready.past⟩

theorem Ready.perm (ready : S.Ready floor held s) (same : held.Perm held') :
    S.Ready floor held' s :=
  ⟨ready.lined, ready.laid, ready.loose.perm same, ready.floor,
    fun q member => ready.past q (same.mem_iff.mpr member)⟩

theorem Gives.lower {low' : Nat} (gives : S.Gives floor held low ps s) (less : low' ≤ floor) :
    S.Gives low' held low ps s :=
  ⟨gives.1.lower less, gives.2⟩

theorem Lined.stands {ts : List Token} (lined : S.Lined ts) : S.Stands (current ts) := by
  cases lined with
  | last _ stands => exact stands
  | more _ stands => exact stands

theorem Ready.next (ready : S.Ready floor held s) : S.Next floor held (current s.tokens) :=
  ⟨ready.lined.stands, ready.floor, fun q member => (ready.past q member).2⟩

theorem Stands.blamed {t : Token} (stands : S.Stands t) (kind : ParseErrorKind) :
    S.Blamed (.atToken kind t) :=
  ⟨stands.fine, stands.place⟩

/-- What a parser needs to have for an error at the next token. -/
theorem Ready.halts (ready : S.Ready floor held s) : S.Laid s.ast ∧ S.Stands (current s.tokens) :=
  ⟨ready.laid, ready.lined.stands⟩

theorem Lined.advance (lined : S.Lined s.tokens) :
    ∃ s', advance s = .ok (current s.tokens) s' ∧ s'.ast = s.ast ∧ S.Lined s'.tokens ∧
      (current s.tokens).span.stop ≤ (current s'.tokens).span.start := by
  obtain ⟨tokens, ast⟩ := s
  cases lined with
  | @last t ends stands empty =>
    have same : advance ⟨[t], ast⟩ = .ok t ⟨[t], ast⟩ :=
      congrArg (fun taken : Token × ParseState => EStateM.Result.ok taken.1 taken.2) (if_pos ends)
    exact ⟨_, same, rfl, .last ends stands empty, empty⟩
  | @more t u ts inside fine ordered rest =>
    have taken : advance ⟨t :: u :: ts, ast⟩ = .ok t ⟨u :: ts, ast⟩ :=
      congrArg (fun taken : Token × ParseState => EStateM.Result.ok taken.1 taken.2) (if_neg inside)
    exact ⟨_, taken, rfl, rest, ordered⟩

theorem Ready.advance (ready : S.Ready floor held s) :
    ∃ s', advance s = .ok (current s.tokens) s' ∧ S.Ready (current s.tokens).span.stop held s' := by
  obtain ⟨s', taken, same, lined, behind⟩ := ready.lined.advance
  have ordered := ready.lined.stands.fine.ordered
  refine ⟨s', taken, lined, same ▸ ready.laid, same ▸ ready.loose, behind, fun q member => ?_⟩
  obtain ⟨fine, ends⟩ := ready.past q member
  exact ⟨fine, by omega⟩

/-- A look at the next token changes nothing. -/
theorem holds_peek {k : Token → ParseM α}
    (rest : ∀ t, S.Next floor held t → S.Holds (S.Faces t floor held) (k t) after) :
    S.Holds (S.Ready floor held) (peek >>= k) after :=
  fun s ready => rest _ ready.next s ⟨ready, rfl⟩

theorem holds_peekSecond {before : ParseState → Prop} {k : TokenKind → ParseM α}
    (rest : ∀ kind, S.Holds before (k kind) after) : S.Holds before (peekSecond >>= k) after :=
  fun s ready => rest _ s ready

/-- The token that was looked at is taken, and all behind it begins where it ends or later. -/
theorem holds_take {k : Token → ParseM α} (rest : S.Holds (S.Ready t.span.stop held) (k t) after) :
    S.Holds (S.Faces t floor held) (advance >>= k) after := by
  rintro s ⟨ready, rfl⟩
  obtain ⟨s', taken, ready'⟩ := ready.advance
  simp only [Bind.bind, EStateM.bind, taken]
  exact rest s' ready'

theorem holds_advance {k : Token → ParseM α}
    (rest : ∀ t, S.Next floor held t → S.Holds (S.Ready t.span.stop held) (k t) after) :
    S.Holds (S.Ready floor held) (advance >>= k) after :=
  fun s ready => holds_take (rest _ ready.next) s ⟨ready, rfl⟩

theorem holds_unexpected {before : ParseState → Prop} {expected : String}
    (halts : ∀ s, before s → S.Laid s.ast ∧ S.Stands (current s.tokens)) :
    S.Holds before (unexpected expected) after :=
  fun s ready => ⟨(halts s ready).1, (halts s ready).2.blamed _⟩

theorem holds_unfinished {before : ParseState → Prop}
    (halts : ∀ s, before s → S.Laid s.ast ∧ S.Stands (current s.tokens)) :
    S.Holds before unfinished after :=
  fun s ready => ⟨(halts s ready).1, (halts s ready).2.blamed _⟩

theorem expect_holds (kind : TokenKind) (expected : String) :
    S.Holds (S.Ready floor held) (expect kind expected)
      fun t s => S.Ready t.span.stop held s ∧ S.Next floor held t := by
  apply holds_peek
  intro t next
  split
  · rintro s ⟨ready, rfl⟩
    obtain ⟨s', taken, ready'⟩ := ready.advance
    rw [taken]
    exact ⟨ready', next⟩
  · exact holds_unexpected fun s faces => faces.1.halts

theorem holds_expect {kind : TokenKind} {expected : String} {k : Token → ParseM α}
    (rest : ∀ t, S.Next floor held t → S.Holds (S.Ready t.span.stop held) (k t) after) :
    S.Holds (S.Ready floor held) (expect kind expected >>= k) after :=
  (expect_holds kind expected).bind_given rest

/-- Whether the token that was looked at is taken. -/
theorem holds_eat_facing {kind : TokenKind} {k : Bool → ParseM α}
    (taken : S.Holds (S.Ready t.span.stop held) (k true) after)
    (left : S.Holds (S.Faces t floor held) (k false) after) :
    S.Holds (S.Faces t floor held) (eat kind >>= k) after := by
  rintro s ⟨ready, rfl⟩
  obtain ⟨s', found, ready'⟩ := ready.advance
  by_cases here : (current s.tokens).kind = kind
  · have ate : eat kind s = .ok true s' := by
      change (if (current s.tokens).kind = kind
        then advance >>= fun _ => pure true else pure false : ParseM Bool) s = _
      rw [if_pos here]
      simp only [Bind.bind, EStateM.bind, found]
      rfl
    simp only [Bind.bind, EStateM.bind, ate]
    exact taken s' ready'
  · have none : eat kind s = .ok false s := by
      change (if (current s.tokens).kind = kind
        then advance >>= fun _ => pure true else pure false : ParseM Bool) s = _
      rw [if_neg here]
      rfl
    simp only [Bind.bind, EStateM.bind, none]
    exact left s ⟨ready, rfl⟩

theorem holds_eat_or {kind : TokenKind} {k : Bool → ParseM α}
    (taken : ∀ t, S.Next floor held t → S.Holds (S.Ready t.span.stop held) (k true) after)
    (left : S.Holds (S.Ready floor held) (k false) after) :
    S.Holds (S.Ready floor held) (eat kind >>= k) after := by
  intro s ready
  exact holds_eat_facing (taken _ ready.next) (left.of_imp fun s faces => faces.1) s ⟨ready, rfl⟩

theorem Next.le (next : S.Next floor held t) : floor ≤ t.span.stop :=
  Nat.le_trans next.floor next.fine.ordered

theorem holds_eat {kind : TokenKind} {k : Bool → ParseM α}
    (rest : ∀ b, S.Holds (S.Ready floor held) (k b) after) :
    S.Holds (S.Ready floor held) (eat kind >>= k) after :=
  holds_eat_or (fun _ next => (rest true).of_imp fun _ ready => ready.lower next.le) (rest false)

theorem params_holds (n : Nat) :
    S.Holds (S.Ready floor held) (params n) fun _ => S.Ready floor held := by
  induction n generalizing floor with
  | zero => exact holds_unfinished fun s ready => ready.halts
  | succ n ih =>
    apply holds_expect
    intro t next
    apply holds_eat
    intro closed
    split
    · exact holds_pure fun s ready => ready.lower next.le
    · apply holds_expect
      intro comma next'
      exact ih.bind fun names => holds_pure fun s ready =>
        ready.lower (Nat.le_trans next.le next'.le)

theorem paramList_holds (n : Nat) :
    S.Holds (S.Ready floor held) (paramList n) fun _ => S.Ready floor held := by
  apply holds_expect
  intro t next
  apply holds_eat
  intro closed
  split
  · exact holds_pure fun s ready => ready.lower next.le
  · exact (params_holds n).imp fun _ s ready => ready.lower next.le

end Tokens

section Entering

open ScriptKit.Parser

variable {α : Type} {floor low : Nat} {held ps : List Part} {span : Span}

/-- The span of a node covers the loose nodes that it is made of, and nothing behind them. -/
structure Covers (S : Layout) (floor low : Nat) (ps : List Part) (span : Span) : Prop where
  fine : S.Fine span
  low : low ≤ span.start
  stop : ∀ x, floor ≤ x → (∀ q ∈ ps, q.span.stop ≤ x) → span.stop ≤ x
  inside : ∀ q ∈ ps, q.span.Inside span

theorem holds_enter {m : ParseM α} {part : α → Part}
    (entered : ∀ s, ∃ a, m s = .ok a { s with ast := s.ast.enter (part a) } ∧
      (part a).number = s.ast.count (part a).family ∧ (part a).span = span ∧ (part a).parts = ps)
    (covers : (∀ q ∈ ps, S.Fine q.span) → S.Covers floor low ps span) :
    S.Holds (S.Ready floor (ps ++ held)) m fun a s => S.Gives floor held low [part a] s ∧
    (part a).span = span := by
  intro s ready
  obtain ⟨a, done, next, spans, parts⟩ := entered s
  have covers := covers fun q member => (ready.past q (List.mem_append_left _ member)).1
  have loose := parts.symm ▸ ready.loose
  have fits : S.Fits (part a) := ⟨spans ▸ covers.fine, by rw [parts, spans]; exact covers.inside⟩
  rw [done]
  refine ⟨⟨⟨ready.lined, ready.laid.enter loose next fits, loose.enter ready.laid.closed next,
    ready.floor, ?_⟩, ?_⟩, spans⟩
  · refine List.forall_mem_cons.mpr
      ⟨⟨fits.fine, ?_⟩, fun q member => ready.past q (List.mem_append_right _ member)⟩
    rw [spans]
    exact covers.stop _ ready.floor fun q member => (ready.past q (List.mem_append_left _ member)).2
  · exact List.forall_mem_singleton.mpr (spans ▸ covers.low)

theorem newExpr_holds (low : Nat) (ps : List Part) {make : Node → Expr}
    (node : ∀ n, (make n).node = n) (parts : ∀ n, Part.ofExpr (make n) = ps)
    (covers : (∀ q ∈ ps, S.Fine q.span) → S.Covers floor low ps span) :
    S.Holds (S.Ready floor (ps ++ held)) (newExpr span make)
      fun e s => S.Gives floor held low [.expr e] s ∧ e.span = span :=
  holds_enter (fun _ => ⟨_, rfl, congrArg Node.id (node _), congrArg Node.span (node _), parts _⟩)
    covers

theorem newStmt_holds (low : Nat) (ps : List Part) {make : Nat → Stmt} (id : ∀ n, (make n).id = n)
    (spans : ∀ n, (make n).span = span) (parts : ∀ n, Part.ofStmt (make n) = ps)
    (covers : (∀ q ∈ ps, S.Fine q.span) → S.Covers floor low ps span) :
    S.Holds (S.Ready floor (ps ++ held)) (newStmt make)
      fun st s => S.Gives floor held low [.stmt st] s ∧ st.span = span :=
  holds_enter (fun _ => ⟨_, rfl, id _, spans _, parts _⟩) covers

theorem newBlock_holds (low : Nat) {ss : List Stmt}
    (covers : (∀ q ∈ ss.map Part.stmt, S.Fine q.span) → S.Covers floor low (ss.map .stmt) span) :
    S.Holds (S.Ready floor (ss.map .stmt ++ held)) (newBlock span ss)
      fun b s => S.Gives floor held low [.block b] s ∧ b.span = span :=
  holds_enter (fun _ => ⟨_, rfl, rfl, rfl, rfl⟩) covers

theorem newFunc_holds (low : Nat) {name : Option String} {params : List String} {body : Body}
    (covers : (∀ q ∈ [Part.ofBody body], S.Fine q.span) → S.Covers floor low [.ofBody body] span) :
    S.Holds (S.Ready floor ([.ofBody body] ++ held)) (newFunc span name params body)
      fun f s => S.Gives floor held low [.func f] s ∧ f.span = span :=
  holds_enter (fun _ => ⟨_, rfl, rfl, rfl, rfl⟩) covers

/-- A node that covers the same bytes as its only part. -/
theorem covers_same {p : Part} (low' : low ≤ p.span.start) (fine : ∀ q ∈ [p], S.Fine q.span) :
    S.Covers floor low [p] p.span where
  fine := fine p (List.mem_singleton_self p)
  low := low'
  stop := fun _ _ past => past p (List.mem_singleton_self p)
  inside := List.forall_mem_singleton.mpr ⟨Nat.le_refl _, Nat.le_refl _⟩

theorem covers_join {a b : Span} (fine : S.Fine a) (fine' : S.Fine b)
    (low' : low ≤ a.start ∧ low ≤ b.start)
    (stops : ∀ x, floor ≤ x → (∀ q ∈ ps, q.span.stop ≤ x) → a.stop ≤ x ∧ b.stop ≤ x)
    (inside : ∀ q ∈ ps, q.span.Inside (a.join b)) : S.Covers floor low ps (a.join b) where
  fine := fine.join fine'
  low := Nat.le_min.mpr low'
  stop := fun x above past => Nat.max_le.mpr (stops x above past)
  inside := inside

/-- A node that begins with a token and ends with its only part. -/
theorem covers_behind {t : Token} {p : Part} (next : S.Next low held t)
    (behind : t.span.stop ≤ floor) (starts : low ≤ p.span.start) (fine : ∀ q ∈ [p], S.Fine q.span) :
    S.Covers floor low [p] (t.span.join p.span) := by
  apply covers_join next.fine (fine p (List.mem_singleton_self p)) ⟨next.floor, starts⟩
  · intro x above past
    exact ⟨Nat.le_trans behind above, past p (List.mem_singleton_self p)⟩
  · exact List.forall_mem_singleton.mpr (Span.inside_join_right ..)

structure Between (S : Layout) (t : Token) (ps : List Part) (close : Span) : Prop where
  fine : S.Fine close
  closes : t.span.stop ≤ close.start
  starts : ∀ q ∈ ps, t.span.stop ≤ q.span.start
  stops : ∀ q ∈ ps, q.span.stop ≤ close.start

/-- A node between an opening and a closing token. -/
theorem covers_enclosed {t : Token} {close : Span} (next : S.Next low held t)
    (between : S.Between t ps close) :
    S.Covers close.stop low ps (t.span.join close) := by
  have ordered := next.fine.ordered
  have closes := between.closes
  have ordered' := between.fine.ordered
  apply covers_join next.fine between.fine ⟨next.floor, Nat.le_trans next.le closes⟩
  · intro x above _
    exact ⟨by omega, above⟩
  · intro q member
    have starts := between.starts q member
    have stops := between.stops q member
    exact Span.inside_join_between (by omega) (by omega)

/-- A node with another one in front of its opening token. -/
theorem covers_trailer {t : Token} {head : Part} {close : Span}
    (next : S.Next floor (head :: held) t) (between : S.Between t ps close)
    (begins : low ≤ head.span.start) (fine : ∀ q ∈ head :: ps, S.Fine q.span) :
    S.Covers close.stop low (head :: ps) (head.span.join close) := by
  have fineHead := fine head (List.mem_cons_self ..)
  have ordered := fineHead.ordered
  have ends := next.past head (List.mem_cons_self ..)
  have ordered' := next.fine.ordered
  have closes := between.closes
  apply covers_join fineHead between.fine ⟨begins, by omega⟩
  · intro x above past
    exact ⟨past head (List.mem_cons_self ..), above⟩
  · refine List.forall_mem_cons.mpr ⟨Span.inside_join_left .., fun q member => ?_⟩
    have starts := between.starts q member
    have stops := between.stops q member
    exact Span.inside_join_between (by omega) (Nat.le_trans stops between.fine.ordered)

end Entering

end Layout

namespace Parser
open Layout

structure Nests (S : Layout) (n : Nat) : Prop where
  statement : ∀ floor held, S.Holds (S.Ready floor held) (statement n) fun st =>
      S.Gives floor held floor [.stmt st]
  declaration : ∀ floor held isConst,
    S.Holds (S.Ready floor held) (declaration n isConst) fun st =>
      S.Gives floor held floor [.stmt st]
  statements : ∀ floor held closing,
    S.Holds (S.Ready floor held) (statements n closing) fun ss =>
      S.Gives floor held floor (ss.map .stmt)
  block : ∀ floor held, S.Holds (S.Ready floor held) (block n) fun b =>
      S.Gives floor held floor [.block b]
  operation : ∀ floor held level,
    S.Holds (S.Ready floor held) (operation n level) fun e => S.Gives floor held floor [.expr e]
  operationRest : ∀ floor held low level lhs, low ≤ floor →
    S.Holds (S.Gives floor held low [.expr lhs]) (operationRest n level lhs) fun e =>
      S.Gives floor held low [.expr e]
  operand : ∀ floor held level,
    S.Holds (S.Ready floor held) (operand n level) fun e => S.Gives floor held floor [.expr e]
  unary : ∀ floor held, S.Holds (S.Ready floor held) (unary n) fun e =>
      S.Gives floor held floor [.expr e]
  trailers : ∀ floor held low head, low ≤ floor →
    S.Holds (S.Gives floor held low [.expr head]) (trailers n head) fun e =>
      S.Gives floor held low [.expr e]
  items : ∀ floor held closing expected,
    S.Holds (S.Ready floor held) (items n closing expected) fun r s =>
      S.Gives r.2.stop held floor (r.1.map .expr) s ∧
        S.Fine r.2 ∧ floor ≤ r.2.start ∧ ∀ q ∈ r.1.map Part.expr, q.span.stop ≤ r.2.start
  primary : ∀ floor held, S.Holds (S.Ready floor held) (primary n) fun e =>
      S.Gives floor held floor [.expr e]

section Steps

variable {S : Layout} {n floor low : Nat} {held : List Part}

theorem operation_nests (nests : Nests S n) (level : Level) :
    S.Holds (S.Ready floor held) (operation (n + 1) level) fun e =>
      S.Gives floor held floor [.expr e] :=
  (nests.operand floor held level).bind fun lhs =>
    nests.operationRest floor held floor level lhs (Nat.le_refl _)

theorem operationRest_nests (nests : Nests S n) (level : Level) (lhs : Expr) (less : low ≤ floor) :
    S.Holds (S.Gives floor held low [.expr lhs]) (operationRest (n + 1) level lhs)
      fun e => S.Gives floor held low [.expr e] := by
  apply holds_given
  intro left
  apply holds_peek
  intro t next
  have behind := next.le
  split
  · exact holds_pure fun s faces => ⟨faces.1, left⟩
  · apply holds_take
    apply (nests.operand _ _ level).bind_given
    intro rhs right
    have starts : low ≤ rhs.span.start := by
      have : t.span.stop ≤ rhs.span.start := right _ (List.mem_singleton_self _)
      omega
    refine Holds.of_imp ((newExpr_holds low [.expr lhs, .expr rhs] (fun _ => rfl) (fun _ => rfl)
      fun fine => ?_).bind_given fun whole _ => ?_) fun s ready => ready.perm (.swap ..)
    · apply covers_join (fine (.expr lhs) (by simp)) (fine (.expr rhs) (by simp))
      · exact ⟨left _ (List.mem_singleton_self _), starts⟩
      · intro x _ past
        exact ⟨past (.expr lhs) (by simp), past (.expr rhs) (by simp)⟩
      · exact List.forall_mem_cons.mpr
          ⟨Span.inside_join_left .., List.forall_mem_singleton.mpr (Span.inside_join_right ..)⟩
    · exact (nests.operationRest _ _ _ _ _ (Nat.le_trans less behind)).imp fun e s gives =>
        gives.lower behind

theorem operand_nests (nests : Nests S n) (level : Level) :
    S.Holds (S.Ready floor held) (operand (n + 1) level) fun e =>
      S.Gives floor held floor [.expr e] := by
  unfold operand
  split
  · exact nests.operation floor held _
  · exact nests.unary floor held

theorem unary_nests (nests : Nests S n) :
    S.Holds (S.Ready floor held) (unary (n + 1)) fun e => S.Gives floor held floor [.expr e] := by
  apply holds_peek
  intro t next
  have behind := next.le
  split
  · apply ((nests.primary floor held).of_imp fun s faces => faces.1).bind
    intro head
    exact nests.trailers floor held floor head (Nat.le_refl _)
  · apply holds_take
    apply (nests.unary _ _).bind_given
    intro operand right
    have starts : floor ≤ operand.span.start := by
      have : t.span.stop ≤ operand.span.start := right _ (List.mem_singleton_self _)
      omega
    refine (newExpr_holds floor [.expr operand] (fun _ => rfl) (fun _ => rfl) fun fine => ?_).imp
      fun e s gives => gives.1.lower behind
    exact covers_behind next (Nat.le_refl _) starts fine

theorem trailers_nests (nests : Nests S n) (head : Expr) (less : low ≤ floor) :
    S.Holds (S.Gives floor held low [.expr head]) (trailers (n + 1) head)
      fun e => S.Gives floor held low [.expr e] := by
  apply holds_given
  intro left
  have begins : low ≤ head.span.start := left _ (List.mem_singleton_self _)
  apply holds_eat_or
  · intro t next
    apply (nests.items _ _ _ _).bind_given
    rintro ⟨args, close⟩ ⟨fine, closes, stops⟩
    apply holds_given
    intro starts
    have above : floor ≤ close.stop := Nat.le_trans next.le (Nat.le_trans closes fine.ordered)
    refine Holds.of_imp
      ((newExpr_holds low (.expr head :: args.map .expr) (fun _ => rfl) (fun _ => rfl)
      (covers_trailer next ⟨fine, closes, starts, stops⟩ begins)).bind_given fun whole _ => ?_)
      fun s ready => ready.perm List.perm_middle
    exact (nests.trailers _ _ _ _ (Nat.le_trans less above)).imp fun e s gives => gives.lower above
  · apply holds_eat_or
    · intro t next
      apply (nests.operation _ _ _).bind_given
      intro index starts
      apply holds_expect
      intro close next'
      have above : floor ≤ close.span.stop := Nat.le_trans next.le next'.le
      have between : S.Between t [.expr index] close.span :=
        ⟨next'.fine, next'.floor, starts, fun q member =>
          next'.past q (List.mem_append_left _ member)⟩
      refine Holds.of_imp
        ((newExpr_holds low [.expr head, .expr index] (fun _ => rfl) (fun _ => rfl)
        (covers_trailer next between begins)).bind_given fun whole _ => ?_)
        fun s ready => ready.perm (.swap ..)
      exact (nests.trailers _ _ _ _ (Nat.le_trans less above)).imp fun e s gives =>
        gives.lower above
    · exact holds_pure fun s ready => ⟨ready, left⟩

theorem items_nests (nests : Nests S n) (closing : TokenKind) (expected : String) :
    S.Holds (S.Ready floor held) (items (n + 1) closing expected) fun r s =>
      S.Gives r.2.stop held floor (r.1.map .expr) s ∧
        S.Fine r.2 ∧ floor ≤ r.2.start ∧ ∀ q ∈ r.1.map Part.expr, q.span.stop ≤ r.2.start := by
  apply holds_peek
  intro t next
  apply holds_eat_facing
  · exact holds_pure fun s ready =>
      ⟨⟨ready, List.forall_mem_nil _⟩, next.fine, next.floor, List.forall_mem_nil _⟩
  · apply ((nests.operation _ _ _).of_imp fun s faces => faces.1).bind_given
    intro item starts
    apply holds_peek
    intro t next
    apply holds_eat_facing
    · refine holds_pure fun s ready => ⟨⟨ready, starts⟩, next.fine, next.floor, ?_⟩
      exact fun q member => next.past q (List.mem_append_left _ member)
    · apply holds_eat_facing
      · apply (nests.items _ _ _ _).bind_given
        rintro ⟨rest, close⟩ ⟨fine, closes, stops⟩
        apply holds_given
        intro starts'
        refine holds_pure fun s ready => ⟨⟨ready.perm List.perm_middle, ?_⟩, fine, ?_, ?_⟩
        · refine List.forall_mem_cons.mpr ⟨starts _ (List.mem_singleton_self _), fun q member => ?_⟩
          exact Nat.le_trans next.le (starts' q member)
        · exact Nat.le_trans next.le closes
        · refine List.forall_mem_cons.mpr ⟨?_, stops⟩
          have ends := next.past (.expr item) (List.mem_cons_self ..)
          exact Nat.le_trans ends (Nat.le_trans next.fine.ordered closes)
      · exact holds_unexpected fun s faces => faces.1.halts

/-- A node that is a single token. -/
theorem token_nests {t : Token} (next : S.Next floor held t) {make : Node → Expr}
    (node : ∀ n, (make n).node = n) (parts : ∀ n, Part.ofExpr (make n) = []) :
    S.Holds (S.Ready t.span.stop held) (newExpr t.span make) fun e =>
      S.Gives floor held floor [.expr e] := by
  refine (newExpr_holds floor [] node parts fun _ => ?_).imp fun e s gives => gives.1.lower next.le
  exact ⟨next.fine, next.floor, fun _ above _ => above, List.forall_mem_nil _⟩

/-- A function and the node around it begin with a token and end with the body. -/
theorem function_nests {t : Token} {start : Nat} {params : List String} {name : Option String}
    (body : Body) {α : Type} {make : Func → ParseM α} {after : α → ParseState → Prop}
    (next : S.Next floor held t) (behind : t.span.stop ≤ start)
    (starts : ∀ q ∈ [Part.ofBody body], start ≤ q.span.start)
    (rest : ∀ func, func.span = t.span.join (Part.ofBody body).span → floor ≤ func.span.start →
      S.Holds (S.Ready start ([.func func] ++ held)) (make func) after) :
    S.Holds (S.Ready start ([.ofBody body] ++ held))
      (newFunc (t.span.join (Part.ofBody body).span) name params body >>= make) after := by
  have begins : floor ≤ (Part.ofBody body).span.start :=
    Nat.le_trans (Nat.le_trans next.le behind) (starts _ (List.mem_singleton_self _))
  apply (newFunc_holds floor (covers_behind next behind begins)).bind_given
  intro func same
  apply holds_given
  intro low
  exact rest func same (low _ (List.mem_singleton_self _))

/-- An expression that covers the same bytes as the function it makes. -/
theorem lambda_nests {func : Func} {span : Span} {start : Nat} (same : func.span = span)
    (begins : floor ≤ func.span.start) (less : floor ≤ start) :
    S.Holds (S.Ready start ([.func func] ++ held)) (newExpr span fun node => .function node func)
      fun e => S.Gives floor held floor [.expr e] := by
  subst same
  exact (newExpr_holds floor [.func func] (fun _ => rfl) (fun _ => rfl) (covers_same begins)).imp
    fun _ _ gives => gives.1.lower less

theorem primary_nests (nests : Nests S n) :
    S.Holds (S.Ready floor held) (primary (n + 1)) fun e => S.Gives floor held floor [.expr e] := by
  apply holds_peek
  intro t next
  split
  · exact holds_take (token_nests next (fun _ => rfl) fun _ => rfl)
  · split
    · apply holds_take
      split
      · exact token_nests next (fun _ => rfl) fun _ => rfl
      · exact holds_throw (fun s ready => ready.laid) (next.toStands.blamed _)
    · exact holds_take (token_nests next (fun _ => rfl) fun _ => rfl)
    · apply holds_take
      apply (nests.operation _ _ _).bind_given
      intro inner starts
      apply holds_expect
      intro close next'
      refine holds_pure fun s ready =>
        ⟨ready.lower (Nat.le_trans next.le next'.le), fun q member => ?_⟩
      exact Nat.le_trans next.le (starts q member)
    · apply holds_take
      apply (nests.items _ _ _ _).bind_given
      rintro ⟨elements, close⟩ ⟨fine, closes, stops⟩
      apply holds_given
      intro starts
      refine (newExpr_holds floor (elements.map .expr) (fun _ => rfl) (fun _ => rfl) fun _ =>
        ?_).imp
        fun e s gives => gives.1.lower (Nat.le_trans next.le (Nat.le_trans closes fine.ordered))
      exact covers_enclosed next ⟨fine, closes, starts, stops⟩
    · apply holds_take
      apply (paramList_holds n).bind
      intro params
      apply holds_expect
      intro arrow next'
      apply (nests.operation _ _ _).bind_given
      intro body starts
      exact function_nests (.expr body) next next'.le starts fun func same begins =>
        lambda_nests same begins (Nat.le_trans next.le next'.le)
    · apply holds_take
      apply (paramList_holds n).bind
      intro params
      apply (nests.block _ _).bind_given
      intro body starts
      exact function_nests (.block body) next (Nat.le_refl _) starts fun func same begins =>
        lambda_nests same begins next.le
    · exact holds_unexpected fun s faces => faces.1.halts

/-- A statement that covers the same bytes as its only part. -/
theorem same_nests {make : Nat → Stmt} {p : Part} {start : Nat} (less : floor ≤ start)
    (id : ∀ n, (make n).id = n) (spans : ∀ n, (make n).span = p.span)
    (parts : ∀ n, Part.ofStmt (make n) = [p]) (begins : floor ≤ p.span.start) :
    S.Holds (S.Ready start ([p] ++ held)) (newStmt make) fun st =>
      S.Gives floor held floor [.stmt st] :=
  (newStmt_holds floor [p] id spans parts (covers_same begins)).imp fun _ _ gives =>
    gives.1.lower less

/-- A statement that begins with a token and ends with its only part. -/
theorem behind_nests {make : Nat → Stmt} {t : Token} {p : Part} {start : Nat}
    (next : S.Next floor held t) (behind : t.span.stop ≤ start) (id : ∀ n, (make n).id = n)
    (spans : ∀ n, (make n).span = t.span.join p.span) (parts : ∀ n, Part.ofStmt (make n) = [p])
    (starts : ∀ q ∈ [p], start ≤ q.span.start) :
    S.Holds (S.Ready start ([p] ++ held)) (newStmt make) fun st =>
      S.Gives floor held floor [.stmt st] := by
  have less : floor ≤ start := Nat.le_trans next.le behind
  have begins : floor ≤ p.span.start := Nat.le_trans less (starts p (List.mem_singleton_self p))
  exact (newStmt_holds floor [p] id spans parts (covers_behind next behind begins)).imp
    fun _ _ gives => gives.1.lower less

theorem declaration_nests (nests : Nests S n) (isConst : Bool) :
    S.Holds (S.Ready floor held) (declaration (n + 1) isConst) fun st =>
      S.Gives floor held floor [.stmt st] := by
  apply holds_advance
  intro keyword next
  apply holds_expect
  intro name next'
  apply holds_expect
  intro sign next''
  have behind : keyword.span.stop ≤ sign.span.stop := Nat.le_trans next'.le next''.le
  apply (nests.operation _ _ _).bind_given
  intro value starts
  apply holds_eat
  intro ended
  exact behind_nests next behind (fun _ => rfl) (fun _ => rfl) (fun _ => rfl) starts

theorem statement_nests (nests : Nests S n) :
    S.Holds (S.Ready floor held) (statement (n + 1)) fun st =>
      S.Gives floor held floor [.stmt st] := by
  apply holds_peek
  intro t next
  apply holds_peekSecond
  intro second
  dsimp only
  split
  · exact (nests.declaration floor held false).of_imp fun s faces => faces.1
  · exact (nests.declaration floor held true).of_imp fun s faces => faces.1
  · apply holds_take
    apply holds_expect
    intro name next'
    apply (paramList_holds n).bind
    intro params
    apply (nests.block _ _).bind_given
    intro body starts
    exact function_nests (.block body) next next'.le starts fun func same begins =>
      same_nests (Nat.le_trans next.le next'.le) (fun _ => rfl) (fun _ => same.symm) (fun _ => rfl)
        begins
  · apply ((nests.block _ _).of_imp fun s faces => faces.1).bind_given
    intro body starts
    exact same_nests (Nat.le_refl _) (fun _ => rfl) (fun _ => rfl) (fun _ => rfl)
      (starts _ (List.mem_singleton_self _))
  · apply holds_take
    apply holds_expect
    intro sign next'
    apply (nests.operation _ _ _).bind_given
    intro value starts
    apply holds_eat
    intro ended
    exact behind_nests next next'.le (fun _ => rfl) (fun _ => rfl) (fun _ => rfl) starts
  · apply ((nests.operation _ _ _).of_imp fun s faces => faces.1).bind_given
    intro value starts
    apply holds_eat
    intro ended
    exact same_nests (Nat.le_refl _) (fun _ => rfl) (fun _ => rfl) (fun _ => rfl)
      (starts _ (List.mem_singleton_self _))

theorem statements_nests (nests : Nests S n) (closing : TokenKind) :
    S.Holds (S.Ready floor held) (statements (n + 1) closing) fun ss =>
      S.Gives floor held floor (ss.map .stmt) := by
  apply holds_eat
  intro passed
  split
  · exact nests.statements floor held closing
  · apply holds_peek
    intro t next
    split
    · exact holds_pure fun s faces => ⟨faces.1, List.forall_mem_nil _⟩
    · split
      · exact holds_unexpected fun s faces => faces.1.halts
      · apply ((nests.statement _ _).of_imp fun s faces => faces.1).bind_given
        intro first starts
        apply (nests.statements _ _ _).bind
        intro rest
        apply holds_given
        intro starts'
        refine holds_pure fun s ready => ⟨ready.perm List.perm_middle, ?_⟩
        exact List.forall_mem_cons.mpr ⟨starts _ (List.mem_singleton_self _), starts'⟩

theorem block_nests (nests : Nests S n) :
    S.Holds (S.Ready floor held) (block (n + 1)) fun b => S.Gives floor held floor [.block b] := by
  apply holds_expect
  intro opening next
  apply (nests.statements _ _ _).bind_given
  intro ss starts
  apply holds_advance
  intro closing next'
  refine (newBlock_holds floor fun _ => ?_).imp fun b s gives =>
    gives.1.lower (Nat.le_trans next.le next'.le)
  exact covers_enclosed next
    ⟨next'.fine, next'.floor, starts, fun q member => next'.past q (List.mem_append_left _ member)⟩

theorem nests (S : Layout) (n : Nat) : Nests S n := by
  -- Without steps left every parser gives up. Otherwise it calls parsers with one step less.
  induction n with
  | zero =>
    constructor <;> intros
    case operationRest | trailers => exact holds_unfinished fun s gives => gives.1.halts
    all_goals exact holds_unfinished fun s ready => ready.halts
  | succ n ih =>
    constructor
    case statement => exact fun _ _ => statement_nests ih
    case declaration => exact fun _ _ => declaration_nests ih
    case statements => exact fun _ _ => statements_nests ih
    case block => exact fun _ _ => block_nests ih
    case operation => exact fun _ _ => operation_nests ih
    case operationRest => exact fun _ _ _ => operationRest_nests ih
    case operand => exact fun _ _ => operand_nests ih
    case unary => exact fun _ _ => unary_nests ih
    case trailers => exact fun _ _ _ => trailers_nests ih
    case items => exact fun _ _ => items_nests ih
    case primary => exact fun _ _ => primary_nests ih

end Steps

theorem program_laid (S : Layout) (n floor : Nat) :
    S.Holds (S.Ready floor []) (program n) fun _ s => S.Laid s.ast := by
  apply holds_peek
  intro first next
  have front : ∀ s, S.Faces first floor [] s → S.Ready first.span.start [] s := by
    rintro s ⟨ready, rfl⟩
    exact ⟨ready.lined, ready.laid, ready.loose, Nat.le_refl _, ready.past⟩
  apply (((nests S n).statements _ _ _).of_imp front).bind_given
  intro ss starts
  apply holds_peek
  rintro last next' s ⟨ready, rfl⟩
  -- Nothing stands behind the last token, so the block need not end before another one.
  have fits : S.Fits (.block
      (.mk ⟨s.ast.blocks.size, first.span.join (current s.tokens).span⟩ ss)) := by
    refine ⟨next.fine.join next'.fine, fun q member => ?_⟩
    have stops := next'.past q (List.mem_append_left _ member)
    exact Span.inside_join_between (starts q member) (Nat.le_trans stops next'.fine.ordered)
  exact ready.laid.enter ready.loose rfl fits

end Parser

/-- All that is entered into the catalogue is laid out, and an error is at a token. -/
theorem parseProgram_laid {S : Layout} {tokens : List Token} {ast : Ast} (lined : S.Lined tokens)
    (laid : S.Laid ast) :
    S.Laid (parseProgram tokens ast).2 ∧ ∀ e, (parseProgram tokens ast).1 = .error e →
    S.Blamed e := by
  have loose : ast.Loose [] := ⟨List.forall_mem_nil _, List.forall_mem_nil _, List.nodup_nil⟩
  have done := Parser.program_laid S (Parser.stepsFor tokens) 0 ⟨tokens, ast⟩
    ⟨lined, laid, loose, Nat.zero_le _, List.forall_mem_nil _⟩
  simp only [parseProgram, Parser.run]
  cases ended : Parser.program (Parser.stepsFor tokens) ⟨tokens, ast⟩ with
  | ok b s =>
    rw [ended] at done
    refine ⟨done, ?_⟩
    rintro e ⟨⟩
  | error e s =>
    rw [ended] at done
    refine ⟨done.1, ?_⟩
    rintro e' ⟨⟩
    exact done.2

end ScriptKit
