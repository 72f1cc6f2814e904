import ScriptKit.Proofs.Tree.Reading

/-! How far a parser has looked, and how what it took goes on.

A run depends on the tokens that it took and on the next one. An error cites the first token of
those that were not taken. Whatever tokens a run got past, there are words that complete them. -/

namespace ScriptKit.Parser
open Written (Word sign)

/-- The token that an error was noticed at, with all behind it. An integer that is too large was
taken already. -/
inductive Cites : ParseError → ParseState → List Token → Prop where
  | next {expected : String} {s : ParseState} :
      Cites (.atToken (.unexpectedToken expected) (current s.tokens)) s s.tokens
  | taken {t : Token} {s : ParseState} : Cites (.atToken .invalidInteger t) s (t :: s.tokens)

theorem Cites.error_eq {e : ParseError} {s : ParseState} {us : List Token} (cites : Cites e s us) :
    e = .atToken e.kind (current us) := by
  cases cites <;> rfl

theorem Cites.finished {e : ParseError} {s : ParseState} {us : List Token} (cites : Cites e s us) :
    e.kind ≠ .unfinished := by
  cases cites <;> exact ParseErrorKind.noConfusion

theorem Cites.length_eq {e : ParseError} {s : ParseState} {us : List Token} (cites : Cites e s us) :
    us.length = s.tokens.length + if e.kind = .invalidInteger then 1 else 0 := by
  cases cites <;> rfl

abbrev RunResult (α : Type) := EStateM.Result ParseError ParseState α

section Outcomes

variable {α β : Type}

/-- What is left of the tokens. After an error this begins with the token that is cited. -/
def Remains : RunResult α → List Token → Prop
  | .ok _ s, us => us = s.tokens
  | .error e s, us => Cites e s us

def Lacks : RunResult α → Prop
  | .ok _ _ => False
  | .error e _ => e.kind = .unfinished

theorem Remains.length_eq {r : RunResult α} {us vs : List Token} (left : Remains r us)
    (again : Remains r vs) :
    us.length = vs.length := by
  cases r with
  | ok a s => exact congrArg List.length (left.trans again.symm)
  | error e s => exact (Cites.length_eq left).trans (Cites.length_eq again).symm

theorem Remains.enough {r : RunResult α} {us : List Token} (left : Remains r us) : ¬ Lacks r := by
  cases r with
  | ok a s => exact id
  | error e s => exact Cites.finished left

/-- Of these tokens some were taken, and `endOfInput` is none of them. -/
def Advances (ts : List Token) (r : RunResult α) : Prop :=
  Lacks r ∨ ∃ us vs, ts = us ++ vs ∧ (∀ t ∈ us, t.kind ≠ .endOfInput) ∧ Remains r vs

def Past (rest : List Token) (r : RunResult α) : Prop :=
  ∃ us, Remains r us ∧ us.length ≤ rest.length

theorem Advances.past {ts : List Token} {r : RunResult α} (advances : Advances ts r) :
    Lacks r ∨ Past ts r := by
  refine advances.imp_right ?_
  rintro ⟨us, vs, rfl, _, left⟩
  exact ⟨vs, left, by simp⟩

theorem Advances.cons {t : Token} {ts : List Token} {r : RunResult α} (more : t.kind ≠ .endOfInput)
    (advances : Advances ts r) : Advances (t :: ts) r := by
  refine advances.imp_right ?_
  rintro ⟨us, vs, rfl, inside, left⟩
  exact ⟨t :: us, vs, rfl, List.forall_mem_cons.mpr ⟨more, inside⟩, left⟩

theorem Past.mono {ts us : List Token} {r : RunResult α} (past : Past ts r)
    (le : ts.length ≤ us.length) :
    Past us r := by
  obtain ⟨vs, left, short⟩ := past
  exact ⟨vs, left, Nat.le_trans short le⟩

/-- Two runs on tokens that begin alike and go on with `rest` and `rest'`. They have the same
outcome, unless the first one got past what they share, or ran out of steps. -/
inductive Coincides (rest rest' : List Token) : RunResult α → RunResult α → Prop where
  | ok {a s s'} (t us ast) : s = ⟨t :: us ++ rest, ast⟩ → s' = ⟨t :: us ++ rest', ast⟩ →
      Coincides rest rest' (.ok a s) (.ok a s')
  | error {e s s'} : Coincides rest rest' (.error e s) (.error e s')
  | past {r r'} : Past rest r → Coincides rest rest' r r'
  | lacks {r r'} : Lacks r → Coincides rest rest' r r'

variable {m m' : ParseM α} {k k' : α → ParseM β} {s : ParseState}

theorem Advances.bind (first : Advances s.tokens (m.run s))
    (second : ∀ a t, m.run s = .ok a t → Advances t.tokens ((k a).run t)) :
    Advances s.tokens ((m >>= k).run s) := by
  simp only [EStateM.run, Bind.bind, EStateM.bind] at *
  generalize m s = r at first second
  cases r with
  | error e t => exact first
  | ok a t =>
    obtain lacks | ⟨us, vs, whole, inside, rfl⟩ := first
    · exact lacks.elim
    · refine (second a t rfl).imp_right ?_
      rintro ⟨us', vs', whole', inside', left⟩
      refine ⟨us ++ us', vs', by rw [whole, whole', List.append_assoc], ?_, left⟩
      intro u member
      exact (List.mem_append.mp member).elim (inside u) (inside' u)

theorem Coincides.bind {rest rest' : List Token} {s' : ParseState}
    (first : Coincides rest rest' (m.run s) (m'.run s'))
    (advances : ∀ a t, Advances t.tokens ((k a).run t))
    (second : ∀ a t us ast,
      Coincides rest rest' ((k a).run ⟨t :: us ++ rest, ast⟩)
        ((k' a).run ⟨t :: us ++ rest', ast⟩)) :
    Coincides rest rest' ((m >>= k).run s) ((m' >>= k').run s') := by
  simp only [EStateM.run, Bind.bind, EStateM.bind] at *
  generalize m s = r at first
  generalize m' s' = r' at first
  cases first with
  | ok t us ast here there =>
    rw [here, there]
    exact second _ t us ast
  | error => exact .error
  | past past =>
    cases r with
    | error e t => exact .past past
    | ok a t =>
      obtain ⟨us, rfl, short⟩ := past
      obtain lacks | past := (advances a t).past
      · exact .lacks lacks
      · exact .past (past.mono short)
  | lacks lacks =>
    cases r with
    | error e t => exact .lacks lacks
    | ok a t => exact lacks.elim

end Outcomes

section Completion

variable {α β : Type} {next next' : TokenKind → Prop} {p p' : Nat → ParseM α}
  {q : Nat → α → ParseM β} {us : List Token} {ast : Ast} {ws vs : List Word}

/-- There are words to go on with, so that the parser takes all and stops before a token of a kind
in `next`. -/
def Mends (next : TokenKind → Prop) (p : Nat → ParseM α) (us : List Token) (ast : Ast) : Prop :=
  ∃ ws, ∀ ts rest, ts.map Token.word = ws → next (current rest).kind →
    ∃ a ast', Gives p ⟨us ++ (ts ++ rest), ast⟩ a ⟨rest, ast'⟩

theorem Reads.any {good : α → Prop} (reads : Reads p ws next good) :
    Reads p ws next fun _ => True :=
  reads.imp fun _ _ => trivial

theorem Mends.of_reads {good : α → Prop} (reads : Reads p ws next good) : Mends next p [] ast := by
  refine ⟨ws, fun ts rest spelled follows => ?_⟩
  obtain ⟨a, ast', given, _⟩ := reads ts rest ast spelled follows
  exact ⟨a, ast', given⟩

theorem Mends.of_reads_cons {t : Token} {good : α → Prop}
    (reads : Reads p (t.word :: ws) next good) :
    Mends next p [t] ast := by
  refine ⟨ws, fun ts rest spelled follows => ?_⟩
  obtain ⟨a, ast', given, _⟩ := reads (t :: ts) rest ast (by rw [List.map_cons, spelled]) follows
  exact ⟨a, ast', given⟩

/-- What completes the first parser, and the words that the second one begins with. -/
theorem Mends.bind (first : Mends next p us ast)
    (opening : ∀ a, Reads (fun n => q n a) vs next' fun _ => True)
    (meet : ∀ kind, next' kind → next (headKind kind vs)) :
    Mends next' (fun n => p n >>= q n) us ast := by
  obtain ⟨ws, first⟩ := first
  refine ⟨ws ++ vs, fun ts rest spelled follows => ?_⟩
  obtain ⟨ts, ts', rfl, shown, shown'⟩ := List.map_eq_append_iff.mp spelled
  obtain ⟨a, ast₁, given⟩ :=
    first ts (ts' ++ rest) shown (by rw [current_append, shown']; exact meet _ follows)
  obtain ⟨b, ast₂, given', _⟩ := opening a ts' rest ast₁ shown' follows
  exact ⟨b, ast₂, by rw [List.append_assoc]; exact given.bind given'⟩

/-- A parser that does as another one with steps enough is completed as that one. -/
theorem Mends.of_gives {us' : List Token} {ast' : Ast} (mends : Mends next p us ast)
    (same : ∀ rest a s, Gives p ⟨us ++ rest, ast⟩ a s → Gives p' ⟨us' ++ rest, ast'⟩ a s) :
    Mends next p' us' ast' := by
  obtain ⟨ws, mends⟩ := mends
  refine ⟨ws, fun ts rest spelled follows => ?_⟩
  obtain ⟨a, ast₁, given⟩ := mends ts rest spelled follows
  exact ⟨a, ast₁, same _ _ _ given⟩

theorem Gives.of_succ {s s' : ParseState} {a : α} (given : Gives (fun n => p (n + 1)) s a s') :
    Gives p s a s' := by
  obtain ⟨least, given⟩ := given
  refine ⟨least + 1, fun n le => ?_⟩
  obtain ⟨n, rfl⟩ : ∃ k, n = k + 1 := ⟨n - 1, by omega⟩
  exact given n (by omega)

end Completion

structure On {α : Type} (t : Token) (next : TokenKind → Prop) (p : Nat → ParseM α) (n : Nat) :
    Prop where
  advances : ∀ s, current s.tokens = t → Advances s.tokens ((p n).run s)
  coincides : ∀ k ≥ n, ∀ us rest rest' ast,
    Coincides rest rest' ((p n).run ⟨t :: us ++ rest, ast⟩) ((p k).run ⟨t :: us ++ rest', ast⟩)
  mends : ∀ us rest ast, Past rest ((p n).run ⟨t :: us ++ rest, ast⟩) → Mends next p (t :: us) ast

/-- A parser that looks no further than the next token. `opening` is what it can do with. -/
structure Predictive {α : Type} (opening : List Word) (next : TokenKind → Prop) (p : Nat → ParseM α)
    (n : Nat) :
    Prop where
  reads : Reads p opening next fun _ => True
  on : ∀ t, On t next p n

namespace Predictive

variable {α : Type} {opening : List Word} {next : TokenKind → Prop} {p : Nat → ParseM α} {n : Nat}
  (predictive : Predictive opening next p n)

include predictive

theorem advances (s : ParseState) : Advances s.tokens ((p n).run s) :=
  (predictive.on _).advances s rfl

theorem coincides {k : Nat} (le : n ≤ k) (us rest rest' : List Token) (ast : Ast) :
    Coincides rest rest' ((p n).run ⟨us ++ rest, ast⟩) ((p k).run ⟨us ++ rest', ast⟩) := by
  cases us with
  | cons t us => exact (predictive.on t).coincides k le us rest rest' ast
  | nil =>
    obtain lacks | past := (predictive.advances ⟨rest, ast⟩).past
    · exact .lacks lacks
    · exact .past past

theorem mends {us rest : List Token} {ast : Ast} (past : Past rest ((p n).run ⟨us ++ rest, ast⟩)) :
    Mends next p us ast := by
  cases us with
  | cons t us => exact (predictive.on t).mends us rest ast past
  | nil => exact .of_reads predictive.reads

end Predictive

section Combinators

variable {α β : Type} {t : Token} {next next' : TokenKind → Prop} {p p' : Nat → ParseM α}
  {q : Nat → α → ParseM β} {n : Nat} {ws vs : List Word}

theorem On.congr (on : On t next p n)
    (same : ∀ n s, current s.tokens = t → (p' n).run s = (p n).run s) :
    On t next p' n := by
  refine ⟨fun s here => ?_, fun k le us rest rest' ast => ?_, fun us rest ast past => ?_⟩
  · rw [same n s here]
    exact on.advances s here
  · rw [same n _ rfl, same k _ rfl]
    exact on.coincides k le us rest rest' ast
  · rw [same n _ rfl] at past
    refine (on.mends us rest ast past).of_gives fun rest a s given => ?_
    obtain ⟨least, given⟩ := given
    exact ⟨least, fun k le => (same k _ rfl).trans (given k le)⟩

theorem On.of_succ (on : On t next (fun n => p (n + 1)) n) : On t next p (n + 1) := by
  refine ⟨on.advances, fun k le us rest rest' ast => ?_, fun us rest ast past => ?_⟩
  · obtain ⟨k, rfl⟩ : ∃ l, k = l + 1 := ⟨k - 1, by omega⟩
    exact on.coincides k (by omega) us rest rest' ast
  · exact (on.mends us rest ast past).of_gives fun _ _ _ given => given.of_succ

/-- A run that fails at once gets past no token. -/
theorem on_fails (e : ParseError)
    (fails : ∀ n s, current s.tokens = t → ∃ s', (p n).run s = .error e s' ∧ Cites e s' s.tokens) :
    On t next p n := by
  refine ⟨fun s here => ?_, fun k le us rest rest' ast => ?_, fun us rest ast past => ?_⟩
  · obtain ⟨s', run, cites⟩ := fails n s here
    rw [run]
    exact .inr ⟨[], s.tokens, rfl, by simp, cites⟩
  · obtain ⟨s, run, _⟩ := fails n ⟨t :: us ++ rest, ast⟩ rfl
    obtain ⟨s', run', _⟩ := fails k ⟨t :: us ++ rest', ast⟩ rfl
    rw [run, run']
    exact .error
  · obtain ⟨s, run, cites⟩ := fails n ⟨t :: us ++ rest, ast⟩ rfl
    rw [run] at past
    obtain ⟨vs, left, short⟩ := past
    have same :=
      left.length_eq (show Remains (.error e s : RunResult α) (t :: us ++ rest) from cites)
    simp only [List.length_append, List.length_cons] at same
    omega

theorem on_unexpected (expected : String) :
    On t next (fun _ => (unexpected expected : ParseM α)) n := by
  refine on_fails (.atToken (.unexpectedToken expected) t) fun n s here => ⟨s, ?_, ?_⟩
  · rw [← here]
    rfl
  · rw [← here]
    exact .next

theorem on_unfinished (none : p 0 = unfinished) : On t next p 0 := by
  have lacks : ∀ s, Lacks ((p 0).run s) := by
    intro s
    rw [none]
    rfl
  refine ⟨fun s _ => .inl (lacks s), fun _ _ _ _ _ _ => .lacks (lacks _),
    fun us rest ast past => ?_⟩
  obtain ⟨vs, left, _⟩ := past
  exact absurd (lacks _) left.enough

theorem On.advance (opening : List Word) {k : Nat → Token → ParseM α} (more : t.kind ≠ .endOfInput)
    (rest : Predictive opening next (fun n => k n t) n) :
    On t next (fun n => advance >>= k n) n := by
  refine ⟨fun s here => ?_, fun l le us after after' ast => ?_, fun us after ast past => ?_⟩
  · obtain ⟨ts, whole⟩ := current_cons (here ▸ more)
    obtain ⟨tokens, ast⟩ := s
    rw [here] at whole
    cases whole
    rw [run_advance_bind more]
    exact (rest.advances ⟨ts, ast⟩).cons more
  · rw [List.cons_append, List.cons_append, run_advance_bind more, run_advance_bind more]
    exact rest.coincides le us after after' ast
  · rw [List.cons_append, run_advance_bind more] at past
    refine (rest.mends past).of_gives fun after a s given => ?_
    obtain ⟨least, given⟩ := given
    exact ⟨least, fun l le => (run_advance_bind more _ _ _).trans (given l le)⟩

/-- `endOfInput` is seen again. -/
theorem On.advance_end {k : Nat → Token → ParseM α} (ended : t.kind = .endOfInput)
    (rest : On t next (fun n => k n t) n) : On t next (fun n => Parser.advance >>= k n) n := by
  refine rest.congr fun n s here => ?_
  obtain ⟨tokens, ast⟩ := s
  cases tokens with
  | nil =>
    cases here
    rfl
  | cons u us =>
    cases here
    have stays : Parser.advance.run ⟨u :: us, ast⟩ = .ok u ⟨u :: us, ast⟩ :=
      run_advance_end ended us ast
    simp only [EStateM.run, Bind.bind, EStateM.bind] at stays ⊢
    rw [stays]
    rfl

theorem on_peek {k : Nat → Token → ParseM α} (rest : On t next (fun n => k n t) n) :
    On t next (fun n => peek >>= k n) n :=
  rest.congr fun n s here => by rw [run_peek, here]

theorem on_expect (opening : List Word) {k : Nat → Token → ParseM α} {kind : TokenKind}
    {expected : String} (more : kind ≠ .endOfInput)
    (rest : ∀ t, Predictive opening next (fun n => k n t) n) :
    On t next (fun n => expect kind expected >>= k n) n := by
  unfold expect
  simp only [bind_assoc]
  refine on_peek ?_
  by_cases here : t.kind = kind
  · simp only [if_pos here]
    exact .advance opening (here ▸ more) (rest t)
  · simp only [if_neg here]
    refine (on_unexpected (α := α) expected).congr fun n s _ => ?_
    rfl

theorem on_eat (opening : List Word) {k : Nat → Bool → ParseM α} {kind : TokenKind}
    (more : kind ≠ .endOfInput)
    (yes : t.kind = kind → Predictive opening next (fun n => k n true) n)
    (no : t.kind ≠ kind → On t next (fun n => k n false) n) :
    On t next (fun n => eat kind >>= k n) n := by
  unfold eat
  simp only [bind_assoc]
  refine on_peek ?_
  by_cases here : t.kind = kind
  · simp only [if_pos here, bind_assoc, pure_bind]
    exact .advance opening (here ▸ more) (yes here)
  · simp only [if_neg here, pure_bind]
    exact no here

/-- A run that succeeds before the end of `t :: us` does so whatever stands behind them. -/
theorem On.same (on : On t next p n) {us rest : List Token} {ast : Ast} {a : α} {s : ParseState}
    (done : (p n).run ⟨t :: us ++ rest, ast⟩ = .ok a s) (before : rest.length < s.tokens.length) :
    ∃ u vs, s.tokens = u :: vs ++ rest ∧
      ∀ k ≥ n, ∀ rest', (p k).run ⟨t :: us ++ rest', ast⟩ = .ok a ⟨u :: vs ++ rest', s.ast⟩ := by
  have advances := on.advances ⟨t :: us ++ rest, ast⟩ rfl
  rw [done] at advances
  obtain lacks | ⟨ts, _, whole, _, rfl⟩ := advances
  · exact lacks.elim
  obtain ⟨u, vs, split⟩ : ∃ u vs, s.tokens = u :: vs ++ rest := by
    have suffix : rest <:+ s.tokens :=
      List.suffix_of_suffix_length_le (List.suffix_append (t :: us) rest) ⟨ts, whole.symm⟩
        (by omega)
    obtain ⟨vs, split⟩ := suffix
    cases vs with
    | nil => simp [← split] at before
    | cons u vs => exact ⟨u, vs, split.symm⟩
  refine ⟨u, vs, split, fun k le rest' => ?_⟩
  have coincides := on.coincides k le us rest rest' ast
  rw [done] at coincides
  generalize (p k).run ⟨t :: us ++ rest', ast⟩ = r at coincides ⊢
  cases coincides with
  | ok u' vs' ast' here there =>
    subst here there
    have same := List.append_cancel_right split
    cases same
    rfl
  | past past =>
    obtain ⟨_, rfl, short⟩ := past
    omega
  | lacks lacks => exact lacks.elim

theorem On.bind (first : On t next p n) (opening : List Word)
    (second : ∀ a, Predictive opening next' (fun n => q n a) n)
    (meet : ∀ kind, next' kind → next (headKind kind opening)) :
    On t next' (fun n => p n >>= q n) n := by
  refine ⟨fun s here => ?_, fun k le us rest rest' ast => ?_, fun us rest ast past => ?_⟩
  · exact (first.advances s here).bind fun a s' _ => (second a).advances s'
  · exact (first.coincides k le us rest rest' ast).bind (fun a s => (second a).advances s)
      fun a u us ast => ((second a).on u).coincides k le us rest rest' ast
  · have early : Past rest ((p n).run ⟨t :: us ++ rest, ast⟩) →
        Mends next' (fun n => p n >>= q n) (t :: us) ast :=
      fun past => (first.mends us rest ast past).bind (fun a => (second a).reads) meet
    cases run : (p n).run ⟨t :: us ++ rest, ast⟩ with
    | error e s =>
      refine early ?_
      rw [bind_eq_error.mpr (.inl run)] at past
      rw [run]
      exact past
    | ok a s =>
      by_cases short : s.tokens.length ≤ rest.length
      · exact early (by rw [run]; exact ⟨_, rfl, short⟩)
      -- The second parser goes on inside of `t :: us`, and the first one sees the same next token.
      obtain ⟨u, vs, split, same⟩ := first.same run (by omega)
      have later : Past rest ((q n a).run ⟨u :: vs ++ rest, s.ast⟩) := by
        rw [← split]
        simp only [EStateM.run, Bind.bind, EStateM.bind] at past run ⊢
        rw [run] at past
        exact past
      exact (((second a).on u).mends vs rest s.ast later).of_gives fun rest b s' given =>
        Gives.bind ⟨n, fun k le => same k le rest⟩ given

end Combinators

namespace Predictive

variable {α β : Type} {next next' : TokenKind → Prop} {p : Nat → ParseM α} {q : Nat → α → ParseM β}
  {n : Nat} {ws vs : List Word}

theorem bind (first : Predictive ws next p n) (second : ∀ a, Predictive vs next' (fun n => q n a) n)
    (meet : ∀ kind, next' kind → next (headKind kind vs)) :
    Predictive (ws ++ vs) next' (fun n => p n >>= q n) n :=
  ⟨first.reads.bind (fun a _ => (second a).reads) meet, fun t => (first.on t).bind vs second meet⟩

/-- What follows takes no words of its own. -/
theorem andThen (first : Predictive ws next p n)
    (second : ∀ a, Predictive [] next' (fun n => q n a) n)
    (fewer : ∀ kind, next' kind → next kind) : Predictive ws next' (fun n => p n >>= q n) n :=
  List.append_nil ws ▸ first.bind second fewer

theorem unfinished (reads : Reads p ws next fun _ => True) (none : p 0 = Parser.unfinished) :
    Predictive ws next p 0 :=
  ⟨reads, fun _ => on_unfinished none⟩

theorem expect {k : Nat → Token → ParseM α} {kind : TokenKind} {expected text : String}
    (more : kind ≠ .endOfInput) (rest : ∀ t, Predictive ws next (fun n => k n t) n) :
    Predictive ((kind, text) :: ws) next (fun n => Parser.expect kind expected >>= k n) n :=
  ⟨reads_expect more fun t _ => (rest t).reads, fun _ => on_expect ws more rest⟩

end Predictive

def spell (w : Word) : Token := ⟨w.1, w.2, ⟨0, 0⟩, .origin, .origin⟩

theorem words_spell (ws : List Word) : (ws.map spell).map Token.word = ws := by
  rw [List.map_map]
  exact List.map_id ws

structure Takes {α : Type} (t : Token) (next : TokenKind → Prop) (p : Nat → ParseM α)
    (n : Nat) : Prop
    extends On t next p n where
  taken : ∀ ts ast, Lacks ((p n).run ⟨t :: ts, ast⟩) ∨ Past ts ((p n).run ⟨t :: ts, ast⟩)

section Taking

variable {α : Type} {t : Token} {next : TokenKind → Prop} {p : Nat → ParseM α} {n : Nat}

theorem Takes.advance (opening : List Word) {k : Nat → Token → ParseM α}
    (more : t.kind ≠ .endOfInput) (rest : Predictive opening next (fun n => k n t) n) :
    Takes t next (fun n => Parser.advance >>= k n) n := by
  refine ⟨.advance opening more rest, fun ts ast => ?_⟩
  rw [run_advance_bind more]
  exact (rest.advances ⟨ts, ast⟩).past

/-- A token that can be completed is not one to fail at, for it would be cited whatever is behind
it. -/
theorem Takes.of_mends (on : On t next p n) (ends : next .endOfInput)
    (mends : ∀ ast, Mends next p [t] ast) :
    Takes t next p n := by
  refine ⟨on, fun ts ast => ?_⟩
  obtain ⟨ws, mends⟩ := mends ast
  obtain ⟨a, ast', least, given⟩ := mends (ws.map spell) [noToken] (words_spell ws) ends
  have coincides := on.coincides (max n least) (by omega) [] ts (ws.map spell ++ [noToken]) ast
  rw [show (p (max n least)).run ⟨[t] ++ (ws.map spell ++ [noToken]), ast⟩ =
    _ from given _ (by omega)] at coincides
  change Coincides _ _ ((p n).run ⟨t :: ts, ast⟩) _ at coincides
  generalize (p n).run ⟨t :: ts, ast⟩ = r at coincides ⊢
  cases coincides with
  | ok u us ast₁ here there =>
    have lengths := congrArg (fun s => s.tokens.length) there
    simp at lengths
  | past past => exact .inr past
  | lacks lacks => exact .inl lacks

end Taking

/-- Nothing is taken, and the catalogue alone decides. -/
theorem predictive_still {α : Type} {next : TokenKind → Prop} {n : Nat} {m : ParseM α}
    (enter : Ast → α × Ast) (still : ∀ tokens ast, m.run ⟨tokens, ast⟩ =
      .ok (enter ast).1 ⟨tokens, (enter ast).2⟩) :
    Predictive [] next (fun _ => m) n := by
  refine ⟨fun ts rest ast spelled _ => ?_, fun t =>
    ⟨fun s _ => ?_, fun k _ us rest rest' ast => ?_, fun us rest ast past => ?_⟩⟩
  · cases List.map_eq_nil_iff.mp spelled
    exact ⟨_, _, ⟨0, fun _ _ => still rest ast⟩, trivial⟩
  · rw [still s.tokens s.ast]
    exact .inr ⟨[], s.tokens, rfl, by simp, rfl⟩
  · rw [still, still]
    exact .ok t us _ rfl rfl
  · rw [still] at past
    obtain ⟨_, rfl, short⟩ := past
    simp only [List.length_append, List.length_cons] at short
    omega

end ScriptKit.Parser
