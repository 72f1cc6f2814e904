import Mathlib.Data.List.Forall2
import ScriptKit.Token.Scanner

/-! A text scanned where it stands elsewhere, or where a line feed, a semicolon and more follow it.

Only a comment in the last line, a word, a number or an operator could run on into what follows, and
each of them ends at the line feed. -/

namespace ScriptKit

inductive Behind where
  | nothing
  | more (text : List Char)

def Behind.text : Behind → List Char
  | nothing => []
  | more cs => '\n' :: ';' :: cs

/-- How two runs of the scanner differ. Offsets count from `here` in the first one and from `there`
in the second, where the text stands `shift` bytes later. Places are compared only if nothing
follows. -/
structure Setting where
  here : Nat
  there : Nat
  shift : Nat
  behind : Behind
  places : Prop
  alone : places → behind = .nothing

namespace Lexeme

theorem while_append (p : Char → Bool) (cs : List Char) {d : Char} (ds : List Char)
    (ends : cs.dropWhile p ≠ [] ∨ p d = false) :
    (cs ++ d :: ds).takeWhile p = cs.takeWhile p ∧
      (cs ++ d :: ds).dropWhile p = cs.dropWhile p ++ d :: ds := by
  induction cs with
  | nil =>
    rcases ends with ends | ends
    · exact absurd rfl ends
    · simp [ends]
  | cons c cs ih =>
    cases here : p c with
    | false => simp [here]
    | true =>
      simp only [List.dropWhile_cons, List.takeWhile_cons, List.cons_append, here, if_true]
        at ends ⊢
      exact ⟨congrArg (c :: ·) (ih ends).1, (ih ends).2⟩

theorem operator?_feed (c : Char) : TokenKind.operator? c '\n' = none := by
  unfold TokenKind.operator?
  split <;> first | rfl | contradiction

theorem string_append {quote : Char} {cs : List Char} {l : Lexeme} (ds : List Char)
    (found : string quote cs = .ok l) :
    string quote (cs ++ '\n' :: ';' :: ds) =
      .ok { l with rest := l.rest ++ '\n' :: ';' :: ds } := by
  unfold string at found ⊢
  dsimp only at found ⊢
  cases closed : cs.dropWhile (· ≠ quote) with
  | nil =>
    rw [closed] at found
    cases found
  | cons closing rest =>
    rw [closed] at found
    cases found
    have ends := while_append (· ≠ quote) cs (d := '\n') (';' :: ds) (.inl (by rw [closed]; simp))
    rw [ends.1, ends.2, closed]
    rfl

/-- A line feed ends whatever token stands before it. -/
theorem read_behind {c : Char} {cs : List Char} {l : Lexeme} (found : read c cs = .ok l)
    (behind : Behind) :
    read c (cs ++ behind.text) = .ok { l with rest := l.rest ++ behind.text } := by
  cases behind with
  | nothing => simpa [Behind.text] using found
  | more ds =>
    have pairs : pair? c (cs ++ '\n' :: ';' :: ds) =
        (pair? c cs).map fun l => { l with rest := l.rest ++ '\n' :: ';' :: ds } := by
      cases cs with
      | nil => simp [pair?, operator?_feed]
      | cons d cs => cases kind : TokenKind.operator? c d <;> simp [pair?, kind]
    simp only [read, Behind.text, pairs] at found ⊢
    cases two : pair? c cs with
    | some l' =>
      rw [two] at found
      cases found
      rfl
    | none =>
      rw [two] at found
      dsimp only [Option.map_none] at found ⊢
      cases one : TokenKind.punctuation? c with
      | some kind =>
        rw [one] at found
        cases found
        rfl
      | none =>
        rw [one] at found
        dsimp only at found ⊢
        by_cases quoted : c = '"' ∨ c = '\''
        · rw [if_pos quoted] at found ⊢
          exact string_append ds found
        · rw [if_neg quoted] at found ⊢
          by_cases digit : c.isDigit = true
          · rw [if_pos digit] at found ⊢
            cases found
            have ends := while_append Char.isDigit cs (d := '\n') (';' :: ds) (.inr (by decide))
            simp only [number, ends.1, ends.2]
          · rw [if_neg digit] at found ⊢
            by_cases letter : isLetter c = true
            · rw [if_pos letter] at found ⊢
              cases found
              have ends :=
                while_append isLetterOrDigit cs (d := '\n') (';' :: ds) (.inr (by decide))
              simp only [word, ends.1, ends.2]
            · rw [if_neg letter] at found
              cases found

theorem kind_read {c : Char} {cs : List Char} {l : Lexeme} (found : read c cs = .ok l) :
    l.kind ≠ .endOfInput := by
  have keyword : ∀ w, (TokenKind.keyword? w).getD .identifier ≠ .endOfInput := by
    intro w
    unfold TokenKind.keyword?
    split <;> simp
  unfold read at found
  split at found
  · rename_i l' two
    cases found
    cases cs with
    | nil => cases two
    | cons d ds =>
      obtain ⟨kind, found, rfl⟩ := Option.map_eq_some_iff.mp two
      rintro rfl
      unfold TokenKind.operator? at found
      split at found <;> cases found
  · split at found
    · rename_i kind one
      cases found
      rintro rfl
      unfold TokenKind.punctuation? at one
      split at one <;> cases one
    · split at found
      · unfold string at found
        dsimp only at found
        split at found
        · cases found
        · cases found
          exact nofun
      · split at found
        · cases found
          exact nofun
        · split at found
          · cases found
            exact keyword _
          · cases found

end Lexeme

namespace Scanner

variable {s : Scanner} {h : Head}

theorem next_unclosed {rest : List Char} {o : Head}
    (passed : skip .blank s.head s.rest = ⟨h, rest, some o⟩) :
    s.next = (.error ⟨.unterminatedComment, ⟨s.base + o.offset, s.base + o.offset + 2⟩, o.place⟩,
      { s with head := h, rest }) := by
  simp only [next, passed]
  rfl

theorem next_end (passed : skip .blank s.head s.rest = ⟨h, [], none⟩) :
    s.next = (.ok ⟨.endOfInput, "", ⟨s.base + h.offset, s.base + h.offset⟩, h.place, h.place⟩,
      { s with head := h, rest := [] }) := by
  simp only [next, passed]

theorem next_ok {c : Char} {cs : List Char} {l : Lexeme}
    (passed : skip .blank s.head s.rest = ⟨h, c :: cs, none⟩) (found : Lexeme.read c cs = .ok l) :
    s.next = (.ok ⟨l.kind, String.ofList l.text,
        ⟨s.base + h.offset, s.base + (h.past l.taken l.rest.head?).offset⟩, h.place,
        (h.past l.taken l.rest.head?).place⟩,
      { s with head := h.past l.taken l.rest.head?, rest := l.rest }) := by
  simp only [next, passed, found]

theorem next_error {c : Char} {cs : List Char} {kind : LexErrorKind}
    (passed : skip .blank s.head s.rest = ⟨h, c :: cs, none⟩)
    (failed : Lexeme.read c cs = .error kind) :
    s.next.1 = .error ⟨kind, ⟨s.base + h.offset, s.base + h.offset + kind.width⟩, h.place⟩ := by
  simp only [next, passed, failed]
  cases kind <;> rfl

theorem tokens_error {s' : Scanner} {e : LexError} (found : s.next = (.error e, s')) :
    s.tokens = .error e := by
  rw [tokens]
  split <;> simp_all

theorem tokens_end {s' : Scanner} {t : Token} (found : s.next = (.ok t, s'))
    (ended : t.kind = .endOfInput) : s.tokens = .ok [t] := by
  rw [tokens]
  split <;> simp_all

theorem tokens_more {s' : Scanner} {t : Token} (found : s.next = (.ok t, s'))
    (more : t.kind ≠ .endOfInput) : s.tokens = s'.tokens.map (t :: ·) := by
  rw [tokens]
  split <;> simp_all

end Scanner

/-- A character that begins no comment. -/
theorem skip_blank_cons {h : Head} {c : Char} {cs : List Char}
    (other : ∀ d, d = '/' ∨ d = '*' → c = '/' → cs.head? ≠ some d) :
    skip .blank h (c :: cs) =
      if isBlank c then skip .blank (h.step c cs.head?) cs else ⟨h, c :: cs, none⟩ := by
  rw [skip]
  · rintro ds rfl rfl
    exact other '/' (.inl rfl) rfl rfl
  · rintro ds rfl rfl
    exact other '*' (.inr rfl) rfl rfl

/-- A character that ends no comment. -/
theorem skip_block_cons {opening h : Head} {c : Char} {cs : List Char}
    (other : c = '*' → cs.head? ≠ some '/') :
    skip (.block opening) h (c :: cs) = skip (.block opening) (h.step c cs.head?) cs := by
  rw [skip]
  rintro ds rfl rfl
  exact other rfl rfl

namespace Setting

variable (S : Setting)

structure Heads (h h' : Head) : Prop where
  offset : S.there + h'.offset = S.shift + (S.here + h.offset)
  place : S.places → h'.place = h.place

inductive Gaps : Gap → Gap → Prop where
  | blank : Gaps .blank .blank
  | line : Gaps .line .line
  | block {o o' : Head} : S.Heads o o' → Gaps (.block o) (.block o')

/-- Both runs stop before the same character, or in an open comment. -/
inductive Stops : Skipped → Skipped → Prop where
  | before {h h' : Head} {c : Char} {cs : List Char} : S.Heads h h' →
      Stops ⟨h, c :: cs, none⟩ ⟨h', c :: cs ++ S.behind.text, none⟩
  | ended {h h' : Head} : S.Heads h h' → S.behind = .nothing → Stops ⟨h, [], none⟩ ⟨h', [], none⟩
  | semicolon {h h' : Head} {cs : List Char} : S.there + h'.offset =
      S.shift + (S.here + h.offset) + 1 →
      S.behind = .more cs → Stops ⟨h, [], none⟩ ⟨h', ';' :: cs, none⟩
  | unclosed {h h' o o' : Head} : S.Heads o o' → S.behind = .nothing →
      Stops ⟨h, [], some o⟩ ⟨h', [], some o'⟩

variable {S} {h h' : Head}

theorem Heads.step (heads : S.Heads h h') (c : Char) {next next' : Option Char}
    (same : S.places → next' = next) : S.Heads (h.step c next) (h'.step c next') where
  offset := by
    have := heads.offset
    simp only [Head.step]
    omega
  place := fun places => by simp only [Head.step, heads.place places, same places]

theorem Heads.past (heads : S.Heads h h') (cs : List Char) {next next' : Option Char}
    (same : S.places → next' = next) : S.Heads (h.past cs next) (h'.past cs next') := by
  fun_induction Head.past h cs next generalizing h' with
  | case1 => exact heads
  | case2 => exact heads.step _ same
  | case3 h next c d cs ih => exact ih (heads.step _ fun _ => rfl) same

theorem head?_behind (cs : List Char) (places : S.places) :
    (cs ++ S.behind.text).head? = cs.head? := by
  rw [S.alone places, Behind.text, List.append_nil]

theorem Heads.over (heads : S.Heads h h') (c : Char) (cs : List Char) :
    S.Heads (h.step c cs.head?) (h'.step c (cs ++ S.behind.text).head?) :=
  heads.step c (head?_behind cs)

/-- What comes behind begins with no mark of a comment. -/
theorem head?_comment {cs : List Char} {d : Char} (mark : d = '/' ∨ d = '*')
    (other : ∀ ds, cs ≠ d :: ds) : (cs ++ S.behind.text).head? ≠ some d := by
  intro first
  cases cs with
  | cons c cs => exact other cs (by rw [Option.some.inj first])
  | nil =>
    cases behind : S.behind with
    | nothing =>
      rw [behind] at first
      cases first
    | more ds =>
      rw [behind] at first
      rcases mark with rfl | rfl <;> cases first

theorem head?_plain {c : Char} {cs : List Char} (noLine : ∀ ds, c = '/' → cs = '/' :: ds → False)
    (noBlock : ∀ ds, c = '/' → cs = '*' :: ds → False) (d : Char) (mark : d = '/' ∨ d = '*')
    (slash : c = '/') : (cs ++ S.behind.text).head? ≠ some d := by
  apply head?_comment mark
  intro ds same
  rcases mark with rfl | rfl
  · exact noLine ds slash same
  · exact noBlock ds slash same

/-- Where the first text ends, the second has a line feed at most before its semicolon. -/
theorem skip_behind (heads : S.Heads h h') {gap : Gap} (free : gap = .blank ∨ gap = .line) :
    S.Stops ⟨h, [], none⟩ (skip gap h' S.behind.text) := by
  cases behind : S.behind with
  | nothing => rcases free with rfl | rfl <;> exact .ended heads behind
  | more cs =>
    have offset := heads.offset
    have stops : S.Stops ⟨h, [], none⟩ ⟨h'.step '\n' (some ';'), ';' :: cs, none⟩ :=
      .semicolon (by simp only [Head.step]; have : '\n'.utf8Size = 1 := rfl; omega) behind
    have semicolon : ∀ h, skip .blank h (';' :: cs) = ⟨h, ';' :: cs, none⟩ := fun h =>
      skip_blank_cons (fun _ _ => nofun)
    have feed : skip .blank h' ('\n' :: ';' :: cs) =
        skip .blank (h'.step '\n' (some ';')) (';' :: cs) :=
      (skip_blank_cons (c := '\n') fun _ _ => nofun).trans (if_pos rfl)
    rcases free with rfl | rfl
    · rw [Behind.text, feed, semicolon]
      exact stops
    · rw [Behind.text, skip, if_pos (.inl rfl), semicolon]
      exact stops

theorem skip_beside (gap gap' : Gap) (gaps : S.Gaps gap gap') (h h' : Head) (heads : S.Heads h h')
    (cs : List Char) (closed : S.behind = .nothing ∨ (skip gap h cs).unclosed = none) :
    S.Stops (skip gap h cs) (skip gap' h' (cs ++ S.behind.text)) := by
  fun_induction skip gap h cs generalizing gap' h' with
  | case1 h =>
    cases gaps
    exact skip_behind heads (.inl rfl)
  | case2 h cs ih =>
    cases gaps
    simp only [List.cons_append, skip]
    exact ih _ .line _ ((heads.over '/' ('/' :: cs)).over '/' cs) closed
  | case3 h cs ih =>
    cases gaps
    simp only [List.cons_append, skip]
    exact ih _ (.block heads) _ ((heads.over '/' ('*' :: cs)).over '*' cs) closed
  | case4 h c cs noLine noBlock blank ih =>
    cases gaps
    rw [List.cons_append, skip_blank_cons (head?_plain noLine noBlock), if_pos blank]
    exact ih _ .blank _ (heads.over c cs) closed
  | case5 h c cs noLine noBlock blank =>
    cases gaps
    rw [List.cons_append, skip_blank_cons (head?_plain noLine noBlock), if_neg blank]
    exact .before heads
  | case6 h =>
    cases gaps
    exact skip_behind heads (.inr rfl)
  | case7 h c cs ih =>
    cases gaps
    simp only [List.cons_append, skip]
    refine ih _ ?_ _ (heads.over c cs) closed
    split
    · exact .blank
    · exact .line
  | case8 opening h =>
    cases gaps with
    | block openings =>
    rcases closed with nothing | closed
    · rw [nothing]
      exact .unclosed openings nothing
    · cases closed
  | case9 opening h cs ih =>
    cases gaps
    simp only [List.cons_append, skip]
    exact ih _ .blank _ ((heads.over '*' ('/' :: cs)).over '/' cs) closed
  | case10 opening h c cs other ih =>
    cases gaps with
    | block openings =>
    rw [List.cons_append, skip_block_cons fun star => head?_comment (.inl rfl) fun ds =>
      other ds star]
    exact ih _ (.block openings) _ (heads.over c cs) closed

structure Beside (S : Setting) (s s' : Scanner) : Prop where
  here : s.base = S.here
  there : s'.base = S.there
  heads : S.Heads s.head s'.head
  rest : s'.rest = s.rest ++ S.behind.text

structure Tokens (S : Setting) (t t' : Token) : Prop where
  kind : t'.kind = t.kind
  text : t'.text = t.text
  span : t'.span = ⟨S.shift + t.span.start, S.shift + t.span.stop⟩
  places : S.places → t'.first = t.first ∧ t'.last = t.last

structure Errors (S : Setting) (e e' : LexError) : Prop where
  kind : e'.kind = e.kind
  span : e'.span = ⟨S.shift + e.span.start, S.shift + e.span.stop⟩
  place : S.places → e'.place = e.place

variable {s s' : Scanner}

theorem Beside.skip (beside : S.Beside s s')
    (closed : S.behind = .nothing ∨ (ScriptKit.skip .blank s.head s.rest).unclosed = none) :
    S.Stops (ScriptKit.skip .blank s.head s.rest) (ScriptKit.skip .blank s'.head s'.rest) := by
  rw [beside.rest]
  exact skip_beside _ _ .blank _ _ beside.heads _ closed

theorem Beside.next {t : Token} {s₁ : Scanner} (beside : S.Beside s s')
    (found : s.next = (.ok t, s₁)) (more : t.kind ≠ .endOfInput) :
    ∃ t' s₁', s'.next = (.ok t', s₁') ∧ S.Tokens t t' ∧ S.Beside s₁ s₁' := by
  cases passed : ScriptKit.skip .blank s.head s.rest with
  | mk h rest unclosed =>
    cases unclosed with
    | some o =>
      rw [Scanner.next_unclosed passed] at found
      cases found
    | none =>
      have stops := beside.skip (.inr (by rw [passed]))
      rw [passed] at stops
      generalize passed' : ScriptKit.skip .blank s'.head s'.rest = p' at stops
      cases stops with
      | ended | semicolon =>
        rw [Scanner.next_end passed] at found
        cases found
        exact absurd rfl more
      | @before _ h' c cs heads =>
        cases cut : Lexeme.read c cs with
        | error kind =>
          have failed := Scanner.next_error passed cut
          rw [found] at failed
          cases failed
        | ok l =>
          rw [Scanner.next_ok passed cut] at found
          cases found
          have heads' : S.Heads (h.past l.taken l.rest.head?)
              (h'.past l.taken (l.rest ++ S.behind.text).head?) :=
            heads.past l.taken (head?_behind l.rest)
          refine ⟨_, _, Scanner.next_ok passed' (Lexeme.read_behind cut S.behind), ?_, ?_⟩
          · constructor
            case kind | text => rfl
            case span =>
              have := heads.offset
              have := heads'.offset
              simp only [beside.here, beside.there, Span.mk.injEq]
              omega
            case places => exact fun places => ⟨heads.place places, heads'.place places⟩
          · exact ⟨beside.here, beside.there, heads', rfl⟩

theorem Beside.next_error {e : LexError} {s₁ : Scanner} (beside : S.Beside s s')
    (alone : S.behind = .nothing) (found : s.next = (.error e, s₁)) :
    ∃ e' s₁', s'.next = (.error e', s₁') ∧ S.Errors e e' := by
  have stops := beside.skip (.inl alone)
  generalize passed : ScriptKit.skip .blank s.head s.rest = p at stops
  generalize passed' : ScriptKit.skip .blank s'.head s'.rest = p' at stops
  have moved : ∀ {h h' : Head} (kind : LexErrorKind), S.Heads h h' → S.Errors
      ⟨kind, ⟨s.base + h.offset, s.base + h.offset + kind.width⟩, h.place⟩
      ⟨kind, ⟨s'.base + h'.offset, s'.base + h'.offset + kind.width⟩, h'.place⟩ := by
    intro h h' kind heads
    have := heads.offset
    refine ⟨rfl, ?_, heads.place⟩
    simp only [beside.here, beside.there, Span.mk.injEq]
    omega
  cases stops with
  | ended | semicolon =>
    rw [Scanner.next_end passed] at found
    cases found
  | unclosed openings =>
    rw [Scanner.next_unclosed passed] at found
    cases found
    exact ⟨_, _, Scanner.next_unclosed passed', moved .unterminatedComment openings⟩
  | @before h h' c cs heads =>
    cases cut : Lexeme.read c cs with
    | ok l =>
      rw [Scanner.next_ok passed cut] at found
      cases found
    | error kind =>
      have cut' : Lexeme.read c (cs ++ S.behind.text) = .error kind := by
        rw [alone, Behind.text, List.append_nil, cut]
      have failed := Scanner.next_error passed cut
      rw [found] at failed
      cases failed
      exact ⟨_, s'.next.2, Prod.ext (Scanner.next_error passed' cut') rfl, moved kind heads⟩

theorem Beside.next_end {t : Token} {s₁ : Scanner} (beside : S.Beside s s')
    (found : s.next = (.ok t, s₁)) (ended : t.kind = .endOfInput) :
    ∃ t' s₁', s'.next = (.ok t', s₁') ∧
      ((S.behind = .nothing ∧ t'.kind = .endOfInput ∧ S.Tokens t t') ∨
        (t'.kind = .semicolon ∧ S.behind = .more s₁'.rest ∧ s₁'.base = S.there ∧
          S.there + s₁'.head.offset = S.shift + t.span.start + 2)) := by
  cases passed : ScriptKit.skip .blank s.head s.rest with
  | mk h rest unclosed =>
    cases unclosed with
    | some o =>
      rw [Scanner.next_unclosed passed] at found
      cases found
    | none =>
      have stops := beside.skip (.inr (by rw [passed]))
      rw [passed] at stops
      generalize passed' : ScriptKit.skip .blank s'.head s'.rest = p' at stops
      cases stops with
      | @before _ h' c cs heads =>
        cases cut : Lexeme.read c cs with
        | error kind =>
          have failed := Scanner.next_error passed cut
          rw [found] at failed
          cases failed
        | ok l =>
          rw [Scanner.next_ok passed cut] at found
          cases found
          exact absurd ended (Lexeme.kind_read cut)
      | @ended _ h' heads alone =>
        rw [Scanner.next_end passed] at found
        cases found
        refine ⟨_, _, Scanner.next_end passed', .inl ⟨alone, rfl, rfl, rfl, ?_, ?_⟩⟩
        · have := heads.offset
          simp only [beside.here, beside.there, Span.mk.injEq]
          omega
        · exact fun places => ⟨heads.place places, heads.place places⟩
      | @semicolon _ h' cs offset more =>
        rw [Scanner.next_end passed] at found
        cases found
        have cut : Lexeme.read ';' cs = .ok ⟨.semicolon, [';'], [';'], cs⟩ := by
          cases cs <;> rfl
        refine ⟨_, _, Scanner.next_ok passed' cut, .inr ⟨rfl, more, beside.there, ?_⟩⟩
        have : ';'.utf8Size = 1 := rfl
        simp only [Head.past, Head.step, beside.here]
        omega

inductive Follows (S : Setting) (s' : Scanner) (us' : List Token) (last : Token) : Prop where
  | nothing (last' : Token) : S.behind = .nothing → S.Tokens last last' →
      s'.tokens = .ok (us' ++ [last']) →
      Follows S s' us' last
  | more (semi : Token) (j : Scanner) : semi.kind = .semicolon → S.behind = .more j.rest →
      j.base = S.there →
      S.there + j.head.offset = S.shift + last.span.start + 2 →
      s'.tokens = j.tokens.map (us' ++ semi :: ·) → Follows S s' us' last

theorem Beside.tokens_ok (beside : S.Beside s s') {ts : List Token} (scanned : s.tokens = .ok ts) :
    ∃ us last us', ts = us ++ [last] ∧ last.kind = .endOfInput ∧ (∀ t ∈ us, t.kind ≠ .endOfInput) ∧
      List.Forall₂ S.Tokens us us' ∧ S.Follows s' us' last := by
  fun_induction Scanner.tokens s generalizing s' ts with
  | case1 s e s₁ found => cases scanned
  | case2 s t s₁ found ended =>
    cases scanned
    obtain ⟨t', s₁', found', outcome⟩ := beside.next_end found ended
    refine ⟨[], t, [], rfl, ended, by simp, .nil, ?_⟩
    rcases outcome with ⟨alone, ended', same⟩ | ⟨semi, more, base, offset⟩
    · exact .nothing t' alone same (Scanner.tokens_end found' ended')
    · exact .more t' s₁' semi more base offset (Scanner.tokens_more found' (by rw [semi]; decide))
  | case3 s t s₁ found more ih =>
    obtain ⟨t', s₁', found', same, beside'⟩ := beside.next found more
    cases scanned' : s₁.tokens with
    | error e =>
      rw [scanned'] at scanned
      cases scanned
    | ok ts =>
      rw [scanned'] at scanned
      cases scanned
      obtain ⟨us, last, us', rfl, ended, only, each, follows⟩ := ih beside' scanned'
      have more' : t'.kind ≠ .endOfInput := by rw [same.kind]; exact more
      refine ⟨t :: us, last, t' :: us', rfl, ended, List.forall_mem_cons.mpr ⟨more, only⟩,
        .cons same each, ?_⟩
      cases follows with
      | nothing last' alone same rest =>
        exact .nothing last' alone same (by rw [Scanner.tokens_more found' more', rest]; rfl)
      | more semi j kind behind base offset rest =>
        refine .more semi j kind behind base offset ?_
        rw [Scanner.tokens_more found' more', rest]
        cases j.tokens <;> rfl

theorem Beside.tokens_error (beside : S.Beside s s') (alone : S.behind = .nothing) {e : LexError}
    (failed : s.tokens = .error e) : ∃ e', s'.tokens = .error e' ∧ S.Errors e e' := by
  fun_induction Scanner.tokens s generalizing s' with
  | case1 s e' s₁ found =>
    cases failed
    obtain ⟨e', s₁', found', same⟩ := beside.next_error alone found
    exact ⟨e', Scanner.tokens_error found', same⟩
  | case2 s t s₁ found ended => cases failed
  | case3 s t s₁ found more ih =>
    obtain ⟨t', s₁', found', same, beside'⟩ := beside.next found more
    cases failed' : s₁.tokens with
    | ok ts =>
      rw [failed'] at failed
      cases failed
    | error e' =>
      rw [failed'] at failed
      cases failed
      obtain ⟨e', rest, same'⟩ := ih beside' failed'
      have more' : t'.kind ≠ .endOfInput := by rw [same.kind]; exact more
      exact ⟨e', by rw [Scanner.tokens_more found' more', rest]; rfl, same'⟩

end Setting

section Bytes

theorem byteLength_append (cs ds : List Char) :
    byteLength (cs ++ ds) = byteLength cs + byteLength ds := by
  induction cs with
  | nil => simp [byteLength]
  | cons c cs ih =>
    simp only [byteLength, List.cons_append, List.foldr_cons] at ih ⊢
    omega

theorem byteLength_cons (c : Char) (cs : List Char) :
    byteLength (c :: cs) = c.utf8Size + byteLength cs := rfl

theorem skip_bytes (gap : Gap) (h : Head) (cs : List Char) :
    (skip gap h cs).head.offset + byteLength (skip gap h cs).rest = h.offset + byteLength cs := by
  fun_induction skip gap h cs <;> simp_all [byteLength_cons, Head.step] <;> omega

theorem Head.offset_past (h : Head) (cs : List Char) (next : Option Char) :
    (h.past cs next).offset = h.offset + byteLength cs := by
  fun_induction Head.past h cs next with
  | case1 => rfl
  | case2 => rfl
  | case3 h next c d cs ih =>
    rw [ih]
    simp only [byteLength_cons, Head.step]
    omega

theorem Lexeme.taken_read {c : Char} {cs : List Char} {l : Lexeme} (found : read c cs = .ok l) :
    l.taken ++ l.rest = c :: cs := by
  unfold read at found
  split at found
  · rename_i l' two
    cases found
    cases cs with
    | nil => cases two
    | cons d ds =>
      obtain ⟨kind, found, rfl⟩ := Option.map_eq_some_iff.mp two
      rfl
  · split at found
    · cases found
      rfl
    · split at found
      · unfold string at found
        dsimp only at found
        split at found
        · cases found
        · rename_i closing rest closed
          cases found
          simp only [List.cons_append, List.append_assoc, List.nil_append]
          rw [← closed, List.takeWhile_append_dropWhile]
      · split at found
        · cases found
          simp only [number, List.cons_append, List.takeWhile_append_dropWhile]
        · split at found
          · cases found
            simp only [word, List.cons_append, List.takeWhile_append_dropWhile]
          · cases found

namespace Scanner

def stop (s : Scanner) : Nat := s.base + s.head.offset + byteLength s.rest

theorem next_within {s s₁ : Scanner} {t : Token} (found : s.next = (.ok t, s₁)) :
    t.span.start ≤ s.stop ∧ t.span.stop ≤ s.stop ∧ s₁.stop = s.stop ∧
      (t.kind = .endOfInput → t.span.start = s.stop) := by
  have bytes := skip_bytes .blank s.head s.rest
  cases passed : skip .blank s.head s.rest with
  | mk h rest unclosed =>
    rw [passed] at bytes
    dsimp only at bytes
    cases unclosed with
    | some o =>
      rw [next_unclosed passed] at found
      cases found
    | none =>
      cases rest with
      | nil =>
        rw [next_end passed] at found
        cases found
        simp only [stop, byteLength, List.foldr_nil] at bytes ⊢
        omega
      | cons c cs =>
        cases cut : Lexeme.read c cs with
        | error kind =>
          have failed := next_error passed cut
          rw [found] at failed
          cases failed
        | ok l =>
          rw [next_ok passed cut] at found
          cases found
          have taken := Lexeme.taken_read cut
          rw [← taken, byteLength_append] at bytes
          have past := h.offset_past l.taken l.rest.head?
          refine ⟨?_, ?_, ?_, fun ended => absurd ended (Lexeme.kind_read cut)⟩ <;>
            simp only [stop] <;> omega

theorem tokens_within {s : Scanner} {ts : List Token} (scanned : s.tokens = .ok ts) :
    ∀ t ∈ ts, t.span.start ≤ s.stop ∧ t.span.stop ≤ s.stop ∧
      (t.kind = .endOfInput → t.span.start = s.stop) := by
  fun_induction tokens s generalizing ts with
  | case1 s e s₁ found => cases scanned
  | case2 s t s₁ found ended =>
    cases scanned
    have within := next_within found
    simpa using ⟨within.1, within.2.1, within.2.2.2⟩
  | case3 s t s₁ found more ih =>
    have within := next_within found
    cases scanned' : s₁.tokens with
    | error e =>
      rw [scanned'] at scanned
      cases scanned
    | ok us =>
      rw [scanned'] at scanned
      cases scanned
      have rest := ih scanned'
      rw [within.2.2.1] at rest
      exact List.forall_mem_cons.mpr ⟨⟨within.1, within.2.1, within.2.2.2⟩, rest⟩

end Scanner

end Bytes

end ScriptKit
