import ScriptKit.Proofs.Token.Places

/-! Sources joined by a line feed.

A blank ends whatever stands before it, unless a string or a comment is still open there, and a line
feed also ends a comment in its line. So what comes behind the line feed is cut as it would be on
its own, only further down. -/

namespace ScriptKit
open Piece

namespace Piece

variable {p q : Piece} {d : Char} {taken rest more front back body tail : List Char}

theorem ne_of_blank {c : Char} (blank : isBlank d = true) (other : isBlank c = false) : d ≠ c := by
  rintro rfl
  rw [blank] at other
  cases other

theorem prefix_of_not_mem (same : front ++ d :: back = body ++ tail) (apart : d ∉ tail) :
    front <+: body := by
  rcases List.append_eq_append_iff.mp same with ⟨between, rfl, -⟩ | ⟨between, -, rfl⟩
  · exact List.prefix_append ..
  · exact absurd (by simp) apart

theorem not_operator_blank {c : Char} (blank : isBlank d = true) :
    TokenKind.operator? c d = none := by
  unfold TokenKind.operator?
  split <;> first | rfl | cases blank

theorem not_letter_blank (blank : isBlank d = true) : isLetterOrDigit d = false := by
  simp only [isBlank, Bool.or_eq_true, decide_eq_true_eq] at blank
  rcases blank with (((rfl | rfl) | rfl) | rfl) | rfl <;> rfl

/-- What stands before a blank inside of a piece is a string or a comment that is not yet at its
end. -/
theorem Spelled.before_blank (spelled : q.Spelled (front ++ d :: back)) (blank : isBlank d = true)
    (begun : front ≠ []) :
    Piece.openString.Spelled front ∨ Piece.openComment.Spelled front ∨
      Piece.comment.Spelled front ∧ d ≠ '\n' ∧ d ≠ '\r' := by
  obtain ⟨c, front, rfl⟩ := List.exists_cons_of_ne_nil begun
  obtain ⟨o, _, cs, whole, has, shape⟩ := spelled.exists_shape
  obtain ⟨rfl, same⟩ : c = _ ∧ front ++ d :: back = cs := List.cons.inj whole
  have inside : d ∈ cs := by
    rw [← same]
    simp
  cases o with
  | blank =>
    rw [shape.2] at inside
    cases inside
  | digit =>
    have digit : Opening.digit.Has d := shape.2 d inside
    have other : Opening.blank.Has d := blank
    cases digit.unique other
  | letter =>
    have letter := shape.2 d inside
    rw [not_letter_blank blank] at letter
    cases letter
  | quote =>
    refine .inl (.openString has fun member => ?_)
    rcases shape with ⟨body, -, rfl, free⟩ | ⟨-, free⟩
    · have quoted : d ≠ c := by rcases has with rfl | rfl <;> exact ne_of_blank blank rfl
      exact free ((prefix_of_not_mem same (by simpa using quoted)).subset member)
    · rw [← same] at free
      exact free (List.mem_append_left _ member)
  | mark =>
    -- The second character of a comment is no blank, so it stands in front of this one.
    have second : ∀ {e : Char} {tail : List Char}, isBlank e = false → cs = e :: tail →
        ∃ rest, front = e :: rest ∧ rest ++ d :: back = tail := by
      rintro e tail other rfl
      cases front with
      | nil => exact absurd (List.cons.inj same).1 (ne_of_blank blank other)
      | cons f front =>
        obtain ⟨rfl, others⟩ := List.cons.inj same
        exact ⟨front, rfl, others⟩
    rcases shape with ⟨_, -, -, rfl⟩ | ⟨e, _, found, -, rfl⟩ | ⟨rfl, -, body, ahead, plain⟩ |
      ⟨rfl, -, body, ahead, unclosed⟩ | ⟨rfl, -, body, ahead, unclosed⟩
    · cases inside
    · rw [not_operator_blank (List.mem_singleton.mp inside ▸ blank)] at found
      cases found
    · obtain ⟨rest, rfl, rfl⟩ := second rfl ahead
      exact .inr (.inr ⟨.line fun e member => plain e (List.mem_append_left _ member),
        plain d (by simp)⟩)
    · obtain ⟨rest, rfl, behind⟩ := second rfl ahead
      have apart : d ∉ ['*', '/'] := by
        simp [ne_of_blank blank (c := '*') rfl, ne_of_blank blank (c := '/') rfl]
      have within := (prefix_of_not_mem behind apart).trans (List.prefix_append body ['*'])
      exact .inr (.inl (.openComment fun closed => unclosed (closed.trans within.isInfix)))
    · obtain ⟨rest, rfl, rfl⟩ := second rfl ahead
      have within := (List.prefix_append rest (d :: back)).isInfix
      exact .inr (.inl (.openComment fun closed => unclosed (closed.trans within)))

/-- A blank keeps a piece from growing. A comment in a line grows until the line ends. -/
theorem Longest.before_blank (longest : p.Longest taken rest) (whole : p.IsWhole)
    (blank : isBlank d = true) (ends : p = .comment → d = '\n' ∨ d = '\r') :
    p.Longest taken (rest ++ d :: more) where
  spelled := longest.spelled
  longest := by
    intro q other spelled ahead
    rw [← List.append_assoc] at ahead
    by_cases short : other.length ≤ (taken ++ rest).length
    · exact longest.longest q other spelled
        (List.prefix_of_prefix_length_le ahead (List.prefix_append ..) short)
    · have behind : taken ++ rest ++ [d] <+: other := by
        refine List.prefix_of_prefix_length_le ⟨more, by simp⟩ ahead ?_
        rw [List.length_append, List.length_singleton]
        omega
      obtain ⟨back, rfl⟩ := behind
      rw [List.append_assoc, List.singleton_append] at spelled
      -- All of the text up to the blank would be one piece, and so the piece that was taken.
      have all : ∀ {r : Piece}, r.Spelled (taken ++ rest) → p = r := by
        intro r front
        have full := longest.longest r _ front (List.prefix_refl _)
        have none : rest = [] := by simpa using full
        rw [none, List.append_nil] at front
        exact longest.spelled.unique front
      rcases spelled.before_blank blank (by simp [longest.spelled.ne_nil]) with
        string | comment | ⟨line, feed, back⟩
      · rw [all string] at whole
        cases whole
      · rw [all comment] at whole
        cases whole
      · exact absurd (ends (all line)) (by simp [feed, back])

end Piece

/-- A text that is cut to its end is cut so in front of a line feed too. -/
theorem Cuts.before_feed {cs : List Char} {cut : List Stretch} (cuts : Cuts [] cs cut)
    (more : List Char) :
    Cuts ('\n' :: more) (cs ++ '\n' :: more) cut := by
  induction cuts with
  | nil => exact .nil
  | cons longest whole _ ih =>
    rw [List.append_assoc]
    exact .cons (longest.before_blank whole rfl fun _ => .inl rfl) whole ih

def Place.below (lines : Nat) (p : Place) : Place :=
  ⟨lines + p.line, p.column⟩

def Token.onward (bytes lines : Nat) (t : Token) : Token where
  kind := t.kind
  text := t.text
  span := ⟨bytes + t.span.start, bytes + t.span.stop⟩
  first := t.first.below lines
  last := t.last.below lines

def LexError.onward (bytes lines : Nat) (e : LexError) : LexError where
  kind := e.kind
  span := ⟨bytes + e.span.start, bytes + e.span.stop⟩
  place := e.place.below lines

namespace Head

variable {bytes lines : Nat}

def onward (bytes lines : Nat) (h : Head) : Head :=
  ⟨bytes + h.offset, h.place.below lines⟩

theorem step_onward (h : Head) (c : Char) (next : Option Char) :
    (h.onward bytes lines).step c next = (h.step c next).onward bytes lines := by
  simp only [step, onward, Place.step, Place.below, Place.nextLine, Head.mk.injEq]
  refine ⟨Nat.add_assoc .., ?_⟩
  split
  · rfl
  · split
    · split <;> rfl
    · rfl

theorem past_onward (h : Head) (cs : List Char) (next : Option Char) :
    (h.onward bytes lines).past cs next = (h.past cs next).onward bytes lines := by
  induction cs generalizing h with
  | nil => rfl
  | cons c cs ih => rw [past_cons, past_cons, step_onward, ih]

/-- Only behind a carriage return it matters what follows. -/
theorem past_of_last {cs : List Char} (last : cs.getLast? ≠ some '\r') (h : Head)
    (next next' : Option Char) :
    h.past cs next = h.past cs next' := by
  fun_induction past h cs next with
  | case1 => rfl
  | case2 h c next =>
    have plain : c ≠ '\r' := by simpa using last
    simp only [past, step, Place.step, if_neg plain]
  | case3 h next c d cs ih => exact ih (by simpa using last)

/-- Behind a line feed a new line begins. -/
theorem past_feed (cs : List Char) (next : Option Char) :
    start.past (cs ++ ['\n']) next =
      start.onward (byteLength cs + 1) (lineColumn (cs ++ ['\n']) (byteLength cs)).line := by
  rw [past_append, lineColumn_append]
  simp only [past, step, onward, Head.mk.injEq]
  exact ⟨congrArg (· + 1) (start_past cs _), rfl⟩

end Head

section Joining

variable {base bytes lines : Nat} {cs : List Char} {cut : List Stretch}

theorem tokensFrom_onward (h : Head) (cut : List Stretch) :
    tokensFrom base (h.onward bytes lines) cut =
      (tokensFrom base h cut).map (Token.onward bytes lines) := by
  induction cut generalizing h with
  | nil =>
    simp only [tokensFrom, Head.endOfInput, Head.onward, List.map_cons, List.map_nil, Token.onward,
      Nat.add_left_comm]
  | cons s cut ih =>
    obtain ⟨piece, chars⟩ := s
    rw [tokensFrom, tokensFrom, Head.past_onward, ih, List.map_append]
    congr 1
    cases piece with
    | token kind text =>
      simp only [Stretch.token?, Head.onward, Option.toList_some, List.map_cons, List.map_nil,
        Token.onward, Nat.add_left_comm]
    | _ => rfl

theorem error_onward (h : Head) (kind : LexErrorKind) :
    (h.onward bytes lines).error base kind = (h.error base kind).onward bytes lines := by
  simp only [Head.error, Head.onward, LexError.onward, Nat.add_left_comm, Nat.add_assoc]

/-- No token ends with a carriage return. -/
theorem getLast?_token {kind : TokenKind} {text taken : List Char}
    (spelled : (Piece.token kind text).Spelled taken) :
    taken.getLast? ≠ some '\r' := by
  intro last
  have member := List.mem_of_getLast? last
  have unnamed : ∀ cs : List Char, '\r' ∈ cs → isIdentifier cs ≠ true := by
    rintro (_ | ⟨c, cs⟩) inside name
    · cases inside
    · obtain ⟨first, others⟩ := Bool.and_eq_true_iff.mp name
      rcases List.mem_cons.mp inside with rfl | later
      · cases first
      · cases List.all_eq_true.mp others _ later
  cases spelled with
  | pair sign same =>
    cases Option.some.inj last
    have found := TokenKind.operator?_eq_some_iff.mpr ⟨sign, same⟩
    rw [not_operator_blank rfl] at found
    cases found
  | single same =>
    cases Option.some.inj last
    cases TokenKind.punctuation?_eq_some_iff.mpr same
  | string quote inside =>
    rw [← List.cons_append, List.getLast?_concat] at last
    rcases quote with rfl | rfl <;> cases last
  | number digits => cases digits _ member
  | keyword reserved => exact unnamed _ member (TokenKind.isIdentifier_describe reserved)
  | name name _ => exact unnamed _ member name

/-- Tokens are the same whatever follows, only that the input goes on. -/
theorem tokensFrom_append (base : Nat) (cuts : Cuts [] cs cut) (cut' : List Stretch) (h : Head) :
    ∃ us last, tokensFrom base h cut = us ++ [last] ∧ last.kind = .endOfInput ∧
      tokensFrom base h (cut ++ cut') =
        us ++ tokensFrom base (h.past cs (joined cut').head?) cut' := by
  induction cuts generalizing h with
  | nil => exact ⟨[], _, rfl, rfl, rfl⟩
  | @cons p taken rest cut longest whole more ih =>
    have joins : joined cut = rest := by simpa using more.text.symm
    have split : tokensFrom base h (⟨p, taken⟩ :: cut) =
        (Stretch.token? ⟨p, taken⟩ base h (h.past taken rest.head?)).toList ++
          tokensFrom base (h.past taken rest.head?) cut := by
      rw [tokensFrom, joins]
    have split' : tokensFrom base h (⟨p, taken⟩ :: (cut ++ cut')) =
        (Stretch.token? ⟨p, taken⟩ base h (h.past taken (rest ++ joined cut').head?)).toList ++
          tokensFrom base (h.past taken (rest ++ joined cut').head?) (cut ++ cut') := by
      rw [tokensFrom, joined_append, joins]
    rw [List.cons_append, split, split', Head.past_append, ← List.head?_append]
    cases p with
    | openString | openComment => cases whole
    | token kind text =>
      have stop :=
        Head.past_of_last (getLast?_token longest.spelled) h rest.head? (rest ++ joined cut').head?
      obtain ⟨us, last, same, ended, goes⟩ := ih (h.past taken (rest ++ joined cut').head?)
      rw [stop, same, goes]
      exact ⟨_ :: us, last, rfl, ended, rfl⟩
    | blank | comment =>
      cases rest with
      | nil =>
        -- A carriage return at the end of the text is one with a line feed behind it.
        obtain ⟨rfl, -⟩ := more.unique .nil (.inl rfl) (.inl rfl)
        exact ⟨[], _, rfl, rfl, rfl⟩
      | cons c rest => exact ih _

/-- How far the text behind a line feed is moved. -/
theorem past_behind_feed (cs ds : List Char) (next : Option Char) :
    Head.start.past (cs ++ '\n' :: ds) next = (Head.start.past ds next).onward (byteLength cs + 1)
      (lineColumn (cs ++ ['\n']) (byteLength cs)).line := by
  rw [List.append_cons, Head.past_append, Head.past_feed, Head.past_onward]

theorem tokensFrom_behind_feed (cs : List Char) (cut : List Stretch) :
    tokensFrom base (Head.start.past cs (some '\n')) (⟨.blank, ['\n']⟩ :: cut) =
      (tokensFrom base .start cut).map (.onward (byteLength cs + 1)
        (lineColumn (cs ++ ['\n']) (byteLength cs)).line) := by
  have feed := Head.past_append .start cs ['\n'] (joined cut).head?
  rw [Head.past_feed] at feed
  rw [← tokensFrom_onward, feed]
  rfl

def lastLine (text : String) : Nat :=
  (lineColumn (text ++ "\n").toList text.utf8ByteSize).line

/-- A source that scans, a line feed and any other source: the tokens of the first without its end
are followed by those of the second, or else the second one's error comes out. -/
theorem scan_behind_feed {a : String} {base : Nat} {ts : List Token}
    (scanned : scan a base = .ok ts) (b : String) :
    ∃ us last, ts = us ++ [last] ∧ last.kind = .endOfInput ∧
      scan (a ++ "\n" ++ b) base =
        match scan b base with
        | .ok vs => .ok (us ++ vs.map (.onward (a.utf8ByteSize + 1) (lastLine a)))
        | .error e => .error (e.onward (a.utf8ByteSize + 1) (lastLine a)) := by
  obtain ⟨cut, cuts, rfl⟩ := (scan_eq_ok_iff a base ts).mp scanned
  have text : (a ++ "\n" ++ b).toList = a.toList ++ '\n' :: b.toList := by simp
  have feed : (a ++ "\n").toList = a.toList ++ ['\n'] := by simp
  have front : ∀ {last cut'}, Cuts last b.toList cut' →
      Cuts last (a ++ "\n" ++ b).toList (cut ++ ⟨.blank, ['\n']⟩ :: cut') := by
    intro last cut' cuts'
    rw [text]
    exact (cuts.before_feed b.toList).append (.cons (longest_blank rfl) trivial cuts')
  rw [lastLine, feed, ← byteLength_toList]
  cases other : scan b base with
  | ok vs =>
    obtain ⟨cut', cuts', rfl⟩ := (scan_eq_ok_iff b base vs).mp other
    obtain ⟨us, last, same, ended, goes⟩ :=
      tokensFrom_append base cuts (⟨.blank, ['\n']⟩ :: cut') .start
    refine ⟨us, last, same, ended, (scan_eq_ok_iff _ base _).mpr ⟨_, front cuts', ?_⟩⟩
    rw [goes, ← tokensFrom_behind_feed]
    rfl
  | error e =>
    obtain ⟨cut', rest, kind, cuts', stuck, rfl⟩ := (scan_eq_error_iff b base e).mp other
    obtain ⟨us, last, same, ended, -⟩ := tokensFrom_append base cuts [] .start
    refine ⟨us, last, same, ended,
      (scan_eq_error_iff _ base _).mpr ⟨_, rest, kind, front cuts', stuck, ?_⟩⟩
    have whole : joined (cut ++ ⟨.blank, ['\n']⟩ :: cut') = a.toList ++ '\n' :: joined cut' := by
      have first := cuts.text
      rw [List.append_nil] at first
      rw [joined_append, ← first]
      rfl
    rw [whole, past_behind_feed, error_onward]

/-- The first source ends in a comment and a lone carriage return, with the first half of an
operator before them. -/
theorem scan_behind_feed_return :
    ∃ ts, scan "1a < // '\r" 7 = .ok ts ∧ ∃ us last, ts = us ++ [last] ∧ last.kind = .endOfInput ∧
      scan ("1a < // '\r" ++ "\n" ++ "= 'b\n' ' ") 7 =
        match scan "= 'b\n' ' " 7 with
        | .ok vs =>
          .ok (us ++ vs.map (.onward ("1a < // '\r".utf8ByteSize + 1) (lastLine "1a < // '\r")))
        | .error e =>
          .error (e.onward ("1a < // '\r".utf8ByteSize + 1) (lastLine "1a < // '\r")) := by
  have scans : (scan "1a < // '\r" 7).isOk = true := by decide +kernel
  cases scanned : scan "1a < // '\r" 7 with
  | error e =>
    rw [scanned] at scans
    cases scans
  | ok ts => exact ⟨ts, rfl, scan_behind_feed scanned _⟩

end Joining

end ScriptKit
