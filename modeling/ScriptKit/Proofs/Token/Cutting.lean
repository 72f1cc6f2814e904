import Mathlib.Data.List.TakeWhile
import ScriptKit.Proofs.Token.Elsewhere
import ScriptKit.Proofs.Token.Pieces

/-! The scanner cuts a text into its longest pieces.

Blanks and comments are passed over piece by piece, and then one token is read. Behind each piece
the scanner's head is where the characters so far lead, so the cut alone tells all tokens. -/

namespace ScriptKit
open Piece

namespace Head

theorem past_cons (h : Head) (c : Char) (cs : List Char) (next : Option Char) :
    h.past (c :: cs) next = (h.step c (cs.head?.or next)).past cs next := by
  cases cs <;> rfl

theorem past_append (h : Head) (cs ds : List Char) (next : Option Char) :
    h.past (cs ++ ds) next = (h.past cs (ds.head?.or next)).past ds next := by
  induction cs generalizing h with
  | nil => rfl
  | cons c cs ih =>
    rw [List.cons_append, past_cons, past_cons, ih, List.head?_append, Option.or_assoc]

end Head

section Comments

variable {h o : Head} {cs body rest : List Char}

theorem skip_line (inside : ∀ c ∈ body, c ≠ '\n' ∧ c ≠ '\r')
    (ends : ∀ c, rest.head? = some c → c = '\n' ∨ c = '\r') :
    skip .line h (body ++ rest) = skip .blank (h.past body rest.head?) rest := by
  induction body generalizing h with
  | nil =>
    cases rest with
    | nil => rfl
    | cons c rest =>
      have stop := ends c rfl
      have plain : c ≠ '/' := by rcases stop with rfl | rfl <;> decide
      have blank : isBlank c = true := by rcases stop with rfl | rfl <;> rfl
      rw [skip_blank_cons fun _ _ slash => absurd slash plain, if_pos blank]
      simp only [List.nil_append, skip, if_pos stop, Head.past]
  | cons c body ih =>
    obtain ⟨here, inside⟩ := List.forall_mem_cons.mp inside
    have more : ¬ (c = '\n' ∨ c = '\r') := fun stop => stop.elim here.1 here.2
    rw [List.cons_append, skip, if_neg more, ih inside, Head.past_cons, ← List.head?_append]

/-- A text has a first end of a line, or none. -/
theorem exists_line (cs : List Char) :
    ∃ body rest, cs = body ++ rest ∧ (∀ c ∈ body, c ≠ '\n' ∧ c ≠ '\r') ∧
      ∀ c, rest.head? = some c → c = '\n' ∨ c = '\r' := by
  induction cs with
  | nil => exact ⟨[], [], rfl, by simp, by simp⟩
  | cons c cs ih =>
    by_cases ends : c = '\n' ∨ c = '\r'
    · exact ⟨[], c :: cs, rfl, by simp, by simpa using ends⟩
    · obtain ⟨body, rest, rfl, inside, stop⟩ := ih
      refine ⟨c :: body, rest, rfl, List.forall_mem_cons.mpr ⟨?_, inside⟩, stop⟩
      exact not_or.mp ends

theorem skip_closed (inside : ¬ ['*', '/'] <:+: body ++ ['*']) :
    skip (.block o) h (body ++ ['*', '/'] ++ rest) =
      skip .blank (h.past (body ++ ['*', '/']) rest.head?) rest := by
  induction body generalizing h with
  | nil => rfl
  | cons c body ih =>
    have other : c = '*' → (body ++ ['*', '/'] ++ rest).head? ≠ some '/' := by
      rintro rfl slash
      cases body with
      | nil => cases slash
      | cons d body =>
        cases Option.some.inj slash
        exact inside ⟨[], body ++ ['*'], rfl⟩
    rw [List.cons_append, List.cons_append, skip_block_cons other, ih, Head.past_cons,
      ← List.head?_append]
    intro within
    exact inside (within.trans (List.suffix_cons ..).isInfix)

theorem skip_open (inside : ¬ ['*', '/'] <:+: cs) :
    skip (.block o) h cs = ⟨h.past cs none, [], some o⟩ := by
  induction cs generalizing h with
  | nil => rfl
  | cons c cs ih =>
    have other : c = '*' → cs.head? ≠ some '/' := by
      rintro rfl slash
      obtain ⟨tail, rfl⟩ := List.head?_eq_some_iff.mp slash
      exact inside ⟨[], tail, rfl⟩
    rw [skip_block_cons other, ih, Head.past_cons, Option.or_none]
    intro within
    exact inside (within.trans (List.suffix_cons ..).isInfix)

/-- A text has a first `*/`, or none. -/
theorem open_or_closed (cs : List Char) :
    ¬ ['*', '/'] <:+: cs ∨
      ∃ body rest, cs = body ++ ['*', '/'] ++ rest ∧ ¬ ['*', '/'] <:+: body ++ ['*'] := by
  induction cs with
  | nil => exact .inl (by simp)
  | cons c cs ih =>
    by_cases closes : ['*', '/'] <+: c :: cs
    · obtain ⟨rest, whole⟩ := closes
      exact .inr ⟨[], rest, whole.symm, fun short => by simpa using short.length_le⟩
    · rcases ih with unclosed | ⟨body, rest, rfl, inside⟩
      · refine .inl fun within => ?_
        exact (List.infix_cons_iff.mp within).elim closes unclosed
      · refine .inr ⟨c :: body, rest, rfl, fun within => ?_⟩
        rcases List.infix_cons_iff.mp within with front | later
        · refine closes (front.trans ?_)
          exact ⟨'/' :: rest, by simp⟩
        · exact inside later

end Comments

/-- Neither a blank nor a comment begins here. -/
def Plain : List Char → Prop
  | [] => True
  | c :: cs => isBlank c = false ∧ (c = '/' → ∀ d, cs.head? = some d → d ≠ '/' ∧ d ≠ '*')

/-- Where the scanner stands behind blanks and comments, or that it found a comment open. -/
inductive SkipsTo (h : Head) (cs : List Char) : Skipped → Prop where
  | before {cut : List Stretch} {rest : List Char} : Cuts rest cs cut →
      (∀ s ∈ cut, s.piece.IsTrivia) →
      Plain rest → SkipsTo h cs ⟨h.past (joined cut) rest.head?, rest, none⟩
  | unclosed {cut : List Stretch} {rest : List Char} {stop : Head} : Cuts rest cs cut →
      (∀ s ∈ cut, s.piece.IsTrivia) → Stuck rest .unterminatedComment →
      SkipsTo h cs ⟨stop, [], some (h.past (joined cut) rest.head?)⟩

section Skipping

variable {h : Head} {p : Piece} {taken rest : List Char} {r : Skipped}

theorem IsTrivia.isWhole (trivia : p.IsTrivia) : p.IsWhole := by
  cases p <;> trivial

theorem SkipsTo.cons (longest : p.Longest taken rest) (trivia : p.IsTrivia)
    (skips : SkipsTo (h.past taken rest.head?) rest r) : SkipsTo h (taken ++ rest) r := by
  have head : ∀ {cut last}, Cuts last rest cut →
      (h.past taken rest.head?).past (joined cut) last.head? =
        h.past (joined (⟨p, taken⟩ :: cut)) last.head? := by
    intro cut last cuts
    have front : joined (⟨p, taken⟩ :: cut) = taken ++ joined cut := rfl
    rw [front, Head.past_append, ← List.head?_append, ← cuts.text]
  cases skips with
  | before cuts each plain =>
    rw [head cuts]
    exact .before (.cons longest (IsTrivia.isWhole trivia) cuts)
      (List.forall_mem_cons.mpr ⟨trivia, each⟩) plain
  | unclosed cuts each stuck =>
    rw [head cuts]
    exact .unclosed (.cons longest (IsTrivia.isWhole trivia) cuts)
      (List.forall_mem_cons.mpr ⟨trivia, each⟩) stuck

theorem skipsTo_line (h : Head) (cs : List Char)
    (later : ∀ h ds, ds.length ≤ cs.length → SkipsTo h ds (skip .blank h ds)) :
    SkipsTo h ('/' :: '/' :: cs) (skip .blank h ('/' :: '/' :: cs)) := by
  obtain ⟨body, rest, rfl, inside, ends⟩ := exists_line cs
  have skipped : skip .blank h ('/' :: '/' :: (body ++ rest)) =
      skip .blank (h.past ('/' :: '/' :: body) rest.head?) rest := by
    rw [skip, skip_line inside ends, Head.past_cons, Head.past_cons, ← List.head?_append]
    rfl
  rw [skipped]
  exact (later _ rest (by simp)).cons (longest_line inside ends) trivial

theorem skipsTo_block (h : Head) (cs : List Char)
    (later : ∀ h ds, ds.length ≤ cs.length → SkipsTo h ds (skip .blank h ds)) :
    SkipsTo h ('/' :: '*' :: cs) (skip .blank h ('/' :: '*' :: cs)) := by
  rcases open_or_closed cs with unclosed | ⟨body, rest, rfl, inside⟩
  · rw [skip, skip_open unclosed]
    have stuck : Stuck ('/' :: '*' :: cs ++ []) .unterminatedComment :=
      .comment (longest_of_all (.openComment unclosed))
    rw [List.append_nil] at stuck
    exact .unclosed .nil (List.forall_mem_nil _) stuck
  · have skipped : skip .blank h ('/' :: '*' :: (body ++ ['*', '/'] ++ rest)) =
        skip .blank (h.past ('/' :: '*' :: (body ++ ['*', '/'])) rest.head?) rest := by
      rw [skip, skip_closed inside, Head.past_cons, Head.past_cons, ← List.head?_append]
      rfl
    rw [skipped]
    exact (later _ rest (by simp; omega)).cons (longest_block inside) trivial

theorem skipsTo (h : Head) (cs : List Char) : SkipsTo h cs (skip .blank h cs) := by
  induction length : cs.length using Nat.strong_induction_on generalizing h cs with
  | _ n ih =>
    subst length
    cases cs with
    | nil => exact .before .nil (List.forall_mem_nil _) trivial
    | cons c cs =>
      by_cases comment : c = '/' ∧ (cs.head? = some '/' ∨ cs.head? = some '*')
      · obtain ⟨rfl, second⟩ := comment
        have shorter : ∀ d ds, cs = d :: ds → ∀ h es, es.length ≤ ds.length →
            SkipsTo h es (skip .blank h es) := by
          rintro d ds rfl h es shorter
          exact ih es.length (by simp only [List.length_cons]; omega) h es rfl
        rcases second with second | second
        · obtain ⟨ds, rfl⟩ := List.head?_eq_some_iff.mp second
          exact skipsTo_line h ds (shorter _ ds rfl)
        · obtain ⟨ds, rfl⟩ := List.head?_eq_some_iff.mp second
          exact skipsTo_block h ds (shorter _ ds rfl)
      · have other : ∀ d, d = '/' ∨ d = '*' → c = '/' → cs.head? ≠ some d := by
          rintro d (rfl | rfl) slash second
          · exact comment ⟨slash, .inl second⟩
          · exact comment ⟨slash, .inr second⟩
        rw [skip_blank_cons other]
        by_cases blank : isBlank c = true
        · rw [if_pos blank]
          have one : Piece.blank.Longest [c] cs := longest_blank blank
          exact SkipsTo.cons one trivial
            (ih cs.length (Nat.lt_succ_self _) (h.step c cs.head?) cs rfl)
        · rw [if_neg blank]
          refine .before .nil (List.forall_mem_nil _)
            ⟨by simpa using blank, fun slash d second => ?_⟩
          exact ⟨fun same => other d (.inl same) slash second,
            fun same => other d (.inr same) slash second⟩

end Skipping

section Reading

variable {c : Char} {cs : List Char}

theorem head?_ne_of_dropWhile (good : Char → Bool) (cs : List Char) (d : Char)
    (first : (cs.dropWhile good).head? = some d) : good d = false := by
  have stop := List.head?_dropWhile_not good cs
  rw [first] at stop
  simpa using stop

theorem string_longest {l : Lexeme} (quote : c = '"' ∨ c = '\'')
    (found : Lexeme.string c cs = .ok l) :
    (Piece.token l.kind l.text).Longest l.taken l.rest := by
  unfold Lexeme.string at found
  dsimp only at found
  split at found
  · cases found
  · rename_i closing rest closed
    cases found
    have inside : c ∉ cs.takeWhile (· ≠ c) := by
      intro member
      simpa using List.mem_takeWhile_imp member
    have same : closing = c := by
      have stop := head?_ne_of_dropWhile (· ≠ c) cs closing (by rw [closed]; rfl)
      simpa using stop
    rw [same]
    exact longest_string quote inside

theorem string_stuck {kind : LexErrorKind} (quote : c = '"' ∨ c = '\'')
    (failed : Lexeme.string c cs = .error kind) : Stuck (c :: cs) kind := by
  unfold Lexeme.string at failed
  dsimp only at failed
  split at failed
  · rename_i unclosed
    cases failed
    have inside : c ∉ cs := by
      intro member
      have all := List.dropWhile_eq_nil_iff.mp unclosed c member
      simp at all
    have stuck : Stuck (c :: cs ++ []) .unterminatedString :=
      .string (longest_of_all (.openString quote inside))
    rwa [List.append_nil] at stuck
  · cases failed

theorem read_longest {l : Lexeme} (plain : Plain (c :: cs)) (found : Lexeme.read c cs = .ok l) :
    (Piece.token l.kind l.text).Longest l.taken l.rest := by
  unfold Lexeme.read at found
  split at found
  case h_1 l' two =>
    cases found
    cases cs with
    | nil => cases two
    | cons d ds =>
      obtain ⟨kind, pair, rfl⟩ := Option.map_eq_some_iff.mp two
      exact longest_pair pair
  case h_2 two =>
    split at found
    case h_1 kind one =>
      cases found
      apply longest_single one ?_ plain.2
      intro d second
      obtain ⟨ds, rfl⟩ := List.head?_eq_some_iff.mp second
      exact Option.map_eq_none_iff.mp two
    case h_2 =>
      by_cases quote : c = '"' ∨ c = '\''
      · rw [if_pos quote] at found
        exact string_longest quote found
      · rw [if_neg quote] at found
        by_cases digit : c.isDigit = true
        · rw [if_pos digit] at found
          cases found
          apply longest_number ?_ (head?_ne_of_dropWhile Char.isDigit cs)
          exact List.forall_mem_cons.mpr ⟨digit, fun d member => List.mem_takeWhile_imp member⟩
        · rw [if_neg digit] at found
          by_cases letter : isLetter c = true
          · rw [if_pos letter] at found
            cases found
            apply longest_word ?_ (head?_ne_of_dropWhile isLetterOrDigit cs)
            exact Bool.and_eq_true_iff.mpr
              ⟨letter, List.all_eq_true.mpr fun d member => List.mem_takeWhile_imp member⟩
          · rw [if_neg letter] at found
            cases found

theorem read_stuck {kind : LexErrorKind} (plain : Plain (c :: cs))
    (failed : Lexeme.read c cs = .error kind) :
    Stuck (c :: cs) kind := by
  unfold Lexeme.read at failed
  split at failed
  case h_1 => cases failed
  case h_2 =>
    split at failed
    case h_1 => cases failed
    case h_2 noMark =>
      by_cases quote : c = '"' ∨ c = '\''
      · rw [if_pos quote] at failed
        exact string_stuck quote failed
      · rw [if_neg quote] at failed
        by_cases digit : c.isDigit = true
        · rw [if_pos digit] at failed
          cases failed
        · rw [if_neg digit] at failed
          by_cases letter : isLetter c = true
          · rw [if_pos letter] at failed
            cases failed
          · rw [if_neg letter] at failed
            cases failed
            apply Stuck.char
            intro p taken ahead spelled
            obtain ⟨o, c', tail, rfl, has, -⟩ := spelled.exists_shape
            cases (List.cons_prefix_cons.mp ahead).1
            cases o with
            | blank => simp [Opening.Has, plain.1] at has
            | mark => simp [Opening.Has, noMark] at has
            | quote => exact quote has
            | digit => exact digit has
            | letter => exact letter has

end Reading

def Stretch.token? (s : Stretch) (base : Nat) (first last : Head) : Option Token :=
  match s.piece with
  | .token kind text =>
    some ⟨kind, String.ofList text, ⟨base + first.offset, base + last.offset⟩, first.place,
      last.place⟩
  | _ => none

def Head.endOfInput (h : Head) (base : Nat) : Token :=
  ⟨.endOfInput, "", ⟨base + h.offset, base + h.offset⟩, h.place, h.place⟩

def Head.error (h : Head) (base : Nat) (kind : LexErrorKind) : LexError :=
  ⟨kind, ⟨base + h.offset, base + h.offset + kind.width⟩, h.place⟩

def tokensFrom (base : Nat) (h : Head) : List Stretch → List Token
  | [] => [h.endOfInput base]
  | s :: cut =>
    let stop := h.past s.chars (joined cut).head?
    (s.token? base h stop).toList ++ tokensFrom base stop cut

section Running

variable {base : Nat} {h : Head} {cs rest : List Char} {cut : List Stretch}

theorem joined_append (cut cut' : List Stretch) :
    joined (cut ++ cut') = joined cut ++ joined cut' :=
  List.flatMap_append

/-- Blanks and comments only move the head. -/
theorem tokensFrom_trivia (gap cut : List Stretch) (trivia : ∀ s ∈ gap, s.piece.IsTrivia)
    (h : Head) :
    tokensFrom base h (gap ++ cut) =
      tokensFrom base (h.past (joined gap) (joined cut).head?) cut := by
  induction gap generalizing h with
  | nil => rfl
  | cons s gap ih =>
    obtain ⟨here, later⟩ := List.forall_mem_cons.mp trivia
    have none : ∀ first last, s.token? base first last = .none := by
      intro first last
      unfold Stretch.token?
      split
      · rename_i same
        rw [same] at here
        cases here
      · rfl
    have front : joined (s :: gap) = s.chars ++ joined gap := rfl
    rw [List.cons_append, tokensFrom, none, ih later, front, Head.past_append, joined_append,
      List.head?_append]
    rfl

inductive Scans (base : Nat) (h : Head) (cs : List Char) : Except LexError (List Token) → Prop where
  | ok {cut : List Stretch} : Cuts [] cs cut → Scans base h cs (.ok (tokensFrom base h cut))
  | error {cut : List Stretch} {rest : List Char} {kind : LexErrorKind} : Cuts rest cs cut →
      Stuck rest kind →
      Scans base h cs (.error ((h.past (joined cut) rest.head?).error base kind))

theorem Cuts.head? (cuts : Cuts rest cs cut) : cs.head? = (joined cut).head?.or rest.head? := by
  rw [cuts.text, List.head?_append]

theorem Scans.skipped {r : Except LexError (List Token)} (cuts : Cuts rest cs cut)
    (trivia : ∀ s ∈ cut, s.piece.IsTrivia)
    (scans : Scans base (h.past (joined cut) rest.head?) rest r) :
    Scans base h cs r := by
  cases scans with
  | @ok cut' cuts' =>
    have whole := cuts.append cuts'
    rw [cuts'.text, List.append_nil, ← tokensFrom_trivia cut cut' trivia]
    exact .ok whole
  | @error cut' last kind cuts' stuck =>
    rw [cuts'.head?, ← Head.past_append, ← joined_append]
    exact .error (cuts.append cuts') stuck

theorem Scans.cons {kind : TokenKind} {text taken : List Char} {r : Except LexError (List Token)}
    (longest : (Piece.token kind text).Longest taken rest)
    (scans : Scans base (h.past taken rest.head?) rest r) :
    Scans base h (taken ++ rest) (r.map (⟨kind, String.ofList text,
      ⟨base + h.offset, base + (h.past taken rest.head?).offset⟩, h.place,
        (h.past taken rest.head?).place⟩ :: ·)) := by
  cases scans with
  | @ok cut cuts =>
    have whole := cuts.text
    rw [List.append_nil] at whole
    have tokens : Scans base h (taken ++ rest)
        (.ok (tokensFrom base h (⟨.token kind text, taken⟩ :: cut))) :=
      .ok (.cons longest trivial cuts)
    rw [tokensFrom] at tokens
    rw [whole] at tokens ⊢
    exact tokens
  | @error cut last kind' cuts stuck =>
    rw [cuts.head?, ← Head.past_append]
    exact .error (.cons longest trivial cuts) stuck

theorem tokens_scans (s : Scanner) : Scans s.base s.head s.rest s.tokens := by
  induction length : s.rest.length using Nat.strong_induction_on generalizing s with
  | _ n ih =>
    have skips := skipsTo s.head s.rest
    generalize passed : skip .blank s.head s.rest = r at skips
    cases skips with
    | unclosed cuts trivia stuck =>
      rw [Scanner.tokens_error (Scanner.next_unclosed passed)]
      exact .error cuts stuck
    | @before gap rest cuts trivia plain =>
      apply Scans.skipped cuts trivia
      cases rest with
      | nil =>
        rw [Scanner.tokens_end (Scanner.next_end passed) rfl]
        exact .ok .nil
      | cons c cs =>
        cases read : Lexeme.read c cs with
        | error kind =>
          rw [Scanner.tokens_error (Prod.ext (Scanner.next_error passed read) rfl)]
          exact .error .nil (read_stuck plain read)
        | ok l =>
          have next := Scanner.next_ok passed read
          have more := Lexeme.kind_read read
          have shorter := Scanner.length_rest_next next more
          rw [Scanner.tokens_more next more]
          have scans := Scans.cons (read_longest plain read) (ih _ (length ▸ shorter) _ rfl)
          rwa [Lexeme.taken_read read] at scans

theorem scan_scans (source : String) (base : Nat) :
    Scans base .start source.toList (scan source base) :=
  tokens_scans (.ofText source.toList base)

/-- Scanning succeeds just if the text can be cut to its end, and gives the tokens of the cut. -/
theorem scan_eq_ok_iff (source : String) (base : Nat) (ts : List Token) :
    scan source base = .ok ts ↔ ∃ cut, Cuts [] source.toList cut ∧
      ts = tokensFrom base .start cut := by
  have scans := scan_scans source base
  generalize scan source base = r at scans
  cases scans with
  | @ok cut cuts =>
    constructor
    · intro same
      exact ⟨cut, cuts, (Except.ok.inj same).symm⟩
    · rintro ⟨cut', cuts', rfl⟩
      rw [(cuts.unique cuts' (.inl rfl) (.inl rfl)).1]
  | @error cut rest kind cuts stuck =>
    constructor
    · intro same
      cases same
    · rintro ⟨cut', cuts', rfl⟩
      obtain ⟨-, rfl⟩ := cuts.unique cuts' (.inr ⟨kind, stuck⟩) (.inl rfl)
      exact absurd stuck Stuck.not_nil

/-- Scanning fails just if the cut ends early, and with the error at its end. -/
theorem scan_eq_error_iff (source : String) (base : Nat) (e : LexError) :
    scan source base = .error e ↔ ∃ cut rest kind, Cuts rest source.toList cut ∧ Stuck rest kind ∧
      e = (Head.start.past (joined cut) rest.head?).error base kind := by
  have scans := scan_scans source base
  generalize scan source base = r at scans
  cases scans with
  | @ok cut cuts =>
    constructor
    · intro same
      cases same
    · rintro ⟨cut', rest', kind', cuts', stuck', rfl⟩
      obtain ⟨-, rfl⟩ := cuts.unique cuts' (.inl rfl) (.inr ⟨kind', stuck'⟩)
      exact absurd stuck' Stuck.not_nil
  | @error cut rest kind cuts stuck =>
    constructor
    · intro same
      exact ⟨cut, rest, kind, cuts, stuck, (Except.error.inj same).symm⟩
    · rintro ⟨cut', rest', kind', cuts', stuck', rfl⟩
      obtain ⟨rfl, rfl⟩ := cuts.unique cuts' (.inr ⟨kind, stuck⟩) (.inr ⟨kind', stuck'⟩)
      rw [stuck.unique stuck']

end Running

end ScriptKit
