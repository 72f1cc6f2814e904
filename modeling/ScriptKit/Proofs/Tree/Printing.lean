import Mathlib.Data.List.Forall2
import ScriptKit.Proofs.Token.Words
import ScriptKit.Proofs.Tree.Reading
import ScriptKit.Tree.Printer

/-! A printed expression is read back.

Printing puts parentheses around operations only. What is called or indexed stands without them, so
that calls and subscripts are read off as trailers, one behind the other. -/

namespace ScriptKit
open Written (Word sign)

/-- The literal reads back as it is printed. A negative integer would be taken for an operation, and
a double quote for the end of its string. -/
def Literal.Printable : Literal → Prop
  | integer n => 0 ≤ n.toInt
  | text s => '"' ∉ s.toList
  | boolean _ | null => True

mutual

def Expr.Printable : Expr → Prop
  | .literal _ v => v.Printable
  | .name _ x => isIdentifier x.toList = true ∧ TokenKind.keyword? x = none
  | .binary _ _ a b => a.Printable ∧ b.Printable
  | .unary _ _ a => a.Printable
  | .call _ f args => f.Printable ∧ Expr.AllPrintable args
  | .array _ items => Expr.AllPrintable items
  | .index _ a i => a.Printable ∧ i.Printable
  | .function _ _ => False

def Expr.AllPrintable : List Expr → Prop
  | [] => True
  | e :: es => e.Printable ∧ Expr.AllPrintable es

end

def Literal.printed : Literal → Word
  | integer n => (.integer, String.ofList (Nat.toDigits 10 n.toInt.toNat))
  | text s => (.text, s)
  | boolean b => sign (if b then .trueWord else .falseWord)
  | null => sign .nullWord

mutual

def Expr.printed : Expr → List Word
  | .literal _ v => [v.printed]
  | .name _ x => [(.identifier, x)]
  | .binary _ op a b =>
    sign .leftParen :: (a.printed ++ sign (Written.operator op) :: b.printed) ++ [sign .rightParen]
  | .unary _ op a =>
    sign .leftParen :: (sign (Written.unaryOperator op) :: a.printed) ++ [sign .rightParen]
  | .call _ f args =>
    f.printed ++ (sign .leftParen ::
      ([sign .comma].intercalate (Expr.allPrinted args) ++ [sign .rightParen]))
  | .array _ items =>
    sign .leftBracket :: ([sign .comma].intercalate (Expr.allPrinted items) ++ [sign .rightBracket])
  | .index _ a i => a.printed ++ (sign .leftBracket :: i.printed ++ [sign .rightBracket])
  | .function _ _ => []

def Expr.allPrinted : List Expr → List (List Word)
  | [] => []
  | e :: es => e.printed :: Expr.allPrinted es

end

mutual

theorem Expr.toText_move (r : Relocation) : (e : Expr) → (e.move r).toText = e.toText
  | .literal _ _ | .name _ _ => rfl
  | .binary _ _ a b => by simp only [move, toText, a.toText_move r, b.toText_move r]
  | .unary _ _ a => by simp only [move, toText, a.toText_move r]
  | .call _ f args => by simp only [move, toText, f.toText_move r, Expr.texts_moveAll r args]
  | .array _ items => by simp only [move, toText, Expr.texts_moveAll r items]
  | .index _ a i => by simp only [move, toText, a.toText_move r, i.toText_move r]
  | .function _ (.mk _ _ _ _) => rfl

theorem Expr.texts_moveAll (r : Relocation) :
    (es : List Expr) → Expr.texts (Expr.moveAll r es) = Expr.texts es
  | [] => rfl
  | e :: es => by simp only [moveAll, texts, e.toText_move r, Expr.texts_moveAll r es]

end

section Scanning

variable {c : Char} {kind : TokenKind} {next : Char → Prop}

theorem shows_sign (found : TokenKind.punctuation? c = some kind)
    (spelled : kind.describe = String.ofList [c])
    (alone : ∀ d, next d → TokenKind.operator? c d = none) (divides : c ≠ '/') :
    Shows [c] [sign kind] next := by
  rw [sign, spelled]
  exact (shows_single found).before fun d follows =>
    ⟨alone d follows, fun slash => absurd slash divides⟩

theorem shows_space : Shows [' '] [] Whatever :=
  shows_blank rfl

/-- Brackets and commas are the same whatever follows. -/
theorem shows_mark (found : TokenKind.punctuation? c = some kind)
    (spelled : kind.describe = String.ofList [c]) (mark : c ∈ ['(', ')', '[', ']', ',']) :
    Shows [c] [sign kind] Whatever := by
  simp only [List.mem_cons, List.not_mem_nil, or_false] at mark
  rcases mark with rfl | rfl | rfl | rfl | rfl <;>
    exact shows_sign found spelled (fun _ _ => rfl) (by decide)

theorem shows_keyword (kind : TokenKind) (keyword : TokenKind.keyword? kind.describe = some kind)
    (name : isIdentifier kind.describe.toList = true) :
    Shows kind.describe.toList [sign kind] Divides := by
  have word := shows_word name
  rwa [keyword] at word

theorem shows_name {x : String} (name : isIdentifier x.toList = true)
    (free : TokenKind.keyword? x = none) :
    Shows x.toList [(.identifier, x)] Divides := by
  have word := shows_word name
  rwa [free] at word

theorem toList_toString {z : Int} (natural : 0 ≤ z) :
    (toString z).toList = Nat.toDigits 10 z.toNat := by
  obtain ⟨k, rfl⟩ := Int.eq_ofNat_of_zero_le natural
  exact String.toList_ofList

theorem shows_integer (k : Nat) :
    Shows (Nat.toDigits 10 k) [(.integer, String.ofList (Nat.toDigits 10 k))] Divides := by
  have each : ∀ c ∈ Nat.toDigits 10 k, c.isDigit = true := by
    have known : ∀ d < 10, d.digitChar.isDigit = true := by decide
    intro c member
    obtain ⟨d, small, rfl⟩ := Text.mem_toDigits (by decide) member
    exact known d small
  obtain ⟨c, cs, digits⟩ := List.exists_cons_of_ne_nil (Nat.toDigits_ne_nil (n := k) (b := 10))
  rw [digits] at each ⊢
  exact shows_number each

theorem shows_literal (v : Literal) (printable : v.Printable) :
    Shows v.toText.toList [v.printed] Divides := by
  cases v with
  | integer n =>
    rw [Literal.toText, toList_toString printable]
    exact shows_integer _
  | text s =>
    have shown := shows_string printable
    rw [String.ofList_toList] at shown
    rw [Literal.toText, String.toList_append, String.toList_append, List.append_assoc]
    exact shown.before fun _ _ => trivial
  | boolean b =>
    cases b with
    | true => exact shows_keyword .trueWord rfl rfl
    | false => exact shows_keyword .falseWord rfl rfl
  | null => exact shows_keyword .nullWord rfl rfl

theorem shows_operator (op : BinaryOp) :
    Shows op.symbol.toList [sign (Written.operator op)] (· = ' ') := by
  cases op with
  | eq | ne | le | ge => exact (shows_pair rfl).before fun _ _ => trivial
  | div =>
    refine (shows_single rfl).before ?_
    rintro _ rfl
    exact ⟨rfl, fun _ => by decide⟩
  | _ =>
    refine shows_sign rfl rfl ?_ (by decide)
    rintro _ rfl
    rfl

theorem shows_unaryOperator (op : UnaryOp) :
    Shows op.symbol.toList [sign (Written.unaryOperator op)] (· ≠ '=') := by
  cases op with
  | neg => exact shows_sign rfl rfl (fun _ _ => rfl) (by decide)
  | not =>
    refine shows_sign (c := '!') rfl rfl (fun d other => ?_) (by decide)
    unfold TokenKind.operator?
    split <;> simp_all

theorem Literal.exists_toText (v : Literal) (printable : v.Printable) :
    ∃ c cs, v.toText.toList = c :: cs ∧ c ≠ '=' := by
  cases v with
  | integer n =>
    have known : ∀ d < 10, d.digitChar ≠ '=' := by decide
    obtain ⟨c, cs, digits⟩ :=
      List.exists_cons_of_ne_nil (Nat.toDigits_ne_nil (n := n.toInt.toNat) (b := 10))
    obtain ⟨d, small, rfl⟩ := Text.mem_toDigits (by decide) (digits ▸ List.mem_cons_self)
    exact ⟨_, cs, (toList_toString printable).trans digits, known d small⟩
  | text s =>
    exact ⟨'"', _, by rw [Literal.toText, String.toList_append, String.toList_append]; rfl,
      by decide⟩
  | boolean b => cases b <;> exact ⟨_, _, rfl, by decide⟩
  | null => exact ⟨_, _, rfl, by decide⟩

/-- Nothing that is printed begins with an equals sign, which would make a bang longer. -/
theorem Expr.exists_toText : (e : Expr) → e.Printable → ∃ c cs, e.toText.toList = c :: cs ∧ c ≠ '='
  | .literal _ v, printable => v.exists_toText printable
  | .name _ x, printable => by
    obtain ⟨name, -⟩ := printable
    cases letters : x.toList with
    | nil =>
      rw [letters] at name
      cases name
    | cons c cs =>
      refine ⟨c, cs, letters, ?_⟩
      rintro rfl
      rw [letters] at name
      cases name
  | .binary _ op a b, _ => ⟨'(', _, by simp only [toText, String.toList_append]; rfl, by decide⟩
  | .unary _ op a, _ => ⟨'(', _, by simp only [toText, String.toList_append]; rfl, by decide⟩
  | .array _ items, _ => ⟨'[', _, by simp only [toText, String.toList_append]; rfl, by decide⟩
  | .call _ f args, printable => by
    obtain ⟨c, cs, first, other⟩ := f.exists_toText printable.1
    exact ⟨c, _, by simp only [toText, String.toList_append, first, List.cons_append]; rfl, other⟩
  | .index _ a i, printable => by
    obtain ⟨c, cs, first, other⟩ := a.exists_toText printable.1
    exact ⟨c, _, by simp only [toText, String.toList_append, first, List.cons_append]; rfl, other⟩
  | .function _ _, printable => printable.elim

/-- What is behind an expression or a comma stands apart from it. -/
theorem Shows.beside {text text' : List Char} {words words' : List Word} {c : Char}
    (first : Shows text words Divides) (second : Shows (c :: text') words' next)
    (divides : Divides c) :
    Shows (text ++ c :: text') (words ++ words') next :=
  first.append second fun _ _ _ here => Option.some.inj here ▸ divides

/-- Texts with a comma and a blank between them. -/
theorem shows_commas {texts : List (List Char)} {wordss : List (List Word)}
    (each : List.Forall₂ (fun text words => Shows text words Divides) texts wordss) :
    Shows ([',', ' '].intercalate texts) ([sign .comma].intercalate wordss) Divides := by
  have comma : Shows [','] [sign .comma] Whatever := shows_mark rfl rfl (by simp)
  have between : Shows [',', ' '] [sign .comma] Whatever :=
    comma.append shows_space fun _ _ _ _ => trivial
  induction each with
  | nil => exact shows_nil
  | @cons text words texts wordss first others ih =>
    cases others with
    | nil =>
      rw [List.intercalate_singleton, List.intercalate_singleton]
      exact first
    | cons second others =>
      rw [List.intercalate_cons_cons, List.intercalate_cons_cons, List.append_assoc,
        List.append_assoc]
      exact first.beside (between.append ih fun _ _ _ _ => trivial) rfl

/-- Something between an opening mark and a closing one. -/
theorem Shows.between {text : List Char} {words : List Word} {c d : Char} {left right : TokenKind}
    (inside : Shows text words Divides) (opening : Shows [c] [sign left] Whatever)
    (closing : Shows [d] [sign right] Whatever) (divides : Divides d) :
    Shows (c :: (text ++ [d])) (sign left :: (words ++ [sign right])) Divides :=
  (opening.append (inside.beside closing divides) fun _ _ _ _ => trivial).before fun _ _ => trivial

theorem Shows.parenthesized {text : List Char} {words : List Word}
    (inside : Shows text words Divides) :
    Shows ('(' :: (text ++ [')'])) (sign .leftParen :: (words ++ [sign .rightParen])) Divides :=
  inside.between (shows_mark rfl rfl (by simp)) (shows_mark rfl rfl (by simp)) rfl

theorem Shows.bracketed {text : List Char} {words : List Word} (inside : Shows text words Divides) :
    Shows ('[' :: (text ++ [']'])) (sign .leftBracket :: (words ++ [sign .rightBracket])) Divides :=
  inside.between (shows_mark rfl rfl (by simp)) (shows_mark rfl rfl (by simp)) rfl

theorem toList_commas (es : List Expr) :
    (", ".intercalate (Expr.texts es)).toList =
      [',', ' '].intercalate ((Expr.texts es).map String.toList) :=
  String.toList_intercalate

theorem shows_binary {text text' : List Char} {words words' : List Word} (op : BinaryOp)
    (left : Shows text words Divides) (right : Shows text' words' Divides) :
    Shows (text ++ ' ' :: (op.symbol.toList ++ ' ' :: text'))
      (words ++ sign (Written.operator op) :: words')
      Divides := by
  have behind : Shows (' ' :: text') words' Divides :=
    shows_space.append right fun _ _ _ _ => trivial
  have operator := (shows_operator op).append behind fun _ _ _ here => (Option.some.inj here).symm
  have spaced := shows_space.append operator fun _ _ _ _ => trivial
  exact left.beside spaced rfl

mutual

/-- The scanner finds the words that an expression is printed with. -/
theorem Expr.shows_toText : (e : Expr) → e.Printable → Shows e.toText.toList e.printed Divides
  | .literal _ v, printable => shows_literal v printable
  | .name _ x, printable => shows_name printable.1 printable.2
  | .binary _ op a b, printable => by
    have inside := shows_binary op (a.shows_toText printable.1) (b.shows_toText printable.2)
    simpa [toText, printed] using inside.parenthesized
  | .unary _ op a, printable => by
    obtain ⟨c, cs, first, other⟩ := a.exists_toText printable
    have inside := (shows_unaryOperator op).append (a.shows_toText printable) (by
      intro rest _ d here
      rw [first] at here
      exact Option.some.inj here ▸ other)
    simpa [toText, printed] using inside.parenthesized
  | .call _ f args, printable => by
    have listed := shows_commas (Expr.shows_texts args printable.2)
    have shown := (f.shows_toText printable.1).beside listed.parenthesized rfl
    simpa [toText, printed, toList_commas] using shown
  | .array _ items, printable => by
    have listed := shows_commas (Expr.shows_texts items printable)
    simpa [toText, printed, toList_commas] using listed.bracketed
  | .index _ a i, printable => by
    have key := i.shows_toText printable.2
    have shown := (a.shows_toText printable.1).beside key.bracketed rfl
    simpa [toText, printed] using shown
  | .function _ _, printable => printable.elim

theorem Expr.shows_texts : (es : List Expr) → Expr.AllPrintable es →
    List.Forall₂ (fun text words => Shows text words Divides) ((Expr.texts es).map String.toList)
      (Expr.allPrinted es)
  | [], _ => .nil
  | e :: es, printable => .cons (e.shows_toText printable.1) (Expr.shows_texts es printable.2)

end

end Scanning

end ScriptKit

namespace ScriptKit.Parser
open Written (Word sign)

structure ReadsBack (e : Expr) : Prop where
  begins : ∃ w ws, e.printed = w :: ws ∧ ¬Stops w.1
  trailed : ∀ (vs : List Word) (good : Expr → Prop),
      (∀ head : Expr, head.move .nowhere = e.move .nowhere →
    Reads (fun n => trailers n head) vs Plain good) → Reads unary (e.printed ++ vs) Plain good

section Printed

variable {e a b : Expr} {es : List Expr} (node : Node)

theorem ReadsBack.unary (reads : ReadsBack e) :
    Reads unary e.printed Plain fun e' => e'.move .nowhere = e.move .nowhere :=
  List.append_nil e.printed ▸ reads.trailed [] _ fun _ found => reads_trailers_none found

theorem ReadsBack.bare (reads : ReadsBack e) :
    Reads (fun n => operation n .equality) e.printed Stops fun e' =>
      e'.move .nowhere = e.move .nowhere :=
  reads_of_unary reads.unary fun _ stops => stops.plain

theorem ReadsBack.of_primary {w : Word} {ws : List Word} (whole : e.printed = w :: ws)
    (begins : ¬Stops w.1) (unsigned : unaryOp? w.1 = none)
    (reads : Reads primary (w :: ws) Anything fun e' => e'.move .nowhere = e.move .nowhere) :
    ReadsBack e := by
  refine ⟨⟨w, ws, whole, begins⟩, fun vs good rest => ?_⟩
  rw [whole]
  exact reads_trailed unsigned reads rest

theorem readsBack_integer (n : Int64) (natural : 0 ≤ n.toInt) :
    ReadsBack (.literal node (.integer n)) := by
  have small : n.toInt.toNat < 9223372036854775808 := by
    have := n.toInt_lt
    omega
  have same : Int64.ofNat n.toInt.toNat = n := by
    rw [← Int64.ofInt_eq_ofNat, Int.toNat_of_nonneg natural, Int64.ofInt_toInt]
  refine .of_primary rfl (by simp [Stops, Literal.printed]) rfl (reads_integer _ small fun _ => ?_)
  rw [same]
  rfl

theorem ReadsBack.of_literal {v : Literal} (begins : ¬Stops v.printed.1)
    (unsigned : unaryOp? v.printed.1 = none)
    (found : ∀ t : Token, t.word = v.printed → literal? t = some v) : ReadsBack (.literal node v) :=
  .of_primary rfl begins unsigned (reads_literal found fun _ => rfl)

theorem readsBack_literal (v : Literal) (printable : v.Printable) :
    ReadsBack (.literal node v) := by
  cases v with
  | integer n => exact readsBack_integer node n printable
  | text s => exact .of_literal node (by simp [Stops, Literal.printed]) rfl (by rintro ⟨⟩ ⟨⟩; rfl)
  | boolean b =>
    cases b <;> exact .of_literal node (by simp [Stops, Literal.printed, sign]) rfl
      (by rintro ⟨⟩ ⟨⟩; rfl)
  | null =>
    exact .of_literal node (by simp [Stops, Literal.printed, sign]) rfl (by rintro ⟨⟩ ⟨⟩; rfl)

theorem readsBack_name (x : String) : ReadsBack (.name node x) :=
  .of_primary rfl (by simp [Stops]) rfl (reads_name x fun _ => rfl)

/-- An operation stands in parentheses. -/
theorem ReadsBack.of_group {ws : List Word}
    (whole : e.printed = sign .leftParen :: ws ++ [sign .rightParen])
    (reads : Reads (fun n => operation n .equality) ws Stops fun e' =>
      e'.move .nowhere = e.move .nowhere) :
    ReadsBack e :=
  .of_primary whole (by simp [Stops, sign]) rfl (reads_group reads)

theorem readsBack_binary (op : BinaryOp) (left : ReadsBack a) (right : ReadsBack b) :
    ReadsBack (.binary node op a b) := by
  refine .of_group (by rw [Expr.printed]) (reads_binary op left.unary right.unary ?_)
  intro node' a' b' isLeft isRight
  simp only [Expr.move, isLeft, isRight]
  rfl

theorem readsBack_unary (op : UnaryOp) (operand : ReadsBack a) : ReadsBack (.unary node op a) := by
  refine .of_group (by rw [Expr.printed])
    (reads_of_unary (reads_sign op operand.unary ?_) fun _ stops => stops.plain)
  intro node' a' found
  simp only [Expr.move, found]
  rfl

theorem allPrinted_eq_map (es : List Expr) : Expr.allPrinted es = es.map Expr.printed := by
  induction es with
  | nil => rfl
  | cons e es ih => rw [Expr.allPrinted, ih, List.map_cons]

theorem reads_printed {closing : TokenKind} (stops : Stops closing) (apart : closing ≠ .comma)
    (more : closing ≠ .endOfInput) (expected : String) (each : ∀ e ∈ es, ReadsBack e) :
    Reads (fun n => items n closing expected)
      ([sign .comma].intercalate (Expr.allPrinted es) ++ [sign closing]) Anything
      fun r => r.1.map (Expr.move .nowhere) = es.map (Expr.move .nowhere) := by
  rw [allPrinted_eq_map]
  refine (reads_commas stops apart more expected es (fun e member => (each e member).bare)
    fun e member => ?_).imp
    fun _ => map_move_eq
  obtain ⟨w, ws, whole, begins⟩ := (each e member).begins
  refine ⟨w, ws, whole, ?_⟩
  rintro rfl
  exact begins stops

theorem readsBack_array (each : ∀ e ∈ es, ReadsBack e) : ReadsBack (.array node es) := by
  have listed := reads_printed (.inr (.inl rfl)) (by decide) (by decide) "]" each
  refine .of_primary (by rw [Expr.printed]) (by simp [Stops, sign]) rfl
    (reads_array listed fun node' r others => ?_)
  simp only [Expr.move, Expr.moveAll_eq_map, others]
  rfl

theorem readsBack_call (callee : ReadsBack a) (each : ∀ e ∈ es, ReadsBack e) :
    ReadsBack (.call node a es) := by
  have listed := reads_printed (.inl rfl) (by decide) (by decide) ")" each
  obtain ⟨w, ws, whole, begins⟩ := callee.begins
  refine ⟨⟨w, _, by rw [Expr.printed, whole]; rfl, begins⟩, fun vs good rest => ?_⟩
  rw [Expr.printed, List.append_assoc]
  refine callee.trailed _ _ fun head found => reads_call_then listed fun node' r others => rest _ ?_
  simp only [Expr.move, Expr.moveAll_eq_map, found, others]
  rfl

theorem readsBack_index (target : ReadsBack a) (key : ReadsBack b) :
    ReadsBack (.index node a b) := by
  obtain ⟨w, ws, whole, begins⟩ := target.begins
  refine ⟨⟨w, _, by rw [Expr.printed, whole]; rfl, begins⟩, fun vs good rest => ?_⟩
  rw [Expr.printed, List.append_assoc, List.append_assoc]
  refine target.trailed _ _ fun head found => reads_index_then key.bare fun node' i inside =>
    rest _ ?_
  simp only [Expr.move, found, inside]
  rfl

end Printed

mutual

theorem readsBack : (e : Expr) → e.Printable → ReadsBack e
  | .literal node v, printable => readsBack_literal node v printable
  | .name node x, _ => readsBack_name node x
  | .binary node op a b, printable =>
    readsBack_binary node op (readsBack a printable.1) (readsBack b printable.2)
  | .unary node op a, printable => readsBack_unary node op (readsBack a printable)
  | .call node f args, printable =>
    readsBack_call node (readsBack f printable.1) (readsBack_each args printable.2)
  | .array node items, printable => readsBack_array node (readsBack_each items printable)
  | .index node a i, printable =>
    readsBack_index node (readsBack a printable.1) (readsBack i printable.2)
  | .function _ _, printable => printable.elim

theorem readsBack_each : (es : List Expr) → Expr.AllPrintable es → ∀ e ∈ es, ReadsBack e
  | [], _ => List.forall_mem_nil _
  | e :: es, printable =>
    List.forall_mem_cons.mpr ⟨readsBack e printable.1, readsBack_each es printable.2⟩

end

/-- The text of an expression scans, and its tokens are read to their end. The tree is the same
except for numbers and places, and so is its text. -/
theorem parseExpr_toText (e : Expr) (printable : e.Printable) (base : Nat) (ast : Ast) :
    ∃ tokens last e' after, scan e.toText base = .ok (tokens ++ [last]) ∧ last.kind = .endOfInput ∧
      (operation (stepsFor (tokens ++ [last])) .equality).run ⟨tokens ++ [last], ast⟩ =
        .ok e' ⟨[last], after⟩ ∧
      parseExpr (tokens ++ [last]) ast = (.ok e', after) ∧
      e'.move .nowhere = e.move .nowhere ∧ e'.toText = e.toText := by
  obtain ⟨tokens, last, scanned, spelled, ended⟩ := (e.shows_toText printable).scan base
  -- An expression ends at the end of the input too, where nothing is called and no operator stands.
  have reads := reads_operation (reads_operand (readsBack e printable).unary .equality)
  obtain ⟨e', after, ⟨least, given⟩, same⟩ := reads tokens [last] ast spelled (by
    rw [show (current [last]).kind = .endOfInput from ended]
    exact ⟨⟨⟨by decide, by decide⟩, fun l _ => by cases l <;> rfl⟩, rfl⟩)
  have run := given (max least (stepsFor (tokens ++ [last]))) (by omega)
  rw [operation_more_steps ⟨rfl, ended⟩ .equality (by omega)] at run
  refine ⟨tokens, last, e', after, scanned, ended, run, ?_, same, ?_⟩
  · simp only [EStateM.run] at run
    simp only [parseExpr, Parser.run, run]
  · rw [← Expr.toText_move .nowhere, same, Expr.toText_move]

/-- The expression `!f(x)[0](["a", null], 1 + n)`, read at an offset. -/
theorem parseExpr_toText_trailers :
    let node := Written.node
    let called : Expr :=
      .index node (.call node (.name node "f") [.name node "x"]) (.literal node (.integer 0))
    let items : Expr := .array node [.literal node (.text "a"), .literal node .null]
    let sum : Expr := .binary node .add (.literal node (.integer 1)) (.name node "n")
    let e : Expr := .unary node .not (.call node called [items, sum])
    e.Printable ∧ e.toText = "(!f(x)[0]([\"a\", null], (1 + n)))" ∧
      ∃ tokens last e' after, scan e.toText 7 = .ok (tokens ++ [last]) ∧ last.kind = .endOfInput ∧
        (operation (stepsFor (tokens ++ [last])) .equality).run ⟨tokens ++ [last], {}⟩ =
          .ok e' ⟨[last], after⟩ ∧
        parseExpr (tokens ++ [last]) {} = (.ok e', after) ∧
        e'.move .nowhere = e.move .nowhere ∧ e'.toText = e.toText := by
  intro node called items sum e
  have callee : called.Printable :=
    ⟨⟨⟨rfl, rfl⟩, ⟨rfl, rfl⟩, trivial⟩, show 0 ≤ Int64.toInt 0 by decide⟩
  have listed : items.Printable := ⟨show '"' ∉ "a".toList by decide, trivial, trivial⟩
  have added : sum.Printable := ⟨show 0 ≤ Int64.toInt 1 by decide, rfl, rfl⟩
  have printable : e.Printable := ⟨callee, listed, added, trivial⟩
  exact ⟨printable, by decide +kernel, parseExpr_toText e printable 7 {}⟩

end ScriptKit.Parser
