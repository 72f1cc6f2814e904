import ScriptKit.Text.GraphemeBreak

/-! Cutting a text into the characters that a reader perceives, each of which may be made up of
several code points (extended grapheme clusters).

Whether a character joins the cluster before it hangs on its class and on how that cluster ends, so
one pass suffices. -/

namespace ScriptKit.Text

inductive GraphemeClass where
  | carriageReturn
  | lineFeed
  | control
  /-- A mark that belongs to what stands before it. -/
  | extend
  /-- A mark that joins consonants. -/
  | linker
  /-- The zero-width non-joiner: a mark that no joining of consonants reaches across. -/
  | nonJoiner
  /-- The zero-width joiner, which also joins pictographs. -/
  | joiner
  | spacingMark
  | prepended
  | consonant
  | pictograph
  /-- One of two letters that make a flag. -/
  | regional
  /-- Parts of Hangul syllables, and syllables without and with a tail. -/
  | lead | vowel | tail | openSyllable | closedSyllable
  | other
deriving DecidableEq, Repr

namespace GraphemeClass

/-- Composed syllables stand in rows of 28, the first of which has no tail. -/
def ofSyllable (n : Nat) : GraphemeClass :=
  if (n - 0xac00) % 28 = 0 then .openSyllable else .closedSyllable

def ofChar (c : Char) : GraphemeClass :=
  let n := c.toNat
  if n = 0xd then .carriageReturn
  else if n = 0xa then .lineFeed
  else if 0x20 ≤ n ∧ n < 0x7f then .other
  else if n = 0x200c then .nonJoiner
  else if n = 0x200d then .joiner
  else if 0x1f1e6 ≤ n ∧ n ≤ 0x1f1ff then .regional
  else if 0xac00 ≤ n ∧ n ≤ 0xd7a3 then ofSyllable n
  else if GraphemeBreak.within GraphemeBreak.controls n then .control
  else if GraphemeBreak.within GraphemeBreak.extenders n then .extend
  else if GraphemeBreak.within GraphemeBreak.linkers n then .linker
  else if GraphemeBreak.within GraphemeBreak.consonants n then .consonant
  else if GraphemeBreak.within GraphemeBreak.spacingMarks n then .spacingMark
  else if GraphemeBreak.within GraphemeBreak.prepended n then .prepended
  else if GraphemeBreak.within GraphemeBreak.pictographs n then .pictograph
  else if GraphemeBreak.within GraphemeBreak.leads n then .lead
  else if GraphemeBreak.within GraphemeBreak.vowels n then .vowel
  else if GraphemeBreak.within GraphemeBreak.tails n then .tail
  else .other

def isControl : GraphemeClass → Bool
  | carriageReturn | lineFeed | control => true
  | _ => false

def isMark : GraphemeClass → Bool
  | extend | linker | nonJoiner | joiner | spacingMark => true
  | _ => false

def syllable : GraphemeClass → GraphemeClass → Bool
  | lead, lead | lead, vowel | lead, openSyllable | lead, closedSyllable => true
  | openSyllable, vowel | openSyllable, tail | vowel, vowel | vowel, tail => true
  | closedSyllable, tail | tail, tail => true
  | _, _ => false

end GraphemeClass

/-- How far a pictograph has come that a joiner may join to another one. -/
inductive PictographState where
  | none
  /-- A pictograph, with marks behind it. -/
  | shown
  /-- A pictograph with a joiner at its end. -/
  | joined
deriving DecidableEq, Repr

/-- How far a consonant has come that a linker may join to another one. -/
inductive ConjunctState where
  | none
  | begun
  | linked
deriving DecidableEq, Repr

structure GraphemeEnd where
  last : GraphemeClass
  pictograph : PictographState := .none
  conjunct : ConjunctState := .none
  /-- Whether a flag lacks its second letter. -/
  halfFlag : Bool := false
deriving DecidableEq, Repr

namespace GraphemeEnd

def nextPictograph : PictographState → GraphemeClass → PictographState
  | _, .pictograph => .shown
  | .shown, .extend | .shown, .linker | .shown, .nonJoiner => .shown
  | .shown, .joiner => .joined
  | _, _ => .none

def nextConjunct : ConjunctState → GraphemeClass → ConjunctState
  | _, .consonant => .begun
  | .begun, .linker | .linked, .linker => .linked
  | state, .extend | state, .joiner => state
  | _, _ => .none

def push (e : GraphemeEnd) (c : GraphemeClass) : GraphemeEnd where
  last := c
  pictograph := nextPictograph e.pictograph c
  conjunct := nextConjunct e.conjunct c
  halfFlag := c = .regional && !e.halfFlag

def single (c : GraphemeClass) : GraphemeEnd :=
  push ⟨.control, .none, .none, false⟩ c

def joins (e : GraphemeEnd) (c : GraphemeClass) : Bool :=
  if e.last.isControl || c.isControl then e.last = .carriageReturn && c = .lineFeed
  else
    c.isMark || e.last = .prepended || GraphemeClass.syllable e.last c ||
      (e.conjunct = .linked && c = .consonant) ||
      (e.pictograph = .joined && c = .pictograph) ||
      (e.halfFlag && c = .regional)

end GraphemeEnd

def graphemes : List Char → List (List Char)
  | [] => []
  | c :: rest => go [c] (.single (.ofChar c)) rest
where
  /-- `cluster` holds the current cluster backwards. -/
  go (cluster : List Char) (e : GraphemeEnd) : List Char → List (List Char)
    | [] => [cluster.reverse]
    | c :: rest =>
      let k := GraphemeClass.ofChar c
      if e.joins k then go (c :: cluster) (e.push k) rest
      else cluster.reverse :: go [c] (e.push k) rest

end ScriptKit.Text
