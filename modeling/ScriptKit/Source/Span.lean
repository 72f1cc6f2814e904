/-! Ranges of byte offsets into a text. -/

namespace ScriptKit

/-- The bytes from `start` up to `stop`, `stop` excluded. -/
structure Span where
  start : Nat
  stop : Nat
deriving DecidableEq, Repr, Inhabited

namespace Span

def join (a b : Span) : Span :=
  ⟨min a.start b.start, max a.stop b.stop⟩

/-- The span as seen from `base`, if it lies in the `len` bytes that begin there. -/
def within? (s : Span) (base len : Nat) : Option Span :=
  if base ≤ s.start ∧ s.stop ≤ base + len then some ⟨s.start - base, s.stop - base⟩ else none

end Span

end ScriptKit
