import ScriptKit.Value.Basic

/-! The variables of one frame, in a table of slots.

A name is looked for from the slot that its hash picks, slot after slot, until it or an empty slot
is met. The number of slots is a power of two, so that the hash is masked and not divided. The table
doubles before more than four fifths of it are in use, so an empty slot is always met. Variables are
never removed. -/

namespace ScriptKit

/-- A hash of 64 bits that mixes in one byte of the name after the other (FNV-1a). -/
def fnv1a (name : String) : UInt64 :=
  name.toUTF8.data.foldl (fun h b => (h ^^^ b.toUInt64) * 0x100000001b3) 0xcbf29ce484222325

structure Binding where
  name : String
  value : Value
  isConst : Bool

inductive Probe where
  /-- The slot that holds the name. -/
  | found (i : Nat)
  /-- The empty slot where the name would go. -/
  | vacant (i : Nat)
  /-- Other names in every slot. -/
  | full
deriving DecidableEq, Repr

def Probe.walk (slots : Array (Option Binding)) (name : String) : Nat → Nat → Probe
  | 0, _ => full
  | n + 1, i =>
    match slots[i]? with
    | some (some b) =>
      if b.name = name then found i else walk slots name n ((i + 1) &&& (slots.size - 1))
    | some none => vacant i
    | none => full

/-- Variables by name, for any way to hash names. -/
structure SymbolTable (hash : String → UInt64) where
  slots : Array (Option Binding) := #[]
  size : Nat := 0

namespace SymbolTable

variable {hash : String → UInt64}

def capacity (t : SymbolTable hash) : Nat :=
  t.slots.size

def isEmpty (t : SymbolTable hash) : Bool :=
  t.size = 0

def toList (t : SymbolTable hash) : List Binding :=
  t.slots.toList.filterMap fun slot => slot

def probe (hash : String → UInt64) (slots : Array (Option Binding)) (name : String) : Probe :=
  Probe.walk slots name slots.size ((hash name).toNat &&& (slots.size - 1))

def get? (t : SymbolTable hash) (name : String) : Option Binding :=
  match probe hash t.slots name with
  | .found i => t.slots[i]?.join
  | _ => none

def contains (t : SymbolTable hash) (name : String) : Bool :=
  match probe hash t.slots name with
  | .found _ => true
  | _ => false

def put (hash : String → UInt64) (slots : Array (Option Binding)) (b : Binding) :
    Array (Option Binding) :=
  match probe hash slots b.name with
  | .vacant i => slots.setIfInBounds i (some b)
  | _ => slots

/-- Puts every variable into its slot among twice as many, and among eight at least. -/
def grow (t : SymbolTable hash) : SymbolTable hash :=
  { t with slots := t.toList.foldl (put hash) (Array.replicate (max (t.capacity * 2) 8) none) }

/-- Adds a variable, or hands it back if its name is taken. -/
def insert (t : SymbolTable hash) (b : Binding) : EStateM.Result Binding (SymbolTable hash) Unit :=
  if t.contains b.name then .error b t
  else
    let t := if t.capacity * 4 < (t.size + 1) * 5 then t.grow else t
    .ok () ⟨put hash t.slots b, t.size + 1⟩

def insert? (t : SymbolTable hash) (b : Binding) : Option (SymbolTable hash) :=
  match t.insert b with
  | .ok _ grown => some grown
  | .error _ _ => none

def set (t : SymbolTable hash) (name : String) (value : Value) : SymbolTable hash :=
  match probe hash t.slots name with
  | .found i => { t with slots := t.slots.modify i fun slot => slot.map ({ · with value }) }
  | _ => t

def envs (t : SymbolTable hash) : List ScopeId :=
  t.toList.flatMap (·.value.envs)

end SymbolTable

end ScriptKit
