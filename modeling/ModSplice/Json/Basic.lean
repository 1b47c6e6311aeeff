import ModSplice.Json.Double

/-!
JSON values. An object keeps its fields in the order of the text, repeated ones included, and a
number keeps the distinction between an unsigned integer and every other spelling, because only the
first kind can be a byte offset.
-/
namespace ModSplice

inductive Json where
  | null
  | bool (value : Bool)
  /-- A number written with digits only. -/
  | nat (value : Nat)
  /-- Any other number: the digits read as one number, times a power of ten. -/
  | decimal (negative : Bool) (mantissa : Nat) (exponent : Int)
  | str (value : String)
  /-- A string with an unpaired surrogate escape, or an object with such a string for a key. -/
  | malformed
  | arr (items : List Json)
  | obj (fields : List (String × Json))
  deriving Repr, Inhabited

namespace Json

mutual

/-- How many arrays and objects stand inside each other. -/
def depth : Json → Nat
  | .arr items => depthOfItems items + 1
  | .obj fields => depthOfFields fields + 1
  | _ => 0

def depthOfItems : List Json → Nat
  | [] => 0
  | item :: rest => max (depth item) (depthOfItems rest)

def depthOfFields : List (String × Json) → Nat
  | [] => 0
  | (_, value) :: rest => max (depth value) (depthOfFields rest)

end

mutual

/-- Whether every string is well formed and every number finite. -/
def isSound : Json → Bool
  | .malformed => false
  | .nat n => isFinite n 0
  | .decimal _ mantissa exponent => isFinite mantissa exponent
  | .arr items => areSoundItems items
  | .obj fields => areSoundFields fields
  | _ => true

def areSoundItems : List Json → Bool
  | [] => true
  | item :: rest => isSound item && areSoundItems rest

def areSoundFields : List (String × Json) → Bool
  | [] => true
  | (_, value) :: rest => isSound value && areSoundFields rest

end

/-- The first field of that name, if the value is an object. -/
def get? (name : String) : Json → Option Json
  | .obj fields => fields.lookup name
  | _ => none

def toString? : Json → Option String
  | .str s => some s
  | _ => none

def toBool? : Json → Option Bool
  | .bool b => some b
  | _ => none

def toItems? : Json → Option (List Json)
  | .arr items => some items
  | _ => none

/-- An unsigned number of at most 64 bits. -/
def toOffset? : Json → Option Nat
  | .nat n => if n < UInt64.size then some n else none
  | _ => none

end Json
end ModSplice
