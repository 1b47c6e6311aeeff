/-! Temporary names: a stem, a dollar sign and a number that goes up by one with each name. -/
namespace ModSplice

/-- The numbers are 32-bit words. -/
structure Names where
  next : UInt32 := 0
  deriving DecidableEq, Repr, Inhabited

namespace Names

def numbered (stem : String) (n : UInt32) : String :=
  stem ++ "$" ++ Nat.repr n.toNat

def draw (names : Names) (stem : String) : String × Names :=
  (numbered stem names.next, ⟨names.next + 1⟩)

/-- The supply after `count` names. -/
def advance (names : Names) (count : Nat) : Names :=
  ⟨names.next + count.toUInt32⟩

end Names
end ModSplice
