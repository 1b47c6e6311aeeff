/-! Half-open ranges of byte offsets. Nothing forces a range to run forwards. -/
namespace ModSplice

structure Span where
  start : Nat
  stop : Nat
  deriving DecidableEq, Repr, Inhabited

namespace Span

/-- Bytes in the range; none for a range that runs backwards. -/
def length? (s : Span) : Option Nat :=
  if s.start ≤ s.stop then some (s.stop - s.start) else none

def isEmpty (s : Span) : Bool :=
  s.start == s.stop

def contains (s t : Span) : Bool :=
  s.start ≤ t.start && t.stop ≤ s.stop

def text (s : Span) : String :=
  Nat.repr s.start ++ ".." ++ Nat.repr s.stop

@[simp] theorem contains_self (s : Span) : s.contains s = true := by
  simp [contains]

theorem contains_trans {s t u : Span} (h : s.contains t = true) (h' : t.contains u = true) :
    s.contains u = true := by
  simp only [contains, Bool.and_eq_true, decide_eq_true_eq] at *
  omega

end Span
end ModSplice
