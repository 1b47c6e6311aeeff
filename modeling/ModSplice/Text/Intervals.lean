/-! Code points as sorted, disjoint, closed intervals. -/
namespace ModSplice.Text

def inIntervals (intervals : List (Nat × Nat)) (n : Nat) : Bool :=
  intervals.any fun (first, last) => first ≤ n && n ≤ last

end ModSplice.Text
