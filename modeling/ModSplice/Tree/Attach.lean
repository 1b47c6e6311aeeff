import ModSplice.Tree.Node

/-!
Hanging a node into a tree: into the deepest element whose span contains it, on the way down always
the first that does, and among the children there by its start.
-/
namespace ModSplice

/-- How many elements at the beginning of a list satisfy `p`, found by halving. The answer is only
meaningful for a list in which no element satisfies `p` after one that does not. The search covers
`size` elements from `base` on. -/
def partitionFrom {α : Type} (p : α → Bool) (xs : List α) (base size : Nat) : Nat :=
  if 1 < size then
    let half := size / 2
    let next := if (xs[base + half]?).any p then base + half else base
    partitionFrom p xs next (size - half)
  else base + (if (xs[base]?).any p then 1 else 0)
termination_by size
decreasing_by omega

def partitionPoint {α : Type} (p : α → Bool) (xs : List α) : Nat :=
  partitionFrom p xs 0 xs.length

namespace Node

/-- Puts a node among its siblings, by its start. -/
def place (node : Node) (siblings : List Node) : List Node :=
  siblings.insertIdx (partitionPoint (fun s => s.span.start < node.span.start) siblings) node

mutual

/-- Hangs `node` into a node that can take it: an element that contains it, or an export that
contains it and has an inner node that can take it. -/
def attachInto? (node : Node) : Node → Option Node
  | .element kind span children =>
    if span.contains node.span then
      some (.element kind span ((attachAmong? node children).getD (place node children)))
    else none
  | .exportValue span target value =>
    if span.contains node.span then
      (attachInto? node value).map fun value => .exportValue span target value
    else none
  | .exportDefinition span kind name definition isDefault =>
    if span.contains node.span then
      (attachInto? node definition).map fun definition =>
        .exportDefinition span kind name definition isDefault
    else none
  | .exportVariables span kind declarators =>
    if span.contains node.span then
      (attachToValue? node declarators).map fun declarators =>
        .exportVariables span kind declarators
    else none
  | _ => none

def attachAmong? (node : Node) : List Node → Option (List Node)
  | [] => none
  | child :: rest =>
    match attachInto? node child with
    | some child => some (child :: rest)
    | none => (attachAmong? node rest).map (child :: ·)

def attachToValue? (node : Node) : List Declarator → Option (List Declarator)
  | [] => none
  | .unset span name :: rest => (attachToValue? node rest).map (.unset span name :: ·)
  | .set span name value :: rest =>
    match attachInto? node value with
    | some value => some (.set span name value :: rest)
    | none => (attachToValue? node rest).map (.set span name value :: ·)

end

/-- Hangs a node in below some siblings or among them. -/
def attach (siblings : List Node) (node : Node) : List Node :=
  (attachAmong? node siblings).getD (place node siblings)

end Node
end ModSplice
