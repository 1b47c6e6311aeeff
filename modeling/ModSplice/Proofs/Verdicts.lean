import ModSplice.Proofs.Nesting
import ModSplice.Splice.Edit

/-!
# Walks told by their verdicts

Whatever the rules are, the edits at a node are settled by its verdict, from the edits of the nodes
inside and from those that replace the node itself. Rules matter to a walk through their verdicts
only.
-/
namespace ModSplice

namespace Rule

/-- The rule accepts the node, and none of those in front of it does. -/
def Decides (rules : List Rule) (rule : Rule) (node : Node) : Prop :=
  ∃ front back, rules = front ++ rule :: back ∧ rule.accepts node = true ∧
    ∀ earlier ∈ front, earlier.accepts node = false

theorem decides_iff {rules : List Rule} {rule : Rule} {node : Node} :
    Decides rules rule node ↔ rules.find? (accepts node) = some rule := by
  rw [List.find?_eq_some_iff_append]
  constructor
  · rintro ⟨front, back, hrules, haccepts, hearlier⟩
    exact ⟨haccepts, front, back, hrules, fun earlier h => by simp [hearlier earlier h]⟩
  · rintro ⟨haccepts, front, back, hrules, hearlier⟩
    exact ⟨front, back, hrules, haccepts, fun earlier h => by simpa using hearlier earlier h⟩

end Rule

/-- Only declarations are replaced. -/
theorem isElement_of_replace {rules : List Rule} {node : Node} (h : verdict rules node = .replace) :
    node.isElement = false := by
  cases hfind : rules.find? (Rule.accepts node) with
  | none => simp [verdict, hfind] at h
  | some rule =>
    have haccepts := List.find?_some hfind
    simp only [verdict, hfind] at h
    cases rule with
    | recorder types descent => cases h
    | imports | modules | exports => cases node <;> first | rfl | cases haccepts

namespace Node

theorem allEdits_eq (rules : List Rule) (nodes : List Node) :
    allEdits rules nodes = nodes.flatMap (edits rules) := by
  induction nodes with
  | nil => rfl
  | cons node rest ih => rw [allEdits, ih, List.flatMap_cons]

theorem valuesEdits_eq (rules : List Rule) (declarators : List Declarator) :
    valuesEdits rules declarators =
      (declarators.filterMap Declarator.value?).flatMap (edits rules) := by
  induction declarators with
  | nil => rfl
  | cons declarator rest ih =>
    cases declarator with
    | unset span name => exact ih
    | set span name value =>
      rw [valuesEdits, ih]
      rfl

def replacement (rules : List Rule) : Node → List Edit
  | .importDecl decl => replaceWhole decl.span decl.substitute
  | .moduleDecl decl => replaceWhole decl.span (.insert (.bind decl.name decl.source.raw))
  | .exportValue span target value =>
    valueEdits (.exportValue span target value) span target value (edits rules value)
  | .exportNothing span target => replaceWhole span (.insert (.assignUndefined target))
  | .exportVariables span kind declarators =>
    .copyTo span.start ::
      (if declarators.isEmpty then [.refuse (.unsupported .noDeclarators)]
       else declaratorEdits rules (.exportVariables span kind declarators) (some kind) declarators)
  | .exportDefinition span kind name definition isDefault =>
    definitionEdits (.exportDefinition span kind name definition isDefault) span name definition
      isDefault (edits rules definition)
  | .exportAll span source => replaceWhole span (.insert (.forwardAll source.raw))
  | .exportFrom span source specifiers =>
    replaceWhole span (.insert (.forwardMembers source.raw specifiers))
  | .exportNames span specifiers => replaceWhole span (.insert (.publishNames specifiers))
  | .element .. => []

/-- One equation for all nodes and all rules. -/
theorem edits_eq (rules : List Rule) (node : Node) :
    node.edits rules = (verdict rules node).settle node (node.children.flatMap (edits rules))
      (node.replacement rules) := by
  cases node with
  | importDecl | moduleDecl | exportNothing | exportAll | exportFrom | exportNames => rfl
  | exportValue | exportDefinition => simp [edits, children, replacement]
  | exportVariables span kind declarators =>
    simp only [edits, valuesEdits_eq, children, replacement]
    cases verdict rules (.exportVariables span kind declarators) <;> rfl
  | element => simp [edits, allEdits_eq, children, replacement]

theorem declaratorEdits_congr {rules rules' : List Rule} (node : Node)
    {declarators : List Declarator}
    (h : ∀ value ∈ declarators.filterMap Declarator.value?, value.edits rules = value.edits rules')
    (kind? : Option VarKind) :
    declaratorEdits rules node kind? declarators =
      declaratorEdits rules' node kind? declarators := by
  induction declarators generalizing kind? with
  | nil => rfl
  | cons declarator rest ih =>
    cases declarator with
    | unset span name => simp only [declaratorEdits, ih h none]
    | set span name value =>
      obtain ⟨hvalue, hrest⟩ := List.forall_mem_cons.mp h
      simp only [declaratorEdits, hvalue, ih hrest none]

theorem replacement_congr {rules rules' : List Rule} {node : Node}
    (h : ∀ child ∈ node.children, child.edits rules = child.edits rules') :
    node.replacement rules = node.replacement rules' := by
  cases node with
  | importDecl | moduleDecl | exportNothing | exportAll | exportFrom | exportNames | element => rfl
  | exportValue span target value => simp only [replacement, h value (by simp [children])]
  | exportDefinition span kind name definition isDefault =>
    simp only [replacement, h definition (by simp [children])]
  | exportVariables span kind declarators =>
    simp only [replacement, declaratorEdits_congr _ h]

/-- By induction over the tree; the nodes inside a declaration that is replaced are walked with the
same rules. -/
theorem edits_congr {rules rules' : List Rule}
    (h : ∀ node inside replacement, (verdict rules node).settle node inside replacement =
      (verdict rules' node).settle node inside replacement) (tree : Node) :
    tree.edits rules = tree.edits rules' := by
  induction tree using tree_induction with
  | node node hinside =>
    rw [edits_eq rules, edits_eq rules', h node, replacement_congr hinside,
      List.flatMap_congr hinside]

end Node
end ModSplice
