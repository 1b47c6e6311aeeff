import ModSplice.Proofs.Attachment

/-!
# Trees whose spans nest

In a well-formed tree every node below the root covers some bytes of its parent, and the children of
a node stand one behind the other. Trees are gone through by way of the lists of their children, so
most of what follows is about lists of nodes, each with all that is below it.
-/
namespace ModSplice

namespace Span

def Apart (s t : Span) : Prop :=
  s.stop ≤ t.start ∨ t.stop ≤ s.start
  deriving Decidable

theorem Apart.symm {s t : Span} (h : s.Apart t) : t.Apart s :=
  Or.symm h

theorem contains_iff {s t : Span} : s.contains t = true ↔ s.start ≤ t.start ∧ t.stop ≤ s.stop := by
  rw [contains, Bool.and_eq_true, decide_eq_true_eq, decide_eq_true_eq]

end Span

namespace Node

def nodes (node : Node) : List Node :=
  (node.outline 0).map Prod.snd

theorem outlineAll_eq (depth : Nat) (nodes : List Node) :
    outlineAll depth nodes = nodes.flatMap (outline depth) := by
  induction nodes with
  | nil => rfl
  | cons node rest ih => rw [outlineAll, ih, List.flatMap_cons]

theorem outlineValues_eq (depth : Nat) (declarators : List Declarator) :
    outlineValues depth declarators =
      (declarators.filterMap Declarator.value?).flatMap (outline depth) := by
  induction declarators with
  | nil => rfl
  | cons declarator rest ih =>
    cases declarator with
    | unset span name => exact ih
    | set span name value =>
      rw [outlineValues, ih]
      rfl

theorem outline_eq (depth : Nat) (node : Node) :
    node.outline depth = (depth, node) :: node.children.flatMap (outline (depth + 1)) := by
  cases node with
  | exportValue | exportDefinition => simp [outline, children]
  | exportVariables => simp [outline, children, outlineValues_eq]
  | element => simp [outline, children, outlineAll_eq]
  | importDecl | moduleDecl | exportNothing | exportAll | exportFrom | exportNames => rfl

/-- Induction over a list of trees: on the trees inside the first one and on the others. -/
theorem forest_induction {motive : List Node → Prop} (nil : motive [])
    (cons : ∀ node rest, motive node.children → motive rest → motive (node :: rest))
    (forest : List Node) : motive forest := by
  induction hn : (forest.flatMap labels).length using Nat.strongRecOn generalizing forest with
  | ind n ih =>
    cases forest with
    | nil => exact nil
    | cons node rest =>
      rw [List.flatMap_cons, labels_eq, List.length_append, List.length_cons] at hn
      exact cons node rest (ih _ (by omega) node.children rfl) (ih _ (by omega) rest rfl)

/-- Induction over a tree, from the children of a node to the node. -/
theorem tree_induction {motive : Node → Prop}
    (node : ∀ node, (∀ child ∈ node.children, motive child) → motive node) (tree : Node) :
    motive tree := by
  have hforest : ∀ forest : List Node, ∀ member ∈ forest, motive member := by
    intro forest
    induction forest using forest_induction with
    | nil => simp
    | cons first rest hinside hrest => exact List.forall_mem_cons.mpr ⟨node first hinside, hrest⟩
  exact hforest [tree] tree (List.mem_singleton_self tree)

theorem map_outline (forest : List Node) (depth : Nat) :
    (forest.flatMap (outline depth)).map Prod.snd = forest.flatMap nodes := by
  induction forest using forest_induction generalizing depth with
  | nil => rfl
  | cons node rest hinside hrest =>
    have hnode : (node.outline depth).map Prod.snd = node.nodes := by
      rw [nodes, outline_eq depth, outline_eq 0, List.map_cons, List.map_cons, hinside, hinside]
    rw [List.flatMap_cons, List.flatMap_cons, List.map_append, hnode, hrest]

theorem nodes_eq (node : Node) : node.nodes = node :: node.children.flatMap nodes := by
  rw [nodes, outline_eq, List.map_cons, map_outline]

/-- The children of a node stand one behind the other. -/
def InOrder (forest : List Node) : Prop :=
  forest.Pairwise fun a b => a.span.stop ≤ b.span.start
  deriving Decidable

/-- Below the root every node covers some bytes of its parent, and behind it come its siblings. -/
def WellFormed (tree : Node) : Prop :=
  ∀ node ∈ tree.nodes, InOrder node.children ∧
    ∀ child ∈ node.children, child.span.start < child.span.stop ∧
      node.span.contains child.span = true
  deriving Decidable

/-- The same for a list of trees whose parent is not known. -/
inductive Nested : List Node → Prop
  | nil : Nested []
  | cons {node : Node} {rest : List Node} :
    node.span.start < node.span.stop →
    (∀ later ∈ rest, node.span.stop ≤ later.span.start) →
    (∀ child ∈ node.children, node.span.contains child.span = true) →
    Nested node.children → Nested rest → Nested (node :: rest)

theorem wellFormed_iff_children (tree : Node) :
    tree.WellFormed ↔
      (InOrder tree.children ∧ ∀ child ∈ tree.children, child.span.start < child.span.stop ∧
        tree.span.contains child.span = true) ∧
      ∀ child ∈ tree.children, child.WellFormed := by
  simp only [WellFormed]
  rw [nodes_eq tree, List.forall_mem_cons, List.forall_mem_flatMap]

theorem nested_iff (forest : List Node) :
    Nested forest ↔ InOrder forest ∧
      ∀ node ∈ forest, node.span.start < node.span.stop ∧ node.WellFormed := by
  induction forest using forest_induction with
  | nil => exact iff_of_true .nil ⟨.nil, by simp⟩
  | cons node rest hinside hrest =>
    rw [InOrder, List.pairwise_cons, List.forall_mem_cons, wellFormed_iff_children]
    constructor
    · rintro (_ | ⟨hsome, hlater, hwithin, hchildren, hothers⟩)
      obtain ⟨horder, hmembers⟩ := hinside.mp hchildren
      obtain ⟨horder', hmembers'⟩ := hrest.mp hothers
      exact ⟨⟨hlater, horder'⟩, ⟨hsome, ⟨horder, fun child hchild =>
        ⟨(hmembers child hchild).1, hwithin child hchild⟩⟩, fun child hchild =>
          (hmembers child hchild).2⟩, hmembers'⟩
    · rintro ⟨⟨hlater, horder'⟩, ⟨hsome, ⟨horder, hwithin⟩, hmembers⟩, hmembers'⟩
      exact .cons hsome hlater (fun child hchild => (hwithin child hchild).2)
        (hinside.mpr ⟨horder, fun child hchild =>
          ⟨(hwithin child hchild).1, hmembers child hchild⟩⟩)
        (hrest.mpr ⟨horder', hmembers'⟩)

theorem wellFormed_iff_nested (tree : Node) :
    tree.WellFormed ↔ Nested tree.children ∧
      ∀ child ∈ tree.children, tree.span.contains child.span = true := by
  rw [wellFormed_iff_children, nested_iff]
  constructor
  · rintro ⟨⟨horder, hwithin⟩, hmembers⟩
    exact ⟨⟨horder, fun child hchild => ⟨(hwithin child hchild).1, hmembers child hchild⟩⟩,
      fun child hchild => (hwithin child hchild).2⟩
  · rintro ⟨⟨horder, hmembers⟩, hwithin⟩
    exact ⟨⟨horder, fun child hchild => ⟨(hmembers child hchild).1, hwithin child hchild⟩⟩,
      fun child hchild => (hmembers child hchild).2⟩

namespace Nested

variable {node : Node} {rest forest : List Node}

/-- All that is below a list of nodes is inside one of them. -/
theorem within (h : Nested forest) {inner : Node} (hinner : inner ∈ forest.flatMap nodes) :
    ∃ node ∈ forest, node.span.contains inner.span = true := by
  induction h with
  | nil => simp at hinner
  | @cons node rest _ _ hwithin _ _ hinside hrest =>
    rw [List.flatMap_cons, nodes_eq, List.cons_append, List.mem_cons, List.mem_append] at hinner
    rcases hinner with rfl | hinner | hinner
    · exact ⟨inner, by simp, Span.contains_self _⟩
    · obtain ⟨child, hchild, hcontains⟩ := hinside hinner
      exact ⟨node, by simp, Span.contains_trans (hwithin child hchild) hcontains⟩
    · obtain ⟨other, hother, hcontains⟩ := hrest hinner
      exact ⟨other, by simp [hother], hcontains⟩

theorem nonempty (h : Nested forest) {inner : Node} (hinner : inner ∈ forest.flatMap nodes) :
    inner.span.start < inner.span.stop := by
  induction h with
  | nil => simp at hinner
  | @cons node rest hsome _ _ _ _ hinside hrest =>
    rw [List.flatMap_cons, nodes_eq, List.cons_append, List.mem_cons, List.mem_append] at hinner
    rcases hinner with rfl | hinner | hinner
    · exact hsome
    · exact hinside hinner
    · exact hrest hinner

/-- What is below the nodes behind one starts behind it. -/
theorem stop_le (h : Nested (node :: rest)) {inner : Node} (hinner : inner ∈ rest.flatMap nodes) :
    node.span.stop ≤ inner.span.start := by
  cases h with
  | cons _ hlater _ _ hrest =>
    obtain ⟨other, hother, hcontains⟩ := hrest.within hinner
    exact Nat.le_trans (hlater other hother) (Span.contains_iff.mp hcontains).1

theorem contains_of_mem (h : Nested (node :: rest)) {inner : Node} (hinner : inner ∈ node.nodes) :
    node.span.contains inner.span = true := by
  cases h with
  | cons _ _ hwithin hinside _ =>
    rw [nodes_eq, List.mem_cons] at hinner
    rcases hinner with rfl | hinner
    · exact Span.contains_self _
    · obtain ⟨child, hchild, hcontains⟩ := hinside.within hinner
      exact Span.contains_trans (hwithin child hchild) hcontains

/-- Nodes that nest are gone through from left to right. -/
theorem sorted (h : Nested forest) :
    (forest.flatMap nodes).Pairwise fun a b => a.span.start ≤ b.span.start := by
  induction h with
  | nil => exact .nil
  | @cons node rest hsome hlater hwithin hchildren hothers hinside hrest =>
    have hnested := Nested.cons hsome hlater hwithin hchildren hothers
    have hnode : ∀ inner ∈ node.children.flatMap nodes, node.span.contains inner.span = true :=
      fun inner hinner => hnested.contains_of_mem (by simp [nodes_eq node, hinner])
    rw [List.flatMap_cons, nodes_eq, List.cons_append, List.pairwise_cons, List.pairwise_append]
    refine ⟨?_, hinside, hrest, ?_⟩
    · intro inner hinner
      rcases List.mem_append.mp hinner with hinner | hinner
      · exact (Span.contains_iff.mp (hnode inner hinner)).1
      · have := hnested.stop_le hinner
        omega
    · intro inner hinner other hother
      have hstop := hnested.stop_le hother
      have hsome := hchildren.nonempty hinner
      obtain ⟨-, hcontains⟩ := Span.contains_iff.mp (hnode inner hinner)
      omega

end Nested

end Node
end ModSplice
