import Mathlib.Data.List.InsertIdx
import Mathlib.Data.List.Perm.Basic
import ModSplice.Program

/-!
# Hanging nodes into a tree

A node that is hung into a tree changes the nodes above it, but only in what is inside them. Nodes
are therefore compared by their labels, which leave the inner nodes out, and trees by the labels of
all their nodes, each before those inside it. To hang a node in is to put its labels in at one
place, wherever the search for it ends.
-/
namespace ModSplice

/-- A node without the nodes inside it; of a declarator it is still told whether it has a value. -/
inductive Label where
  | importDecl (decl : ImportDecl)
  | moduleDecl (decl : ModuleDecl)
  | exportValue (span : Span) (target : String)
  | exportNothing (span : Span) (target : String)
  | exportVariables (span : Span) (kind : VarKind) (declarators : List (Span × String × Bool))
  | exportDefinition (span : Span) (kind : DefinitionKind) (name : String) (isDefault : Bool)
  | exportAll (span : Span) (source : Source)
  | exportFrom (span : Span) (source : Source) (specifiers : List Specifier)
  | exportNames (span : Span) (specifiers : List Specifier)
  | element (kind : ElementKind) (span : Span)
  deriving DecidableEq, Repr

def Declarator.head (d : Declarator) : Span × String × Bool :=
  (d.span, d.name, d.value?.isSome)

namespace Node

def label : Node → Label
  | .importDecl decl => .importDecl decl
  | .moduleDecl decl => .moduleDecl decl
  | .exportValue span target _ => .exportValue span target
  | .exportNothing span target => .exportNothing span target
  | .exportVariables span kind declarators =>
    .exportVariables span kind (declarators.map Declarator.head)
  | .exportDefinition span kind name _ isDefault => .exportDefinition span kind name isDefault
  | .exportAll span source => .exportAll span source
  | .exportFrom span source specifiers => .exportFrom span source specifiers
  | .exportNames span specifiers => .exportNames span specifiers
  | .element kind span _ => .element kind span

mutual

def labels : Node → List Label
  | .exportValue span target value => .exportValue span target :: labels value
  | .exportVariables span kind declarators =>
    .exportVariables span kind (declarators.map Declarator.head) :: labelsOfValues declarators
  | .exportDefinition span kind name definition isDefault =>
    .exportDefinition span kind name isDefault :: labels definition
  | .element kind span children => .element kind span :: labelsOfAll children
  | node => [node.label]

def labelsOfAll : List Node → List Label
  | [] => []
  | node :: rest => labels node ++ labelsOfAll rest

def labelsOfValues : List Declarator → List Label
  | [] => []
  | .unset _ _ :: rest => labelsOfValues rest
  | .set _ _ value :: rest => labels value ++ labelsOfValues rest

end

theorem labelsOfAll_eq (nodes : List Node) : labelsOfAll nodes = nodes.flatMap labels := by
  induction nodes with
  | nil => rfl
  | cons node rest ih => rw [labelsOfAll, ih, List.flatMap_cons]

theorem labelsOfValues_eq (declarators : List Declarator) :
    labelsOfValues declarators = (declarators.filterMap Declarator.value?).flatMap labels := by
  induction declarators with
  | nil => rfl
  | cons declarator rest ih =>
    cases declarator with
    | unset span name => exact ih
    | set span name value =>
      rw [labelsOfValues, ih]
      rfl

/-- The nodes that are reached are those that are reached through the children. -/
theorem labels_eq (node : Node) : node.labels = node.label :: node.children.flatMap labels := by
  cases node with
  | exportValue | exportDefinition => simp [labels, label, children]
  | exportVariables => simp [labels, label, children, labelsOfValues_eq]
  | element => simp [labels, label, children, labelsOfAll_eq]
  | importDecl | moduleDecl | exportNothing | exportAll | exportFrom | exportNames => rfl

theorem labelsOfAll_append (a b : List Node) :
    labelsOfAll (a ++ b) = labelsOfAll a ++ labelsOfAll b := by
  simp only [labelsOfAll_eq, List.flatMap_append]

end Node

/-- The last list is the one before it with `new` put in at one place. -/
def Inserted {α : Type} (new before after : List α) : Prop :=
  ∃ front back, before = front ++ back ∧ after = front ++ new ++ back

namespace Inserted

variable {α : Type} {new a b : List α}

theorem append_left (h : Inserted new a b) (front : List α) :
    Inserted new (front ++ a) (front ++ b) := by
  obtain ⟨l, r, rfl, rfl⟩ := h
  exact ⟨front ++ l, r, by simp, by simp⟩

theorem append_right (h : Inserted new a b) (back : List α) :
    Inserted new (a ++ back) (b ++ back) := by
  obtain ⟨l, r, rfl, rfl⟩ := h
  exact ⟨l, r ++ back, by simp, by simp⟩

theorem cons (h : Inserted new a b) (x : α) : Inserted new (x :: a) (x :: b) :=
  h.append_left [x]

/-- Nothing that was there is lost or moved past another. -/
theorem sublist (h : Inserted new a b) : a.Sublist b := by
  obtain ⟨l, r, rfl, rfl⟩ := h
  rw [List.append_assoc]
  exact (List.sublist_append_right new r).append_left l

theorem perm (h : Inserted new a b) : b.Perm (a ++ new) := by
  obtain ⟨l, r, rfl, rfl⟩ := h
  rw [List.append_assoc, List.append_assoc]
  exact List.perm_append_comm.append_left l

end Inserted

/-- The search by halving never leaves the list. -/
theorem partitionFrom_le {α : Type} (p : α → Bool) (xs : List α) (base size : Nat)
    (h : base + size ≤ xs.length) : partitionFrom p xs base size ≤ xs.length := by
  fun_induction partitionFrom p xs base size with
  | case1 base size hsize half next ih =>
    apply ih
    have hnext : next = base + half ∨ next = base := by
      by_cases hp : (xs[base + half]?).any p = true
      · exact .inl (if_pos hp)
      · exact .inr (if_neg hp)
    omega
  | case2 base size hsize =>
    by_cases hbase : base < xs.length
    · split <;> omega
    · rw [List.getElem?_eq_none (Nat.le_of_not_lt hbase)]
      exact Nat.le_of_add_right_le h

theorem insertIdx_of_le {α : Type} (xs : List α) (i : Nat) (x : α) (h : i ≤ xs.length) :
    xs.insertIdx i x = xs.take i ++ x :: xs.drop i := by
  induction xs generalizing i with
  | nil =>
    obtain rfl : i = 0 := Nat.le_zero.mp h
    rfl
  | cons y xs ih =>
    cases i with
    | zero => rfl
    | succ i => simpa using ih i (Nat.le_of_succ_le_succ h)

namespace Node

theorem place_inserted (node : Node) (siblings : List Node) :
    Inserted node.labels (labelsOfAll siblings) (labelsOfAll (place node siblings)) := by
  let i := partitionPoint (fun s => s.span.start < node.span.start) siblings
  have hi : i ≤ siblings.length := partitionFrom_le _ siblings 0 siblings.length (by omega)
  refine ⟨labelsOfAll (siblings.take i), labelsOfAll (siblings.drop i), ?_, ?_⟩
  · rw [← labelsOfAll_append, List.take_append_drop]
  · rw [place, insertIdx_of_le siblings i node hi, labelsOfAll_append, labelsOfAll,
      List.append_assoc]

/-- Declarators that take a node into a value are otherwise as before. -/
theorem attachToValue?_heads (node : Node) (declarators after : List Declarator)
    (h : attachToValue? node declarators = some after) :
    after.map Declarator.head = declarators.map Declarator.head := by
  induction declarators generalizing after with
  | nil => simp [attachToValue?] at h
  | cons declarator rest ih =>
    cases declarator with
    | unset span name =>
      obtain ⟨rest', hrest, rfl⟩ := Option.map_eq_some_iff.mp h
      rw [List.map_cons, List.map_cons, ih rest' hrest]
    | set span name value =>
      cases hvalue : attachInto? node value with
      | some value' =>
        simp only [attachToValue?, hvalue, Option.some.injEq] at h
        rw [← h]
        rfl
      | none =>
        simp only [attachToValue?, hvalue] at h
        obtain ⟨rest', hrest, rfl⟩ := Option.map_eq_some_iff.mp h
        rw [List.map_cons, List.map_cons, ih rest' hrest]

mutual

/-- A node that is hung into another, in as many turns as it takes, comes in at one place. -/
theorem attachInto?_inserted (node : Node) : ∀ before after : Node,
    attachInto? node before = some after → Inserted node.labels before.labels after.labels
  | .element kind span children, after, h => by
    obtain ⟨-, h⟩ := Option.ite_none_right_eq_some.mp h
    obtain rfl := Option.some.inj h
    refine Inserted.cons ?_ _
    cases hin : attachAmong? node children with
    | some children' => exact attachAmong?_inserted node children children' hin
    | none => exact place_inserted node children
  | .exportValue span target value, after, h => by
    obtain ⟨-, h⟩ := Option.ite_none_right_eq_some.mp h
    obtain ⟨value', hvalue, rfl⟩ := Option.map_eq_some_iff.mp h
    exact (attachInto?_inserted node value value' hvalue).cons _
  | .exportDefinition span kind name definition isDefault, after, h => by
    obtain ⟨-, h⟩ := Option.ite_none_right_eq_some.mp h
    obtain ⟨definition', hdefinition, rfl⟩ := Option.map_eq_some_iff.mp h
    exact (attachInto?_inserted node definition definition' hdefinition).cons _
  | .exportVariables span kind declarators, after, h => by
    obtain ⟨-, h⟩ := Option.ite_none_right_eq_some.mp h
    obtain ⟨declarators', hvalues, rfl⟩ := Option.map_eq_some_iff.mp h
    simp only [labels, attachToValue?_heads node declarators declarators' hvalues]
    exact (attachToValue?_inserted node declarators declarators' hvalues).cons _
  | .importDecl _, _, h | .moduleDecl _, _, h | .exportNothing _ _, _, h | .exportAll _ _, _, h
  | .exportFrom _ _ _, _, h | .exportNames _ _, _, h => by simp [attachInto?] at h

theorem attachAmong?_inserted (node : Node) : ∀ before after : List Node,
    attachAmong? node before = some after →
      Inserted node.labels (labelsOfAll before) (labelsOfAll after)
  | [], _, h => by simp [attachAmong?] at h
  | child :: rest, after, h => by
    cases hchild : attachInto? node child with
    | some child' =>
      simp only [attachAmong?, hchild, Option.some.injEq] at h
      obtain rfl := h
      exact (attachInto?_inserted node child child' hchild).append_right _
    | none =>
      simp only [attachAmong?, hchild] at h
      obtain ⟨rest', hrest, rfl⟩ := Option.map_eq_some_iff.mp h
      exact (attachAmong?_inserted node rest rest' hrest).append_left _

theorem attachToValue?_inserted (node : Node) : ∀ before after : List Declarator,
    attachToValue? node before = some after →
      Inserted node.labels (labelsOfValues before) (labelsOfValues after)
  | [], _, h => by simp [attachToValue?] at h
  | .unset span name :: rest, after, h => by
    obtain ⟨rest', hrest, rfl⟩ := Option.map_eq_some_iff.mp h
    exact attachToValue?_inserted node rest rest' hrest
  | .set span name value :: rest, after, h => by
    cases hvalue : attachInto? node value with
    | some value' =>
      simp only [attachToValue?, hvalue, Option.some.injEq] at h
      obtain rfl := h
      exact (attachInto?_inserted node value value' hvalue).append_right _
    | none =>
      simp only [attachToValue?, hvalue] at h
      obtain ⟨rest', hrest, rfl⟩ := Option.map_eq_some_iff.mp h
      exact (attachToValue?_inserted node rest rest' hrest).append_left _

end

theorem attach_inserted (siblings : List Node) (node : Node) :
    Inserted node.labels (labelsOfAll siblings) (labelsOfAll (attach siblings node)) := by
  rw [attach]
  cases h : attachAmong? node siblings with
  | some after => exact attachAmong?_inserted node siblings after h
  | none => exact place_inserted node siblings

/-- Nodes hung in one after the other: all labels that were there stay, in their order, and those
of the new nodes are the only ones besides. -/
theorem foldl_attach_labels (nodes siblings : List Node) :
    (labelsOfAll siblings).Sublist (labelsOfAll (nodes.foldl attach siblings)) ∧
      (labelsOfAll (nodes.foldl attach siblings)).Perm
        (labelsOfAll siblings ++ labelsOfAll nodes) := by
  induction nodes generalizing siblings with
  | nil => exact ⟨.refl _, by simp [labelsOfAll]⟩
  | cons node rest ih =>
    have hfirst := attach_inserted siblings node
    obtain ⟨hsublist, hperm⟩ := ih (attach siblings node)
    refine ⟨hfirst.sublist.trans hsublist, hperm.trans ?_⟩
    rw [labelsOfAll, ← List.append_assoc]
    exact hfirst.perm.append_right _

end Node

/-- In the tree of a program the nodes of the parser all stay, in their order, and each declaration
that was found before comes in once. -/
theorem Program.assemble_labels (source : String) (items legacy : List Node) :
    let before := Label.element .program ⟨0, source.utf8ByteSize⟩ :: Node.labelsOfAll items
    before.Sublist (assemble source items legacy).labels ∧
      (assemble source items legacy).labels.Perm (before ++ Node.labelsOfAll legacy) := by
  obtain ⟨hsublist, hperm⟩ := Node.foldl_attach_labels legacy items
  exact ⟨hsublist.cons_cons _, hperm.cons _⟩

end ModSplice
