import Mathlib.Data.List.Flatten
import ModSplice.Proofs.Nesting
import ModSplice.Proofs.Pipeline
import ModSplice.Proofs.StandardWalk

/-!
# Overlapping declarations

Nothing compares the ranges of declarations with each other. That overlaps are refused can only come
from the cursor, which does not go back: a walk succeeds if and only if the offsets it asks for
ascend. Most declarations ask for their own end last. An exported value and exported variables stop
at the end of the last part that they keep, so that the text behind it stays; a declaration that
begins in this rest is not refused.
-/
namespace ModSplice

open Text

namespace Edit

def target : Edit → List Nat
  | .copyTo offset => [offset]
  | .skipTo offset => [offset]
  | _ => []

def isRefusal : Edit → Bool
  | .refuse _ => true
  | _ => false

end Edit

def targets (edits : List Edit) : List Nat :=
  edits.flatMap Edit.target

@[simp] theorem targets_nil : targets [] = [] := rfl

@[simp] theorem targets_cons (edit : Edit) (rest : List Edit) :
    targets (edit :: rest) = edit.target ++ targets rest :=
  List.flatMap_cons

/-- Edits that can all be carried out from a position on: none is a refusal, and the offsets are
boundaries that ascend. -/
structure Passable (source : String) (position : Nat) (edits : List Edit) : Prop where
  granted : ∀ edit ∈ edits, edit.isRefusal = false
  boundaries : ∀ offset ∈ targets edits, isBoundary source offset = true
  ascending : (position :: targets edits).Pairwise (· ≤ ·)

theorem ascending_cons_cons (a b : Nat) (rest : List Nat) :
    (a :: b :: rest).Pairwise (· ≤ ·) ↔ a ≤ b ∧ (b :: rest).Pairwise (· ≤ ·) := by
  rw [List.pairwise_cons (a := a), List.forall_mem_cons]
  constructor
  · rintro ⟨⟨hab, -⟩, hrest⟩
    exact ⟨hab, hrest⟩
  · rintro ⟨hab, hrest⟩
    exact ⟨⟨hab, fun c hc => Nat.le_trans hab (List.rel_of_pairwise_cons hrest hc)⟩, hrest⟩

section Passable

variable {source : String} {position : Nat} {edit : Edit} {rest : List Edit}

theorem passable_cons_move {offset : Nat} (h : edit.target = [offset]) :
    Passable source position (edit :: rest) ↔
      (isBoundary source offset = true ∧ position ≤ offset) ∧ Passable source offset rest := by
  have htargets : targets (edit :: rest) = offset :: targets rest := by simp [h]
  have hgranted : edit.isRefusal = false := by
    cases edit with
    | refuse fault => cases h
    | _ => rfl
  constructor
  · rintro ⟨hg, hb, ha⟩
    rw [htargets] at hb ha
    rw [ascending_cons_cons] at ha
    rw [List.forall_mem_cons] at hg hb
    exact ⟨⟨hb.1, ha.1⟩, hg.2, hb.2, ha.2⟩
  · rintro ⟨⟨hb, hle⟩, hg, hbs, ha⟩
    refine ⟨List.forall_mem_cons.mpr ⟨hgranted, hg⟩, ?_, ?_⟩
    · rw [htargets, List.forall_mem_cons]
      exact ⟨hb, hbs⟩
    · rw [htargets, ascending_cons_cons]
      exact ⟨hle, ha⟩

theorem passable_cons_still (h : edit.target = []) (hg : edit.isRefusal = false) :
    Passable source position (edit :: rest) ↔ Passable source position rest := by
  have htargets : targets (edit :: rest) = targets rest := by simp [h]
  constructor
  · rintro ⟨hgs, hb, ha⟩
    rw [htargets] at hb ha
    exact ⟨(List.forall_mem_cons.mp hgs).2, hb, ha⟩
  · rintro ⟨hgs, hb, ha⟩
    rw [← htargets] at hb ha
    exact ⟨List.forall_mem_cons.mpr ⟨hg, hgs⟩, hb, ha⟩

end Passable

namespace State

/-- A run carries out all its edits if and only if they are passable; texts and names have no say
in it. -/
theorem exists_runs_iff (edits : List Edit) (s : State) :
    (∃ t, s.Runs edits t) ↔ Passable s.cursor.source s.cursor.position edits := by
  induction edits generalizing s with
  | nil =>
    refine iff_of_true ⟨s, (runs_nil s s).mpr rfl⟩ ⟨by simp, by simp, ?_⟩
    exact List.pairwise_singleton _ _
  | cons edit rest ih =>
    have hstep : (∃ t, s.Runs (edit :: rest) t) ↔
        ∃ u, s.apply edit = .ok u ∧ Passable u.cursor.source u.cursor.position rest := by
      simp only [runs_cons, ← ih]
      constructor
      · rintro ⟨t, u, hu, ht⟩
        exact ⟨u, hu, t, ht⟩
      · rintro ⟨u, hu, t, ht⟩
        exact ⟨t, u, hu, ht⟩
    rw [hstep]
    cases edit with
    | copyTo offset =>
      rw [passable_cons_move rfl]
      simp only [apply_copyTo_eq_ok, and_assoc, exists_and_left, exists_eq_left]
      exact and_assoc
    | skipTo offset =>
      rw [passable_cons_move rfl]
      simp only [apply_skipTo_eq_ok, and_assoc, exists_and_left, exists_eq_left]
      exact and_assoc
    | refuse fault =>
      refine iff_of_false ?_ fun h => by simpa [Edit.isRefusal] using h.granted
      rintro ⟨u, hu, -⟩
      cases hu
    | insert snippet | enter node | leave | note node =>
      rw [passable_cons_still rfl rfl]
      simp only [apply, Except.ok.injEq, exists_eq_left']
      rfl

end State

def Accepted (source : String) (options : Options) (tree : Node) : Prop :=
  ∃ output, ({ options } : Splicer).splice source tree = .ok output

theorem accepted_iff (source : String) (options : Options) (tree : Node) :
    Accepted source options tree ↔ Passable source 0 (tree.edits Rule.standard) := by
  have hruns := (State.start source options).exists_runs_iff (tree.edits Rule.standard)
  refine Iff.trans ?_ hruns
  constructor
  · rintro ⟨output, h⟩
    obtain ⟨t, ht, -⟩ := Splicer.splice_eq_ok h
    exact ⟨t, ht⟩
  · rintro ⟨t, ht⟩
    have hextends := (State.start source options).run_extends (tree.edits Rule.standard)
    rw [show (State.start source options).run (tree.edits Rule.standard) = (t, none) from ht]
      at hextends
    have hfinish := t.cursor.finish_eq_ok
      (hextends.isBoundary_position (isBoundary_zero source))
    refine ⟨_, Eq.trans ?_ hfinish⟩
    simp only [Splicer.splice, State.walk]
    rw [show (State.start source options).run (tree.edits Rule.standard) = (t, none) from ht]

namespace Declarator

def doneAt : Declarator → Nat
  | .unset span _ => span.stop
  | .set _ _ value => value.span.stop

end Declarator

namespace Node

/-- How far the walk has come when a declaration is dealt with: to its end, or to the end of the
last part that is kept if the text behind that stays. -/
def doneAt : Node → Nat
  | .exportValue _ _ value => value.span.stop
  | .exportVariables span _ declarators =>
    (declarators.getLast?.map Declarator.doneAt).getD span.start
  | node => node.span.stop

def keepsRest : Node → Bool
  | .exportValue .. => true
  | .exportVariables .. => true
  | _ => false

theorem doneAt_eq_stop {node : Node} (h : node.keepsRest = false) :
    node.doneAt = node.span.stop := by
  cases node with
  | exportValue | exportVariables => cases h
  | _ => rfl

def offsets (node : Node) : List Nat :=
  targets (node.edits Rule.standard)

end Node

def Declarator.offsets : Declarator → List Nat
  | .unset span _ => [span.start, span.stop]
  | .set span _ value =>
    span.start :: value.span.start :: (value.offsets ++ [value.span.stop])

namespace Node

theorem legible_target : Edit.Legible Edit.target where
  skipTo _ := rfl
  insert _ _ := rfl
  refuse _ := rfl
  enter _ := rfl
  leave := rfl

theorem offsets_importDecl (decl : ImportDecl) :
    (importDecl decl).offsets = [decl.span.start, decl.span.stop] := by
  have hsubstitute : decl.substitute.target = [] := by
    unfold ImportDecl.substitute
    split <;> rfl
  refine (flatMap_replaceWhole legible_target decl.span decl.substitute).trans ?_
  rw [hsubstitute]
  rfl

theorem offsets_exportValue (span : Span) (target : String) (value : Node) :
    (exportValue span target value).offsets =
      span.start :: value.span.start :: (value.offsets ++ [value.span.stop]) :=
  reading_exportValue legible_target span target value

theorem offsets_exportDefinition (span : Span) (kind : DefinitionKind) (name : String)
    (definition : Node) (isDefault : Bool) :
    (exportDefinition span kind name definition isDefault).offsets =
      span.start :: definition.span.start ::
        (definition.offsets ++ [definition.span.stop, span.stop]) := by
  refine (reading_exportDefinition legible_target span kind name definition isDefault).trans ?_
  simp [partReading, Edit.target, offsets, reading, targets]

theorem offsets_exportVariables (span : Span) (kind : VarKind) (declarators : List Declarator) :
    (exportVariables span kind declarators).offsets =
      span.start :: declarators.flatMap Declarator.offsets := by
  have hdeclarator : declaratorReading Edit.target = Declarator.offsets := by
    funext declarator
    cases declarator <;> rfl
  rw [← hdeclarator]
  exact reading_exportVariables legible_target span kind declarators

theorem offsets_element (kind : ElementKind) (span : Span) (children : List Node) :
    (element kind span children).offsets = children.flatMap offsets :=
  reading_element legible_target kind span children

/-- A walk first asks for the start of a declaration, and last for where it is dealt with. -/
theorem offsets_ends {node : Node} (h : node.isElement = false) :
    node.offsets.head? = some node.span.start ∧ node.offsets.getLast? = some node.doneAt := by
  cases node with
  | element => cases h
  | importDecl decl =>
    rw [offsets_importDecl]
    exact ⟨rfl, rfl⟩
  | moduleDecl | exportNothing | exportAll | exportFrom | exportNames => exact ⟨rfl, rfl⟩
  | exportValue span target value =>
    rw [offsets_exportValue]
    exact ⟨rfl, by simp [List.getLast?_cons, doneAt]⟩
  | exportDefinition span kind name definition isDefault =>
    rw [offsets_exportDefinition]
    exact ⟨rfl, by simp [List.getLast?_cons, List.getLast?_append, doneAt, Node.span]⟩
  | exportVariables span kind declarators =>
    rw [offsets_exportVariables]
    refine ⟨rfl, ?_⟩
    rcases List.eq_nil_or_concat declarators with rfl | ⟨front, last, rfl⟩
    · rfl
    · have hlast : last.offsets.getLast? = some last.doneAt := by
        cases last with
        | unset => rfl
        | set => simp [Declarator.offsets, Declarator.doneAt, List.getLast?_cons]
      simp [doneAt, List.getLast?_cons, List.getLast?_append, hlast]

/-- What a walk asks for inside a node it asks for in the order of the children. -/
theorem children_offsets (node : Node) :
    (node.children.flatMap offsets).Sublist node.offsets := by
  cases node with
  | importDecl | moduleDecl | exportNothing | exportAll | exportFrom | exportNames =>
    exact List.nil_sublist _
  | exportValue span target value =>
    rw [offsets_exportValue]
    simpa [children] using ((List.sublist_append_left value.offsets _).cons _).cons _
  | exportDefinition span kind name definition isDefault =>
    rw [offsets_exportDefinition]
    simpa [children] using ((List.sublist_append_left definition.offsets _).cons _).cons _
  | exportVariables span kind declarators =>
    rw [offsets_exportVariables]
    refine .cons _ ?_
    induction declarators with
    | nil => exact List.nil_sublist _
    | cons first rest ih =>
      rw [List.flatMap_cons]
      cases first with
      | unset => exact ih.trans (List.sublist_append_right _ _)
      | set span name value =>
        exact (((List.sublist_append_left value.offsets _).cons _).cons _).append ih
  | element kind span children =>
    rw [offsets_element]
    exact List.Sublist.refl _

theorem mem_nodes_self (node : Node) : node ∈ node.nodes := by
  rw [nodes_eq]
  exact List.mem_cons_self

theorem offsets_sublist {forest : List Node} {inner : Node}
    (h : inner ∈ forest.flatMap nodes) : inner.offsets.Sublist (forest.flatMap offsets) := by
  induction forest using forest_induction with
  | nil => cases h
  | cons node rest hinside hrest =>
    rw [List.flatMap_cons, nodes_eq, List.cons_append, List.mem_cons, List.mem_append] at h
    rw [List.flatMap_cons]
    rcases h with rfl | h | h
    · exact List.sublist_append_left _ _
    · exact ((hinside h).trans (children_offsets node)).trans (List.sublist_append_left _ _)
    · exact (hrest h).trans (List.sublist_append_right _ _)

theorem offsets_sublist_of_mem {node inner : Node} (h : inner ∈ node.nodes) :
    inner.offsets.Sublist node.offsets := by
  have hforest : inner ∈ [node].flatMap nodes := by simpa using h
  simpa using offsets_sublist hforest

/-- Two nodes of a tree of which neither is inside the other: they lie below different children of
some node, the first below the earlier one. -/
def Parted (tree a b : Node) : Prop :=
  ∃ node ∈ tree.nodes, ∃ first second, [first, second].Sublist node.children ∧
    a ∈ first.nodes ∧ b ∈ second.nodes

/-- A walk has dealt with a declaration before it asks for the start of one that is parted from it
and comes later. -/
theorem Parted.offsets_sublist {tree a b : Node} (h : tree.Parted a b)
    (ha : a.isElement = false) (hb : b.isElement = false) :
    [a.doneAt, b.span.start].Sublist tree.offsets := by
  obtain ⟨node, hnode, first, second, hchildren, hfirst, hsecond⟩ := h
  have hdone : [a.doneAt].Sublist first.offsets :=
    (List.singleton_sublist.mpr (List.mem_of_getLast? (offsets_ends ha).2)).trans
      (offsets_sublist_of_mem hfirst)
  have hstart : [b.span.start].Sublist second.offsets :=
    (List.singleton_sublist.mpr (List.mem_of_head? (offsets_ends hb).1)).trans
      (offsets_sublist_of_mem hsecond)
  have hboth : (first.offsets ++ second.offsets).Sublist (node.children.flatMap offsets) := by
    simpa using hchildren.flatMap offsets
  exact (((hdone.append hstart).trans hboth).trans (children_offsets node)).trans
    (offsets_sublist_of_mem hnode)

mutual

/-- A walk does nothing but deal with the outermost declarations, one after the other. -/
theorem offsets_outermost : ∀ node : Node, node.offsets = node.outermost.flatMap offsets
  | .element kind span children => by
    rw [offsets_element, outermost, offsets_outermostOfAll children]
  | .importDecl _ | .moduleDecl _ | .exportValue .. | .exportNothing .. | .exportVariables ..
  | .exportDefinition .. | .exportAll .. | .exportFrom .. | .exportNames .. => by
    simp [outermost]

theorem offsets_outermostOfAll : ∀ nodes : List Node,
    nodes.flatMap offsets = (outermostOfAll nodes).flatMap offsets
  | [] => rfl
  | node :: rest => by
    rw [List.flatMap_cons, outermostOfAll, List.flatMap_append, ← offsets_outermost node,
      ← offsets_outermostOfAll rest]

end

mutual

/-- Nor is anything refused but in them. -/
theorem granted_outermost : ∀ node : Node,
    (∀ edit ∈ node.edits Rule.standard, edit.isRefusal = false) ↔
      ∀ decl ∈ node.outermost, ∀ edit ∈ decl.edits Rule.standard, edit.isRefusal = false
  | .element kind span children => by
    have hedits : (element kind span children).edits Rule.standard =
      within (.element kind span children) (allEdits Rule.standard children) := rfl
    rw [outermost, ← granted_outermostOfAll children, hedits]
    simp [within, Edit.isRefusal, or_imp, forall_and]
  | .importDecl _ | .moduleDecl _ | .exportValue .. | .exportNothing .. | .exportVariables ..
  | .exportDefinition .. | .exportAll .. | .exportFrom .. | .exportNames .. => by
    simp [outermost]

theorem granted_outermostOfAll : ∀ nodes : List Node,
    (∀ edit ∈ allEdits Rule.standard nodes, edit.isRefusal = false) ↔
      ∀ decl ∈ outermostOfAll nodes, ∀ edit ∈ decl.edits Rule.standard, edit.isRefusal = false
  | [] => by simp [allEdits, outermostOfAll]
  | node :: rest => by
    rw [allEdits, outermostOfAll, List.forall_mem_append, List.forall_mem_append,
      granted_outermost node, granted_outermostOfAll rest]

end

mutual

theorem outermost_declarations : ∀ node : Node, ∀ decl ∈ node.outermost, decl.isElement = false
  | .element kind span children => outermostOfAll_declarations children
  | .importDecl _ | .moduleDecl _ | .exportValue .. | .exportNothing .. | .exportVariables ..
  | .exportDefinition .. | .exportAll .. | .exportFrom .. | .exportNames .. => by
    simp [outermost, isElement]

theorem outermostOfAll_declarations : ∀ nodes : List Node,
    ∀ decl ∈ outermostOfAll nodes, decl.isElement = false
  | [] => by simp [outermostOfAll]
  | node :: rest => by
    rw [outermostOfAll, List.forall_mem_append]
    exact ⟨outermost_declarations node, outermostOfAll_declarations rest⟩

end

end Node

/-- Of two ascending lists one stands before the other if its last element is at most the first
element of the other. -/
theorem ascending_before_iff {xs ys : List Nat} {x y : Nat} (hxs : xs.Pairwise (· ≤ ·))
    (hys : ys.Pairwise (· ≤ ·)) (hx : xs.getLast? = some x) (hy : ys.head? = some y) :
    (∀ a ∈ xs, ∀ b ∈ ys, a ≤ b) ↔ x ≤ y := by
  obtain ⟨front, rfl⟩ := List.getLast?_eq_some_iff.mp hx
  obtain ⟨back, rfl⟩ := List.head?_eq_some_iff.mp hy
  constructor
  · intro h
    exact h x (by simp) y (by simp)
  · intro hxy a ha b hb
    have hax : a ≤ x := by
      rcases List.mem_append.mp ha with ha | ha
      · exact (List.pairwise_append.mp hxs).2.2 a ha x (by simp)
      · simp_all
    have hyb : y ≤ b := by
      rcases List.mem_cons.mp hb with rfl | hb
      · exact Nat.le_refl _
      · exact List.rel_of_pairwise_cons hys hb
    omega

/-- A tree is accepted if and only if each of its outermost declarations is, taken alone, and each
begins where the walk has left the ones before, or later. -/
theorem accepted_iff_outermost (source : String) (options : Options) (tree : Node) :
    Accepted source options tree ↔
      (∀ decl ∈ tree.outermost, Accepted source options decl) ∧
        tree.outermost.Pairwise fun a b => a.doneAt ≤ b.span.start := by
  have hdecl := tree.outermost_declarations
  have hsorted : (0 :: targets (tree.edits Rule.standard)).Pairwise (· ≤ ·) ↔
      (∀ decl ∈ tree.outermost, (0 :: targets (decl.edits Rule.standard)).Pairwise (· ≤ ·)) ∧
        tree.outermost.Pairwise fun a b => ∀ x ∈ a.offsets, ∀ y ∈ b.offsets, x ≤ y := by
    simp only [List.pairwise_cons, Nat.zero_le, implies_true, true_and]
    change tree.offsets.Pairwise (· ≤ ·) ↔ _
    rw [tree.offsets_outermost, List.pairwise_flatMap]
    rfl
  have hbounds : (∀ offset ∈ targets (tree.edits Rule.standard), isBoundary source offset = true) ↔
      ∀ decl ∈ tree.outermost, ∀ offset ∈ targets (decl.edits Rule.standard),
        isBoundary source offset = true := by
    change (∀ offset ∈ tree.offsets, isBoundary source offset = true) ↔ _
    rw [tree.offsets_outermost, List.forall_mem_flatMap]
    rfl
  simp only [accepted_iff]
  constructor
  · rintro ⟨hg, hb, ha⟩
    obtain ⟨heach, hbetween⟩ := hsorted.mp ha
    refine ⟨fun decl h => ⟨tree.granted_outermost.mp hg decl h, hbounds.mp hb decl h,
      heach decl h⟩, hbetween.imp_of_mem ?_⟩
    intro a b ha hb hab
    exact hab _ (List.mem_of_getLast? (Node.offsets_ends (hdecl a ha)).2) _
      (List.mem_of_head? (Node.offsets_ends (hdecl b hb)).1)
  · rintro ⟨heach, hbetween⟩
    refine ⟨tree.granted_outermost.mpr fun decl h => (heach decl h).granted,
      hbounds.mpr fun decl h => (heach decl h).boundaries,
      hsorted.mpr ⟨fun decl h => (heach decl h).ascending, hbetween.imp_of_mem ?_⟩⟩
    intro a b ha hb hab
    exact (ascending_before_iff (List.pairwise_cons.mp (heach a ha).ascending).2
      (List.pairwise_cons.mp (heach b hb).ascending).2 (Node.offsets_ends (hdecl a ha)).2
      (Node.offsets_ends (hdecl b hb)).1).mpr hab

/-- Two declarations that overlap, neither inside the other, are refused wherever they stand in the
tree, unless the first keeps the text behind its last part and the second begins in it. That is as
far as it goes: declarations that are accepted one by one are accepted together if and only if each
begins where the walk has left the ones before, or later. -/
theorem overlap_refused_unless_in_rest (source : String) (options : Options) (tree : Node) :
    (∀ a b, tree.Parted a b → a.isElement = false → b.isElement = false →
      ¬ a.span.Apart b.span →
      (∃ fault, ({ options } : Splicer).splice source tree = .error fault) ∨
        a.keepsRest = true ∧ a.doneAt ≤ b.span.start ∧ b.span.start < a.span.stop) ∧
    ((∃ output, ({ options } : Splicer).splice source tree = .ok output) ↔
      (∀ decl ∈ tree.outermost,
        ∃ output, ({ options } : Splicer).splice source decl = .ok output) ∧
      tree.outermost.Pairwise fun a b => a.doneAt ≤ b.span.start) := by
  refine ⟨?_, accepted_iff_outermost source options tree⟩
  intro a b hparted ha hb hoverlap
  cases hsplice : ({ options } : Splicer).splice source tree with
  | error fault => exact .inl ⟨fault, rfl⟩
  | ok output =>
    right
    have hpassable := (accepted_iff source options tree).mp ⟨output, hsplice⟩
    have hascending : tree.offsets.Pairwise (· ≤ ·) := (List.pairwise_cons.mp hpassable.ascending).2
    have hdone : a.doneAt ≤ b.span.start := by
      simpa using hascending.sublist (hparted.offsets_sublist ha hb)
    have hbegin : b.span.start < a.span.stop := by
      simp only [Span.Apart, not_or, Nat.not_le] at hoverlap
      exact hoverlap.1
    refine ⟨?_, hdone, hbegin⟩
    cases hkeeps : a.keepsRest with
    | true => rfl
    | false =>
      have := Node.doneAt_eq_stop hkeeps
      omega

/-- Inside a function, a declaration that begins before the one in front of it has ended. -/
theorem overlap_refused_inside_function :
    let source := "f(function () \x7b module m from 'm'; export default; \x7d);"
    let first := Node.moduleDecl ⟨⟨16, 34⟩, "m", ⟨⟨30, 33⟩, "'m'"⟩⟩
    let second := Node.exportNothing ⟨33, 50⟩ "default"
    let tree := Node.element .program ⟨0, 54⟩
      [.element .statement ⟨0, 54⟩ [.element .function ⟨2, 52⟩ [first, second]]]
    tree.Parted first second ∧ ¬ first.span.Apart second.span ∧
      ∃ fault, ({} : Splicer).splice source tree = .error fault := by
  intro source first second tree
  have hparted : tree.Parted first second :=
    ⟨.element .function ⟨2, 52⟩ [first, second], by simp [tree, Node.nodes_eq, Node.children],
      first, second, List.Sublist.refl _, first.mem_nodes_self, second.mem_nodes_self⟩
  have hoverlap : ¬ first.span.Apart second.span := by decide
  refine ⟨hparted, hoverlap, ?_⟩
  obtain h | ⟨hkeeps, -⟩ := (overlap_refused_unless_in_rest source {} tree).1 first second hparted
    rfl rfl hoverlap
  · exact h
  · cases hkeeps

/-- An import inside the range of a default export, behind its value. -/
theorem overlap_accepted_in_rest :
    let source := "export default 1; import 'a';"
    let first := Node.exportValue ⟨0, 29⟩ "default" (.element .expression ⟨15, 16⟩ [])
    let second := Node.importDecl ⟨⟨18, 29⟩, .bare, [], ⟨⟨25, 28⟩, "'a'"⟩⟩
    let tree := Node.element .program ⟨0, 29⟩ [first, second]
    tree.Parted first second ∧ first.span.start < first.span.stop ∧
      second.span.start < second.span.stop ∧ ¬ first.span.Apart second.span ∧
      ({} : Splicer).splice source tree = .ok "module.exports = 1; require('a');" := by
  intro source first second tree
  have hparted : tree.Parted first second :=
    ⟨tree, tree.mem_nodes_self, first, second, List.Sublist.refl _, first.mem_nodes_self,
      second.mem_nodes_self⟩
  exact ⟨hparted, by decide, by decide, by decide, by decide +kernel⟩

end ModSplice
