import ModSplice.Proofs.Overlap
import ModSplice.Proofs.Reference

/-!
# The first fault of a walk

Whether a walk fails, and with which fault, is told by the offsets it moves to and by what it
refuses; options, names and output have no say in it. Where the spans of a tree are those of its
text the offsets climb from boundary to boundary, so that only a refusal can stop the walk. The
refusals come in the order of the declarations, each before what is inside it.
-/
namespace ModSplice

open Text

def Edit.refusal? : Edit → Option Fault
  | .refuse fault => some fault
  | _ => none

/-- The first fault of edits that are carried out from a position on. -/
def firstFault (source : String) (position : Nat) : List Edit → Option Fault
  | [] => none
  | .copyTo offset :: rest =>
    (Cursor.obstacle? { source, position } offset).or (firstFault source offset rest)
  | .skipTo offset :: rest =>
    (Cursor.obstacle? { source, position } offset).or (firstFault source offset rest)
  | .refuse fault :: _ => some fault
  | _ :: rest => firstFault source position rest

/-- A run ends in the first fault of its edits. -/
theorem State.run_fault (edits : List Edit) (s : State) :
    (s.run edits).2 = firstFault s.cursor.source s.cursor.position edits := by
  induction edits generalizing s with
  | nil => rfl
  | cons edit rest ih =>
    cases edit with
    | copyTo offset | skipTo offset =>
      have hobstacle : Cursor.obstacle? ⟨s.cursor.source, s.cursor.position, ""⟩ offset =
        s.cursor.obstacle? offset := rfl
      cases h : s.cursor.obstacle? offset with
      | some fault =>
        simp [run, apply, Cursor.copyTo, Cursor.skipTo, firstFault, hobstacle, h, Except.map]
      | none =>
        simp [run, apply, Cursor.copyTo, Cursor.skipTo, firstFault, hobstacle, h, Except.map, ih]
    | refuse fault => rfl
    | insert snippet | enter node | leave | note node => exact ih _

namespace Splicer

/-- A splice fails if and only if its walk does: from wherever the walk has come to, the end of the
source is in reach. -/
theorem splice_eq_error_iff (splicer : Splicer) (source : String) (tree : Node) (fault : Fault) :
    splicer.splice source tree = .error fault ↔
      firstFault source 0 (tree.edits splicer.rules) = some fault := by
  let start := State.start source splicer.options
  have hfault : (start.run (tree.edits splicer.rules)).2 =
      firstFault source 0 (tree.edits splicer.rules) := start.run_fault _
  have hextends := start.run_extends (tree.edits splicer.rules)
  have hfinish := Cursor.finish_eq_ok _ (hextends.isBoundary_position (isBoundary_zero source))
  rw [← hfault]
  cases hrun : start.run (tree.edits splicer.rules) with
  | mk s fault? =>
    rw [hrun] at hfinish
    cases fault? with
    | some first => simp [splice, State.walk, start, hrun]
    | none => simp [splice, State.walk, start, hrun, hfinish]

end Splicer

/-! ## Offsets that climb -/

/-- Offsets that lead from one offset to another, over boundaries of the source and never back. -/
inductive Climbs (source : String) : Nat → List Nat → Nat → Prop
  | nil {start stop : Nat} : start ≤ stop → Climbs source start [] stop
  | cons {start offset stop : Nat} {rest : List Nat} :
    start ≤ offset → isBoundary source offset = true → Climbs source offset rest stop →
    Climbs source start (offset :: rest) stop

namespace Climbs

variable {source : String} {start mid stop : Nat} {first last : List Nat}

theorem lower {before : Nat} (h : Climbs source start first stop) (hle : before ≤ start) :
    Climbs source before first stop := by
  cases h with
  | nil hstop => exact .nil (by omega)
  | cons hoffset hboundary hrest => exact .cons (by omega) hboundary hrest

theorem append (h : Climbs source start first mid) (h' : Climbs source mid last stop) :
    Climbs source start (first ++ last) stop := by
  induction h with
  | nil hle => exact h'.lower hle
  | cons hoffset hboundary _ ih => exact .cons hoffset hboundary (ih h')

/-- Over offsets that climb, nothing but a refusal stops the edits. -/
theorem firstFault_eq {edits : List Edit} (h : Climbs source start (targets edits) stop) :
    firstFault source start edits = edits.findSome? Edit.refusal? := by
  induction edits generalizing start with
  | nil => rfl
  | cons edit rest ih =>
    cases edit with
    | copyTo offset | skipTo offset =>
      cases h with
      | cons hle hboundary hrest =>
        have hnone : Cursor.obstacle? { source, position := start } offset = none :=
          (Cursor.obstacle?_eq_none _ _).mpr ⟨hboundary, hle⟩
        simp only [firstFault, hnone, Option.none_or, ih hrest, List.findSome?_cons, Edit.refusal?]
    | refuse fault => rfl
    | insert snippet | enter node | leave | note node => exact ih h

end Climbs

namespace Node

/-- A range that is replaced as a whole. -/
theorem climbs_whole {source : String} {span : Span} (h : span.fits source = true) :
    Climbs source span.start [span.start, span.stop] span.stop := by
  obtain ⟨hle, hstart, hstop⟩ := (Span.fits_iff source span).mp h
  exact .cons (Nat.le_refl _) hstart (.cons hle hstop (.nil (Nat.le_refl _)))

/-- A part that is kept, and the offsets around it. -/
theorem climbs_part {source : String} {part : Node} {start stop : Nat}
    (hspan : part.span.fits source = true) (hstart : start ≤ part.span.start)
    (hstop : part.span.stop ≤ stop)
    (h : Climbs source part.span.start part.offsets part.span.stop) :
    Climbs source start (part.span.start :: (part.offsets ++ [part.span.stop])) stop := by
  obtain ⟨-, hfrom, hto⟩ := (Span.fits_iff source part.span).mp hspan
  exact .cons hstart hfrom (h.append (.cons (Nat.le_refl _) hto (.nil hstop)))

mutual

/-- A walk over a tree whose spans fit stays inside the span of the tree and never goes back. The
induction is over the tree; siblings and declarators climb one after the other. -/
theorem fits_climbs (source : String) : ∀ node : Node, node.fits source = true →
    Climbs source node.span.start node.offsets node.span.stop
  | .importDecl decl, h => by
    rw [offsets_importDecl]
    exact climbs_whole h
  | .moduleDecl _, h | .exportNothing _ _, h | .exportAll _ _, h | .exportFrom _ _ _, h
  | .exportNames _ _, h => climbs_whole h
  | .exportValue span target value, h => by
    simp only [fits, Bool.and_eq_true, Span.contains_iff] at h
    obtain ⟨⟨hspan, hfrom, hto⟩, hvalue⟩ := h
    rw [offsets_exportValue]
    exact .cons (Nat.le_refl _) ((Span.fits_iff _ _).mp hspan).2.1
      (climbs_part (fits_span _ _ hvalue) hfrom hto (fits_climbs source value hvalue))
  | .exportVariables span kind declarators, h => by
    simp only [fits, Bool.and_eq_true] at h
    obtain ⟨hle, hstart, -⟩ := (Span.fits_iff _ _).mp h.1
    rw [offsets_exportVariables]
    exact .cons (Nat.le_refl _) hstart
      (declaratorsFit_climbs source declarators span.start span.stop h.2 hle)
  | .exportDefinition span kind name definition isDefault, h => by
    simp only [fits, Bool.and_eq_true, Span.contains_iff] at h
    obtain ⟨⟨hspan, hfrom, hto⟩, hdefinition⟩ := h
    obtain ⟨-, hstart, hstop⟩ := (Span.fits_iff _ _).mp hspan
    have hpart := climbs_part (fits_span _ _ hdefinition) hfrom (Nat.le_refl _)
      (fits_climbs source definition hdefinition)
    rw [offsets_exportDefinition]
    simpa [Node.span] using Climbs.cons (Nat.le_refl _) hstart
      (hpart.append (.cons hto hstop (.nil (Nat.le_refl _))))
  | .element kind span children, h => by
    simp only [fits, Bool.and_eq_true] at h
    rw [offsets_element]
    exact allFit_climbs source children span.start span.stop h.2 ((Span.fits_iff _ _).mp h.1).1

theorem allFit_climbs (source : String) : ∀ (nodes : List Node) (start stop : Nat),
    allFit source start stop nodes = true → start ≤ stop →
    Climbs source start (nodes.flatMap offsets) stop
  | [], _, _, _, hle => .nil hle
  | node :: rest, start, stop, h, _ => by
    simp only [allFit, Bool.and_eq_true, decide_eq_true_eq] at h
    obtain ⟨⟨⟨hstart, hstop⟩, hnode⟩, hrest⟩ := h
    rw [List.flatMap_cons]
    exact ((fits_climbs source node hnode).lower hstart).append
      (allFit_climbs source rest node.span.stop stop hrest hstop)

theorem declaratorsFit_climbs (source : String) : ∀ (declarators : List Declarator)
    (start stop : Nat), declaratorsFit source start stop declarators = true → start ≤ stop →
    Climbs source start (declarators.flatMap Declarator.offsets) stop
  | [], _, _, _, hle => .nil hle
  | .unset span name :: rest, start, stop, h, _ => by
    simp only [declaratorsFit, Bool.and_eq_true, decide_eq_true_eq] at h
    obtain ⟨⟨⟨hstart, hstop⟩, hspan⟩, hrest⟩ := h
    rw [List.flatMap_cons]
    exact ((climbs_whole hspan).lower hstart).append
      (declaratorsFit_climbs source rest span.stop stop hrest hstop)
  | .set span name value :: rest, start, stop, h, _ => by
    simp only [declaratorsFit, Bool.and_eq_true, decide_eq_true_eq, Span.contains_iff] at h
    obtain ⟨⟨⟨⟨hstart, hstop⟩, hspan⟩, ⟨hfrom, hto⟩, hvalue⟩, hrest⟩ := h
    have hpart := climbs_part (fits_span _ _ hvalue) hfrom hto (fits_climbs source value hvalue)
    rw [List.flatMap_cons]
    exact (Climbs.cons hstart ((Span.fits_iff _ _).mp hspan).2.1 hpart).append
      (declaratorsFit_climbs source rest span.stop stop hrest hstop)

end

/-! ## Refusals in order -/

inductive Refused : Node → Fault → Prop
  | unrecognized {decl : ImportDecl} : decl.kind = .unrecognized →
    Refused (.importDecl decl) (.unsupported (.importKind decl.span))
  | nameless {decl : ImportDecl} : decl.kind = .default → decl.specifiers = [] →
    Refused (.importDecl decl) (.missingSpecifier decl.span)
  | noDeclarators {span : Span} {kind : VarKind} :
    Refused (.exportVariables span kind []) (.unsupported .noDeclarators)

def refusal? : Node → Option Fault
  | .importDecl decl => decl.substitute.refusal?
  | .exportVariables _ _ [] => some (.unsupported .noDeclarators)
  | _ => none

theorem refusal?_eq_some_iff {node : Node} {fault : Fault} :
    node.refusal? = some fault ↔ node.Refused fault := by
  constructor
  · intro h
    cases node with
    | importDecl decl =>
      obtain ⟨span, kind, specifiers, source⟩ := decl
      cases kind with
      | bare | named => cases h
      | unrecognized =>
        obtain rfl := Option.some.inj h
        exact .unrecognized rfl
      | default =>
        cases specifiers with
        | nil =>
          obtain rfl := Option.some.inj h
          exact .nameless rfl rfl
        | cons first rest => cases h
    | exportVariables span kind declarators =>
      cases declarators with
      | nil =>
        obtain rfl := Option.some.inj h
        exact .noDeclarators
      | cons first rest => cases h
    | _ => cases h
  · intro h
    cases h with
    | unrecognized hkind => simp [refusal?, ImportDecl.substitute, hkind, Edit.refusal?]
    | nameless hkind hnone => simp [refusal?, ImportDecl.substitute, hkind, hnone, Edit.refusal?]
    | noDeclarators => rfl

/-- What a walk over the tree refuses, in order. -/
def refusals (node : Node) : List Fault :=
  (node.edits Rule.standard).filterMap Edit.refusal?

theorem filterMap_within (node : Node) (inside : List Edit) :
    (within node inside).filterMap Edit.refusal? = inside.filterMap Edit.refusal? := by
  simp [within, List.filterMap_cons, Edit.refusal?]

theorem filterMap_keepPart (node part : Node) :
    (keepPart node part (part.edits Rule.standard)).filterMap Edit.refusal? = part.refusals := by
  simp [keepPart, filterMap_within, List.filterMap_cons, Edit.refusal?, refusals]

theorem filterMap_declaratorEdits (node : Node) (declarators : List Declarator)
    (kind? : Option VarKind) :
    (declaratorEdits Rule.standard node kind? declarators).filterMap Edit.refusal? =
      (declarators.filterMap Declarator.value?).flatMap refusals := by
  induction declarators generalizing kind? with
  | nil => rfl
  | cons declarator rest ih =>
    have hlead : ∀ start, (declaratorLead kind? start).filterMap Edit.refusal? = [] := by
      intro start
      cases kind? <;> rfl
    cases declarator with
    | unset span name =>
      simp [declaratorEdits, hlead, ih none, List.filterMap_cons, Edit.refusal?, Declarator.value?]
    | set span name value =>
      simp [declaratorEdits, hlead, ih none, List.filterMap_cons, Edit.refusal?,
        Declarator.value?, filterMap_keepPart]

/-- At a node, its own refusal comes first, and then those of the nodes inside in their order. -/
theorem refusals_eq (node : Node) :
    node.refusals = node.refusal?.toList ++ node.children.flatMap refusals := by
  cases node with
  | importDecl decl =>
    change (replaceWhole decl.span decl.substitute).filterMap Edit.refusal? = _
    have hmoves : ∀ offset, (Edit.copyTo offset).refusal? = none ∧
      (Edit.skipTo offset).refusal? = none := fun _ => ⟨rfl, rfl⟩
    cases h : decl.substitute.refusal? <;>
      simp [replaceWhole, refusal?, children, h, hmoves]
  | moduleDecl | exportNothing | exportAll | exportFrom | exportNames => rfl
  | exportValue span target value =>
    have hedits : (exportValue span target value).edits Rule.standard =
        valueEdits (.exportValue span target value) span target value
          (value.edits Rule.standard) := rfl
    rw [refusals, hedits, valueEdits, List.filterMap_append, List.filterMap_append,
      filterMap_keepPart]
    split <;> simp [List.filterMap_cons, Edit.refusal?, refusal?, children]
  | exportVariables span kind declarators =>
    cases declarators with
    | nil => rfl
    | cons first rest =>
      exact filterMap_declaratorEdits _ (first :: rest) (some kind)
  | exportDefinition span kind name definition isDefault =>
    have hedits : (exportDefinition span kind name definition isDefault).edits Rule.standard =
        definitionEdits (.exportDefinition span kind name definition isDefault) span name
          definition isDefault (definition.edits Rule.standard) := rfl
    rw [refusals, hedits, definitionEdits]
    simp [filterMap_keepPart, List.filterMap_cons, Edit.refusal?, refusal?, children]
  | element kind span nodes =>
    have hall : ∀ nodes : List Node, (allEdits Rule.standard nodes).filterMap Edit.refusal? =
        nodes.flatMap refusals := by
      intro nodes
      induction nodes with
      | nil => rfl
      | cons node rest ih => rw [allEdits, List.filterMap_append, ih, List.flatMap_cons, refusals]
    exact (filterMap_within _ _).trans (hall nodes)

theorem flatMap_refusals (forest : List Node) :
    forest.flatMap refusals = (forest.flatMap nodes).filterMap refusal? := by
  induction forest using forest_induction with
  | nil => rfl
  | cons node rest hinside hrest =>
    rw [List.flatMap_cons, List.flatMap_cons, refusals_eq, nodes_eq, hinside, hrest,
      List.filterMap_append, List.filterMap_cons]
    cases node.refusal? <;> simp

/-- The first fault of a walk over a tree whose spans fit is that of the first declaration without
a counterpart. -/
theorem firstFault_eq_of_fits {source : String} {tree : Node} (h : tree.fits source = true) :
    firstFault source 0 (tree.edits Rule.standard) = tree.nodes.findSome? refusal? := by
  have hclimbs := (fits_climbs source tree h).lower (Nat.zero_le _)
  have hrefusals : tree.refusals = tree.nodes.filterMap refusal? := by
    simpa using flatMap_refusals [tree]
  rw [Climbs.firstFault_eq hclimbs, ← List.head?_filterMap, ← List.head?_filterMap, ← hrefusals,
    refusals]

end Node

/-- On a tree whose spans fit, a splice fails if and only if some declaration of the tree has no
counterpart, and the fault is that of the first one. Moves never fail. -/
theorem splice_fails_at_first_refused (source : String) (options : Options) (tree : Node)
    (hf : tree.fits source = true) :
    ((∃ fault, ({ options } : Splicer).splice source tree = .error fault) ↔
      ∃ decl ∈ tree.nodes, ∃ fault, decl.Refused fault) ∧
    (∀ fault, ({ options } : Splicer).splice source tree = .error fault ↔
      ∃ front decl back, tree.nodes = front ++ decl :: back ∧ decl.Refused fault ∧
        ∀ node ∈ front, ∀ other, ¬ node.Refused other) ∧
    ∀ position offset size,
      ({ options } : Splicer).splice source tree ≠ .error (.regression position offset) ∧
      ({ options } : Splicer).splice source tree ≠ .error (.outOfBounds offset size) := by
  have hsplice : ∀ fault, ({ options } : Splicer).splice source tree = .error fault ↔
      ∃ front decl back, tree.nodes = front ++ decl :: back ∧ decl.Refused fault ∧
        ∀ node ∈ front, ∀ other, ¬ node.Refused other := by
    intro fault
    rw [Splicer.splice_eq_error_iff, Node.firstFault_eq_of_fits hf, List.findSome?_eq_some_iff]
    simp only [Node.refusal?_eq_some_iff, Option.eq_none_iff_forall_ne_some, ne_eq]
  refine ⟨?_, hsplice, fun position offset size => ?_⟩
  · constructor
    · rintro ⟨fault, h⟩
      obtain ⟨front, decl, back, hnodes, hrefused, -⟩ := (hsplice fault).mp h
      exact ⟨decl, by simp [hnodes], fault, hrefused⟩
    · rintro ⟨decl, hdecl, fault, hrefused⟩
      have hsome : (tree.nodes.findSome? Node.refusal?).isSome = true :=
        List.findSome?_isSome_iff.mpr ⟨decl, hdecl, by
          simp [Node.refusal?_eq_some_iff.mpr hrefused]⟩
      obtain ⟨first, hfirst⟩ := Option.isSome_iff_exists.mp hsome
      refine ⟨first, ?_⟩
      rw [Splicer.splice_eq_error_iff, Node.firstFault_eq_of_fits hf, hfirst]
  · constructor
    · intro h
      obtain ⟨_, _, _, _, hrefused, _⟩ := (hsplice _).mp h
      cases hrefused
    · intro h
      obtain ⟨_, _, _, _, hrefused, _⟩ := (hsplice _).mp h
      cases hrefused

/-- A default import without a name inside an exported function, in front of an import of no known
kind. -/
theorem splice_fails_at_first_refused_nested :
    let source := "export function f() \x7b import a from 'é'; \x7d import b, \x7b c \x7d from 'm'"
    let nameless := Node.importDecl ⟨⟨22, 41⟩, .default, [], ⟨⟨36, 40⟩, "'é'"⟩⟩
    let body := Node.element .function ⟨7, 43⟩ [nameless]
    let exported := Node.exportDefinition ⟨0, 43⟩ .function "f" body false
    let mixed := Node.importDecl ⟨⟨44, 68⟩, .unrecognized, [⟨"c", none⟩], ⟨⟨65, 68⟩, "'m'"⟩⟩
    let tree := Node.element .program ⟨0, 68⟩ [exported, mixed]
    tree.fits source = true ∧ mixed.Refused (.unsupported (.importKind ⟨44, 68⟩)) ∧
      ({} : Splicer).splice source tree = .error (.missingSpecifier ⟨22, 41⟩) := by
  intro source nameless body exported mixed tree
  have hf : tree.fits source = true := by decide +kernel
  refine ⟨hf, .unrecognized rfl, ((splice_fails_at_first_refused source {} tree hf).2.1 _).mpr
    ⟨[tree, exported, body], nameless, [mixed], rfl, .nameless rfl rfl, ?_⟩⟩
  intro node hnode fault hrefused
  have hnone : node.refusal? = none := by
    simp only [List.mem_cons, List.not_mem_nil, or_false] at hnode
    rcases hnode with rfl | rfl | rfl <;> rfl
  rw [Node.refusal?_eq_some_iff.mpr hrefused] at hnone
  cases hnone

end ModSplice
