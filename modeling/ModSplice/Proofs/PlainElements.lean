import Mathlib.Logic.Relation
import ModSplice.Proofs.Footprint
import ModSplice.Proofs.Verdicts

/-!
# Plain elements leave no trace

A plain element stands in a tree so that declarations inside it can be reached. How many of them are
on the way to a declaration, of which kind they are and what they cover makes no difference to a
walk, with two exceptions: the span of a part that an export keeps is copied, and a default export
looks at the kind of its value. The parts that exports keep are therefore left as they are here, but
not what is inside them.
-/
namespace ModSplice

namespace Node

def textEdits (node : Node) : List Edit :=
  textual (node.edits Rule.standard)

/-- Those at a declarator; `kind?` is the keyword in front of it. -/
def declaratorTextEdits (kind? : Option VarKind) : Declarator → List Edit
  | .unset span name =>
    declaratorLead kind? span.start ++
      [.insert (.initialise name), .insert .undefined, .skipTo span.stop]
  | .set span name value =>
    declaratorLead kind? span.start ++ [.insert (.initialise name), .skipTo value.span.start] ++
      value.textEdits ++ [.copyTo value.span.stop]

theorem textual_allEdits (nodes : List Node) :
    textual (allEdits Rule.standard nodes) = nodes.flatMap textEdits := by
  rw [allEdits_eq, textual_flatMap]
  rfl

theorem textEdits_element (kind : ElementKind) (span : Span) (children : List Node) :
    (element kind span children).textEdits = children.flatMap textEdits :=
  (textual_within _ _).trans (textual_allEdits children)

theorem textEdits_exportValue (span : Span) (target : String) (value : Node) :
    (exportValue span target value).textEdits =
      [.copyTo span.start, .insert (.assign target), .skipTo value.span.start] ++
        value.textEdits ++ [.copyTo value.span.stop] ++
        (if value.isDefinition && value.span.stop == span.stop then [.insert .semicolon]
          else []) :=
  textual_valueEdits ..

theorem textEdits_exportDefinition (span : Span) (kind : DefinitionKind) (name : String)
    (definition : Node) (isDefault : Bool) :
    (exportDefinition span kind name definition isDefault).textEdits =
      [.copyTo span.start, .skipTo definition.span.start] ++ definition.textEdits ++
        [.copyTo definition.span.stop, .insert (.publish name isDefault), .skipTo span.stop] :=
  textual_definitionEdits ..

theorem textual_declaratorEdits_cons (node : Node) (kind? : Option VarKind)
    (declarator : Declarator) (rest : List Declarator) :
    textual (declaratorEdits Rule.standard node kind? (declarator :: rest)) =
      declaratorTextEdits kind? declarator ++
        textual (declaratorEdits Rule.standard node none rest) := by
  cases declarator with
  | unset span name =>
    rw [declaratorEdits, textual_append, textual_append, textual_declaratorLead]
    rfl
  | set span name value =>
    rw [declaratorEdits, textual_append, textual_append, textual_append, textual_declaratorLead,
      textual_keepPart, declaratorTextEdits]
    simp [textual, textEdits, List.filter_cons, Edit.isTextual]

/-- Only the first declarator comes with the keyword. -/
theorem textual_declaratorEdits (node : Node) (kind? : Option VarKind) (first : Declarator)
    (rest : List Declarator) :
    textual (declaratorEdits Rule.standard node kind? (first :: rest)) =
      declaratorTextEdits kind? first ++ rest.flatMap (declaratorTextEdits none) := by
  induction rest generalizing kind? first with
  | nil => exact textual_declaratorEdits_cons node kind? first []
  | cons second rest ih =>
    rw [textual_declaratorEdits_cons, ih, List.flatMap_cons]

theorem textEdits_exportVariables (span : Span) (kind : VarKind) (first : Declarator)
    (rest : List Declarator) :
    (exportVariables span kind (first :: rest)).textEdits =
      .copyTo span.start ::
        (declaratorTextEdits (some kind) first ++ rest.flatMap (declaratorTextEdits none)) := by
  have hedits : (exportVariables span kind (first :: rest)).edits Rule.standard =
      [.copyTo span.start] ++ declaratorEdits Rule.standard
        (.exportVariables span kind (first :: rest)) (some kind) (first :: rest) := rfl
  rw [textEdits, hedits, textual_append, textual_declaratorEdits]
  rfl

/-! ## Changes to plain elements -/

/-- One change to a plain element below a node. The element is the child of another one, at any
depth; it is dissolved into the nodes inside it, or given another kind and span. -/
inductive Recast : Node → Node → Prop
  | dissolve (kind : ElementKind) (span : Span) (front : List Node) (innerKind : ElementKind)
      (innerSpan : Span) (inside back : List Node) :
    Recast (element kind span (front ++ element innerKind innerSpan inside :: back))
      (element kind span (front ++ inside ++ back))
  | relabel (kind : ElementKind) (span : Span) (front : List Node)
      (oldKind newKind : ElementKind) (oldSpan newSpan : Span) (inside back : List Node) :
    Recast (element kind span (front ++ element oldKind oldSpan inside :: back))
      (element kind span (front ++ element newKind newSpan inside :: back))
  | child (kind : ElementKind) (span : Span) (front : List Node) {node node' : Node}
      (back : List Node) :
    Recast node node' →
    Recast (element kind span (front ++ node :: back))
      (element kind span (front ++ node' :: back))
  | value (span : Span) (target : String) {value value' : Node} :
    Recast value value' → Recast (exportValue span target value) (exportValue span target value')
  | definition (span : Span) (kind : DefinitionKind) (name : String) {definition definition' : Node}
      (isDefault : Bool) :
    Recast definition definition' →
    Recast (exportDefinition span kind name definition isDefault)
      (exportDefinition span kind name definition' isDefault)
  | declarator (span : Span) (kind : VarKind) (front : List Declarator) (itsSpan : Span)
      (name : String) {value value' : Node} (back : List Declarator) :
    Recast value value' →
    Recast (exportVariables span kind (front ++ .set itsSpan name value :: back))
      (exportVariables span kind (front ++ .set itsSpan name value' :: back))

/-- One change to a plain element of a tree. The root may get another kind and span too. -/
inductive Reshaped : Node → Node → Prop
  | root (oldKind newKind : ElementKind) (oldSpan newSpan : Span) (inside : List Node) :
    Reshaped (element oldKind oldSpan inside) (element newKind newSpan inside)
  | below {tree tree' : Node} : Recast tree tree' → Reshaped tree tree'

/-- What an export sees of a part it keeps, and what a walk does to the text. -/
structure Interchangeable (node node' : Node) : Prop where
  span : node.span = node'.span
  isDefinition : node.isDefinition = node'.isDefinition
  textEdits : node.textEdits = node'.textEdits

theorem isDefinition_element (kind : ElementKind) (span : Span) (children children' : List Node) :
    (element kind span children).isDefinition = (element kind span children').isDefinition := by
  cases kind <;> rfl

theorem Interchangeable.declarator {value value' : Node} (h : Interchangeable value value')
    (kind? : Option VarKind) (span : Span) (name : String) :
    declaratorTextEdits kind? (.set span name value) =
      declaratorTextEdits kind? (.set span name value') := by
  rw [declaratorTextEdits, declaratorTextEdits, h.span, h.textEdits]

/-- By induction on where the change is made. -/
theorem Recast.interchangeable {node node' : Node} (h : Recast node node') :
    Interchangeable node node' := by
  induction h with
  | dissolve kind span front innerKind innerSpan inside back =>
    have htext : (element kind span (front ++ element innerKind innerSpan inside :: back)).textEdits
        = (element kind span (front ++ inside ++ back)).textEdits := by
      simp only [textEdits_element, List.flatMap_append, List.flatMap_cons, List.append_assoc]
    exact ⟨rfl, isDefinition_element .., htext⟩
  | relabel kind span front oldKind newKind oldSpan newSpan inside back =>
    have htext :
        (element kind span (front ++ element oldKind oldSpan inside :: back)).textEdits =
          (element kind span (front ++ element newKind newSpan inside :: back)).textEdits := by
      simp only [textEdits_element, List.flatMap_append, List.flatMap_cons]
    exact ⟨rfl, isDefinition_element .., htext⟩
  | child kind span front back _ ih =>
    refine ⟨rfl, isDefinition_element .., ?_⟩
    simp only [textEdits_element, List.flatMap_append, List.flatMap_cons, ih.textEdits]
  | value span target _ ih =>
    refine ⟨rfl, rfl, ?_⟩
    rw [textEdits_exportValue, textEdits_exportValue, ih.span, ih.isDefinition, ih.textEdits]
  | definition span kind name isDefault _ ih =>
    refine ⟨rfl, rfl, ?_⟩
    rw [textEdits_exportDefinition, textEdits_exportDefinition, ih.span, ih.textEdits]
  | declarator span kind front itsSpan name back _ ih =>
    refine ⟨rfl, rfl, ?_⟩
    -- the first declarator comes with the keyword, the others without
    cases front with
    | nil =>
      rw [List.nil_append, List.nil_append, textEdits_exportVariables, textEdits_exportVariables,
        ih.declarator]
    | cons first front =>
      rw [List.cons_append, List.cons_append, textEdits_exportVariables,
        textEdits_exportVariables, List.flatMap_append, List.flatMap_append, List.flatMap_cons,
        List.flatMap_cons, ih.declarator]

theorem Reshaped.textEdits_eq {tree tree' : Node} (h : Reshaped tree tree') :
    tree.textEdits = tree'.textEdits := by
  cases h with
  | root => rw [textEdits_element, textEdits_element]
  | below h => exact h.interchangeable.textEdits

/-- Any number of changes, forth and back. -/
theorem textEdits_eq_of_eqvGen {tree tree' : Node} (h : Relation.EqvGen Reshaped tree tree') :
    tree.textEdits = tree'.textEdits := by
  induction h with
  | rel tree tree' h => exact h.textEdits_eq
  | refl tree => rfl
  | symm tree tree' _ ih => exact ih.symm
  | trans first second third _ _ ih ih' => exact ih.trans ih'

/-- Without declarations nothing is asked for. -/
theorem flatMap_textEdits_eq_nil {forest : List Node}
    (h : ∀ node ∈ forest.flatMap nodes, node.isElement = true) :
    forest.flatMap textEdits = [] := by
  induction forest using forest_induction with
  | nil => rfl
  | cons node rest hinside hrest =>
    rw [List.flatMap_cons, List.forall_mem_append, nodes_eq, List.forall_mem_cons] at h
    obtain ⟨⟨hnode, hchildren⟩, hothers⟩ := h
    cases node with
    | element kind span children =>
      rw [List.flatMap_cons, textEdits_element, hrest hothers, List.append_nil]
      exact hinside hchildren
    | _ => cases hnode

end Node

namespace State

/-- A walk that asks for nothing on the text changes nothing. -/
theorem walk_eq_self {tree : Node} (h : tree.textEdits = []) (s : State) :
    s.walk Rule.standard tree = (s, none) := by
  have hempty : (Node.element .program ⟨0, 0⟩ []).textEdits = [] := rfl
  exact walk_congr (h.trans hempty.symm) s

end State

open Text

/-- Walks do not tell trees apart that differ in plain elements other than the parts that exports
keep: they end with the same text, position, names and fault from every state. Where there is
nothing else, the source stays as it is. -/
theorem Splicer.plain_elements_transparent :
    (∀ tree tree' : Node, Relation.EqvGen Node.Reshaped tree tree' →
      ∀ s : State, s.walk Rule.standard tree = s.walk Rule.standard tree') ∧
    ∀ tree : Node, (∀ node ∈ tree.nodes, node.isElement = true) →
      (∀ s : State, s.walk Rule.standard tree = (s, none)) ∧
      ∀ (source : String) (options : Options),
        ({ options } : Splicer).splice source tree = .ok source := by
  constructor
  · intro tree tree' h s
    exact State.walk_congr (Node.textEdits_eq_of_eqvGen h) s
  · intro tree h
    have hforest : [tree].flatMap Node.textEdits = [] :=
      Node.flatMap_textEdits_eq_nil (by rwa [List.flatMap_singleton])
    rw [List.flatMap_singleton] at hforest
    refine ⟨State.walk_eq_self hforest, fun source options => ?_⟩
    have hwhole : between source 0 source.utf8ByteSize = source := by
      simpa using between_parts "" source ""
    rw [splice, State.walk_eq_self hforest]
    refine (Cursor.finish_eq_ok _ (isBoundary_zero source)).trans ?_
    rw [State.start, hwhole, String.empty_append]

/-- Of two elements around an import in an exported function, the inner one is dissolved and the
outer one changed; and elements that cover anything. -/
theorem Splicer.plain_elements_transparent_nested :
    let load : Node := .importDecl ⟨⟨24, 34⟩, .bare, [], ⟨⟨31, 34⟩, "'m'"⟩⟩
    let exported (body : List Node) : Node := .element .program ⟨0, 50⟩
      [.exportDefinition ⟨0, 40⟩ .function "f" (.element .function ⟨7, 40⟩ body) false]
    (∀ s : State,
      s.walk Rule.standard
          (exported [.element .statement ⟨20, 38⟩ [.element .expression ⟨22, 36⟩ [load]]]) =
        s.walk Rule.standard (exported [.element .classDef ⟨9, 3⟩ [load]])) ∧
    ∀ (source : String) (options : Options),
      ({ options } : Splicer).splice source
        (.element .program ⟨7, 2⟩ [.element .function ⟨90, 95⟩ [], .element .statement ⟨1, 1⟩ []]) =
          .ok source := by
  intro load exported
  have hexported : ∀ {body body' : List Node},
      Node.Recast (.element .function ⟨7, 40⟩ body) (.element .function ⟨7, 40⟩ body') →
      Node.Reshaped (exported body) (exported body') := fun h =>
    .below (.child _ _ [] [] (.definition _ _ _ _ h))
  have hinner : Node.Reshaped
      (exported [.element .statement ⟨20, 38⟩ [.element .expression ⟨22, 36⟩ [load]]])
      (exported [.element .statement ⟨20, 38⟩ [load]]) :=
    hexported (.child _ _ [] [] (.dissolve _ _ [] _ _ [load] []))
  have houter : Node.Reshaped (exported [.element .statement ⟨20, 38⟩ [load]])
      (exported [.element .classDef ⟨9, 3⟩ [load]]) :=
    hexported (.relabel _ _ [] _ _ _ _ [load] [])
  constructor
  · exact Splicer.plain_elements_transparent.1 _ _
      (.trans _ _ _ (.rel _ _ hinner) (.rel _ _ houter))
  · exact (Splicer.plain_elements_transparent.2 _ (by decide)).2

end ModSplice
