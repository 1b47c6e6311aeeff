import ModSplice.Splice.Edit

/-!
# What is read off a walk

The walk that replaces every declaration, node by node. Something that is read off its edits one at
a time, and that neither the entrance into a node nor a snippet without temporary names contributes
to, is read off the nodes inside in their order, with the moves around them in between.
-/
namespace ModSplice

/-- A way to read edits: both moves to an offset read alike, and of the rest only snippets with
temporary names may have something to read. -/
structure Edit.Legible {α : Type} (read : Edit → List α) : Prop where
  skipTo : ∀ offset, read (.skipTo offset) = read (.copyTo offset)
  insert : ∀ snippet, snippet.stems = [] → read (.insert snippet) = []
  refuse : ∀ fault, read (.refuse fault) = []
  enter : ∀ node, read (.enter node) = []
  leave : read .leave = []

namespace Node

def reading {α : Type} (read : Edit → List α) (node : Node) : List α :=
  (node.edits Rule.standard).flatMap read

def partReading {α : Type} (read : Edit → List α) (part : Node) : List α :=
  read (.copyTo part.span.start) ++ part.reading read ++ read (.copyTo part.span.stop)

def declaratorReading {α : Type} (read : Edit → List α) : Declarator → List α
  | .unset span _ => read (.copyTo span.start) ++ read (.copyTo span.stop)
  | .set span _ value => read (.copyTo span.start) ++ value.partReading read

section Reading

variable {α : Type} {read : Edit → List α} (h : Edit.Legible read)
include h

theorem flatMap_within (node : Node) (inside : List Edit) :
    (within node inside).flatMap read = inside.flatMap read := by
  simp [within, h.enter, h.leave]

theorem flatMap_keepPart (node part : Node) :
    (keepPart node part (part.edits Rule.standard)).flatMap read = part.partReading read := by
  simp [keepPart, flatMap_within h, h.skipTo, partReading, reading]

theorem flatMap_replaceWhole (span : Span) (substitute : Edit) :
    (replaceWhole span substitute).flatMap read =
      read (.copyTo span.start) ++ read substitute ++ read (.copyTo span.stop) := by
  simp [replaceWhole, h.skipTo]

theorem reading_exportValue (span : Span) (target : String) (value : Node) :
    (exportValue span target value).reading read =
      read (.copyTo span.start) ++ value.partReading read := by
  have hedits : (exportValue span target value).edits Rule.standard =
      valueEdits (.exportValue span target value) span target value
        (value.edits Rule.standard) := rfl
  have hassign : read (.insert (.assign target)) = [] := h.insert _ rfl
  have hsemicolon : read (.insert .semicolon) = [] := h.insert _ rfl
  rw [reading, hedits, valueEdits, List.flatMap_append, List.flatMap_append, flatMap_keepPart h]
  split <;> simp [hassign, hsemicolon]

theorem reading_exportDefinition (span : Span) (kind : DefinitionKind) (name : String)
    (definition : Node) (isDefault : Bool) :
    (exportDefinition span kind name definition isDefault).reading read =
      read (.copyTo span.start) ++ definition.partReading read ++ read (.copyTo span.stop) := by
  have hedits : (exportDefinition span kind name definition isDefault).edits Rule.standard =
      definitionEdits (.exportDefinition span kind name definition isDefault) span name
        definition isDefault (definition.edits Rule.standard) := rfl
  have hpublish : read (.insert (.publish name isDefault)) = [] := h.insert _ rfl
  rw [reading, hedits, definitionEdits, List.flatMap_cons, List.flatMap_append, flatMap_keepPart h]
  simp [hpublish, h.skipTo]

theorem flatMap_declaratorEdits (node : Node) (declarators : List Declarator)
    (kind? : Option VarKind) :
    (declaratorEdits Rule.standard node kind? declarators).flatMap read =
      declarators.flatMap (declaratorReading read) := by
  induction declarators generalizing kind? with
  | nil => rfl
  | cons declarator rest ih =>
    have hlead : ∀ start, (declaratorLead kind? start).flatMap read = read (.copyTo start) := by
      intro start
      cases kind? with
      | none => simp [declaratorLead]
      | some kind =>
        have hkeyword : read (.insert (.keyword kind)) = [] := h.insert _ rfl
        simp [declaratorLead, h.skipTo, hkeyword]
    have hinitialise : ∀ name, read (.insert (.initialise name)) = [] := fun name =>
      h.insert _ rfl
    have hundefined : read (.insert .undefined) = [] := h.insert _ rfl
    cases declarator with
    | unset span name =>
      rw [declaratorEdits, List.flatMap_append, List.flatMap_append, hlead, ih none]
      simp [declaratorReading, hinitialise, hundefined, h.skipTo]
    | set span name value =>
      rw [declaratorEdits, List.flatMap_append, List.flatMap_append, List.flatMap_append, hlead,
        flatMap_keepPart h, ih none]
      simp [declaratorReading, hinitialise]

theorem reading_exportVariables (span : Span) (kind : VarKind) (declarators : List Declarator) :
    (exportVariables span kind declarators).reading read =
      read (.copyTo span.start) ++ declarators.flatMap (declaratorReading read) := by
  cases declarators with
  | nil =>
    have hedits : (exportVariables span kind []).edits Rule.standard =
        [.copyTo span.start, .refuse (.unsupported .noDeclarators)] := rfl
    simp [reading, hedits, h.refuse]
  | cons first rest =>
    have hedits : (exportVariables span kind (first :: rest)).edits Rule.standard =
        .copyTo span.start :: declaratorEdits Rule.standard
          (.exportVariables span kind (first :: rest)) (some kind) (first :: rest) := rfl
    rw [reading, hedits, List.flatMap_cons, flatMap_declaratorEdits h]

theorem reading_element (kind : ElementKind) (span : Span) (children : List Node) :
    (element kind span children).reading read = children.flatMap (reading read) := by
  have hall : ∀ nodes : List Node, (allEdits Rule.standard nodes).flatMap read =
      nodes.flatMap (reading read) := by
    intro nodes
    induction nodes with
    | nil => rfl
    | cons node rest ih => rw [allEdits, List.flatMap_append, ih, List.flatMap_cons, reading]
  exact (flatMap_within h _ _).trans (hall children)

end Reading

end Node
end ModSplice
