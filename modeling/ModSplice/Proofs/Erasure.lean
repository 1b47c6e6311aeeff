import ModSplice.Proofs.Footprint
import ModSplice.Proofs.Verdicts

/-!
# Rules that are left out

A walk with some of the standard rules does what the standard walk does on another tree: the one in
which every declaration that none of the rules accepts has become a plain statement, with the same
span and the same nodes inside. The rules that there are count, not their order and number.
-/
namespace ModSplice

/-! ## Verdicts of some of the standard rules -/

section Verdicts

variable {rules : List Rule} (hrules : ∀ rule ∈ rules, rule ∈ Rule.standard)
include hrules

theorem verdict_eq_of_standard (node : Node) :
    verdict rules node = if rules.any (Rule.accepts node) then .replace else .descend := by
  cases hfind : rules.find? (Rule.accepts node) with
  | none =>
    have hnone : rules.any (Rule.accepts node) = false := by
      simpa [List.find?_eq_none] using hfind
    simp [verdict, hfind, hnone]
  | some rule =>
    have hsome : rules.any (Rule.accepts node) = true :=
      List.any_eq_true.mpr ⟨rule, List.mem_of_find?_eq_some hfind, List.find?_some hfind⟩
    have hreplace : ∀ rule ∈ Rule.standard, rule.verdict = .replace := by decide
    simp [verdict, hfind, hsome, hreplace rule (hrules rule (List.mem_of_find?_eq_some hfind))]

omit hrules in
theorem verdict_standard (node : Node) :
    verdict Rule.standard node = if node.isElement then .descend else .replace := by
  cases node <;> rfl

theorem noteless_of_standard : Noteless rules := by
  intro node
  rw [verdict_eq_of_standard hrules]
  split
  · exact .inl rfl
  · exact .inr rfl

/-- The standard rules accept no plain element. -/
theorem isElement_of_accepted {node : Node} (h : rules.any (Rule.accepts node) = true) :
    node.isElement = false := by
  have hreplace : verdict rules node = .replace := by rw [verdict_eq_of_standard hrules, if_pos h]
  exact isElement_of_replace hreplace

end Verdicts

namespace Node

/-! ## Erased declarations -/

/-- What becomes of a node when declarations are erased, given what it is with the nodes inside it
dealt with: a declaration that no rule accepts becomes a plain statement. -/
def erased (rules : List Rule) (node inner : Node) : Node :=
  if rules.any (Rule.accepts node) then inner else .element .statement inner.span inner.children

mutual

def erase (rules : List Rule) : Node → Node
  | .exportValue span target value =>
    erased rules (.exportValue span target value) (.exportValue span target (erase rules value))
  | .exportVariables span kind declarators =>
    erased rules (.exportVariables span kind declarators)
      (.exportVariables span kind (eraseDeclarators rules declarators))
  | .exportDefinition span kind name definition isDefault =>
    erased rules (.exportDefinition span kind name definition isDefault)
      (.exportDefinition span kind name (erase rules definition) isDefault)
  | .element kind span children => .element kind span (eraseAll rules children)
  | node => erased rules node node

def eraseAll (rules : List Rule) : List Node → List Node
  | [] => []
  | node :: rest => erase rules node :: eraseAll rules rest

def eraseDeclarators (rules : List Rule) : List Declarator → List Declarator
  | [] => []
  | .unset span name :: rest => .unset span name :: eraseDeclarators rules rest
  | .set span name value :: rest =>
    .set span name (erase rules value) :: eraseDeclarators rules rest

end

variable (rules : List Rule)

theorem span_erased (node inner : Node) : (erased rules node inner).span = inner.span := by
  rw [erased]
  split <;> rfl

theorem children_erased (node inner : Node) :
    (erased rules node inner).children = inner.children := by
  rw [erased]
  split <;> rfl

theorem isDefinition_erased {node inner : Node} (h : inner.isDefinition = false) :
    (erased rules node inner).isDefinition = false := by
  rw [erased]
  split
  · exact h
  · rfl

@[simp] theorem span_erase (node : Node) : (node.erase rules).span = node.span := by
  cases node with
  | element => rfl
  | _ => exact span_erased ..

/-- A statement in the place of a declaration is no definition either, so a default export takes its
value for what it was. -/
@[simp] theorem isDefinition_erase (node : Node) :
    (node.erase rules).isDefinition = node.isDefinition := by
  cases node with
  | element kind => cases kind <;> rfl
  | _ => exact isDefinition_erased rules rfl

theorem eraseAll_eq (nodes : List Node) : eraseAll rules nodes = nodes.map (erase rules) := by
  induction nodes with
  | nil => rfl
  | cons node rest ih => rw [eraseAll, ih, List.map_cons]

theorem eraseDeclarators_values (declarators : List Declarator) :
    (eraseDeclarators rules declarators).filterMap Declarator.value? =
      (declarators.filterMap Declarator.value?).map (erase rules) := by
  induction declarators with
  | nil => rfl
  | cons declarator rest ih =>
    cases declarator with
    | unset span name => exact ih
    | set span name value => exact congrArg (erase rules value :: ·) ih

/-- The nodes inside stay where they are, with the declarations among them erased in turn. -/
theorem children_erase (node : Node) :
    (node.erase rules).children = node.children.map (erase rules) := by
  cases node with
  | element kind span children => exact eraseAll_eq rules children
  | exportVariables span kind declarators =>
    exact (children_erased ..).trans (eraseDeclarators_values rules declarators)
  | _ => exact children_erased ..

variable {rules}

theorem isElement_erase (node : Node) :
    (node.erase rules).isElement = (node.isElement || !rules.any (Rule.accepts node)) := by
  cases node with
  | element => rfl
  | _ => cases haccepted : rules.any _ <;> simp [erase, erased, haccepted, isElement]

/-! ## The edits on the text -/

def AgreeOnText (rules : List Rule) (node : Node) : Prop :=
  textual (node.edits rules) = textual ((node.erase rules).edits Rule.standard)

theorem textual_declaratorEdits_erase (node node' : Node) {declarators : List Declarator}
    (h : ∀ value ∈ declarators.filterMap Declarator.value?, AgreeOnText rules value)
    (kind? : Option VarKind) :
    textual (declaratorEdits rules node kind? declarators) =
      textual (declaratorEdits Rule.standard node' kind? (eraseDeclarators rules declarators)) := by
  induction declarators generalizing kind? with
  | nil => rfl
  | cons declarator rest ih =>
    cases declarator with
    | unset span name =>
      simp only [declaratorEdits, eraseDeclarators, textual_append, ih h none]
    | set span name value =>
      obtain ⟨hvalue, hrest⟩ := List.forall_mem_cons.mp h
      simp only [declaratorEdits, eraseDeclarators, textual_append, textual_keepPart, span_erase,
        ih hrest none]
      rw [hvalue]

/-- A declaration that is kept is replaced alike, whatever has become of the nodes inside. -/
theorem textual_replacement_erase {node : Node} (haccepted : rules.any (Rule.accepts node) = true)
    (helement : node.isElement = false) (h : ∀ child ∈ node.children, AgreeOnText rules child) :
    textual (node.replacement rules) =
      textual ((node.erase rules).replacement Rule.standard) := by
  cases node with
  | importDecl | moduleDecl | exportNothing | exportAll | exportFrom | exportNames =>
    simp only [erase, erased, haccepted, if_true, replacement]
  | exportValue span target value =>
    have hvalue : AgreeOnText rules value := h value (by simp [children])
    simp only [erase, erased, haccepted, if_true, replacement, textual_valueEdits, span_erase,
      isDefinition_erase]
    rw [hvalue]
  | exportDefinition span kind name definition isDefault =>
    have hdefinition : AgreeOnText rules definition := h definition (by simp [children])
    simp only [erase, erased, haccepted, if_true, replacement, textual_definitionEdits, span_erase]
    rw [hdefinition]
  | exportVariables span kind declarators =>
    simp only [erase, erased, haccepted, if_true, replacement]
    cases declarators with
    | nil => rfl
    | cons first rest =>
      have hempty : (eraseDeclarators rules (first :: rest)).isEmpty = false := by
        cases first <;> rfl
      rw [hempty]
      exact congrArg (Edit.copyTo span.start :: ·)
        (textual_declaratorEdits_erase _ _ h (some kind))
  | element => cases helement

/-- By induction over the tree. A declaration that is not accepted is gone through like a plain
element by the one walk, and is one to the other. -/
theorem agreeOnText (hrules : ∀ rule ∈ rules, rule ∈ Rule.standard) (tree : Node) :
    AgreeOnText rules tree := by
  induction tree using tree_induction with
  | node node hinside =>
    rw [AgreeOnText, edits_eq rules, edits_eq Rule.standard, verdict_eq_of_standard hrules,
      verdict_standard, isElement_erase]
    cases haccepted : rules.any (Rule.accepts node) with
    | true =>
      have helement := isElement_of_accepted hrules haccepted
      simp only [helement, if_true, Bool.not_true, Bool.or_false]
      exact textual_replacement_erase haccepted helement hinside
    | false =>
      simp only [Bool.not_false, Bool.or_true, if_true]
      change textual (within _ _) = textual (within _ _)
      rw [textual_within, textual_within, textual_flatMap, textual_flatMap, children_erase,
        List.flatMap_map]
      exact List.flatMap_congr hinside

end Node

/-- A walk with some of the standard rules is the standard walk over the tree in which the other
declarations are erased. It ends in the same state, with the same text, position and names, and in
the same fault. So does any list of the same rules, in whichever order and however often each. -/
theorem State.walk_erases_other_declarations (rules : List Rule)
    (hrules : ∀ rule ∈ rules, rule ∈ Rule.standard) (tree : Node) :
    (∀ s : State, s.walk rules tree = s.walk Rule.standard (tree.erase rules)) ∧
    (∀ (source : String) (options : Options),
      ({ rules, options } : Splicer).splice source tree =
        ({ options } : Splicer).splice source (tree.erase rules)) ∧
    ∀ rules' : List Rule, (∀ rule, rule ∈ rules' ↔ rule ∈ rules) →
      ∀ s : State, s.walk rules' tree = s.walk rules tree := by
  have hwalk : ∀ s : State, s.walk rules tree = s.walk Rule.standard (tree.erase rules) :=
    walk_eq_of_textual (noteless_of_standard hrules) noteless_standard
      (Node.agreeOnText hrules tree)
  refine ⟨hwalk, fun source options => ?_, fun rules' hsame s => ?_⟩
  · simp only [Splicer.splice, hwalk]
  · have hrules' : ∀ rule ∈ rules', rule ∈ Rule.standard := fun rule h =>
      hrules rule ((hsame rule).mp h)
    have hverdict : ∀ node, verdict rules' node = verdict rules node := by
      intro node
      have hany : rules'.any (Rule.accepts node) = rules.any (Rule.accepts node) := by
        rw [Bool.eq_iff_iff, List.any_eq_true, List.any_eq_true]
        simp only [hsame]
      rw [verdict_eq_of_standard hrules', verdict_eq_of_standard hrules, hany]
    have hedits : tree.edits rules' = tree.edits rules :=
      Node.edits_congr (fun node _ _ => by rw [hverdict node]) tree
    rw [walk, walk, hedits]

/-- Without the rule for imports, one that is exported as a value is kept as it stands, like the
statement that takes its place. -/
theorem State.walk_erases_other_declarations_value :
    let source := "export default import 'a'\nmodule b from 'b';"
    let output := "module.exports = import 'a'\nvar b = require('b');"
    let rules : List Rule := [.modules, .exports, .modules]
    let declared := Node.moduleDecl ⟨⟨26, 44⟩, "b", ⟨⟨40, 43⟩, "'b'"⟩⟩
    let tree := Node.element .program ⟨0, 44⟩ [.exportValue ⟨0, 25⟩ "default"
      (.importDecl ⟨⟨15, 25⟩, .bare, [], ⟨⟨22, 25⟩, "'a'"⟩⟩), declared]
    let other := Node.element .program ⟨0, 44⟩
      [.exportValue ⟨0, 25⟩ "default" (.element .statement ⟨15, 25⟩ []), declared]
    (∀ rule ∈ rules, rule ∈ Rule.standard) ∧
      ({} : Splicer).splice source other = .ok output ∧
      ({ rules } : Splicer).splice source tree = .ok output ∧
      ∀ s : State, s.walk [.exports, .modules] tree = s.walk rules tree := by
  intro source output rules declared tree other
  have hrules : ∀ rule ∈ rules, rule ∈ Rule.standard := by decide
  have hother : ({} : Splicer).splice source other = .ok output := by decide +kernel
  obtain ⟨-, hsplice, horder⟩ := State.walk_erases_other_declarations rules hrules tree
  refine ⟨hrules, hother, (hsplice source {}).trans hother, horder _ ?_⟩
  intro rule
  simp only [rules, List.mem_cons, List.not_mem_nil, or_false]
  tauto

end ModSplice
