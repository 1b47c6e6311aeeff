import ModSplice.Splice.Edit

/-!
# Trees moved along a text

A tree whose spans are all moved by the same number of bytes asks for the same edits, moved by as
much. The rules look at what a node is and never at where it stands.
-/
namespace ModSplice

namespace Span

def shift (k : Nat) (s : Span) : Span :=
  ⟨k + s.start, k + s.stop⟩

@[simp] theorem shift_start (k : Nat) (s : Span) : (s.shift k).start = k + s.start := rfl
@[simp] theorem shift_stop (k : Nat) (s : Span) : (s.shift k).stop = k + s.stop := rfl

@[simp] theorem shift_zero (s : Span) : s.shift 0 = s := by
  simp [shift]

end Span

namespace Source

def shift (k : Nat) (s : Source) : Source :=
  { s with span := s.span.shift k }

end Source

namespace ImportDecl

def shift (k : Nat) (d : ImportDecl) : ImportDecl :=
  { d with span := d.span.shift k, source := d.source.shift k }

end ImportDecl

namespace ModuleDecl

def shift (k : Nat) (d : ModuleDecl) : ModuleDecl :=
  { d with span := d.span.shift k, source := d.source.shift k }

end ModuleDecl

namespace Node

mutual

def shift (k : Nat) : Node → Node
  | .importDecl decl => .importDecl (decl.shift k)
  | .moduleDecl decl => .moduleDecl (decl.shift k)
  | .exportValue span target value => .exportValue (span.shift k) target (shift k value)
  | .exportNothing span target => .exportNothing (span.shift k) target
  | .exportVariables span kind declarators =>
    .exportVariables (span.shift k) kind (shiftDeclarators k declarators)
  | .exportDefinition span kind name definition isDefault =>
    .exportDefinition (span.shift k) kind name (shift k definition) isDefault
  | .exportAll span source => .exportAll (span.shift k) (source.shift k)
  | .exportFrom span source specifiers =>
    .exportFrom (span.shift k) (source.shift k) specifiers
  | .exportNames span specifiers => .exportNames (span.shift k) specifiers
  | .element kind span children => .element kind (span.shift k) (shiftAll k children)

def shiftAll (k : Nat) : List Node → List Node
  | [] => []
  | node :: rest => shift k node :: shiftAll k rest

def shiftDeclarators (k : Nat) : List Declarator → List Declarator
  | [] => []
  | .unset span name :: rest => .unset (span.shift k) name :: shiftDeclarators k rest
  | .set span name value :: rest =>
    .set (span.shift k) name (shift k value) :: shiftDeclarators k rest

end

@[simp] theorem shift_span (k : Nat) (node : Node) : (node.shift k).span = node.span.shift k := by
  cases node <;> rfl

@[simp] theorem shift_isDefinition (k : Nat) (node : Node) :
    (node.shift k).isDefinition = node.isDefinition := by
  cases node with
  | element kind span children => cases kind <;> rfl
  | _ => rfl

@[simp] theorem shiftDeclarators_isEmpty (k : Nat) (declarators : List Declarator) :
    (shiftDeclarators k declarators).isEmpty = declarators.isEmpty := by
  match declarators with
  | [] => rfl
  | .unset .. :: _ => rfl
  | .set .. :: _ => rfl

end Node

namespace Fault

/-- Faults that name a span name the moved one. -/
def shift (k : Nat) : Fault → Fault
  | .unsupported (.importKind span) => .unsupported (.importKind (span.shift k))
  | .missingSpecifier span => .missingSpecifier (span.shift k)
  | fault => fault

end Fault

namespace Edit

def shift (k : Nat) : Edit → Edit
  | .copyTo offset => .copyTo (k + offset)
  | .skipTo offset => .skipTo (k + offset)
  | .insert snippet => .insert snippet
  | .refuse fault => .refuse (fault.shift k)
  | .enter node => .enter (node.shift k)
  | .leave => .leave
  | .note node => .note (node.shift k)

end Edit

theorem accepts_shift (k : Nat) (node : Node) (rule : Rule) :
    Rule.accepts (node.shift k) rule = Rule.accepts node rule := by
  cases rule <;> cases node <;> rfl

@[simp] theorem verdict_shift (rules : List Rule) (k : Nat) (node : Node) :
    verdict rules (node.shift k) = verdict rules node := by
  have h : Rule.accepts (node.shift k) = Rule.accepts node := funext (accepts_shift k node)
  simp only [verdict, h]

theorem settle_shift (k : Nat) (v : Verdict) (node : Node) (inside replacement : List Edit) :
    (v.settle node inside replacement).map (Edit.shift k) =
      v.settle (node.shift k) (inside.map (Edit.shift k)) (replacement.map (Edit.shift k)) := by
  cases v with
  | replace => rfl
  | descend => simp [Verdict.settle, within, Edit.shift]
  | note descent =>
    cases descent with
    | onward | led =>
      rw [Verdict.settle_note (by decide), Verdict.settle_note (by decide)]
      simp [within, Edit.shift]
    | withheld => rfl

theorem substitute_shift (k : Nat) (d : ImportDecl) :
    (d.shift k).substitute = d.substitute.shift k := by
  obtain ⟨span, kind, specifiers, source⟩ := d
  cases kind <;> cases specifiers <;> rfl

/-- A declaration of which nothing is kept. -/
theorem whole_shift (rules : List Rule) (k : Nat) (node : Node) (span : Span) (substitute : Edit) :
    (verdict rules (node.shift k)).settle (node.shift k) []
        (replaceWhole (span.shift k) (substitute.shift k)) =
      ((verdict rules node).settle node [] (replaceWhole span substitute)).map (Edit.shift k) := by
  rw [verdict_shift, settle_shift]
  rfl

theorem keepPart_shift (k : Nat) (node part : Node) (inside : List Edit) :
    (keepPart node part inside).map (Edit.shift k) =
      keepPart (node.shift k) (part.shift k) (inside.map (Edit.shift k)) := by
  simp [keepPart, within, Edit.shift]

/-- Whether a value ends with its export does not depend on where both stand. -/
theorem valueEdits_shift (k : Nat) (node : Node) (span : Span) (target : String) (value : Node)
    (inside : List Edit) :
    (valueEdits node span target value inside).map (Edit.shift k) =
      valueEdits (node.shift k) (span.shift k) target (value.shift k)
        (inside.map (Edit.shift k)) := by
  have hstop : (k + value.span.stop == k + span.stop) = (value.span.stop == span.stop) := by
    rw [Bool.eq_iff_iff]
    simp
  simp only [valueEdits, List.map_append, keepPart_shift, Node.shift_isDefinition, Node.shift_span,
    Span.shift_start, Span.shift_stop, hstop]
  cases value.isDefinition && value.span.stop == span.stop <;> rfl

theorem definitionEdits_shift (k : Nat) (node : Node) (span : Span) (name : String)
    (definition : Node) (isDefault : Bool) (inside : List Edit) :
    (definitionEdits node span name definition isDefault inside).map (Edit.shift k) =
      definitionEdits (node.shift k) (span.shift k) name (definition.shift k) isDefault
        (inside.map (Edit.shift k)) := by
  simp [definitionEdits, keepPart_shift, Edit.shift]

theorem declaratorLead_shift (k : Nat) (kind? : Option VarKind) (start : Nat) :
    (declaratorLead kind? start).map (Edit.shift k) = declaratorLead kind? (k + start) := by
  cases kind? <;> rfl

namespace Node

mutual

/-- A moved tree asks for the moved edits. -/
theorem edits_shift (rules : List Rule) (k : Nat) : ∀ node : Node,
    (node.shift k).edits rules = (node.edits rules).map (Edit.shift k)
  | .importDecl decl => by
    have h := whole_shift rules k (.importDecl decl) decl.span decl.substitute
    rw [← substitute_shift] at h
    exact h
  | .moduleDecl decl =>
    whole_shift rules k (.moduleDecl decl) decl.span (.insert (.bind decl.name decl.source.raw))
  | .exportValue span target value => by
    have hv := verdict_shift rules k (.exportValue span target value)
    simp only [shift] at hv
    simp only [shift, edits, settle_shift, valueEdits_shift, hv, edits_shift rules k value]
  | .exportNothing span target =>
    whole_shift rules k (.exportNothing span target) span (.insert (.assignUndefined target))
  | .exportVariables span kind declarators => by
    have hv := verdict_shift rules k (.exportVariables span kind declarators)
    have hd := declaratorEdits_shift rules k (.exportVariables span kind declarators) (some kind)
      declarators
    simp only [shift] at hv hd
    simp only [shift, edits, hv, shiftDeclarators_isEmpty, valuesEdits_shift rules k declarators]
    cases verdict rules (.exportVariables span kind declarators) with
    | replace => cases declarators.isEmpty <;> simp [hd, Edit.shift, Fault.shift]
    | descend | note => simp only [settle_shift, shift, List.map_nil]
  | .exportDefinition span kind name definition isDefault => by
    have hv := verdict_shift rules k (.exportDefinition span kind name definition isDefault)
    simp only [shift] at hv
    simp only [shift, edits, settle_shift, definitionEdits_shift, hv,
      edits_shift rules k definition]
  | .exportAll span source =>
    whole_shift rules k (.exportAll span source) span (.insert (.forwardAll source.raw))
  | .exportFrom span source specifiers =>
    whole_shift rules k (.exportFrom span source specifiers) span
      (.insert (.forwardMembers source.raw specifiers))
  | .exportNames span specifiers =>
    whole_shift rules k (.exportNames span specifiers) span (.insert (.publishNames specifiers))
  | .element kind span children => by
    have hv := verdict_shift rules k (.element kind span children)
    simp only [shift] at hv
    simp only [shift, edits, settle_shift, hv, allEdits_shift rules k children, List.map_nil]

theorem allEdits_shift (rules : List Rule) (k : Nat) : ∀ nodes : List Node,
    allEdits rules (shiftAll k nodes) = (allEdits rules nodes).map (Edit.shift k)
  | [] => rfl
  | node :: rest => by
    simp only [shiftAll, allEdits, List.map_append, edits_shift rules k node,
      allEdits_shift rules k rest]

theorem valuesEdits_shift (rules : List Rule) (k : Nat) : ∀ declarators : List Declarator,
    valuesEdits rules (shiftDeclarators k declarators) =
      (valuesEdits rules declarators).map (Edit.shift k)
  | [] => rfl
  | .unset _ _ :: rest => by
    simp only [shiftDeclarators, valuesEdits, valuesEdits_shift rules k rest]
  | .set _ _ value :: rest => by
    simp only [shiftDeclarators, valuesEdits, List.map_append, edits_shift rules k value,
      valuesEdits_shift rules k rest]

theorem declaratorEdits_shift (rules : List Rule) (k : Nat) (node : Node) :
    ∀ (kind? : Option VarKind) (declarators : List Declarator),
    declaratorEdits rules (node.shift k) kind? (shiftDeclarators k declarators) =
      (declaratorEdits rules node kind? declarators).map (Edit.shift k)
  | _, [] => rfl
  | kind?, .unset span name :: rest => by
    simp only [shiftDeclarators, declaratorEdits, List.map_append, declaratorLead_shift,
      declaratorEdits_shift rules k node none rest]
    rfl
  | kind?, .set span name value :: rest => by
    simp only [shiftDeclarators, declaratorEdits, List.map_append, declaratorLead_shift,
      keepPart_shift, edits_shift rules k value, declaratorEdits_shift rules k node none rest]
    rfl

end

mutual

theorem shift_zero : ∀ node : Node, node.shift 0 = node
  | .importDecl decl => by simp [shift, ImportDecl.shift, Source.shift]
  | .moduleDecl decl => by simp [shift, ModuleDecl.shift, Source.shift]
  | .exportValue span target value => by simp [shift, shift_zero value]
  | .exportNothing span target => by simp [shift]
  | .exportVariables span kind declarators => by simp [shift, shiftDeclarators_zero declarators]
  | .exportDefinition span kind name definition isDefault => by simp [shift, shift_zero definition]
  | .exportAll span source => by simp [shift, Source.shift]
  | .exportFrom span source specifiers => by simp [shift, Source.shift]
  | .exportNames span specifiers => by simp [shift]
  | .element kind span children => by simp [shift, shiftAll_zero children]

theorem shiftAll_zero : ∀ nodes : List Node, shiftAll 0 nodes = nodes
  | [] => rfl
  | node :: rest => by simp [shiftAll, shift_zero node, shiftAll_zero rest]

theorem shiftDeclarators_zero : ∀ declarators : List Declarator,
    shiftDeclarators 0 declarators = declarators
  | [] => rfl
  | .unset span name :: rest => by simp [shiftDeclarators, shiftDeclarators_zero rest]
  | .set span name value :: rest => by
    simp [shiftDeclarators, shift_zero value, shiftDeclarators_zero rest]

end

end Node
end ModSplice
