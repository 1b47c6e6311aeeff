import ModSplice.Command.Run
import ModSplice.Proofs.LeadingComment
import ModSplice.Proofs.PlainName
import ModSplice.Proofs.ReadBack
import ModSplice.Proofs.VisitOrder

/-!
# Trees handed over as text

A tree that one command prints can be given to another in place of the parser's report. All offsets
of a tree that comes from a source text fit in 64 bits, so its text is read back as the same tree,
unless it is nested deeper than a text may be. From there on nothing depends on where the tree came
from.
-/
namespace ModSplice

namespace Json

/-! ## Sound values -/

theorem areSoundItems_iff (items : List Json) :
    areSoundItems items = true ↔ ∀ item ∈ items, item.isSound = true := by
  induction items with
  | nil => simp [areSoundItems]
  | cons item items ih => simp [areSoundItems, ih]

theorem areSoundFields_iff (fields : List (String × Json)) :
    areSoundFields fields = true ↔ ∀ field ∈ fields, field.2.isSound = true := by
  induction fields with
  | nil => simp [areSoundFields]
  | cons field fields ih => simp [areSoundFields, ih]

theorem isSound_arr_iff (items : List Json) :
    (arr items).isSound = true ↔ ∀ item ∈ items, item.isSound = true := by
  rw [isSound, areSoundItems_iff]

@[simp] theorem isSound_obj_iff (fields : List (String × Json)) :
    (obj fields).isSound = true ↔ ∀ field ∈ fields, field.2.isSound = true := by
  rw [isSound, areSoundFields_iff]

@[simp] theorem isSound_str (s : String) : (str s).isSound = true := rfl

@[simp] theorem isSound_bool (b : Bool) : (bool b).isSound = true := rfl

theorem roundShift_le (n shift : Nat) : roundShift n shift <<< shift ≤ n + 1 <<< shift := by
  have hround : roundShift n shift ≤ n / 1 <<< shift + 1 := by
    simp only [roundShift]
    split <;> omega
  have hquotient := Nat.div_mul_le_self n (1 <<< shift)
  calc roundShift n shift <<< shift
      = roundShift n shift * 1 <<< shift := by simp [Nat.shiftLeft_eq]
    _ ≤ (n / 1 <<< shift + 1) * 1 <<< shift := Nat.mul_le_mul_right _ hround
    _ = n / 1 <<< shift * 1 <<< shift + 1 <<< shift := by rw [Nat.add_mul, Nat.one_mul]
    _ ≤ n + 1 <<< shift := by omega

/-- Rounding does not double a number. -/
theorem toDouble_le (n : Nat) : toDouble n ≤ 2 * n := by
  by_cases h : n = 0
  · subst h
    decide
  · have hshift : 1 <<< (n.log2 + 1 - 53) ≤ n := by
      rw [Nat.shiftLeft_eq, Nat.one_mul]
      exact Nat.le_trans (Nat.pow_le_pow_right (by decide) (by omega)) (Nat.log2_self_le h)
    have hround := roundShift_le n (n.log2 + 1 - 53)
    rw [toDouble]
    omega

theorem isFinite_of_lt {n : Nat} (h : n < UInt64.size) : isFinite n 0 = true := by
  have hleading : leading n 0 = (n, 0) := by
    rw [leading, if_pos h]
  have hone : toDouble n * toDouble (Nat.pow 10 (0 : Int).toNat) = toDouble n :=
    Nat.mul_one (toDouble n)
  have hfirst := toDouble_le n
  have hsecond := toDouble_le (toDouble n)
  have hlarge : 4 * UInt64.size < 1 <<< 1024 := by decide
  have hlt : toDouble (toDouble n) < 1 <<< 1024 := by omega
  simp only [isFinite, hleading, hone]
  split
  · rfl
  · rw [if_neg (by decide)]
    exact decide_eq_true hlt

end Json

namespace Span

theorem isSound_toJson {s : Span} (h : s.isStorable = true) : s.toJson.isSound = true := by
  simp only [isStorable, Bool.and_eq_true, decide_eq_true_eq] at h
  have hstart : (Json.nat s.start).isSound = true := Json.isFinite_of_lt h.1
  have hstop : (Json.nat s.stop).isSound = true := Json.isFinite_of_lt h.2
  simp [toJson, hstart, hstop]

end Span

theorem Source.isSound_toJson {s : Source} (h : s.span.isStorable = true) :
    s.toJson.isSound = true := by
  simp [toJson, Span.isSound_toJson h]

theorem Specifier.isSound_toJson (s : Specifier) : s.toJson.isSound = true := by
  obtain ⟨name, _ | other⟩ := s
  · rfl
  · rfl

theorem Specifier.areSound_toJson (specifiers : List Specifier) :
    (Json.arr (specifiers.map toJson)).isSound = true := by
  simp [Json.isSound_arr_iff, isSound_toJson]

namespace Node

theorem isSound_exportJson {span : Span} {shape : String} {fields : List (String × Json)}
    (hspan : span.isStorable = true) (hfields : ∀ field ∈ fields, field.2.isSound = true) :
    (exportJson span shape fields).isSound = true := by
  have hkind : (Json.obj (("shape", .str shape) :: fields)).isSound = true := by
    rw [Json.isSound_obj_iff, List.forall_mem_cons]
    exact ⟨rfl, hfields⟩
  simp [exportJson, Span.isSound_toJson hspan, hkind]

theorem isSound_declaratorToJson {declarator : Declarator}
    (hspan : declarator.span.isStorable = true)
    (hvalue : ∀ value, declarator.value? = some value → value.toJson.isSound = true) :
    (declaratorToJson declarator).isSound = true := by
  cases declarator with
  | unset span name =>
    have hspan : span.toJson.isSound = true := Span.isSound_toJson hspan
    simp [declaratorToJson, hspan]
  | set span name value =>
    have hspan : span.toJson.isSound = true := Span.isSound_toJson hspan
    simp [declaratorToJson, hspan, hvalue value rfl]

/-- What is written for a node is sound if what is written for the nodes inside it is. -/
theorem isSound_of_children {node : Node}
    (hspans : ∀ span ∈ node.label.spans, span.isStorable = true)
    (hchildren : ∀ child ∈ node.children, child.toJson.isSound = true) :
    node.toJson.isSound = true := by
  have hspan : node.span.isStorable = true := hspans _ node.span_mem_spans
  cases node with
  | importDecl decl =>
    have hspan : decl.span.toJson.isSound = true := Span.isSound_toJson hspan
    have hsource := Source.isSound_toJson (hspans decl.source.span (by simp [label, Label.spans]))
    simp [toJson, ImportDecl.toJson, hspan, hsource, Specifier.areSound_toJson]
  | moduleDecl decl =>
    have hspan : decl.span.toJson.isSound = true := Span.isSound_toJson hspan
    have hsource := Source.isSound_toJson (hspans decl.source.span (by simp [label, Label.spans]))
    simp [toJson, ModuleDecl.toJson, hspan, hsource]
  | exportValue span target value =>
    have hvalue := hchildren value (by simp [children])
    exact isSound_exportJson hspan (by simp [hvalue])
  | exportNothing span target =>
    exact isSound_exportJson hspan (by simp)
  | exportVariables span kind declarators =>
    have hlist : (Json.arr (declaratorsToJson declarators)).isSound = true := by
      rw [Json.isSound_arr_iff, declaratorsToJson_eq, List.forall_mem_map]
      intro declarator hdeclarator
      refine isSound_declaratorToJson (hspans _ ?_) fun value hvalue =>
        hchildren value (List.mem_filterMap.mpr ⟨declarator, hdeclarator, hvalue⟩)
      simp only [label, Label.spans, List.map_map]
      exact List.mem_cons_of_mem _ (List.mem_map.mpr ⟨declarator, hdeclarator, rfl⟩)
    exact isSound_exportJson hspan (by simp [hlist])
  | exportDefinition span kind name definition isDefault =>
    have hdefinition := hchildren definition (by simp [children])
    exact isSound_exportJson hspan (by simp [hdefinition])
  | exportAll span source =>
    have hsource := Source.isSound_toJson (hspans source.span (by simp [label, Label.spans]))
    exact isSound_exportJson hspan (by simp [hsource])
  | exportFrom span source specifiers =>
    have hsource := Source.isSound_toJson (hspans source.span (by simp [label, Label.spans]))
    exact isSound_exportJson hspan (by simp [hsource, Specifier.areSound_toJson])
  | exportNames span specifiers =>
    exact isSound_exportJson hspan (by simp [Specifier.areSound_toJson])
  | element kind span children =>
    have hspan : span.toJson.isSound = true := Span.isSound_toJson hspan
    have hlist : ∀ item ∈ allToJson children, item.isSound = true := by
      rw [allToJson_eq, List.forall_mem_map]
      exact hchildren
    have hfield : ∀ field ∈ childrenField (allToJson children), field.2.isSound = true := by
      cases hall : allToJson children with
      | nil => simp [childrenField]
      | cons item items =>
        rw [hall] at hlist
        simpa [childrenField, Json.isSound_arr_iff] using hlist
    rw [toJson, Json.isSound_obj_iff, List.forall_mem_append]
    exact ⟨by simp [hspan], hfield⟩

/-- A tree with offsets of 64 bits is written without a number that is too large. -/
theorem isSound_toJson {tree : Node} (h : tree.Storable) : tree.toJson.isSound = true := by
  induction tree using tree_induction with
  | node node hinside =>
    obtain ⟨hspans, hchildren⟩ := (storable_iff node).mp h
    exact isSound_of_children hspans fun child hchild =>
      hinside child hchild (hchildren child hchild)

theorem storable_of_spans {node : Node} (hleaf : node.children = [])
    (hspans : ∀ span ∈ node.label.spans, span.isStorable = true) : node.Storable := by
  rw [storable_iff, hleaf]
  simpa using hspans

theorem storable_element {kind : ElementKind} {span : Span} {children : List Node}
    (hspan : span.isStorable = true) (hchildren : ∀ child ∈ children, child.Storable) :
    (element kind span children).Storable := by
  rw [storable_iff]
  exact ⟨by simpa [label, Label.spans] using hspan, hchildren⟩

theorem storable_value {span : Span} {target : String} {value : Node}
    (hspan : span.isStorable = true) (hvalue : value.Storable) :
    (exportValue span target value).Storable := by
  rw [storable_iff]
  exact ⟨by simpa [label, Label.spans] using hspan, by simpa [children] using hvalue⟩

theorem storable_definition {span : Span} {kind : DefinitionKind} {name : String}
    {definition : Node} {isDefault : Bool} (hspan : span.isStorable = true)
    (hdefinition : definition.Storable) :
    (exportDefinition span kind name definition isDefault).Storable := by
  rw [storable_iff]
  exact ⟨by simpa [label, Label.spans] using hspan, by simpa [children] using hdefinition⟩

end Node

/-! ## Offsets of a parsed text -/

namespace Parsed

/-- The parser counts in 32 bits. -/
theorem Range.isStorable_toSpan (base : UInt32) (range : Range) :
    (range.toSpan base).isStorable = true := by
  have hfits : ∀ n : UInt32, n.toNat - base.toNat < UInt64.size := fun n =>
    Nat.lt_of_le_of_lt (Nat.sub_le _ _) (Nat.lt_trans n.toNat_lt (by decide))
  simp only [Span.isStorable, Bool.and_eq_true, decide_eq_true_eq]
  exact ⟨hfits range.lo, hfits range.hi⟩

namespace Part

mutual

theorem scopes_storable (base : UInt32) (part : Part) :
    ∀ node ∈ part.scopes base, node.Storable := by
  match part with
  | .function range body =>
    simp only [scopes, List.mem_singleton, forall_eq]
    exact Node.storable_element (range.isStorable_toSpan base) (statements_storable base body)
  | .arrow range value =>
    simp only [scopes, List.mem_singleton, forall_eq]
    exact Node.storable_element (range.isStorable_toSpan base) (scopes_storable base value)
  | .classDef range members =>
    simp only [scopes, List.mem_singleton, forall_eq]
    exact Node.storable_element (range.isStorable_toSpan base) (allScopes_storable base members)
  | .other type range fields => exact fieldScopes_storable base fields

theorem statements_storable (base : UInt32) (parts : List Part) :
    ∀ node ∈ statements base parts, node.Storable := by
  match parts with
  | [] => simp [statements]
  | part :: parts =>
    rw [statements, List.forall_mem_cons]
    exact ⟨Node.storable_element (part.range.isStorable_toSpan base) (scopes_storable base part),
      statements_storable base parts⟩

theorem allScopes_storable (base : UInt32) (parts : List Part) :
    ∀ node ∈ allScopes base parts, node.Storable := by
  match parts with
  | [] => simp [allScopes]
  | part :: parts =>
    rw [allScopes, List.forall_mem_append]
    exact ⟨scopes_storable base part, allScopes_storable base parts⟩

theorem fieldScopes_storable (base : UInt32) (fields : List (String × List Part)) :
    ∀ node ∈ fieldScopes base fields, node.Storable := by
  match fields with
  | [] => simp [fieldScopes]
  | (name, parts) :: fields =>
    rw [fieldScopes, List.forall_mem_append]
    exact ⟨allScopes_storable base parts, fieldScopes_storable base fields⟩

end

theorem toElement_storable (base : UInt32) (kind : ElementKind) (part : Part) :
    (part.toElement base kind).Storable :=
  Node.storable_element (part.range.isStorable_toSpan base) (part.scopes_storable base)

end Part

theorem functionNode_storable (base : UInt32) (range : Range) (body : List Part) :
    (functionNode base range body).Storable :=
  Node.storable_element (range.isStorable_toSpan base) (Part.statements_storable base body)

/-- A decorator only moves the beginning of a class to the front. -/
theorem classNode_storable (base : UInt32) (range : Range) (members : List Part)
    (decorators : List UInt32) (exportStart : UInt32) :
    (classNode base range members decorators exportStart).Storable := by
  refine Node.storable_element ?_ (Part.allScopes_storable base members)
  have hrange := range.isStorable_toSpan base
  have hmin : ∀ (starts : List Nat) (start : Nat), starts.foldl min start ≤ start := by
    intro starts
    induction starts with
    | nil => simp
    | cons first starts ih => exact fun start => Nat.le_trans (ih _) (Nat.min_le_left _ _)
  simp only [Span.isStorable, Bool.and_eq_true, decide_eq_true_eq] at hrange ⊢
  exact ⟨Nat.lt_of_le_of_lt (hmin _ _) hrange.1, hrange.2⟩

theorem forall_of_mapM {α β ε : Type} {f : α → Except ε β} {p : β → Prop} {xs : List α}
    {ys : List β} (h : xs.mapM f = .ok ys) (hp : ∀ x y, f x = .ok y → p y) : ∀ y ∈ ys, p y := by
  have hpairs := mapM_forall₂ h
  clear h
  induction hpairs with
  | nil => simp
  | cons hfirst _ ih => exact List.forall_mem_cons.mpr ⟨hp _ _ hfirst, ih⟩

theorem toDeclarator_storable {base : UInt32} {v : Variable} {declarator : Declarator}
    (h : v.toDeclarator base = .ok declarator) :
    declarator.span.isStorable = true ∧
      ∀ value, declarator.value? = some value → value.Storable := by
  obtain ⟨range, _ | name, _ | value⟩ := v
  · cases h
  · cases h
  · obtain rfl := Except.ok.inj h
    exact ⟨range.isStorable_toSpan base, fun value hvalue => by cases hvalue⟩
  · obtain rfl := Except.ok.inj h
    refine ⟨range.isStorable_toSpan base, fun node hnode => ?_⟩
    obtain rfl := Option.some.inj hnode
    exact value.toElement_storable base .expression

namespace Item

variable {base : UInt32} {text : String} {item : Item} {node : Node}

theorem declaration_storable {range : Range} {declaration : Declaration}
    (h : declaration.toNode base range = .ok node) : node.Storable := by
  have hrange := range.isStorable_toSpan base
  cases declaration with
  | bindings kind ambient list =>
    cases ambient with
    | true => cases h
    | false =>
      cases hlist : list.mapM (Variable.toDeclarator base) with
      | error e =>
        simp only [Declaration.toNode, hlist] at h
        cases h
      | ok declarators =>
        simp only [Declaration.toNode, hlist] at h
        obtain rfl := Except.ok.inj h
        have hall : ∀ declarator ∈ declarators, declarator.span.isStorable = true ∧
            ∀ value, declarator.value? = some value → value.Storable :=
          forall_of_mapM hlist fun _ _ hv => toDeclarator_storable hv
        rw [Node.storable_iff]
        refine ⟨?_, fun child hchild => ?_⟩
        · simp only [Node.label, Label.spans, List.map_map, List.forall_mem_cons,
            List.forall_mem_map]
          exact ⟨hrange, fun declarator hdeclarator => (hall declarator hdeclarator).1⟩
        · obtain ⟨declarator, hdeclarator, hvalue⟩ := List.mem_filterMap.mp hchild
          exact (hall declarator hdeclarator).2 child hvalue
  | function name ambient inner body =>
    cases ambient with
    | true => cases h
    | false =>
      obtain rfl := Except.ok.inj h
      exact Node.storable_definition hrange (functionNode_storable base inner body)
  | classDef name ambient inner members decorators =>
    cases ambient with
    | true => cases h
    | false =>
      obtain rfl := Except.ok.inj h
      exact Node.storable_definition hrange
        (classNode_storable base inner members decorators range.lo)
  | interface | typeAlias | enumeration | namespaceBlock | resource | other => cases h

theorem defaultDeclaration_storable {range : Range} {declaration : DefaultDeclaration}
    (h : declaration.toNode base range = .ok node) : node.Storable := by
  have hrange := range.isStorable_toSpan base
  have hexported : ∀ (kind : DefinitionKind) (definition : Node) (name? : Option String),
      definition.Storable →
      (DefaultDeclaration.exported (range.toSpan base) kind definition name?).Storable := by
    intro kind definition name? hdefinition
    cases name? with
    | none => exact Node.storable_value hrange hdefinition
    | some name => exact Node.storable_definition hrange hdefinition
  cases declaration with
  | function name? inner body =>
    obtain rfl := Except.ok.inj h
    exact hexported _ _ _ (functionNode_storable base inner body)
  | classDef name? inner members decorators =>
    obtain rfl := Except.ok.inj h
    exact hexported _ _ _ (classNode_storable base inner members decorators range.lo)
  | interface => cases h

theorem importNode_storable {range source : Range} {names : List ImportName}
    (h : importNode base text range names source = .ok node) : node.Storable := by
  have hspans : ∀ span ∈ [range.toSpan base, source.toSpan base], span.isStorable = true := by
    simp [Range.isStorable_toSpan]
  simp only [importNode] at h
  split at h
  · obtain rfl := Except.ok.inj h
    exact Node.storable_of_spans rfl hspans
  · cases hnames : names.mapM ImportName.toSpecifier with
    | error e =>
      rw [hnames] at h
      cases h
    | ok specifiers =>
      rw [hnames] at h
      obtain rfl := Except.ok.inj h
      exact Node.storable_of_spans rfl hspans

theorem toNode_storable (h : item.toNode base text = .ok node) : node.Storable := by
  cases item with
  | statement part =>
    obtain rfl := Except.ok.inj h
    exact part.toElement_storable base .statement
  | importing range typeOnly names source =>
    cases typeOnly with
    | true => cases h
    | false => exact importNode_storable h
  | exportDeclaration range declaration => exact declaration_storable h
  | exportNames range typeOnly names source? =>
    cases typeOnly with
    | true => cases h
    | false =>
      cases hnames : names.mapM ExportName.toSpecifier with
      | error e =>
        simp only [toNode, hnames] at h
        cases h
      | ok specifiers =>
        simp only [toNode, hnames] at h
        cases source? with
        | none | some =>
          obtain rfl := Except.ok.inj h
          exact Node.storable_of_spans rfl
            (by simp [Node.label, Label.spans, sourceOf, Range.isStorable_toSpan])
  | exportDefault range declaration => exact defaultDeclaration_storable h
  | exportValue range value =>
    obtain rfl := Except.ok.inj h
    exact Node.storable_value (range.isStorable_toSpan base)
      (value.toElement_storable base .expression)
  | exportAll range typeOnly source =>
    cases typeOnly with
    | true => cases h
    | false =>
      obtain rfl := Except.ok.inj h
      exact Node.storable_of_spans rfl
        (by simp [Node.label, Label.spans, sourceOf, Range.isStorable_toSpan])
  | typeScript range => cases h

end Item

theorem lower_storable {base : UInt32} {text : String} {items : List Item} {nodes : List Node}
    (h : lower base text items = .ok nodes) : ∀ node ∈ nodes, node.Storable :=
  forall_of_mapM h fun _ _ hitem => Item.toNode_storable hitem

end Parsed

/-! ## Offsets of the older forms -/

namespace Legacy

open ModSplice.Text

theorem toNode_storable {offset : Nat} {found : Legacy}
    (h : offset + byteSize found.text < UInt64.size) : (found.toNode offset).Storable := by
  cases found with
  | moduleFrom lead name path tail =>
    simp only [text, byteSize_append] at h
    refine Node.storable_of_spans rfl ?_
    simp only [toNode, Node.label, Label.spans, List.forall_mem_cons, Span.isStorable,
      byteSize_append, Bool.and_eq_true, decide_eq_true_eq]
    refine ⟨⟨?_, ?_⟩, ⟨?_, ?_⟩, by simp⟩ <;> omega
  | bareDefault text =>
    simp only [Legacy.text] at h
    refine Node.storable_of_spans rfl ?_
    simp only [toNode, Node.label, Label.spans, List.forall_mem_cons, Span.isStorable,
      Bool.and_eq_true, decide_eq_true_eq]
    refine ⟨⟨?_, ?_⟩, by simp⟩ <;> omega

/-- A declaration lies in the text in which it is found. -/
theorem declarations_storable {forms : Forms} {source : List Char}
    (h : byteSize source < UInt64.size) : ∀ node ∈ declarations forms source, node.Storable := by
  simp only [declarations, List.forall_mem_map]
  intro x hx
  obtain ⟨front, back, hsource, hoffset, hfound⟩ := scan_found forms source [] [] 0 0 x hx
  obtain ⟨rest, hback, -⟩ := ofChars?_eq_some_iff.mp hfound
  have hsize : byteSize source = byteSize front + (byteSize x.2.text + byteSize rest) := by
    rw [hsource, byteSize_append, hback, byteSize_append]
  exact toNode_storable (by omega)

end Legacy

/-! ## Offsets of a program -/

namespace Program

theorem assemble_storable {source : String} {items legacy : List Node}
    (hsource : source.utf8ByteSize < UInt64.size) (hitems : ∀ node ∈ items, node.Storable)
    (hlegacy : ∀ node ∈ legacy, node.Storable) : (assemble source items legacy).Storable := by
  -- hanging in moves nodes about, but no label comes in that was not there
  obtain ⟨-, hperm⟩ := assemble_labels source items legacy
  intro label hlabel
  rw [hperm.mem_iff, List.mem_append, List.mem_cons, Node.labelsOfAll_eq, Node.labelsOfAll_eq]
    at hlabel
  rcases hlabel with (rfl | hlabel) | hlabel
  · simpa [Label.spans, Span.isStorable, UInt64.size] using hsource
  · obtain ⟨node, hnode, hlabel⟩ := List.mem_flatMap.mp hlabel
    exact hitems node hnode label hlabel
  · obtain ⟨node, hnode, hlabel⟩ := List.mem_flatMap.mp hlabel
    exact hlegacy node hnode label hlabel

/-- All offsets in the tree of a source text are numbers of 64 bits if the size of the text is. -/
theorem ofReport_storable {forms : Forms} {source : String} {report : Parsed.Report}
    {program : Program} (hsource : source.utf8ByteSize < UInt64.size)
    (h : ofReport forms source report = .ok program) : program.tree.Storable := by
  have hchars : Text.byteSize source.toList < UInt64.size := by
    rw [Legacy.byteSize_eq, String.ofList_toList]
    exact hsource
  cases report with
  | fatal | recovered => cases h
  | script base items =>
    cases hlower : Parsed.lower base source items with
    | error construct =>
      simp only [ofReport, hlower] at h
      cases h
    | ok nodes =>
      simp only [ofReport, hlower] at h
      obtain rfl := Except.ok.inj h
      exact assemble_storable hsource (Parsed.lower_storable hlower)
        (Legacy.declarations_storable hchars)

end Program

/-! ## From one command to another -/

namespace Command

/-- A printed tree is loaded as it was, unless it is nested too deep. -/
theorem loadTree_pretty {read : Reading} {path : String} {tree : Node} (h : tree.Storable)
    (hread : read path = .ok (tree.toJson.pretty ++ "\n")) :
    loadTree read path =
      if tree.toJson.depth ≤ Json.depthLimit then .ok tree else .error (.treeInvalid path) := by
  have hsound := Node.isSound_toJson h
  have hparsed := Json.parse?_pretty hsound
  have hnode := Node.ofJson?_toJson h
  have hlimited : Json.parseSound? (tree.toJson.pretty ++ "\n") =
      if tree.toJson.depth ≤ Json.depthLimit then some tree.toJson else none := by
    simp [Json.parseSound?, hparsed, hsound]
  simp only [loadTree, hread, hlimited]
  by_cases hdepth : tree.toJson.depth ≤ Json.depthLimit
  · simp [hdepth, hnode]
  · simp [hdepth]

theorem eq_ok_of_mapError {α ε ε' : Type} {f : ε → ε'} {x : Except ε α} {a : α}
    (h : x.mapError f = .ok a) : x = .ok a := by
  cases x with
  | error e => cases h
  | ok b => exact congrArg Except.ok (Except.ok.inj h)

/-- What `parse` prints comes from a configuration, a source text and a program. -/
theorem perform_parse {read : Reading} {report : Parsed.Report} {input : String}
    {config? : Option String} {product : Product}
    (h : perform read report ⟨.parse, input, config?⟩ = .ok product) :
    ∃ config source program, loadConfig read config? = .ok config ∧
      readInput read input = .ok source ∧
      parseInput config.forms input source report = .ok program ∧
      product = .printed (program.tree.toJson.pretty ++ "\n") := by
  cases hconfig : loadConfig read config? with
  | error failure => simp [perform, hconfig, bind, Except.bind] at h
  | ok config =>
    cases hsource : readInput read input with
    | error failure => simp [perform, hconfig, hsource, bind, Except.bind] at h
    | ok source =>
      cases hprogram : parseInput config.forms input source report with
      | error failure => simp [perform, hconfig, hsource, hprogram, bind, Except.bind] at h
      | ok program =>
        simp only [perform, hconfig, hsource, hprogram, bind, Except.bind, Except.ok.injEq] at h
        exact ⟨config, source, program, rfl, rfl, hprogram, h.symm⟩

def transformTree (config : Config) (filename source : String)
    (output? exportsObject? loader? : Option String) (tree : Node) : Except Failure Product := do
  let output ← spliceInput {
    exportsObject := exportsObject?.getD config.options.exportsObject
    loader := loader?.getD config.options.loader } filename source tree
  match output? with
  | some path => .ok (.saved path output)
  | none => .ok (.printed output)

section Transform

variable {read : Reading} {config : Config} {input source : String} {config? : Option String}

/-- The tree comes from the parser. -/
theorem perform_plain (hconfig : loadConfig read config? = .ok config)
    (hsource : readInput read input = .ok source) (report : Parsed.Report)
    (output? exportsObject? loader? : Option String) :
    perform read report ⟨.transform output? none exportsObject? loader?, input, config?⟩ =
      ((parseInput config.forms input source report).map Program.tree).bind
        (transformTree config input source output? exportsObject? loader?) := by
  simp only [perform, hconfig, hsource, bind, Except.bind]
  rfl

/-- The tree comes from a file. -/
theorem perform_handed (hconfig : loadConfig read config? = .ok config)
    (hsource : readInput read input = .ok source) (report : Parsed.Report) (treePath : String)
    (output? exportsObject? loader? : Option String) :
    perform read report
        ⟨.transform output? (some treePath) exportsObject? loader?, input, config?⟩ =
      (loadTree read treePath).bind
        (transformTree config input source output? exportsObject? loader?) := by
  simp only [perform, hconfig, hsource, bind, Except.bind]
  rfl

end Transform

/-- A `parse` that succeeds leaves what it produced. -/
theorem product_of_parse {usage : List String → Notice} {files : Files} {report : Parsed.Report}
    {words : List String} {input : String} {config? : Option String}
    (hwords : Request.ofWords? none false words = some ⟨.parse, input, config?⟩)
    (hcode : (run usage files report words).code = 0) :
    ∃ product, perform files.read report ⟨.parse, input, config?⟩ = .ok product ∧
      run usage files report words = .ofProduct files product := by
  cases hperform : perform files.read report ⟨.parse, input, config?⟩ with
  | error failure =>
    simp [run, hwords, hperform, Outcome.ofFailure] at hcode
  | ok product => exact ⟨product, rfl, by simp only [run, hwords, hperform]⟩

/-- A transform that is given the tree which `parse` printed for its input ends as the one that
parses the input itself: with the same code, the same output, the same files and the same lines of
an error. Only a tree nested more than 127 deep is refused, and then nothing is written. In between
the directory may change, but neither the input nor the configuration; what the parser would report
on the input now is not asked. As for any file, the size of the input is a number of 64 bits. -/
theorem tree_handed_over (usage : List String → Notice) (before files : Files)
    (report unasked : Parsed.Report) (input treePath text : String)
    (config? output? exportsObject? loader? : Option String)
    (parseWords plainWords treeWords : List String)
    (hparse : Request.ofWords? none false parseWords = some ⟨.parse, input, config?⟩)
    (hplain : Request.ofWords? none false plainWords =
      some ⟨.transform output? none exportsObject? loader?, input, config?⟩)
    (htree : Request.ofWords? none false treeWords =
      some ⟨.transform output? (some treePath) exportsObject? loader?, input, config?⟩)
    (hcode : (run usage before report parseWords).code = 0)
    (hprinted : (run usage before report parseWords).stdout = text)
    (hinput : files.read input = before.read input)
    (hconfig : ∀ path ∈ config?, files.read path = before.read path)
    (hsize : ∀ source, files.read input = .ok source → source.utf8ByteSize < UInt64.size)
    (hstored : files.read treePath = .ok text) :
    ∃ value : Json, text = value.pretty ++ "\n" ∧ Json.parse? text = some value ∧
      (value.depth ≤ 127 → run usage files unasked treeWords = run usage files report plainWords) ∧
      (127 < value.depth → run usage files unasked treeWords =
        { code := 1, stdout := "", files
          stderr := (Text.lines ("Error: invalid tree " ++ treePath)).take 1 }) := by
  obtain ⟨product, hproduct, hrun⟩ := product_of_parse hparse hcode
  obtain ⟨config, source, program, hloaded, hsource, hprogram, rfl⟩ := perform_parse hproduct
  have htext : text = program.tree.toJson.pretty ++ "\n" := by
    rw [← hprinted, hrun]
    rfl
  -- the second command reads the same configuration and the same source
  have hloaded' : loadConfig files.read config? = .ok config := by
    rw [← hloaded]
    cases config? with
    | none => rfl
    | some path => simp only [loadConfig, hconfig path rfl]
  have hsource' : readInput files.read input = .ok source := by
    rw [← hsource, readInput, hinput, readInput]
  have hstorable : program.tree.Storable :=
    Program.ofReport_storable (hsize source (eq_ok_of_mapError hsource'))
      (eq_ok_of_mapError hprogram)
  rw [htext] at hstored
  have hload := loadTree_pretty hstorable hstored
  have hdirect := perform_plain hloaded' hsource' report output? exportsObject? loader?
  have hhanded := perform_handed hloaded' hsource' unasked treePath output? exportsObject? loader?
  rw [hprogram] at hdirect
  rw [hload, Json.depthLimit] at hhanded
  refine ⟨program.tree.toJson, htext, ?_, fun hshallow => ?_, fun hdeep => ?_⟩
  · rw [htext]
    exact Json.parse?_pretty (Node.isSound_toJson hstorable)
  · rw [if_pos hshallow] at hhanded
    simp only [run, htree, hplain, hdirect, hhanded, Except.map]
  · rw [if_neg (Nat.not_le.mpr hdeep)] at hhanded
    simp only [run, htree, hhanded]
    rfl

/-- A tree is handed over under other words, and one with seventy arrows inside each other is
refused. -/
theorem tree_handed_over_or_refused :
    let source := "function f() \x7b module m from \"é\"; \x7d"
    let usage (_ : List String) : Notice := { code := 2 }
    let before : Files := ⟨[("a", .ofText source)]⟩
    let stored (report : Parsed.Report) : Files :=
      ⟨[("a", .ofText source), ("t", .ofText (run usage before report ["parse", "a"]).stdout)]⟩
    let shallow := Parsed.Report.script 1 [.statement (.function ⟨1, 37⟩ [])]
    let deep := Parsed.Report.script 1
      [.statement (Nat.repeat (Parsed.Part.arrow ⟨1, 37⟩) 70 (.other "Identifier" ⟨1, 2⟩ []))]
    let words := ["transform", "--tree=t", "a", "-ob", "--loader", "load"]
    run usage (stored shallow) .fatal words =
        run usage (stored shallow) shallow ["transform", "a", "--loader=load", "-o", "b"] ∧
      run usage (stored deep) .fatal words =
        { code := 1, stderr := (Text.lines "Error: invalid tree t").take 1,
          files := stored deep } := by
  intro source usage before stored shallow deep words
  have hwords : Request.ofWords? none false ["parse", "a"] = some ⟨.parse, "a", none⟩ := rfl
  have hinput : PlainName "a" := ⟨by decide, by decide, by decide, by decide, by decide⟩
  have htree : PlainName "t" := ⟨by decide, by decide, by decide, by decide, by decide⟩
  have hread : before.read "a" = .ok source := Files.read_plain hinput (.ofText source) rfl
  have hline : "Error: invalid tree " ++ "t" = "Error: invalid tree t" := by decide
  have hboth : ∀ report program, Program.ofReport {} source report = .ok program →
      (program.tree.toJson.depth ≤ 127 → run usage (stored report) .fatal words =
        run usage (stored report) report ["transform", "a", "--loader=load", "-o", "b"]) ∧
      (127 < program.tree.toJson.depth → run usage (stored report) .fatal words =
        { code := 1, stderr := (Text.lines "Error: invalid tree t").take 1,
          files := stored report }) := by
    intro report program hprogram
    have hsource : (stored report).read "a" = .ok source :=
      Files.read_plain hinput (.ofText source) rfl
    have hstored : (stored report).read "t" = .ok (run usage before report ["parse", "a"]).stdout :=
      Files.read_plain htree (.ofText _) rfl
    have hparse : run usage before report ["parse", "a"] =
        { code := 0, stdout := program.tree.toJson.pretty ++ "\n", files := before } := by
      simp only [run, hwords, perform, loadConfig, readInput, hread, parseInput, bind, Except.bind,
        Except.mapError, hprogram]
      rfl
    have hsize : ∀ found, (stored report).read "a" = .ok found →
        found.utf8ByteSize < UInt64.size := by
      intro found hfound
      obtain rfl := Except.ok.inj (hsource.symm.trans hfound)
      decide
    have hsound := Node.isSound_toJson
      (Program.ofReport_storable (hsize source hsource) hprogram)
    obtain ⟨value, -, hvalue, hagree, hrefuse⟩ := tree_handed_over usage before (stored report)
      report .fatal "a" "t" (run usage before report ["parse", "a"]).stdout none (some "b") none
      (some "load") ["parse", "a"] ["transform", "a", "--loader=load", "-o", "b"] words hwords rfl
      rfl (by rw [hparse]) rfl (hsource.trans hread.symm) (by simp) hsize hstored
    rw [hline] at hrefuse
    rw [hparse, Json.parse?_pretty hsound] at hvalue
    obtain rfl := Option.some.inj hvalue
    exact ⟨hagree, hrefuse⟩
  exact ⟨(hboth shallow _ rfl).1 (by decide +kernel), (hboth deep _ rfl).2 (by decide +kernel)⟩

end Command

end ModSplice
