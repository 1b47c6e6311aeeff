import ModSplice.Lowering
import ModSplice.Parsed.Decoding
import ModSplice.Proofs.Nesting

/-!
# Scopes in the order of the text

The functions and classes of a script become the children of the elements around them, in the order
in which the parser's fields are visited. For some kinds of parts this is not the order of the text:
the condition of a `do` loop is visited before the body. The children of all nodes stand in the
order of the text if and only if no visit in the script goes backwards.
-/
namespace ModSplice

namespace Node

/-- Trees in the order of the text, with all that is below them. -/
def AllInOrder (forest : List Node) : Prop :=
  InOrder forest ∧ ∀ node ∈ forest.flatMap nodes, InOrder node.children

theorem allInOrder_iff (forest : List Node) :
    AllInOrder forest ↔ InOrder forest ∧ ∀ node ∈ forest, AllInOrder node.children := by
  simp only [AllInOrder, List.forall_mem_flatMap]
  refine and_congr_right fun _ => forall₂_congr fun node _ => ?_
  rw [nodes_eq, List.forall_mem_cons, List.forall_mem_flatMap]

theorem allInOrder_singleton (node : Node) : AllInOrder [node] ↔ AllInOrder node.children := by
  rw [allInOrder_iff, InOrder]
  simp

theorem allInOrder_flatMap {α : Type} (xs : List α) (f : α → List Node) :
    AllInOrder (xs.flatMap f) ↔ (∀ x ∈ xs, AllInOrder (f x)) ∧
      xs.Pairwise fun x y => ∀ a ∈ f x, ∀ b ∈ f y, a.span.stop ≤ b.span.start := by
  rw [allInOrder_iff, InOrder, List.pairwise_flatMap, List.forall_mem_flatMap]
  simp only [allInOrder_iff (f _), InOrder]
  constructor
  · rintro ⟨⟨horder, hpairs⟩, hbelow⟩
    exact ⟨fun x hx => ⟨horder x hx, hbelow x hx⟩, hpairs⟩
  · rintro ⟨hall, hpairs⟩
    exact ⟨⟨fun x hx => (hall x hx).1, hpairs⟩, fun x hx => (hall x hx).2⟩

end Node

namespace Parsed.Part

open Node

/-! ## Parts as they stand in the text -/

def inside : Part → List Part
  | .function _ body => body
  | .arrow _ value => [value]
  | .classDef _ members => members
  | .other _ _ fields => fields.flatMap (·.2)

inductive Throughout (p : Part → Prop) : Part → Prop
  | intro {part : Part} : p part → (∀ inner ∈ part.inside, Throughout p inner) → Throughout p part

theorem throughout_iff {p : Part → Prop} {part : Part} :
    Throughout p part ↔ p part ∧ ∀ inner ∈ part.inside, Throughout p inner := by
  constructor
  · rintro ⟨hpart, hinside⟩
    exact ⟨hpart, hinside⟩
  · rintro ⟨hpart, hinside⟩
    exact ⟨hpart, hinside⟩

def span (base : UInt32) (part : Part) : Span :=
  part.range.toSpan base

/-- The parts inside a part are not empty, are inside it in the text, and have nothing in common. -/
def Laid (base : UInt32) (part : Part) : Prop :=
  (∀ inner ∈ part.inside, (inner.span base).start < (inner.span base).stop ∧
      (part.span base).contains (inner.span base) = true) ∧
    part.inside.Pairwise fun p q => (p.span base).Apart (q.span base)
  deriving Decidable

def Before (base : UInt32) (p q : Part) : Prop :=
  (p.span base).stop ≤ (q.span base).start
  deriving Decidable

/-- One part stands before another if there are scopes in both. -/
def ScopesBefore (base : UInt32) (p q : Part) : Prop :=
  p.scopes base ≠ [] → q.scopes base ≠ [] → Before base p q
  deriving Decidable

/-- The visit of a part never goes backwards in the text: statements stand in order, and so do all
other parts with scopes, within a field and from field to field. -/
def LeftToRight (base : UInt32) : Part → Prop
  | .function _ body => body.Pairwise (Before base)
  | .arrow _ _ => True
  | .classDef _ members => members.Pairwise (ScopesBefore base)
  | .other _ _ fields => (fields.flatMap (·.2)).Pairwise (ScopesBefore base)

theorem statements_eq (base : UInt32) (parts : List Part) :
    statements base parts = parts.map (toElement base .statement) := by
  induction parts with
  | nil => rfl
  | cons part rest ih => rw [statements, ih, List.map_cons, toElement]

theorem allScopes_eq (base : UInt32) (parts : List Part) :
    allScopes base parts = parts.flatMap (scopes base) := by
  induction parts with
  | nil => rfl
  | cons part rest ih => rw [allScopes, ih, List.flatMap_cons]

theorem fieldScopes_eq (base : UInt32) (fields : List (String × List Part)) :
    fieldScopes base fields = (fields.flatMap (·.2)).flatMap (scopes base) := by
  induction fields with
  | nil => rfl
  | cons f rest ih => rw [fieldScopes, ih, allScopes_eq, List.flatMap_cons, List.flatMap_append]

/-- The scopes of a part are inside it in the text. -/
theorem scopes_within {base : UInt32} {part : Part} (h : Throughout (Laid base) part)
    (hsome : (part.span base).start < (part.span base).stop) :
    ∀ node ∈ part.scopes base,
      (part.span base).contains node.span = true ∧ node.span.start < node.span.stop := by
  induction h with
  | @intro part hlaid _ ih =>
    intro node hnode
    cases part with
    | function | arrow | classDef =>
      obtain rfl := List.mem_singleton.mp hnode
      exact ⟨Span.contains_self _, hsome⟩
    | other type range fields =>
      rw [scopes, fieldScopes_eq] at hnode
      obtain ⟨inner, hinner, hnode⟩ := List.mem_flatMap.mp hnode
      obtain ⟨hinnerSome, hcontains⟩ := hlaid.1 inner hinner
      obtain ⟨hwithin, hnodeSome⟩ := ih inner hinner hinnerSome node hnode
      exact ⟨Span.contains_trans hcontains hwithin, hnodeSome⟩

/-- What is asked of two parts to compare the places of their scopes. -/
structure Comparable (base : UInt32) (p q : Part) : Prop where
  left : Throughout (Laid base) p ∧ (p.span base).start < (p.span base).stop
  right : Throughout (Laid base) q ∧ (q.span base).start < (q.span base).stop
  apart : (p.span base).Apart (q.span base)

/-- The scopes of a part stand before those of another if the part does. -/
theorem Comparable.before_iff {base : UInt32} {p q : Part} (h : Comparable base p q) :
    (∀ a ∈ p.scopes base, ∀ b ∈ q.scopes base, a.span.stop ≤ b.span.start) ↔
      ScopesBefore base p q := by
  have hp := scopes_within h.left.1 h.left.2
  have hq := scopes_within h.right.1 h.right.2
  simp only [Span.contains_iff] at hp hq
  constructor
  · intro hall hsome hsome'
    obtain ⟨a, ha⟩ := List.exists_mem_of_ne_nil _ hsome
    obtain ⟨b, hb⟩ := List.exists_mem_of_ne_nil _ hsome'
    have hab := hall a ha b hb
    have hwithin := hp a ha
    have hwithin' := hq b hb
    refine h.apart.resolve_right fun hback => ?_
    omega
  · intro hbefore a ha b hb
    have hpq := hbefore (List.ne_nil_of_mem ha) (List.ne_nil_of_mem hb)
    have hwithin := hp a ha
    have hwithin' := hq b hb
    rw [Before] at hpq
    omega

theorem flatMap_scopes_allInOrder_iff {base : UInt32} {parts : List Part}
    (h : parts.Pairwise (Comparable base)) :
    AllInOrder (parts.flatMap (scopes base)) ↔
      (∀ p ∈ parts, AllInOrder (p.scopes base)) ∧ parts.Pairwise (ScopesBefore base) := by
  rw [allInOrder_flatMap]
  refine and_congr_right fun _ => ⟨fun hall => ?_, fun hall => ?_⟩
  · exact (h.and hall).imp fun ⟨hcompare, hbefore⟩ => hcompare.before_iff.mp hbefore
  · exact (h.and hall).imp fun ⟨hcompare, hbefore⟩ => hcompare.before_iff.mpr hbefore

theorem elements_allInOrder_iff (base : UInt32) (kind : ElementKind) (parts : List Part) :
    AllInOrder (parts.map (toElement base kind)) ↔
      (∀ p ∈ parts, AllInOrder (p.scopes base)) ∧ parts.Pairwise (Before base) := by
  rw [allInOrder_iff, List.forall_mem_map, InOrder, List.pairwise_map, and_comm]
  rfl

theorem inside_comparable {base : UInt32} {part : Part} (h : Throughout (Laid base) part) :
    part.inside.Pairwise (Comparable base) := by
  obtain ⟨⟨hwithin, hapart⟩, hinside⟩ := throughout_iff.mp h
  exact hapart.imp_of_mem fun {p q} hp hq hpq =>
    ⟨⟨hinside p hp, (hwithin p hp).1⟩, ⟨hinside q hq, (hwithin q hq).1⟩, hpq⟩

/-- The scopes of a part stand in the order of the text, with all that is below them, if and only if
no visit inside goes backwards. -/
theorem scopes_allInOrder_iff {base : UInt32} {part : Part} (h : Throughout (Laid base) part) :
    AllInOrder (part.scopes base) ↔ Throughout (LeftToRight base) part := by
  induction h with
  | @intro part hlaid hinside ih =>
    have hlaid' : Throughout (Laid base) part := .intro hlaid hinside
    -- one level at a time: the parts inside are settled by induction
    have hlevel : AllInOrder (part.scopes base) ↔
        (∀ p ∈ part.inside, AllInOrder (p.scopes base)) ∧ LeftToRight base part := by
      cases part with
      | function range body =>
        rw [scopes, allInOrder_singleton, children, statements_eq]
        exact elements_allInOrder_iff base .statement body
      | arrow range value =>
        rw [scopes, allInOrder_singleton]
        simp [children, inside, LeftToRight]
      | classDef range members =>
        rw [scopes, allInOrder_singleton, children, allScopes_eq]
        exact flatMap_scopes_allInOrder_iff (inside_comparable hlaid')
      | other type range fields =>
        rw [scopes, fieldScopes_eq]
        exact flatMap_scopes_allInOrder_iff (inside_comparable hlaid')
    rw [hlevel, throughout_iff, and_comm]
    exact and_congr_right fun _ => forall₂_congr ih

end Parsed.Part

namespace Parsed

open Node

/-! ## Items of a module -/

theorem mapM_forall₂ {α β ε : Type} {f : α → Except ε β} {xs : List α} {ys : List β}
    (h : xs.mapM f = .ok ys) : List.Forall₂ (fun x y => f x = .ok y) xs ys := by
  induction xs generalizing ys with
  | nil =>
    obtain rfl : [] = ys := Except.ok.inj h
    exact .nil
  | cons x xs ih =>
    rw [List.mapM_cons] at h
    cases hx : f x with
    | error e =>
      rw [hx] at h
      cases h
    | ok y =>
      cases hxs : xs.mapM f with
      | error e =>
        rw [hx, hxs] at h
        cases h
      | ok rest =>
        rw [hx, hxs] at h
        obtain rfl : y :: rest = ys := Except.ok.inj h
        exact .cons hx (ih hxs)

/-- The values of exported variables become expressions. -/
theorem declarator_values {base : UInt32} {list : List Variable} {declarators : List Declarator}
    (h : list.mapM (Variable.toDeclarator base) = .ok declarators) :
    declarators.filterMap Declarator.value? =
      (list.filterMap Variable.value?).map (Part.toElement base .expression) := by
  have hall := mapM_forall₂ h
  clear h
  induction hall with
  | nil => rfl
  | @cons v d list declarators hv _ ih =>
    obtain ⟨range, name?, value?⟩ := v
    cases name? with
    | none => cases hv
    | some name =>
      cases value? with
      | none =>
        obtain rfl := Except.ok.inj hv
        exact ih
      | some value =>
        obtain rfl := Except.ok.inj hv
        exact congrArg (value.toElement base .expression :: ·) ih

namespace Item

def range : Item → Range
  | .statement part => part.range
  | .importing range .. => range
  | .exportDeclaration range _ => range
  | .exportNames range .. => range
  | .exportDefault range _ => range
  | .exportValue range _ => range
  | .exportAll range .. => range
  | .typeScript range => range

/-- The parts of an item that come into the tree. -/
def parts : Item → List Part
  | .statement part => [part]
  | .exportDeclaration _ (.bindings _ _ list) => list.filterMap Variable.value?
  | .exportDeclaration _ (.function _ _ range body) => [.function range body]
  | .exportDeclaration _ (.classDef _ _ range members _) => [.classDef range members]
  | .exportDefault _ (.function _ range body) => [.function range body]
  | .exportDefault _ (.classDef _ range members _) => [.classDef range members]
  | .exportValue _ value => [value]
  | _ => []

/-- The node that an item becomes: it stands where the item does, and what is below it is told by
the parts of the item. -/
structure Becomes (base : UInt32) (item : Item) (node : Node) : Prop where
  span_eq : node.span = item.range.toSpan base
  below : AllInOrder node.children ↔
    (∀ p ∈ item.parts, AllInOrder (p.scopes base)) ∧ item.parts.Pairwise (Part.Before base)

variable {base : UInt32} {text : String} {item : Item} {node : Node}

theorem Becomes.of_leaf (hspan : node.span = item.range.toSpan base) (hleaf : node.children = [])
    (hparts : item.parts = []) : Becomes base item node :=
  ⟨hspan, by simp [hleaf, hparts, AllInOrder, InOrder]⟩

theorem Becomes.of_single {part : Part} (hspan : node.span = item.range.toSpan base)
    (hbelow : AllInOrder node.children ↔ AllInOrder (part.scopes base))
    (hparts : item.parts = [part]) : Becomes base item node :=
  ⟨hspan, by simp [hbelow, hparts]⟩

theorem functionNode_iff (range : Range) (body : List Part) :
    AllInOrder [functionNode base range body] ↔
      AllInOrder ((Part.function range body).scopes base) :=
  Iff.rfl

theorem classNode_iff (range : Range) (members : List Part) (decorators : List UInt32)
    (exportStart : UInt32) :
    AllInOrder [classNode base range members decorators exportStart] ↔
      AllInOrder ((Part.classDef range members).scopes base) := by
  rw [Part.scopes, allInOrder_singleton, allInOrder_singleton]
  rfl

theorem importNode_becomes {range : Range} {typeOnly : Bool} {names : List ImportName}
    {source : Range} (h : importNode base text range names source = .ok node) :
    Becomes base (.importing range typeOnly names source) node := by
  simp only [importNode] at h
  split at h
  · obtain rfl := Except.ok.inj h
    exact .of_leaf rfl rfl rfl
  · cases hs : names.mapM ImportName.toSpecifier with
    | error e =>
      rw [hs] at h
      cases h
    | ok specifiers =>
      rw [hs] at h
      obtain rfl := Except.ok.inj h
      exact .of_leaf rfl rfl rfl

theorem declaration_becomes {range : Range} {declaration : Declaration}
    (h : declaration.toNode base range = .ok node) :
    Becomes base (.exportDeclaration range declaration) node := by
  cases declaration with
  | bindings kind ambient list =>
    cases ambient with
    | true => cases h
    | false =>
      cases hlist : list.mapM (Variable.toDeclarator base) with
      | error e =>
        simp only [Declaration.toNode, hlist] at h
        cases h
      | ok declarators =>
        simp only [Declaration.toNode, hlist] at h
        obtain rfl := Except.ok.inj h
        refine ⟨rfl, ?_⟩
        rw [children, declarator_values hlist]
        exact Part.elements_allInOrder_iff base .expression _
  | function name ambient inner body =>
    cases ambient with
    | true => cases h
    | false =>
      obtain rfl := Except.ok.inj h
      exact .of_single rfl (functionNode_iff inner body) rfl
  | classDef name ambient inner members decorators =>
    cases ambient with
    | true => cases h
    | false =>
      obtain rfl := Except.ok.inj h
      exact .of_single rfl (classNode_iff inner members decorators range.lo) rfl
  | _ => cases h

theorem defaultDeclaration_becomes {range : Range} {declaration : DefaultDeclaration}
    (h : declaration.toNode base range = .ok node) :
    Becomes base (.exportDefault range declaration) node := by
  cases declaration with
  | function name? inner body =>
    obtain rfl := Except.ok.inj h
    cases name? with
    | none | some => exact .of_single rfl (functionNode_iff inner body) rfl
  | classDef name? inner members decorators =>
    obtain rfl := Except.ok.inj h
    cases name? with
    | none | some => exact .of_single rfl (classNode_iff inner members decorators range.lo) rfl
  | interface => cases h

theorem toNode_becomes (h : item.toNode base text = .ok node) : Becomes base item node := by
  cases item with
  | statement part =>
    obtain rfl := Except.ok.inj h
    exact .of_single rfl Iff.rfl rfl
  | importing range typeOnly names source =>
    cases typeOnly with
    | true => cases h
    | false => exact importNode_becomes h
  | exportDeclaration range declaration => exact declaration_becomes h
  | exportNames range typeOnly names source? =>
    cases typeOnly with
    | true => cases h
    | false =>
      cases hs : names.mapM ExportName.toSpecifier with
      | error e =>
        simp only [toNode, hs] at h
        cases h
      | ok specifiers =>
        simp only [toNode, hs] at h
        cases source? with
        | none | some =>
          obtain rfl := Except.ok.inj h
          exact .of_leaf rfl rfl rfl
  | exportDefault range declaration => exact defaultDeclaration_becomes h
  | exportValue range value =>
    obtain rfl := Except.ok.inj h
    exact .of_single rfl (allInOrder_singleton _) rfl
  | exportAll range typeOnly source =>
    cases typeOnly with
    | true => cases h
    | false =>
      obtain rfl := Except.ok.inj h
      exact .of_leaf rfl rfl rfl
  | typeScript range => cases h

theorem becomes_spans {items : List Item} {nodes : List Node}
    (h : List.Forall₂ (Becomes base) items nodes) :
    nodes.map Node.span = items.map fun item => item.range.toSpan base := by
  induction h with
  | nil => rfl
  | cons hfirst _ ih => rw [List.map_cons, List.map_cons, hfirst.span_eq, ih]

theorem becomes_below {items : List Item} {nodes : List Node}
    (h : List.Forall₂ (Becomes base) items nodes)
    (hlaid : ∀ item ∈ items, ∀ part ∈ item.parts, part.Throughout (Part.Laid base)) :
    (∀ node ∈ nodes, AllInOrder node.children) ↔
      ∀ item ∈ items, (∀ part ∈ item.parts, part.Throughout (Part.LeftToRight base)) ∧
        item.parts.Pairwise (Part.Before base) := by
  induction h with
  | nil => simp
  | cons hfirst _ ih =>
    obtain ⟨hlaidFirst, hlaidRest⟩ := List.forall_mem_cons.mp hlaid
    rw [List.forall_mem_cons, List.forall_mem_cons, ih hlaidRest, hfirst.below]
    refine and_congr_left fun _ => and_congr_left fun _ => forall₂_congr fun part hpart => ?_
    exact Part.scopes_allInOrder_iff (hlaidFirst part hpart)

end Item

/-- The children of every node that a module becomes stand in the order of the text if and only if
no visit in the module goes backwards. This is asked of items in the order of the text whose parts
are laid out in them one inside or beside the other. -/
theorem lower_inOrder_iff (base : UInt32) (text : String) (items : List Item) (nodes : List Node)
    (hitems : items.Pairwise fun a b =>
      (a.range.toSpan base).stop ≤ (b.range.toSpan base).start)
    (hlaid : ∀ item ∈ items, ∀ part ∈ item.parts, part.Throughout (Part.Laid base))
    (hlower : lower base text items = .ok nodes) :
    (∀ node ∈ (element .program ⟨0, text.utf8ByteSize⟩ nodes).nodes, InOrder node.children) ↔
      ∀ item ∈ items, (∀ part ∈ item.parts, part.Throughout (Part.LeftToRight base)) ∧
        item.parts.Pairwise (Part.Before base) := by
  have hbecomes : List.Forall₂ (Item.Becomes base) items nodes :=
    (mapM_forall₂ hlower).imp fun _ _ => Item.toNode_becomes
  have horder : InOrder nodes := by
    have hspans : (nodes.map Node.span).Pairwise fun s t => s.stop ≤ t.start := by
      rw [Item.becomes_spans hbecomes]
      exact List.pairwise_map.mpr hitems
    exact List.pairwise_map.mp hspans
  calc
    (∀ node ∈ (element .program ⟨0, text.utf8ByteSize⟩ nodes).nodes, InOrder node.children)
      ↔ AllInOrder nodes := by
        rw [nodes_eq, List.forall_mem_cons]
        rfl
    _ ↔ ∀ node ∈ nodes, AllInOrder node.children := by
        rw [allInOrder_iff, and_iff_right horder]
    _ ↔ _ := Item.becomes_below hbecomes hlaid

/-- A loop with a function in its condition and one in its body, in the order of the visit. -/
def loop (type : String) (range test body : Range) : Part :=
  .other type range [("test", [.function test []]), ("body", [.function body []])]

theorem throughout_loop {p : Part → Prop} {type : String} {range test body : Range}
    (hloop : p (loop type range test body)) (htest : p (.function test []))
    (hbody : p (.function body [])) : (loop type range test body).Throughout p := by
  refine .intro hloop ?_
  intro inner hinner
  rcases List.mem_pair.mp hinner with rfl | rfl
  · exact .intro htest (by simp [Part.inside])
  · exact .intro hbody (by simp [Part.inside])

/-- In a `while` loop the condition comes first, in the text and in the visit. -/
theorem lower_inOrder_while :
    let text := "while (function () \x7b\x7d()) (function () \x7b\x7d());"
    let item := Item.statement (loop "WhileStatement" ⟨1, 45⟩ ⟨8, 22⟩ ⟨27, 41⟩)
    let node := element .statement ⟨0, 44⟩
      [element .function ⟨7, 21⟩ [], element .function ⟨26, 40⟩ []]
    (∀ part ∈ item.parts, part.Throughout (Part.Laid 1)) ∧ lower 1 text [item] = .ok [node] ∧
      ∀ inner ∈ (element .program ⟨0, text.utf8ByteSize⟩ [node]).nodes, InOrder inner.children := by
  intro text item node
  have hlaid : ∀ part ∈ item.parts, part.Throughout (Part.Laid 1) := by
    intro part hpart
    obtain rfl := List.mem_singleton.mp hpart
    exact throughout_loop (by decide +kernel) (by decide +kernel) (by decide +kernel)
  have hlower : lower 1 text [item] = .ok [node] := rfl
  refine ⟨hlaid, hlower, (lower_inOrder_iff 1 text [item] [node] (List.pairwise_singleton _ _)
    (by simpa using hlaid) hlower).mpr ?_⟩
  intro other hother
  obtain rfl := List.mem_singleton.mp hother
  refine ⟨fun part hpart => ?_, List.pairwise_singleton _ _⟩
  obtain rfl := List.mem_singleton.mp hpart
  refine throughout_loop ?_ .nil .nil
  change List.Pairwise _ _
  decide +kernel

def functionReport (start stop : Nat) : Json :=
  .obj [("body", .obj [("stmts", .arr []), ("type", .str "BlockStatement")]), ("params", .arr []),
    ("span", .obj [("end", .nat stop), ("start", .nat start)]), ("type", .str "FunctionExpression")]

/-- In a `do` loop the condition comes last in the text, but it is declared and visited first. -/
theorem lower_out_of_order_do :
    let text := "do (function () \x7b\x7d); while (function () \x7b\x7d);"
    let report := Json.obj [("body", functionReport 5 19),
      ("span", .obj [("end", .nat 45), ("start", .nat 1)]), ("test", functionReport 29 43),
      ("type", .str "DoWhileStatement")]
    ∃ item, Item.ofJson? report = some item ∧
      (∀ part ∈ item.parts, part.Throughout (Part.Laid 1)) ∧
      ∃ node, lower 1 text [item] = .ok [node] ∧ ¬ InOrder node.children := by
  intro text report
  refine ⟨.statement (loop "DoWhileStatement" ⟨1, 45⟩ ⟨29, 43⟩ ⟨5, 19⟩), rfl, fun part hpart => ?_,
    element .statement ⟨0, 44⟩ [element .function ⟨28, 42⟩ [], element .function ⟨4, 18⟩ []], rfl,
    by decide⟩
  obtain rfl := List.mem_singleton.mp hpart
  exact throughout_loop (by decide +kernel) (by decide +kernel) (by decide +kernel)

end Parsed
end ModSplice
