import ModSplice.Proofs.Attachment
import ModSplice.Proofs.JsonText
import ModSplice.Tree.Encoding

/-!
# Trees read back from JSON

Reading a node needs only that the nodes inside it can be read, so every shape is dealt with once,
for whatever reads the nodes inside. The bound on the nesting of nodes is then used up no faster
than the nesting of the JSON value, and the numbers of 64 bits are the only numbers that are read
at all.
-/
namespace ModSplice

namespace Json

theorem depth_le_of_item {items : List Json} {item : Json} (h : item ∈ items) :
    item.depth ≤ depthOfItems items := by
  induction items with
  | nil => cases h
  | cons first rest ih =>
    rw [depthOfItems]
    rcases List.mem_cons.mp h with rfl | h
    · exact Nat.le_max_left _ _
    · exact Nat.le_trans (ih h) (Nat.le_max_right _ _)

theorem depth_lt_arr {items : List Json} {item : Json} (h : item ∈ items) :
    item.depth < (arr items).depth := by
  rw [depth]
  exact Nat.lt_succ_of_le (depth_le_of_item h)

theorem depth_le_of_field {fields : List (String × Json)} {key : String} {value : Json}
    (h : (key, value) ∈ fields) : value.depth ≤ depthOfFields fields := by
  induction fields with
  | nil => cases h
  | cons first rest ih =>
    rw [depthOfFields]
    rcases List.mem_cons.mp h with rfl | h
    · exact Nat.le_max_left _ _
    · exact Nat.le_trans (ih h) (Nat.le_max_right _ _)

theorem depth_lt_obj {fields : List (String × Json)} (key : String) {value : Json}
    (h : (key, value) ∈ fields) : value.depth < (obj fields).depth := by
  rw [depth]
  exact Nat.lt_succ_of_le (depth_le_of_field h)

end Json

theorem exists_of_mem_mapM {α β : Type} {read : α → Option β} {xs : List α} {ys : List β}
    (h : xs.mapM read = some ys) {y : β} (hy : y ∈ ys) : ∃ x ∈ xs, read x = some y := by
  induction xs generalizing ys with
  | nil =>
    obtain rfl := Option.some.inj h
    cases hy
  | cons x xs ih =>
    simp only [List.mapM_cons, Option.bind_eq_bind, Option.bind_eq_some_iff, Option.pure_def,
      Option.some.injEq] at h
    obtain ⟨first, hfirst, rest, hrest, rfl⟩ := h
    rcases List.mem_cons.mp hy with rfl | hy
    · exact ⟨x, by simp, hfirst⟩
    · obtain ⟨x', hx', hread⟩ := ih hrest hy
      exact ⟨x', by simp [hx'], hread⟩

namespace Span

def isStorable (s : Span) : Bool :=
  s.start < UInt64.size && s.stop < UInt64.size

theorem ofJson?_toJson {s : Span} (h : s.isStorable = true) : ofJson? s.toJson = some s := by
  simp only [isStorable, Bool.and_eq_true, decide_eq_true_eq] at h
  have hrecord : s.toJson.record? ["start", "end"] =
      some [some (.nat s.start), some (.nat s.stop)] := rfl
  simp [ofJson?, hrecord, Json.toOffset?, h.1, h.2]

theorem isStorable_of_ofJson? {j : Json} {s : Span} (h : ofJson? j = some s) :
    s.isStorable = true := by
  have hoffset : ∀ (j : Json) (n : Nat), j.toOffset? = some n → n < UInt64.size := by
    intro j n hn
    cases j with
    | nat m =>
      simp only [Json.toOffset?] at hn
      split at hn
      · obtain rfl := Option.some.inj hn
        assumption
      · cases hn
    | null | bool | decimal | str | malformed | arr | obj => cases hn
  simp only [ofJson?, Option.bind_eq_bind, Option.bind_eq_some_iff] at h
  obtain ⟨values, -, h⟩ := h
  split at h
  · simp only [Option.bind_eq_some_iff, Option.some.injEq] at h
    obtain ⟨start, hstart, stop, hstop, rfl⟩ := h
    simp [isStorable, hoffset _ _ hstart, hoffset _ _ hstop]
  · cases h

end Span

namespace Source

theorem ofJson?_toJson {s : Source} (h : s.span.isStorable = true) :
    ofJson? s.toJson = some s := by
  have hrecord : s.toJson.record? ["span", "raw"] =
      some [some s.span.toJson, some (.str s.raw)] := rfl
  simp [ofJson?, hrecord, Span.ofJson?_toJson h, Json.toString?]

theorem isStorable_of_ofJson? {j : Json} {s : Source} (h : ofJson? j = some s) :
    s.span.isStorable = true := by
  simp only [ofJson?, Option.bind_eq_bind, Option.bind_eq_some_iff] at h
  obtain ⟨values, -, h⟩ := h
  split at h
  · simp only [Option.bind_eq_some_iff, Option.some.injEq] at h
    obtain ⟨span, hspan, raw, -, rfl⟩ := h
    exact Span.isStorable_of_ofJson? hspan
  · cases h

end Source

namespace Specifier

theorem ofJson?_toJson (s : Specifier) : ofJson? s.toJson = some s := by
  obtain ⟨name, _ | other⟩ := s
  · rfl
  · rfl

theorem mapM_ofJson? (specifiers : List Specifier) :
    (specifiers.map toJson).mapM ofJson? = some specifiers :=
  Json.mapM_map_eq_some fun s _ => ofJson?_toJson s

end Specifier

namespace ImportDecl

def body (d : ImportDecl) : Json :=
  .obj [("span", d.span.toJson), ("kind", .str d.kind.toText),
    ("specifiers", .arr (d.specifiers.map Specifier.toJson)), ("source", d.source.toJson)]

theorem ofRecord?_body {d : ImportDecl} (hspan : d.span.isStorable = true)
    (hsource : d.source.span.isStorable = true) : ofRecord? d.body = some d := by
  have hkind : ImportKind.ofText d.kind.toText = d.kind := by cases d.kind <;> rfl
  have hrecord : d.body.record? ["span", "kind", "specifiers", "source"] =
      some [some d.span.toJson, some (.str d.kind.toText),
        some (.arr (d.specifiers.map Specifier.toJson)), some d.source.toJson] := rfl
  simp [ofRecord?, hrecord, Span.ofJson?_toJson hspan, Source.ofJson?_toJson hsource,
    Json.choice?, hkind, Json.itemsOrEmpty?, Json.toItems?, Specifier.mapM_ofJson?,
    -List.mapM_map]

end ImportDecl

namespace ModuleDecl

def body (d : ModuleDecl) : Json :=
  .obj [("span", d.span.toJson), ("name", .str d.name), ("source", d.source.toJson)]

theorem ofRecord?_body {d : ModuleDecl} (hspan : d.span.isStorable = true)
    (hsource : d.source.span.isStorable = true) : ofRecord? d.body = some d := by
  have hrecord : d.body.record? ["span", "name", "source"] =
      some [some d.span.toJson, some (.str d.name), some d.source.toJson] := rfl
  simp [ofRecord?, hrecord, Span.ofJson?_toJson hspan, Source.ofJson?_toJson hsource,
    Json.toString?]

end ModuleDecl

namespace Label

/-- The spans that a node has besides those of the nodes inside it. -/
def spans : Label → List Span
  | .importDecl decl => [decl.span, decl.source.span]
  | .moduleDecl decl => [decl.span, decl.source.span]
  | .exportValue span _ => [span]
  | .exportNothing span _ => [span]
  | .exportVariables span _ declarators => span :: declarators.map Prod.fst
  | .exportDefinition span _ _ _ => [span]
  | .exportAll span source => [span, source.span]
  | .exportFrom span source _ => [span, source.span]
  | .exportNames span _ => [span]
  | .element _ span => [span]

end Label

namespace Node

/-- A tree whose offsets are all numbers of 64 bits. The spans may run backwards. -/
def Storable (tree : Node) : Prop :=
  ∀ label ∈ tree.labels, ∀ span ∈ label.spans, span.isStorable = true
  deriving Decidable

theorem span_mem_spans (node : Node) : node.span ∈ node.label.spans := by
  cases node <;> exact List.mem_cons_self

theorem storable_iff (node : Node) :
    node.Storable ↔ (∀ span ∈ node.label.spans, span.isStorable = true) ∧
      ∀ child ∈ node.children, child.Storable := by
  simp only [Storable]
  rw [labels_eq, List.forall_mem_cons, List.forall_mem_flatMap]

theorem allToJson_eq (nodes : List Node) : allToJson nodes = nodes.map toJson := by
  induction nodes with
  | nil => rfl
  | cons node rest ih => rw [allToJson, ih, List.map_cons]

def declaratorToJson : Declarator → Json
  | .unset span name => .obj [("span", span.toJson), ("name", .str name)]
  | .set span name value =>
    .obj [("span", span.toJson), ("name", .str name), ("init", toJson value)]

theorem declaratorsToJson_eq (declarators : List Declarator) :
    declaratorsToJson declarators = declarators.map declaratorToJson := by
  induction declarators with
  | nil => rfl
  | cons declarator rest ih =>
    cases declarator with
    | unset | set => rw [declaratorsToJson, ih, List.map_cons, declaratorToJson]

/-- A node is written as an object, so what stands in the place of a value is not null. -/
theorem toJson_ne_null (node : Node) : ∃ fields, node.toJson = .obj fields := by
  cases node <;> exact ⟨_, rfl⟩

/-- What is inside a node is nested less deep than the node. -/
theorem depth_child_lt {node child : Node} (h : child ∈ node.children) :
    child.toJson.depth < node.toJson.depth := by
  have hexport : ∀ (span : Span) (shape key : String) (value : Json)
      (fields : List (String × Json)), (key, value) ∈ fields →
      value.depth < (exportJson span shape fields).depth := by
    intro span shape key value fields hvalue
    have hkind : value.depth < (Json.obj (("shape", .str shape) :: fields)).depth :=
      Json.depth_lt_obj key (List.mem_cons_of_mem _ hvalue)
    have hnode : (Json.obj (("shape", .str shape) :: fields)).depth <
        (exportJson span shape fields).depth :=
      Json.depth_lt_obj "kind" (by simp)
    omega
  cases node with
  | importDecl | moduleDecl | exportNothing | exportAll | exportFrom | exportNames => cases h
  | exportValue span target value =>
    obtain rfl := List.mem_singleton.mp h
    exact hexport span _ "init" _ _ (by simp)
  | exportDefinition span kind name definition isDefault =>
    obtain rfl := List.mem_singleton.mp h
    exact hexport span _ "declaration" _ _ (by simp)
  | exportVariables span kind declarators =>
    obtain ⟨declarator, hdeclarator, hvalue⟩ := List.mem_filterMap.mp h
    cases declarator with
    | unset => cases hvalue
    | set inner name value =>
      obtain rfl := Option.some.inj hvalue
      have hlist : (declaratorToJson (.set inner name value)).depth <
          (Json.arr (declaratorsToJson declarators)).depth := by
        rw [declaratorsToJson_eq]
        exact Json.depth_lt_arr (List.mem_map_of_mem hdeclarator)
      have hinit : value.toJson.depth < (declaratorToJson (.set inner name value)).depth :=
        Json.depth_lt_obj "init" (by simp)
      have hdeclarators := hexport span "variable" "declarators"
        (.arr (declaratorsToJson declarators))
        [("kind", .str kind.keyword), ("declarators", .arr (declaratorsToJson declarators))]
        (by simp)
      exact Nat.lt_trans hinit (Nat.lt_trans hlist hdeclarators)
  | element kind span children =>
    have hlist : child.toJson.depth < (Json.arr (allToJson children)).depth := by
      rw [allToJson_eq]
      exact Json.depth_lt_arr (List.mem_map_of_mem h)
    have hfield : ("children", Json.arr (allToJson children)) ∈
        childrenField (allToJson children) := by
      cases hall : allToJson children with
      | nil =>
        rw [allToJson_eq, List.map_eq_nil_iff] at hall
        subst hall
        cases h
      | cons => simp [childrenField]
    exact Nat.lt_trans hlist (Json.depth_lt_obj "children" (List.mem_append_right _ hfield))

/-- A declarator is read back if its value is. -/
theorem declaratorOfJson?_toJson {read : Json → Option Node} {declarator : Declarator}
    (hspan : declarator.span.isStorable = true)
    (hread : ∀ value, declarator.value? = some value → read value.toJson = some value) :
    declaratorOfJson? read (declaratorToJson declarator) = some declarator := by
  cases declarator with
  | unset span name =>
    have hrecord : (declaratorToJson (.unset span name)).record? ["span", "name", "init"] =
        some [some span.toJson, some (.str name), none] := rfl
    have hspan : Span.ofJson? span.toJson = some span := Span.ofJson?_toJson hspan
    simp [declaratorOfJson?, hrecord, hspan, Json.toString?]
  | set span name value =>
    have hrecord : (declaratorToJson (.set span name value)).record? ["span", "name", "init"] =
        some [some span.toJson, some (.str name), some value.toJson] := rfl
    have hspan : Span.ofJson? span.toJson = some span := Span.ofJson?_toJson hspan
    have hvalue := hread value rfl
    obtain ⟨fields, hfields⟩ := value.toJson_ne_null
    rw [hfields] at hrecord hvalue
    simp [declaratorOfJson?, hrecord, hspan, Json.toString?, hvalue]

/-- An exported definition is read back if what it defines is. -/
theorem definitionOfRecord?_toJson {read : Json → Option Node} {definition : Node}
    (hread : read definition.toJson = some definition) (span : Span) (kind : DefinitionKind)
    (name : String) (isDefault : Bool) :
    definitionOfRecord? read span kind (.obj [("name", .str name),
        ("declaration", definition.toJson), ("default", .bool isDefault)]) =
      some (.exportDefinition span kind name definition isDefault) := by
  have hrecord : (Json.obj [("name", .str name), ("declaration", definition.toJson),
      ("default", .bool isDefault)]).record? ["name", "declaration", "default"] =
        some [some (.str name), some definition.toJson, some (.bool isDefault)] := rfl
  simp [definitionOfRecord?, hrecord, hread, Json.toString?, Json.flagOrFalse?, Json.toBool?]

/-- An export is read back if its shape is, given its fields. -/
theorem ofRecord?_exportJson {read : Json → Option Node} {span : Span} {shape : String}
    {fields : List (String × Json)} {node : Node} (hspan : span.isStorable = true)
    (hshape : shape ∈ shapes)
    (hfields : fields.filter (·.1 == "shape") = [])
    (h : exportOfRecord? read span shape (.obj fields) = some node) :
    ofRecord? read "ExportDeclaration"
      (.obj [("span", span.toJson), ("kind", .obj (("shape", .str shape) :: fields))]) =
        some node := by
  have hrecord : (Json.obj [("span", span.toJson),
      ("kind", .obj (("shape", .str shape) :: fields))]).record? ["span", "kind"] =
        some [some span.toJson, some (.obj (("shape", .str shape) :: fields))] := rfl
  have hrest : fields.filter (·.1 != "shape") = fields := by
    rw [List.filter_eq_nil_iff] at hfields
    rw [List.filter_eq_self]
    intro field hfield
    simpa using hfields field hfield
  have htagged : (Json.obj (("shape", .str shape) :: fields)).tagged? "shape" =
      some (.str shape, .obj fields) := by
    simp [Json.tagged?, hfields, hrest]
  simp [ofRecord?, hrecord, Span.ofJson?_toJson hspan, htagged, Json.variant?, hshape, h]

/-- A node is read back if the nodes inside it are. -/
theorem ofRecord?_toJson {read : Json → Option Node} {node : Node}
    (hspans : ∀ span ∈ node.label.spans, span.isStorable = true)
    (hread : ∀ child ∈ node.children, read child.toJson = some child) :
    ∃ type body, node.toJson.tagged? "type" = some (.str type, body) ∧
      type ∈ types ∧ ofRecord? read type body = some node := by
  have hspan : node.span.isStorable = true := hspans _ node.span_mem_spans
  cases node with
  | importDecl decl =>
    have hdecl : ImportDecl.ofRecord? decl.body = some decl :=
      ImportDecl.ofRecord?_body hspan (hspans _ (by simp [label, Label.spans]))
    exact ⟨"ImportDeclaration", decl.body, rfl, by decide, by simp [ofRecord?, hdecl]⟩
  | moduleDecl decl =>
    have hdecl : ModuleDecl.ofRecord? decl.body = some decl :=
      ModuleDecl.ofRecord?_body hspan (hspans _ (by simp [label, Label.spans]))
    exact ⟨"ModuleDeclaration", decl.body, rfl, by decide, by simp [ofRecord?, hdecl]⟩
  | exportValue span target value =>
    refine ⟨_, _, rfl, by decide, ofRecord?_exportJson hspan (by decide) rfl ?_⟩
    have hvalue := hread value (by simp [children])
    have hrecord : (Json.obj [("target", .str target), ("init", value.toJson)]).record?
        ["target", "init"] = some [some (.str target), some value.toJson] := rfl
    simp [exportOfRecord?, hrecord, hvalue, Json.toString?]
  | exportNothing span target =>
    exact ⟨_, _, rfl, by decide, ofRecord?_exportJson hspan (by decide) rfl rfl⟩
  | exportVariables span kind declarators =>
    refine ⟨_, _, rfl, by decide, ofRecord?_exportJson hspan (by decide) rfl ?_⟩
    have hdeclarators : (declaratorsToJson declarators).mapM (declaratorOfJson? read) =
        some declarators := by
      rw [declaratorsToJson_eq]
      refine Json.mapM_map_eq_some fun declarator hdeclarator => ?_
      refine declaratorOfJson?_toJson (hspans _ ?_) fun value hvalue =>
        hread value (List.mem_filterMap.mpr ⟨declarator, hdeclarator, hvalue⟩)
      simp only [label, Label.spans, List.map_map]
      exact List.mem_cons_of_mem _ (List.mem_map.mpr ⟨declarator, hdeclarator, rfl⟩)
    have hkind : VarKind.ofText? kind.keyword = some kind := by cases kind <;> rfl
    have hrecord : (Json.obj [("kind", .str kind.keyword),
        ("declarators", .arr (declaratorsToJson declarators))]).record? ["kind", "declarators"] =
          some [some (.str kind.keyword), some (.arr (declaratorsToJson declarators))] := rfl
    simp [exportOfRecord?, hrecord, hkind, Json.choice?, Json.toItems?, hdeclarators]
  | exportDefinition span kind name definition isDefault =>
    have hdefinition := definitionOfRecord?_toJson (hread definition (by simp [children])) span kind
      name isDefault
    cases kind with
    | function | classDef =>
      exact ⟨_, _, rfl, by decide, ofRecord?_exportJson hspan (by decide) rfl hdefinition⟩
  | exportAll span source =>
    refine ⟨_, _, rfl, by decide, ofRecord?_exportJson hspan (by decide) rfl ?_⟩
    have hsource : Source.ofJson? source.toJson = some source :=
      Source.ofJson?_toJson (hspans _ (by simp [label, Label.spans]))
    have hrecord : (Json.obj [("source", source.toJson)]).record? ["source"] =
        some [some source.toJson] := rfl
    simp [exportOfRecord?, hrecord, hsource]
  | exportFrom span source specifiers =>
    refine ⟨_, _, rfl, by decide, ofRecord?_exportJson hspan (by decide) rfl ?_⟩
    have hsource : Source.ofJson? source.toJson = some source :=
      Source.ofJson?_toJson (hspans _ (by simp [label, Label.spans]))
    have hrecord : (Json.obj [("source", source.toJson),
        ("specifiers", .arr (specifiers.map Specifier.toJson))]).record?
          ["source", "specifiers"] =
        some [some source.toJson, some (.arr (specifiers.map Specifier.toJson))] := rfl
    simp [exportOfRecord?, hrecord, hsource, Json.toItems?, Specifier.mapM_ofJson?,
      -List.mapM_map]
  | exportNames span specifiers =>
    refine ⟨_, _, rfl, by decide, ofRecord?_exportJson hspan (by decide) rfl ?_⟩
    have hrecord : (Json.obj [("specifiers", .arr (specifiers.map Specifier.toJson))]).record?
        ["specifiers"] = some [some (.arr (specifiers.map Specifier.toJson))] := rfl
    simp [exportOfRecord?, hrecord, Json.toItems?, Specifier.mapM_ofJson?, -List.mapM_map]
  | element kind span children =>
    have hoffsets : Span.ofJson? span.toJson = some span := Span.ofJson?_toJson hspan
    have hkind : ElementKind.ofText? kind.toText = some kind := by cases kind <;> rfl
    cases children with
    | nil =>
      refine ⟨"Syntax", .obj [("kind", .str kind.toText), ("span", span.toJson)], rfl,
        by decide, ?_⟩
      have hrecord : (Json.obj [("kind", .str kind.toText), ("span", span.toJson)]).record?
          ["kind", "span", "children"] =
            some [some (.str kind.toText), some span.toJson, none] := rfl
      simp [ofRecord?, hrecord, hkind, hoffsets, Json.choice?, Json.itemsOrEmpty?]
    | cons first rest =>
      have hall : (allToJson (first :: rest)).mapM read = some (first :: rest) := by
        rw [allToJson_eq]
        exact Json.mapM_map_eq_some hread
      refine ⟨"Syntax", .obj [("kind", .str kind.toText), ("span", span.toJson),
        ("children", .arr (allToJson (first :: rest)))], rfl, by decide, ?_⟩
      have hrecord : (Json.obj [("kind", .str kind.toText), ("span", span.toJson),
          ("children", .arr (allToJson (first :: rest)))]).record? ["kind", "span", "children"] =
            some [some (.str kind.toText), some span.toJson,
              some (.arr (allToJson (first :: rest)))] := rfl
      simp [ofRecord?, hrecord, hkind, hoffsets, Json.choice?, Json.itemsOrEmpty?, Json.toItems?,
        hall]

/-- A node is read back within any bound that the depth of its JSON value keeps. -/
theorem readWithin_toJson (bound : Nat) (nested : Bool) {node : Node} (h : node.Storable)
    (hdepth : node.toJson.depth ≤ bound) : readWithin bound nested node.toJson = some node := by
  induction bound generalizing nested node with
  | zero =>
    obtain ⟨fields, hfields⟩ := node.toJson_ne_null
    rw [hfields, Json.depth] at hdepth
    omega
  | succ bound ih =>
    obtain ⟨hspans, hchildren⟩ := node.storable_iff.mp h
    have hinside : ∀ child ∈ node.children,
        readWithin bound true child.toJson = some child := by
      intro child hchild
      have hlt := depth_child_lt hchild
      exact ih true (hchildren child hchild) (by omega)
    obtain ⟨type, body, htagged, htype, hread⟩ := ofRecord?_toJson hspans hinside
    simp [readWithin, htagged, Json.variant?, htype, hread]

/-- A node that was made of what was read: its own spans are storable, and the nodes inside it come
from the given reader. -/
def ReadBy (read : Json → Option Node) (node : Node) : Prop :=
  (∀ span ∈ node.label.spans, span.isStorable = true) ∧
    ∀ child ∈ node.children, ∃ j, read j = some child

section ReadBy

variable {read : Json → Option Node} {node : Node} {span : Span} {body : Json}

theorem declaratorOfJson?_readBy {j : Json} {declarator : Declarator}
    (h : declaratorOfJson? read j = some declarator) :
    declarator.span.isStorable = true ∧
      ∀ value, declarator.value? = some value → ∃ j, read j = some value := by
  simp only [declaratorOfJson?, Option.bind_eq_bind, Option.bind_eq_some_iff] at h
  obtain ⟨values, -, h⟩ := h
  split at h
  · simp only [Option.bind_eq_some_iff] at h
    obtain ⟨span, hspan, name, -, h⟩ := h
    have hspan := Span.isStorable_of_ofJson? hspan
    split at h
    · obtain rfl := Option.some.inj h
      exact ⟨hspan, fun value hvalue => by cases hvalue⟩
    · obtain rfl := Option.some.inj h
      exact ⟨hspan, fun value hvalue => by cases hvalue⟩
    · simp only [Option.bind_eq_some_iff, Option.some.injEq] at h
      obtain ⟨value, hvalue, rfl⟩ := h
      refine ⟨hspan, fun other hother => ?_⟩
      obtain rfl := Option.some.inj hother
      exact ⟨_, hvalue⟩
  · cases h

theorem definitionOfRecord?_readBy {kind : DefinitionKind} (hspan : span.isStorable = true)
    (h : definitionOfRecord? read span kind body = some node) : ReadBy read node := by
  simp only [definitionOfRecord?, Option.bind_eq_bind, Option.bind_eq_some_iff] at h
  obtain ⟨values, -, h⟩ := h
  split at h
  · simp only [Option.bind_eq_some_iff, Option.some.injEq] at h
    obtain ⟨name, -, definition, hdefinition, isDefault, -, rfl⟩ := h
    exact ⟨by simpa [label, Label.spans] using hspan, by simpa [children] using ⟨_, hdefinition⟩⟩
  · cases h

theorem exportOfRecord?_readBy {shape : String} (hspan : span.isStorable = true)
    (h : exportOfRecord? read span shape body = some node) : ReadBy read node := by
  simp only [exportOfRecord?, Option.bind_eq_bind] at h
  split at h
  case h_4 | h_5 => exact definitionOfRecord?_readBy hspan h
  case h_9 => cases h
  all_goals
    simp only [Option.bind_eq_some_iff] at h
    obtain ⟨values, -, h⟩ := h
    split at h <;> simp only [Option.bind_eq_some_iff, Option.some.injEq, reduceCtorEq] at h
  -- what is left are the six other shapes in their order, each with its fields at hand
  · obtain ⟨target, -, value, hvalue, rfl⟩ := h
    exact ⟨by simpa [label, Label.spans] using hspan, by simpa [children] using ⟨_, hvalue⟩⟩
  · obtain ⟨target, -, rfl⟩ := h
    exact ⟨by simpa [label, Label.spans] using hspan, by simp [children]⟩
  · obtain ⟨text, -, kind, -, items, -, declarators, hdeclarators, rfl⟩ := h
    have hread : ∀ declarator ∈ declarators, declarator.span.isStorable = true ∧
        ∀ value, declarator.value? = some value → ∃ j, read j = some value := by
      intro declarator hdeclarator
      obtain ⟨j, -, hj⟩ := exists_of_mem_mapM hdeclarators hdeclarator
      exact declaratorOfJson?_readBy hj
    refine ⟨?_, ?_⟩
    · simp only [label, Label.spans, List.map_map, List.forall_mem_cons, List.forall_mem_map]
      exact ⟨hspan, fun declarator hdeclarator => (hread declarator hdeclarator).1⟩
    · intro child hchild
      obtain ⟨declarator, hdeclarator, hvalue⟩ := List.mem_filterMap.mp hchild
      exact (hread declarator hdeclarator).2 child hvalue
  · obtain ⟨source, hsource, rfl⟩ := h
    have hsource := Source.isStorable_of_ofJson? hsource
    exact ⟨by simp [label, Label.spans, hspan, hsource], by simp [children]⟩
  · obtain ⟨source, hsource, items, -, specifiers, -, rfl⟩ := h
    have hsource := Source.isStorable_of_ofJson? hsource
    exact ⟨by simp [label, Label.spans, hspan, hsource], by simp [children]⟩
  · obtain ⟨items, -, specifiers, -, rfl⟩ := h
    exact ⟨by simpa [label, Label.spans] using hspan, by simp [children]⟩

theorem importDecl_readBy {decl : ImportDecl} (h : ImportDecl.ofRecord? body = some decl) :
    ReadBy read (.importDecl decl) := by
  simp only [ImportDecl.ofRecord?, Option.bind_eq_bind, Option.bind_eq_some_iff] at h
  obtain ⟨values, -, h⟩ := h
  split at h
  · simp only [Option.bind_eq_some_iff, Option.some.injEq] at h
    obtain ⟨span, hspan, kind, -, items, -, specifiers, -, source, hsource, rfl⟩ := h
    exact ⟨by simp [label, Label.spans, Span.isStorable_of_ofJson? hspan,
      Source.isStorable_of_ofJson? hsource], by simp [children]⟩
  · cases h

theorem moduleDecl_readBy {decl : ModuleDecl} (h : ModuleDecl.ofRecord? body = some decl) :
    ReadBy read (.moduleDecl decl) := by
  simp only [ModuleDecl.ofRecord?, Option.bind_eq_bind, Option.bind_eq_some_iff] at h
  obtain ⟨values, -, h⟩ := h
  split at h
  · simp only [Option.bind_eq_some_iff, Option.some.injEq] at h
    obtain ⟨span, hspan, name, -, source, hsource, rfl⟩ := h
    exact ⟨by simp [label, Label.spans, Span.isStorable_of_ofJson? hspan,
      Source.isStorable_of_ofJson? hsource], by simp [children]⟩
  · cases h

theorem ofRecord?_readBy {type : String} (h : ofRecord? read type body = some node) :
    ReadBy read node := by
  simp only [ofRecord?, Option.bind_eq_bind] at h
  split at h
  · simp only [Option.bind_eq_some_iff, Option.some.injEq] at h
    obtain ⟨decl, hdecl, rfl⟩ := h
    exact importDecl_readBy hdecl
  · simp only [Option.bind_eq_some_iff, Option.some.injEq] at h
    obtain ⟨decl, hdecl, rfl⟩ := h
    exact moduleDecl_readBy hdecl
  · simp only [Option.bind_eq_some_iff] at h
    obtain ⟨values, -, h⟩ := h
    split at h
    · simp only [Option.bind_eq_some_iff] at h
      obtain ⟨span, hspan, ⟨tag, inner⟩, -, shape, -, h⟩ := h
      exact exportOfRecord?_readBy (Span.isStorable_of_ofJson? hspan) h
    · cases h
  · simp only [Option.bind_eq_some_iff] at h
    obtain ⟨values, -, h⟩ := h
    split at h
    · simp only [Option.bind_eq_some_iff, Option.some.injEq] at h
      obtain ⟨text, -, kind, -, span, hspan, items, -, inner, hinner, rfl⟩ := h
      refine ⟨by simpa [label, Label.spans] using Span.isStorable_of_ofJson? hspan, ?_⟩
      intro child hchild
      obtain ⟨j, -, hj⟩ := exists_of_mem_mapM hinner hchild
      exact ⟨j, hj⟩
    · cases h
  · cases h

end ReadBy

/-- Whatever is read has offsets of 64 bits. -/
theorem storable_of_readWithin {bound : Nat} {nested : Bool} {j : Json} {node : Node}
    (h : readWithin bound nested j = some node) : node.Storable := by
  induction bound generalizing nested j node with
  | zero => cases h
  | succ bound ih =>
    simp only [readWithin, Option.bind_eq_bind, Option.bind_eq_some_iff] at h
    obtain ⟨⟨tag, body⟩, -, type, -, h⟩ := h
    obtain ⟨hspans, hchildren⟩ := ofRecord?_readBy h
    refine node.storable_iff.mpr ⟨hspans, fun child hchild => ?_⟩
    obtain ⟨inner, hinner⟩ := hchildren child hchild
    exact ih hinner

theorem ofJson?_toJson {node : Node} (h : node.Storable) : ofJson? node.toJson = some node :=
  readWithin_toJson _ false h (Nat.le_refl _)

/-- Trees read back. A tree whose offsets are numbers of 64 bits is read back from its JSON value,
and so is every tree that any JSON value describes. -/
theorem tree_read_back :
    (∀ node : Node, node.Storable → ofJson? node.toJson = some node) ∧
      ∀ (j : Json) (node : Node), ofJson? j = some node → ofJson? node.toJson = some node :=
  ⟨fun _ h => ofJson?_toJson h, fun _ _ h => ofJson?_toJson (storable_of_readWithin h)⟩

/-- A span that runs backwards, the largest offset and an import of an unknown kind in a value of a
declarator; and a JSON value with a field too many, a null for an alias, a span as an array and a
type given by its number. -/
theorem tree_read_back_odd_forms :
    let inner := Node.importDecl ⟨⟨9, 3⟩, .unrecognized, [⟨"a", none⟩, ⟨"b", some "\n"⟩],
      ⟨⟨0, 18446744073709551615⟩, "'é'"⟩⟩
    let node := Node.element .program ⟨0, 0⟩ [.exportVariables ⟨0, 9⟩ .lexical
      [.unset ⟨7, 8⟩ "x", .set ⟨8, 9⟩ "y" (.exportValue ⟨1, 2⟩ "default" inner)]]
    let j := Json.obj [("kind", .str "program"), ("line", .decimal true 1 0),
      ("span", .arr [.nat 4, .nat 2]), ("type", .str "Syntax"),
      ("children", .arr [.obj [("type", .nat 0), ("kind", .str "mixed"),
        ("specifiers", .arr [.obj [("alias", .null), ("name", .str "a")]]),
        ("span", .arr [.nat 0, .nat 1]),
        ("source", .arr [.arr [.nat 2, .nat 3], .str "'m'"])]])]
    let found := Node.element .program ⟨4, 2⟩
      [.importDecl ⟨⟨0, 1⟩, .unrecognized, [⟨"a", none⟩], ⟨⟨2, 3⟩, "'m'"⟩⟩]
    node.Storable ∧ ofJson? node.toJson = some node ∧
      ofJson? j = some found ∧ ofJson? found.toJson = some found := by
  intro inner node j found
  have hstorable : node.Storable := by decide
  have hfound : ofJson? j = some found := rfl
  exact ⟨hstorable, tree_read_back.1 node hstorable, hfound, tree_read_back.2 j found hfound⟩

end Node
end ModSplice
