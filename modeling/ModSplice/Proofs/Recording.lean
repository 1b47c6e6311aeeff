import ModSplice.Proofs.Footprint
import ModSplice.Proofs.Verdicts

/-!
# What a walk takes note of

A place in a tree is told by the way down to it: which child to take at each step. In lexicographic
order the ways are in the order of a walk, each node before what is inside it. The notes of a walk
stand at places in ascending order, each with the nodes passed on its way; a walk that is led into
every node and carries out all its edits misses no place.
-/
namespace ModSplice

/-- A place in a tree: the way down to it, the nodes passed on the way, outermost first, and the
node that is there. -/
structure Place where
  way : List Nat
  above : List Node
  node : Node

namespace Node

/-- What a way down leads to: the nodes passed, and the node at its end. -/
def reach? (node : Node) : List Nat → Option (List Node × Node)
  | [] => some ([], node)
  | k :: way =>
    match node.children[k]? with
    | none => none
    | some child => (child.reach? way).map fun found => (node :: found.1, found.2)

def HasPlace (node : Node) (place : Place) : Prop :=
  node.reach? place.way = some (place.above, place.node)

/-- The same for one of some siblings, where the way begins with the number of the sibling. Those in
front of the sibling `first` do not count. -/
def HavePlace (siblings : List Node) (first : Nat) (place : Place) : Prop :=
  ∃ k way sibling, place.way = k :: way ∧ first ≤ k ∧ siblings[k]? = some sibling ∧
    sibling.HasPlace ⟨way, place.above, place.node⟩

/-- A place below a node is one of its children's. -/
theorem hasPlace_iff {node : Node} {place : Place} :
    node.HasPlace place ↔ place = ⟨[], [], node⟩ ∨ ∃ inner, HavePlace node.children 0 inner ∧
      place = ⟨inner.way, node :: inner.above, inner.node⟩ := by
  obtain ⟨way, above, last⟩ := place
  constructor
  · intro h
    cases way with
    | nil =>
      cases h
      exact .inl rfl
    | cons k way =>
      cases hchild : node.children[k]? with
      | none => simp [HasPlace, reach?, hchild] at h
      | some child =>
        simp only [HasPlace, reach?, hchild, Option.map_eq_some_iff] at h
        obtain ⟨⟨deeper, last⟩, hway, heq⟩ := h
        cases heq
        exact .inr ⟨⟨k :: way, deeper, last⟩,
          ⟨k, way, child, rfl, Nat.zero_le k, hchild, hway⟩, rfl⟩
  · rintro (heq | ⟨⟨_, deeper, last⟩, ⟨k, way, child, rfl, -, hchild, hway⟩, heq⟩)
    · cases heq
      rfl
    · cases heq
      simp only [HasPlace] at hway
      simp [HasPlace, reach?, hchild, hway]

/-- A place of some siblings is one of the first of them, or of those behind it. -/
theorem havePlace_iff {front rest : List Node} {node : Node} {place : Place} :
    HavePlace (front ++ node :: rest) front.length place ↔
      (∃ inner, node.HasPlace inner ∧
        place = ⟨front.length :: inner.way, inner.above, inner.node⟩) ∨
      HavePlace (front ++ node :: rest) (front.length + 1) place := by
  have hnode : (front ++ node :: rest)[front.length]? = some node := by simp
  obtain ⟨way, above, last⟩ := place
  constructor
  · rintro ⟨k, way, sibling, rfl, hk, hsibling, hway⟩
    by_cases heq : k = front.length
    · subst heq
      obtain rfl : node = sibling := Option.some.inj (hnode.symm.trans hsibling)
      exact .inl ⟨⟨way, above, last⟩, hway, rfl⟩
    · exact .inr ⟨k, way, sibling, rfl, by omega, hsibling, hway⟩
  · rintro (⟨inner, hinner, heq⟩ | ⟨k, way, sibling, rfl, hk, hsibling, hway⟩)
    · cases heq
      exact ⟨front.length, inner.way, node, rfl, Nat.le_refl _, hnode, hinner⟩
    · exact ⟨k, way, sibling, rfl, by omega, hsibling, hway⟩

end Node

/-! ## Notes of a list of edits -/

def Edit.noted (path : List Node) : Edit → List (List Node × Node)
  | .note node => [(path.reverse, node)]
  | _ => []

def notes (path : List Node) : List Edit → List (List Node × Node)
  | [] => []
  | edit :: rest => edit.noted path ++ notes (edit.lead path) rest

theorem notes_append (path : List Node) (a b : List Edit) :
    notes path (a ++ b) = notes path a ++ notes (a.foldl Edit.lead path) b := by
  induction a generalizing path with
  | nil => rfl
  | cons edit rest ih => simp only [List.cons_append, notes, ih, List.foldl_cons, List.append_assoc]

theorem Balanced.notes_append {a : List Edit} (h : Balanced a) (path : List Node)
    (b : List Edit) : notes path (a ++ b) = notes path a ++ notes path b := by
  rw [ModSplice.notes_append, h path]

theorem Balanced.notes_within {inside : List Edit} (h : Balanced inside) (path : List Node)
    (node : Node) : notes path (within node inside) = notes (node :: path) inside := by
  have hwithin : notes path (within node inside) =
      notes (node :: path) (inside ++ [.leave]) := rfl
  rw [hwithin, h.notes_append]
  exact List.append_nil _

theorem Balanced.notes_keepPart {inside : List Edit} (h : Balanced inside) (path : List Node)
    (node part : Node) : notes path (keepPart node part inside) = notes (node :: path) inside := by
  have hwithin := (balanced_inherited []).within node h
  have hkeep : notes path (keepPart node part inside) =
      notes path (within node inside ++ [.copyTo part.span.stop]) := rfl
  rw [hkeep, hwithin.notes_append, h.notes_within]
  exact List.append_nil _

namespace Verdict

def isNoted : Verdict → Bool
  | .note _ => true
  | .replace | .descend => false

/-- Whether the walk comes to the nodes inside. -/
def goesOn : Verdict → Bool
  | .note .withheld => false
  | .replace | .descend | .note .onward | .note .led => true

end Verdict

namespace Node

variable (rules : List Rule)

theorem balanced_edits (node : Node) : Balanced (node.edits rules) :=
  (balanced_inherited rules).edits node

theorem balanced_flatMap_edits (forest : List Node) : Balanced (forest.flatMap (edits rules)) := by
  rw [← allEdits_eq]
  exact (balanced_inherited rules).allEdits forest

theorem notes_flatMap_edits (forest : List Node) (path : List Node) :
    notes path (forest.flatMap (edits rules)) =
      forest.flatMap fun node => notes path (node.edits rules) := by
  induction forest with
  | nil => rfl
  | cons node rest ih =>
    rw [List.flatMap_cons, List.flatMap_cons, (balanced_edits rules node).notes_append, ih]

/-- A part that is kept leads the walk into it, from the node that it is kept of. -/
theorem notes_keepPart_append (node part : Node) (rest : List Edit) (path : List Node) :
    notes path (keepPart node part (part.edits rules) ++ rest) =
      notes (node :: path) (part.edits rules) ++ notes path rest := by
  have hpart := balanced_edits rules part
  have hkeep := (balanced_inherited rules).keepPart node part hpart
  rw [hkeep.notes_append, hpart.notes_keepPart]

theorem notes_declaratorEdits (node : Node) (declarators : List Declarator)
    (kind? : Option VarKind) (path : List Node) :
    notes path (declaratorEdits rules node kind? declarators) =
      (declarators.filterMap Declarator.value?).flatMap
        fun value => notes (node :: path) (value.edits rules) := by
  have hlead : ∀ (kind? : Option VarKind) (start : Nat) (rest : List Edit),
      notes path (declaratorLead kind? start ++ rest) = notes path rest := by
    intro kind? start rest
    cases kind? <;> rfl
  induction declarators generalizing kind? with
  | nil => rfl
  | cons declarator rest ih =>
    cases declarator with
    | unset span name =>
      rw [declaratorEdits, List.append_assoc, hlead]
      exact ih none
    | set span name value =>
      rw [declaratorEdits, List.append_assoc, List.append_assoc, hlead]
      refine (notes_keepPart_append rules node value _ path).trans ?_
      rw [ih none]
      rfl

/-- A declaration that is replaced leads the walk to the nodes inside it as any other node does,
whatever it keeps of its text. -/
theorem notes_replacement {node : Node} (h : node.isElement = false) (path : List Node) :
    notes path (node.replacement rules) =
      node.children.flatMap fun child => notes (node :: path) (child.edits rules) := by
  cases node with
  | importDecl decl =>
    simp only [replacement, ImportDecl.substitute]
    split <;> rfl
  | moduleDecl | exportNothing | exportAll | exportFrom | exportNames => rfl
  | exportValue span target value =>
    rw [replacement, valueEdits, List.append_assoc]
    refine (notes_keepPart_append rules _ value _ path).trans ?_
    split <;> simp [children, notes, Edit.noted]
  | exportDefinition span kind name definition isDefault =>
    refine (notes_keepPart_append rules _ definition _ path).trans ?_
    simp [children, notes, Edit.noted]
  | exportVariables span kind declarators =>
    cases declarators with
    | nil => rfl
    | cons first rest => exact notes_declaratorEdits rules _ (first :: rest) (some kind) path
  | element => cases h

/-- The notes of a walk at a node: of the node itself, if its verdict says so, and then of the nodes
inside, with the node on their path. -/
theorem notes_edits (node : Node) (path : List Node) :
    notes path (node.edits rules) =
      (if (verdict rules node).isNoted then [(path.reverse, node)] else []) ++
        (if (verdict rules node).goesOn then
          node.children.flatMap fun child => notes (node :: path) (child.edits rules) else []) := by
  have hinside := (balanced_flatMap_edits rules node.children).notes_within path node
  rw [notes_flatMap_edits] at hinside
  rw [edits_eq]
  cases hverdict : verdict rules node with
  | replace => exact notes_replacement rules (isElement_of_replace hverdict) path
  | descend => exact hinside
  | note descent =>
    cases descent with
    | onward | led =>
      rw [Verdict.settle_note (by decide)]
      exact congrArg ((path.reverse, node) :: ·) hinside
    | withheld => rfl

/-! ## Places of the notes -/

variable {rules}

/-- The places are in ascending order, and the notes are those of the nodes there. -/
structure Noted (rules : List Rule) (hasPlace : Place → Prop) (path : List Node)
    (places : List Place) (found : List (List Node × Node)) : Prop where
  ascending : places.Pairwise fun a b => List.Lex (· < ·) a.way b.way
  sound : ∀ place ∈ places, hasPlace place ∧ (verdict rules place.node).isNoted = true
  told : found = places.map fun place => (path.reverse ++ place.above, place.node)
  /-- Where no verdict keeps the walk out of a node, no place is missing. -/
  complete : (∀ node, (verdict rules node).goesOn = true) →
    ∀ place, hasPlace place → (verdict rules place.node).isNoted = true → place ∈ places

namespace Noted

variable {hasPlace : Place → Prop} {path : List Node} {places : List Place}
  {found : List (List Node × Node)}

/-- Places of two kinds, all of the one before all of the other. -/
theorem append (h : Noted rules hasPlace path places found) {hasPlace' hasEither : Place → Prop}
    {places' : List Place} {found' : List (List Node × Node)}
    (h' : Noted rules hasPlace' path places' found')
    (heither : ∀ place, hasEither place ↔ hasPlace place ∨ hasPlace' place)
    (hbefore : ∀ a, hasPlace a → ∀ b, hasPlace' b → List.Lex (· < ·) a.way b.way) :
    Noted rules hasEither path (places ++ places') (found ++ found') where
  ascending := List.pairwise_append.mpr ⟨h.ascending, h'.ascending, fun a ha b hb =>
    hbefore a (h.sound a ha).1 b (h'.sound b hb).1⟩
  sound := by
    refine List.forall_mem_append.mpr ⟨fun place hplace => ?_, fun place hplace => ?_⟩
    · obtain ⟨hhas, hnoted⟩ := h.sound place hplace
      exact ⟨(heither place).mpr (.inl hhas), hnoted⟩
    · obtain ⟨hhas, hnoted⟩ := h'.sound place hplace
      exact ⟨(heither place).mpr (.inr hhas), hnoted⟩
  told := by rw [h.told, h'.told, List.map_append]
  complete hon place hhas hnoted := by
    rcases (heither place).mp hhas with hhas | hhas
    · exact List.mem_append_left _ (h.complete hon place hhas hnoted)
    · exact List.mem_append_right _ (h'.complete hon place hhas hnoted)

/-- The same places seen from elsewhere in the tree. -/
theorem image (h : Noted rules hasPlace path places found) (view : Place → Place)
    (path' : List Node) (hnode : ∀ place, (view place).node = place.node)
    (habove : ∀ place, path'.reverse ++ (view place).above = path.reverse ++ place.above)
    (hway : ∀ a b, List.Lex (· < ·) a.way b.way →
      List.Lex (· < ·) (view a).way (view b).way) :
    Noted rules (fun place => ∃ inner, hasPlace inner ∧ place = view inner) path'
      (places.map view) found where
  ascending := List.pairwise_map.mpr (h.ascending.imp (hway _ _))
  sound := by
    refine List.forall_mem_map.mpr fun place hplace => ?_
    obtain ⟨hhas, hnoted⟩ := h.sound place hplace
    exact ⟨⟨place, hhas, rfl⟩, by rw [hnode, hnoted]⟩
  told := by simp only [h.told, List.map_map, Function.comp_def, hnode, habove]
  complete := by
    rintro hon _ ⟨place, hhas, rfl⟩ hnoted
    rw [hnode] at hnoted
    exact List.mem_map_of_mem (h.complete hon place hhas hnoted)

end Noted

/-- From the places inside a node to those of the node. -/
theorem exists_noted_node {node : Node} {path : List Node} {inside : List Place}
    (h : Noted rules (HavePlace node.children 0) (node :: path) inside
      (node.children.flatMap fun child => notes (node :: path) (child.edits rules))) :
    ∃ places, Noted rules node.HasPlace path places (notes path (node.edits rules)) := by
  have hown : Noted rules (· = ⟨[], [], node⟩) path
      (if (verdict rules node).isNoted then [⟨[], [], node⟩] else [])
      (if (verdict rules node).isNoted then [(path.reverse, node)] else []) := by
    by_cases hnoted : (verdict rules node).isNoted = true
    · simp only [hnoted, if_true]
      exact ⟨List.pairwise_singleton .., by simp [hnoted], by simp, by simp⟩
    · simp only [hnoted]
      exact ⟨.nil, by simp, rfl, by rintro - _ rfl hnode; exact absurd hnode hnoted⟩
  let view (place : Place) : Place := ⟨place.way, node :: place.above, place.node⟩
  have hdeeper : Noted rules
      (fun place => ∃ inner, HavePlace node.children 0 inner ∧ place = view inner) path
      (if (verdict rules node).goesOn then inside.map view else [])
      (if (verdict rules node).goesOn then
        node.children.flatMap fun child => notes (node :: path) (child.edits rules) else []) := by
    by_cases hon : (verdict rules node).goesOn = true
    · simp only [hon, if_true]
      exact h.image view path (fun _ => rfl) (by simp [view]) (fun _ _ hlt => hlt)
    · simp only [hon]
      exact ⟨.nil, by simp, rfl, fun hall => absurd (hall node) hon⟩
  rw [notes_edits]
  refine ⟨_, hown.append hdeeper (fun _ => hasPlace_iff) ?_⟩
  rintro _ rfl _ ⟨inner, ⟨k, way, child, hk, -⟩, rfl⟩
  simp only [view, hk]
  exact .nil

/-- By induction over the trees: the first one, with all that is inside it, and the others. -/
theorem exists_noted (forest front : List Node) (path : List Node) :
    ∃ places, Noted rules (HavePlace (front ++ forest) front.length) path places
      (forest.flatMap fun node => notes path (node.edits rules)) := by
  induction forest using forest_induction generalizing front path with
  | nil =>
    refine ⟨[], .nil, by simp, rfl, ?_⟩
    rintro - place ⟨k, way, sibling, -, hk, hsibling, -⟩
    rw [List.append_nil, List.getElem?_eq_none hk] at hsibling
    cases hsibling
  | cons node rest hinside hrest =>
    obtain ⟨inside, hnoted⟩ := hinside [] (node :: path)
    obtain ⟨places, hplaces⟩ := exists_noted_node hnoted
    obtain ⟨later, hlater⟩ := hrest (front ++ [node]) path
    rw [List.append_assoc, List.singleton_append, List.length_append,
      List.length_singleton] at hlater
    let view (place : Place) : Place := ⟨front.length :: place.way, place.above, place.node⟩
    have hfirst := hplaces.image view path (fun _ => rfl) (fun _ => rfl) (fun _ _ hlt => .cons hlt)
    refine ⟨_, hfirst.append hlater (fun _ => havePlace_iff) ?_⟩
    rintro _ ⟨inner, -, rfl⟩ ⟨_, above, last⟩ ⟨k, way, sibling, rfl, hk, -⟩
    exact .rel (by omega)

end Node

/-! ## Records of a walk -/

namespace State

/-- What an edit that is carried out adds to the notes. -/
theorem apply_noted {s t : State} {edit : Edit} (h : s.apply edit = .ok t) :
    ∃ made : List Visit, t.visits = made.reverse ++ s.visits ∧
      made.map (fun visit => (visit.ancestors, visit.node)) = edit.noted s.path := by
  by_cases hnote : edit.isNote = true
  · cases edit with
    | note node =>
      cases h
      exact ⟨[⟨node, s.path.reverse, s.cursor.position⟩], rfl, rfl⟩
    | _ => cases hnote
  · have hvisits := apply_visits (by simpa using hnote) h
    refine ⟨[], hvisits, ?_⟩
    cases edit with
    | note => exact absurd rfl hnote
    | _ => rfl

/-- A run makes the notes that its edits ask for, up to its first fault. -/
theorem run_noted (edits : List Edit) (s : State) :
    ∃ made : List Visit, (s.run edits).1.visits = made.reverse ++ s.visits ∧
      made.map (fun visit => (visit.ancestors, visit.node)) <+: notes s.path edits ∧
      ((s.run edits).2 = none →
        made.map (fun visit => (visit.ancestors, visit.node)) = notes s.path edits) := by
  induction edits generalizing s with
  | nil => exact ⟨[], rfl, List.prefix_rfl, fun _ => rfl⟩
  | cons edit rest ih =>
    cases hedit : s.apply edit with
    | ok next =>
      obtain ⟨first, hfirst, hnoted⟩ := apply_noted hedit
      obtain ⟨later, hlater, hprefix, hall⟩ := ih next
      rw [apply_path hedit] at hprefix hall
      simp only [run, hedit]
      refine ⟨first ++ later, ?_, ?_, fun hnone => ?_⟩
      · rw [hlater, hfirst, List.reverse_append, List.append_assoc]
      · rw [List.map_append, hnoted]
        exact (List.prefix_append_right_inj _).mpr hprefix
      · rw [List.map_append, hnoted, hall hnone]
        rfl
    | error fault =>
      simp only [run, hedit]
      exact ⟨[], foldl_pass_visits rest s, List.nil_prefix, fun hnone => by cases hnone⟩

end State

namespace Rule

def descending (descent : Descent) : Rule → Rule
  | .recorder types _ => .recorder types descent
  | rule => rule

theorem accepts_descending (descent : Descent) (node : Node) (rule : Rule) :
    (rule.descending descent).accepts node = rule.accepts node := by
  cases rule <;> rfl

end Rule

/-- A recorder that leads the walk asks for the edits that the walk would make on its own. -/
theorem settle_descending (rules : List Rule) (node : Node) (inside replacement : List Edit) :
    (verdict (rules.map (Rule.descending .onward)) node).settle node inside replacement =
      (verdict (rules.map (Rule.descending .led)) node).settle node inside replacement := by
  have hfind : ∀ descent, (rules.map (Rule.descending descent)).find? (Rule.accepts node) =
      (rules.find? (Rule.accepts node)).map (Rule.descending descent) := by
    intro descent
    rw [List.find?_map]
    congr 2
    funext rule
    exact Rule.accepts_descending descent node rule
  simp only [verdict, hfind]
  cases rules.find? (Rule.accepts node) with
  | none => rfl
  | some rule =>
    cases rule with
    | imports | modules | exports => rfl
    | recorder types descent =>
      exact (Verdict.settle_note (by decide) ..).trans (Verdict.settle_note (by decide) ..).symm

/-- The node is left to a recorder: it is of one of its types, and no rule in front accepts it. -/
def LeftToRecorder (rules : List Rule) (node : Node) : Prop :=
  ∃ types descent, Rule.Decides rules (.recorder types descent) node

theorem isNoted_verdict_iff {rules : List Rule} {node : Node} :
    (verdict rules node).isNoted = true ↔ LeftToRecorder rules node := by
  simp only [LeftToRecorder, Rule.decides_iff, verdict]
  cases rules.find? (Rule.accepts node) with
  | none => simp [Verdict.isNoted]
  | some rule =>
    cases rule with
    | recorder types descent => simp [Rule.verdict, Verdict.isNoted]
    | imports | modules | exports => simp [Rule.verdict, Verdict.isNoted]

/-- Only a recorder that withholds the nodes inside keeps a walk out of them. -/
theorem goesOn_verdict {rules : List Rule} (h : ∀ types, .recorder types .withheld ∉ rules)
    (node : Node) : (verdict rules node).goesOn = true := by
  cases hfind : rules.find? (Rule.accepts node) with
  | none => simp [verdict, hfind, Verdict.goesOn]
  | some rule =>
    have hmem := List.mem_of_find?_eq_some hfind
    simp only [verdict, hfind]
    cases rule with
    | recorder types descent =>
      cases descent with
      | withheld => exact absurd hmem (h types)
      | onward | led => rfl
    | imports | modules | exports => rfl

/-- The records of a walk, for any rules, from any state and whether it fails or not. They are made
at places of the tree in ascending order, so at none twice, each with the nodes above it as its
ancestors, and at nodes that are left to a recorder. A walk that carries out all its edits and is
nowhere kept out makes them at all those places. The path is the one it began with, and it is all
the same whether recorders let the walk go on or lead it on. -/
theorem State.walk_records_in_preorder (rules : List Rule) (s : State) (tree : Node) :
    (s.walk rules tree).1.path = s.path ∧
    (∃ (places : List Place) (records : List Visit),
      (s.walk rules tree).1.visits = records.reverse ++ s.visits ∧
      records.map (fun record => (record.ancestors, record.node)) =
        places.map (fun place => (s.path.reverse ++ place.above, place.node)) ∧
      places.Pairwise (fun a b => List.Lex (· < ·) a.way b.way) ∧
      (∀ place ∈ places, tree.reach? place.way = some (place.above, place.node) ∧
        LeftToRecorder rules place.node) ∧
      ((s.walk rules tree).2 = none → (∀ types, .recorder types .withheld ∉ rules) →
        ∀ place : Place, tree.reach? place.way = some (place.above, place.node) →
          LeftToRecorder rules place.node → place ∈ places)) ∧
    s.walk (rules.map (.descending .onward)) tree = s.walk (rules.map (.descending .led)) tree := by
  obtain ⟨inside, hinside⟩ := @Node.exists_noted rules tree.children [] (tree :: s.path)
  obtain ⟨places, hplaces⟩ := Node.exists_noted_node hinside
  obtain ⟨records, hvisits, hprefix, hall⟩ := s.run_noted (tree.edits rules)
  refine ⟨walk_path s rules tree, ?_, ?_⟩
  · rw [hplaces.told] at hprefix hall
    -- the records made are those of the first places
    refine ⟨places.take records.length, records, hvisits, ?_, ?_, ?_, ?_⟩
    · rw [List.prefix_iff_eq_take.mp hprefix, List.length_map, List.map_take]
    · exact hplaces.ascending.sublist (List.take_sublist _ _)
    · intro place hplace
      obtain ⟨hhas, hnoted⟩ := hplaces.sound place (List.mem_of_mem_take hplace)
      exact ⟨hhas, isNoted_verdict_iff.mp hnoted⟩
    · intro hnone hled place hhas hleft
      have hcount : records.length = places.length := by
        simpa using congrArg List.length (hall hnone)
      rw [hcount, List.take_length]
      exact hplaces.complete (goesOn_verdict hled) place hhas (isNoted_verdict_iff.mpr hleft)
  · rw [walk, walk, Node.edits_congr (settle_descending rules)]

/-- Behind the rule for exports a recorder comes upon the values of exported variables, and upon
the import deep inside one of them, but not upon the export. -/
theorem State.walk_records_in_preorder_nested :
    let source := "export var f = () => \x7bimport 'a'\x7d, g = 1;"
    let imported := Node.importDecl ⟨⟨22, 32⟩, .bare, [], ⟨⟨29, 32⟩, "'a'"⟩⟩
    let arrow := Node.element .function ⟨15, 33⟩ [imported]
    let value := Node.element .expression ⟨15, 33⟩ [arrow]
    let exported := Node.exportVariables ⟨0, 41⟩ .var
      [.set ⟨11, 33⟩ "f" value, .set ⟨35, 40⟩ "g" (.element .expression ⟨39, 40⟩ [])]
    let tree := Node.element .program ⟨0, 41⟩ [exported]
    let rules : List Rule := [.exports,
      .recorder ["ExportDeclaration", "Expression", "ImportDeclaration"] .led, .imports]
    let walked := (State.start source {}).walk rules tree
    walked.2 = none ∧
      walked.1.visits.reverse.map (fun visit => (visit.node.typeName, visit.position)) =
        [("Expression", 15), ("ImportDeclaration", 15), ("Expression", 39)] ∧
      ∃ visit ∈ walked.1.visits, visit.node = imported ∧
        visit.ancestors = [tree, exported, value, arrow] := by
  intro source imported arrow value exported tree rules walked
  have hnone : walked.2 = none := by decide +kernel
  have hled : ∀ types, .recorder types .withheld ∉ rules := by simp [rules]
  have hleft : LeftToRecorder rules imported :=
    ⟨_, _, [.exports], [.imports], rfl, by decide, by decide⟩
  obtain ⟨-, ⟨places, records, hvisits, htold, -, -, hcomplete⟩, -⟩ :=
    State.walk_records_in_preorder rules (State.start source {}) tree
  have hplace := hcomplete hnone hled ⟨[0, 0, 0, 0], [tree, exported, value, arrow], imported⟩ rfl
    hleft
  have hrecord := List.mem_map_of_mem
    (f := fun place => ((State.start source {}).path.reverse ++ place.above, place.node)) hplace
  rw [← htold] at hrecord
  obtain ⟨visit, hvisit, heq⟩ := List.mem_map.mp hrecord
  obtain ⟨hancestors, hnode⟩ := Prod.mk.inj heq
  refine ⟨hnone, by decide +kernel, visit, ?_, hnode, hancestors⟩
  change visit ∈ ((State.start source {}).walk rules tree).1.visits
  rw [hvisits]
  exact List.mem_append_left _ (List.mem_reverse.mpr hvisit)

end ModSplice
