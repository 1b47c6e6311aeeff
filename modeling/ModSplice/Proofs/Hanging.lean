import ModSplice.Proofs.Nesting

/-!
# Nodes hung in one after the other

Where a node goes that is hung into a well-formed tree is told by the spans alone: down into the one
child that contains it as long as there is one, and else between the children in front of it and
those behind. So it ends below the deepest element around it, the tree stays well-formed, and two
nodes that are apart do not get in each other's way.
-/
namespace ModSplice

/-! ## The place among siblings -/

/-- The search by halving finds the place at which the elements change. -/
theorem partitionFrom_eq {α : Type} {p : α → Bool} {xs : List α} {base size n : Nat}
    (hp : ∀ i, (xs[i]?).any p = true ↔ i < n) (hbase : base ≤ n) (hn : n ≤ base + size) :
    partitionFrom p xs base size = n := by
  fun_induction partitionFrom p xs base size with
  | case1 base size hsize half next ih =>
    by_cases hhalf : base + half < n
    · have hnext : next = base + half := if_pos ((hp _).mpr hhalf)
      exact ih (by omega) (by omega)
    · have hnext : next = base := if_neg (mt (hp _).mp hhalf)
      exact ih (by omega) (by omega)
  | case2 base size hsize =>
    by_cases hlast : base < n
    · rw [if_pos ((hp _).mpr hlast)]
      omega
    · rw [if_neg (mt (hp _).mp hlast)]
      omega

theorem partitionPoint_append {α : Type} {p : α → Bool} {front back : List α}
    (hfront : ∀ x ∈ front, p x = true) (hback : ∀ x ∈ back, p x = false) :
    partitionPoint p (front ++ back) = front.length := by
  refine partitionFrom_eq ?_ (Nat.zero_le _) (by simp)
  intro i
  rcases Nat.lt_or_ge i front.length with hi | hi
  · rw [List.getElem?_append_left hi, List.getElem?_eq_getElem hi]
    exact iff_of_true (hfront _ (List.getElem_mem hi)) hi
  · rw [List.getElem?_append_right hi]
    refine iff_of_false ?_ (Nat.not_lt.mpr hi)
    cases hx : back[i - front.length]? with
    | none => simp
    | some x => simp [hback x (List.mem_of_getElem? hx)]

namespace Node

theorem place_append {x : Node} {front back : List Node}
    (hfront : ∀ node ∈ front, node.span.start < x.span.start)
    (hback : ∀ node ∈ back, x.span.start ≤ node.span.start) :
    place x (front ++ back) = front ++ x :: back := by
  have hpoint : partitionPoint (fun node => decide (node.span.start < x.span.start))
      (front ++ back) = front.length :=
    partitionPoint_append (fun node hnode => decide_eq_true (hfront node hnode))
      fun node hnode => decide_eq_false (Nat.not_lt.mpr (hback node hnode))
  rw [place, hpoint, insertIdx_of_le _ _ _ (by simp), List.take_left, List.drop_left]

end Node

/-! ## Nodes by their children -/

namespace Declarator

/-- The declarators with other values, taken from a list in order. -/
def refill : List Declarator → List Node → List Declarator
  | .set span name _ :: rest, value :: values => .set span name value :: refill rest values
  | .unset span name :: rest, values => .unset span name :: refill rest values
  | declarators, _ => declarators

end Declarator

namespace Node

/-- The node with other children; a declaration takes as many as it has. -/
def withChildren : Node → List Node → Node
  | .exportValue span target _, [value] => .exportValue span target value
  | .exportDefinition span kind name _ isDefault, [definition] =>
    .exportDefinition span kind name definition isDefault
  | .exportVariables span kind declarators, values =>
    .exportVariables span kind (Declarator.refill declarators values)
  | .element kind span _, children => .element kind span children
  | node, _ => node

@[simp] theorem withChildren_span (node : Node) (inner : List Node) :
    (node.withChildren inner).span = node.span := by
  unfold withChildren
  split <;> rfl

@[simp] theorem withChildren_isElement (node : Node) (inner : List Node) :
    (node.withChildren inner).isElement = node.isElement := by
  unfold withChildren
  split <;> rfl

def Takes (node : Node) (inner : List Node) : Prop :=
  node.isElement = false → inner.length = node.children.length

theorem refill_values {declarators : List Declarator} {values : List Node}
    (h : values.length = (declarators.filterMap Declarator.value?).length) :
    (Declarator.refill declarators values).filterMap Declarator.value? = values := by
  induction declarators generalizing values with
  | nil =>
    obtain rfl := List.length_eq_zero_iff.mp h
    rfl
  | cons declarator rest ih =>
    cases declarator with
    | unset span name => exact ih h
    | set span name value =>
      cases values with
      | nil => cases h
      | cons value' values => exact congrArg (value' :: ·) (ih (Nat.succ.inj h))

theorem refill_refill {declarators : List Declarator} {values values' : List Node}
    (h : values.length = values'.length) :
    Declarator.refill (Declarator.refill declarators values) values' =
      Declarator.refill declarators values' := by
  induction declarators generalizing values values' with
  | nil => cases values <;> rfl
  | cons declarator rest ih =>
    cases declarator with
    | unset span name => simp [Declarator.refill, ih h]
    | set span name value =>
      match values, values' with
      | [], [] => rfl
      | _ :: _, _ :: _ => simp [Declarator.refill, ih (Nat.succ.inj h)]

theorem refill_self (declarators : List Declarator) :
    Declarator.refill declarators (declarators.filterMap Declarator.value?) = declarators := by
  induction declarators with
  | nil => rfl
  | cons declarator rest ih =>
    cases declarator with
    | unset span name => exact congrArg (.unset span name :: ·) ih
    | set span name value => exact congrArg (.set span name value :: ·) ih

theorem withChildren_children {node : Node} {inner : List Node} (h : node.Takes inner) :
    (node.withChildren inner).children = inner := by
  cases node with
  | element => rfl
  | exportVariables span kind declarators => exact refill_values (h rfl)
  | exportValue | exportDefinition =>
    obtain ⟨value, rfl⟩ := List.length_eq_one_iff.mp (h rfl)
    rfl
  | importDecl | moduleDecl | exportNothing | exportAll | exportFrom | exportNames =>
    obtain rfl := List.length_eq_zero_iff.mp (h rfl)
    rfl

theorem withChildren_withChildren {node : Node} {inner inner' : List Node} (h : node.Takes inner)
    (h' : node.Takes inner') :
    (node.withChildren inner).withChildren inner' = node.withChildren inner' := by
  cases node with
  | element => rfl
  | exportVariables span kind declarators =>
    simp only [withChildren, refill_refill ((h rfl).trans (h' rfl).symm)]
  | exportValue | exportDefinition =>
    obtain ⟨value, rfl⟩ := List.length_eq_one_iff.mp (h rfl)
    obtain ⟨value', rfl⟩ := List.length_eq_one_iff.mp (h' rfl)
    rfl
  | importDecl | moduleDecl | exportNothing | exportAll | exportFrom | exportNames => rfl

/-! ## The search for the place -/

theorem attachToValue?_eq (x : Node) (declarators : List Declarator) :
    attachToValue? x declarators =
      (attachAmong? x (declarators.filterMap Declarator.value?)).map
        (Declarator.refill declarators) := by
  induction declarators with
  | nil => rfl
  | cons declarator rest ih =>
    cases declarator with
    | unset span name =>
      have hvalues : (Declarator.unset span name :: rest).filterMap Declarator.value? =
        rest.filterMap Declarator.value? := rfl
      rw [attachToValue?, ih, hvalues, Option.map_map]
      rfl
    | set span name value =>
      have hvalues : (Declarator.set span name value :: rest).filterMap Declarator.value? =
        value :: rest.filterMap Declarator.value? := rfl
      rw [attachToValue?, ih, hvalues, attachAmong?]
      cases attachInto? x value with
      | none =>
        simp only [Option.map_map]
        rfl
      | some value' =>
        rw [Option.map_some, Declarator.refill, refill_self]

/-- A node that contains another takes it in through its children. -/
theorem attachInto?_eq (x node : Node) :
    attachInto? x node =
      if node.span.contains x.span then
        if node.isElement then some (node.withChildren (attach node.children x))
        else (attachAmong? x node.children).map node.withChildren
      else none := by
  cases node with
  | element => rfl
  | exportVariables span kind declarators =>
    simp only [attachInto?, attachToValue?_eq, Option.map_map]
    rfl
  | exportValue span target value | exportDefinition span kind name value isDefault =>
    simp only [attachInto?, children, attachAmong?]
    cases attachInto? x value <;> rfl
  | importDecl | moduleDecl | exportNothing | exportAll | exportFrom | exportNames =>
    simp [attachInto?, children, attachAmong?, isElement]

/-- What a node asks of another that is to be hung into its tree: to be inside or outside as a
whole, and to be inside a declaration only as a part of what that has inside. -/
def Admits (node x : Node) : Prop :=
  (node.span.contains x.span = true ∨ node.span.Apart x.span) ∧
    (node.isElement = false → node.span.contains x.span = true →
      ∃ inner ∈ node.children, inner.span.contains x.span = true)
  deriving Decidable

/-- All nodes below a list ask no more than `x` can give. -/
def Fits (x : Node) (forest : List Node) : Prop :=
  ∀ node ∈ forest.flatMap nodes, node.Admits x

theorem fits_cons {x node : Node} {rest : List Node} :
    Fits x (node :: rest) ↔ node.Admits x ∧ Fits x node.children ∧ Fits x rest := by
  simp only [Fits]
  rw [List.flatMap_cons, nodes_eq, List.cons_append, List.forall_mem_cons, List.forall_mem_append]

/-- The place of a node in a list of trees, and the list with the node there. The flag says whether
the node may come into the list itself, or only below one of its members. -/
inductive Hung (x : Node) : Bool → List Node → List Node → Prop
  | last : Hung x true [] [x]
  | before {node : Node} {rest : List Node} :
    x.span.stop ≤ node.span.start → Hung x true (node :: rest) (x :: node :: rest)
  | after {isOpen : Bool} {node : Node} {rest rest' : List Node} :
    node.span.stop ≤ x.span.start → Hung x isOpen rest rest' →
    Hung x isOpen (node :: rest) (node :: rest')
  | into {isOpen : Bool} {node : Node} {rest inner : List Node} :
    node.span.contains x.span = true → Hung x node.isElement node.children inner →
    Hung x isOpen (node :: rest) (node.withChildren inner :: rest)

/-- A node that is apart from a list of trees is not taken in by any of them. -/
theorem attachAmong?_eq_none {x : Node} {forest : List Node}
    (h : ∀ node ∈ forest, node.span.contains x.span = false) : attachAmong? x forest = none := by
  induction forest with
  | nil => rfl
  | cons node rest ih =>
    have hnode : attachInto? x node = none := by
      rw [attachInto?_eq, h node (by simp)]
      rfl
    rw [attachAmong?, hnode, ih fun other hother => h other (by simp [hother])]
    rfl

/-- A node that is inside one of several trees is taken in there. -/
theorem attachAmong?_isSome {x : Node} {forest : List Node} (hfits : Fits x forest)
    (h : ∃ node ∈ forest, node.span.contains x.span = true) :
    ∃ after, attachAmong? x forest = some after := by
  induction forest using forest_induction with
  | nil => simp at h
  | cons node rest hinside hrest =>
    obtain ⟨⟨-, hinner⟩, hfits, hfits'⟩ := fits_cons.mp hfits
    by_cases hcontains : node.span.contains x.span = true
    · have hsome : ∃ node', attachInto? x node = some node' := by
        rw [attachInto?_eq, if_pos hcontains]
        cases helement : node.isElement with
        | true => exact ⟨_, rfl⟩
        | false =>
          obtain ⟨after, hafter⟩ := hinside hfits (hinner helement hcontains)
          exact ⟨node.withChildren after, by simp [hafter]⟩
      obtain ⟨node', hnode'⟩ := hsome
      exact ⟨node' :: rest, by rw [attachAmong?, hnode']⟩
    · obtain ⟨other, hother, hin⟩ := h
      rcases List.mem_cons.mp hother with rfl | hother
      · exact absurd hin hcontains
      · obtain ⟨after, hafter⟩ := hrest hfits' ⟨other, hother, hin⟩
        exact ⟨node :: after, by simp [attachAmong?, attachInto?_eq, hcontains, hafter]⟩

theorem attach_into {x node : Node} {rest : List Node} (hfits : Fits x (node :: rest))
    (hcontains : node.span.contains x.span = true) :
    attach (node :: rest) x = node.withChildren (attach node.children x) :: rest := by
  obtain ⟨⟨-, hinner⟩, hfits, -⟩ := fits_cons.mp hfits
  have hinto : attachInto? x node = some (node.withChildren (attach node.children x)) := by
    rw [attachInto?_eq, if_pos hcontains]
    cases helement : node.isElement with
    | true => rfl
    | false =>
      obtain ⟨after, hafter⟩ := attachAmong?_isSome hfits (hinner helement hcontains)
      simp [attach, hafter]
  rw [attach, attachAmong?, hinto]
  rfl

theorem not_contains_of_le {x node : Node} (hx : x.span.start < x.span.stop)
    (h : node.span.stop ≤ x.span.start) : node.span.contains x.span = false := by
  rw [Bool.eq_false_iff, ne_eq, Span.contains_iff]
  omega

theorem not_contains_of_ge {x node : Node} (hx : x.span.start < x.span.stop)
    (h : x.span.stop ≤ node.span.start) : node.span.contains x.span = false := by
  rw [Bool.eq_false_iff, ne_eq, Span.contains_iff]
  omega

/-- Siblings in order, up to a place and from there on. -/
theorem Nested.exists_split {forest : List Node} (h : Nested forest) (place : Nat) :
    ∃ front back, forest = front ++ back ∧ (∀ node ∈ front, node.span.start < place) ∧
      ∀ node ∈ back, place ≤ node.span.start := by
  induction h with
  | nil => exact ⟨[], [], rfl, by simp, by simp⟩
  | @cons node rest hsome hlater _ _ _ _ ih =>
    by_cases hnode : node.span.start < place
    · obtain ⟨front, back, rfl, hfront, hback⟩ := ih
      exact ⟨node :: front, back, rfl, List.forall_mem_cons.mpr ⟨hnode, hfront⟩, hback⟩
    · refine ⟨[], node :: rest, rfl, by simp, List.forall_mem_cons.mpr ⟨by omega, ?_⟩⟩
      intro later hmem
      have := hlater later hmem
      omega

theorem attach_after {x node : Node} {rest : List Node} (hnested : Nested (node :: rest))
    (hx : x.span.start < x.span.stop) (h : node.span.stop ≤ x.span.start) :
    attach (node :: rest) x = node :: attach rest x := by
  have hnone : attachInto? x node = none := by
    rw [attachInto?_eq, not_contains_of_le hx h]
    rfl
  cases hnested with
  | cons hsome _ _ _ hrest =>
    rw [attach, attach, attachAmong?, hnone]
    cases attachAmong? x rest with
    | some after => rfl
    | none =>
      obtain ⟨front, back, rfl, hfront, hback⟩ := hrest.exists_split x.span.start
      have hfront' : ∀ other ∈ node :: front, other.span.start < x.span.start :=
        List.forall_mem_cons.mpr ⟨by omega, hfront⟩
      have hplace := place_append hfront hback
      exact (place_append hfront' hback).trans (congrArg (node :: ·) hplace.symm)

theorem Nested.all_behind {node : Node} {rest : List Node} (h : Nested (node :: rest)) {place : Nat}
    (hplace : place ≤ node.span.start) : ∀ other ∈ node :: rest, place ≤ other.span.start := by
  cases h with
  | cons hsome hlater =>
    refine List.forall_mem_cons.mpr ⟨hplace, fun other hother => ?_⟩
    have := hlater other hother
    omega

theorem attach_before {x node : Node} {rest : List Node} (hnested : Nested (node :: rest))
    (hx : x.span.start < x.span.stop) (h : x.span.stop ≤ node.span.start) :
    attach (node :: rest) x = x :: node :: rest := by
  have hbehind := hnested.all_behind h
  have hnone : attachAmong? x (node :: rest) = none :=
    attachAmong?_eq_none fun other hother => not_contains_of_ge hx (hbehind other hother)
  have hplace : place x ([] ++ node :: rest) = [] ++ x :: node :: rest :=
    place_append (by simp) fun other hother =>
      Nat.le_trans (Nat.le_of_lt hx) (hbehind other hother)
  rw [attach, hnone]
  exact hplace

theorem attach_nil (x : Node) : attach [] x = [x] := by
  have hplace : place x ([] ++ []) = [] ++ [x] := place_append (by simp) (by simp)
  exact hplace

/-- The search finds the place. -/
theorem hung_attach {x : Node} {forest : List Node} {isOpen : Bool} (hnested : Nested forest)
    (hfits : Fits x forest) (hx : x.span.start < x.span.stop)
    (hopen : isOpen = true ∨ ∃ node ∈ forest, node.span.contains x.span = true) :
    Hung x isOpen forest (attach forest x) := by
  induction hnested generalizing isOpen with
  | nil =>
    obtain rfl : isOpen = true := by simpa using hopen
    rw [attach_nil]
    exact .last
  | @cons node rest hsome hlater hwithin hchildren hothers hinside hrest =>
    have hnested := Nested.cons hsome hlater hwithin hchildren hothers
    obtain ⟨⟨hin, hinner⟩, hfits', hfits''⟩ := fits_cons.mp hfits
    rcases hin with hcontains | hafter | hbefore
    · rw [attach_into hfits hcontains]
      refine .into hcontains (hinside hfits' ?_)
      cases helement : node.isElement with
      | true => exact .inl rfl
      | false => exact .inr (hinner helement hcontains)
    · rw [attach_after hnested hx hafter]
      refine .after hafter (hrest hfits'' ?_)
      refine hopen.imp_right ?_
      rintro ⟨other, hother, hcontains⟩
      rcases List.mem_cons.mp hother with rfl | hother
      · rw [not_contains_of_le hx hafter] at hcontains
        cases hcontains
      · exact ⟨other, hother, hcontains⟩
    · obtain rfl : isOpen = true := by
        refine hopen.resolve_right ?_
        rintro ⟨other, hother, hcontains⟩
        rw [not_contains_of_ge hx (hnested.all_behind hbefore other hother)] at hcontains
        cases hcontains
      rw [attach_before hnested hx hbefore]
      exact .before hbefore

namespace Hung

variable {x y node : Node} {isOpen : Bool} {forest after after' inner : List Node}

/-! ## What one node changes -/

theorem length_eq (h : Hung x isOpen forest after) (hclosed : isOpen = false) :
    after.length = forest.length := by
  induction h with
  | last | before => cases hclosed
  | after _ _ ih => rw [List.length_cons, List.length_cons, ih hclosed]
  | into => rfl

theorem takes (h : Hung x node.isElement node.children inner) : node.Takes inner :=
  h.length_eq

theorem withChildren_children (h : Hung x node.isElement node.children inner) :
    (node.withChildren inner).children = inner :=
  Node.withChildren_children h.takes

theorem exists_span (h : Hung x isOpen forest after) (hnode : node ∈ forest) :
    ∃ node' ∈ after, node'.span = node.span := by
  induction h with
  | last => cases hnode
  | before => exact ⟨node, List.mem_cons_of_mem _ hnode, rfl⟩
  | after _ _ ih =>
    rcases List.mem_cons.mp hnode with rfl | hnode
    · exact ⟨node, by simp, rfl⟩
    · obtain ⟨node', hnode', hspan⟩ := ih hnode
      exact ⟨node', by simp [hnode'], hspan⟩
  | into _ _ _ =>
    rcases List.mem_cons.mp hnode with rfl | hnode
    · exact ⟨_, List.mem_cons_self, withChildren_span _ _⟩
    · exact ⟨node, by simp [hnode], rfl⟩

theorem eq_or_exists_span (h : Hung x isOpen forest after) (hnode : node ∈ after) :
    node = x ∨ ∃ node' ∈ forest, node.span = node'.span := by
  induction h with
  | last => exact .inl (List.mem_singleton.mp hnode)
  | before => exact (List.mem_cons.mp hnode).imp_right fun hnode => ⟨node, hnode, rfl⟩
  | after _ _ ih =>
    rcases List.mem_cons.mp hnode with rfl | hnode
    · exact .inr ⟨node, by simp, rfl⟩
    · refine (ih hnode).imp_right ?_
      rintro ⟨node', hnode', hspan⟩
      exact ⟨node', by simp [hnode'], hspan⟩
  | into _ _ _ =>
    rcases List.mem_cons.mp hnode with rfl | hnode
    · exact .inr ⟨_, List.mem_cons_self, withChildren_span _ _⟩
    · exact .inr ⟨node, by simp [hnode], rfl⟩

/-- Spans that nest still do with one more that has nothing inside. -/
theorem nested (h : Hung x isOpen forest after) (hnested : Nested forest)
    (hx : x.span.start < x.span.stop) (hleaf : x.children = []) : Nested after := by
  have hinside : Nested x.children := hleaf ▸ .nil
  induction h with
  | last => exact .cons hx (by simp) (by simp [hleaf]) hinside .nil
  | before hbefore => exact .cons hx (hnested.all_behind hbefore) (by simp [hleaf]) hinside hnested
  | after hafter hrest ih =>
    cases hnested with
    | cons hsome hlater hwithin hchildren hothers =>
      refine .cons hsome (fun later hmem => ?_) hwithin hchildren (ih hothers)
      rcases hrest.eq_or_exists_span hmem with rfl | ⟨other, hother, hspan⟩
      · exact hafter
      · rw [hspan]
        exact hlater other hother
  | into hcontains hchild ih =>
    cases hnested with
    | cons hsome hlater hwithin hchildren hothers =>
      refine .cons ?_ ?_ ?_ ?_ hothers
      · rwa [withChildren_span]
      · rwa [withChildren_span]
      · rw [withChildren_span, hchild.withChildren_children]
        intro child hmem
        rcases hchild.eq_or_exists_span hmem with rfl | ⟨other, hother, hspan⟩
        · exact hcontains
        · rw [hspan]
          exact hwithin other hother
      · rw [hchild.withChildren_children]
        exact ih hchildren

/-- A node that fits still does when another one has been hung in apart from it. -/
theorem fits (h : Hung x isOpen forest after) (hfits : Fits y forest)
    (hapart : x.span.Apart y.span) (hy : y.span.start < y.span.stop) (hleaf : x.children = []) :
    Fits y after := by
  have hadmits : x.Admits y := by
    refine ⟨.inr hapart, fun _ hcontains => ?_⟩
    rw [Span.contains_iff] at hcontains
    rcases hapart with hapart | hapart <;> omega
  have hinside : Fits y x.children := by simp [Fits, hleaf]
  induction h with
  | last => exact fits_cons.mpr ⟨hadmits, hinside, hfits⟩
  | before => exact fits_cons.mpr ⟨hadmits, hinside, hfits⟩
  | after _ _ ih =>
    obtain ⟨hnode, hchildren, hrest⟩ := fits_cons.mp hfits
    exact fits_cons.mpr ⟨hnode, hchildren, ih hrest⟩
  | @into _ node _ inner hcontains hchild ih =>
    obtain ⟨⟨hin, hinner⟩, hchildren, hrest⟩ := fits_cons.mp hfits
    have hadmits' : (node.withChildren inner).Admits y := by
      rw [Admits, withChildren_span, withChildren_isElement, hchild.withChildren_children]
      refine ⟨hin, fun helement hcontains => ?_⟩
      obtain ⟨child, hmem, hchildContains⟩ := hinner helement hcontains
      obtain ⟨child', hmem', hspan⟩ := hchild.exists_span hmem
      exact ⟨child', hmem', hspan ▸ hchildContains⟩
    refine fits_cons.mpr ⟨hadmits', ?_, hrest⟩
    rw [hchild.withChildren_children]
    exact ih hchildren

/-- There is one place only. -/
theorem unique (h : Hung x isOpen forest after) (h' : Hung x isOpen forest after')
    (hnested : Nested forest) (hx : x.span.start < x.span.stop) : after = after' := by
  induction h generalizing after' with
  | last =>
    cases h' with
    | last => rfl
  | before hbefore =>
    cases hnested with
    | cons hsome =>
      cases h' with
      | before => rfl
      | after hafter => omega
      | into hcontains =>
        rw [Span.contains_iff] at hcontains
        omega
  | after hafter hrest ih =>
    cases hnested with
    | cons hsome _ _ _ hothers =>
      cases h' with
      | before hbefore => omega
      | after _ hrest' => rw [ih hrest' hothers]
      | into hcontains =>
        rw [Span.contains_iff] at hcontains
        omega
  | into hcontains hchild ih =>
    cases hnested with
    | cons hsome _ _ hchildren =>
      have hbounds := Span.contains_iff.mp hcontains
      cases h' with
      | before hbefore => omega
      | after hafter => omega
      | into _ hchild' => rw [ih hchild' hchildren]

/-! ## Two nodes in either order -/

/-- A second node goes into the same node as the first one. -/
theorem into_again {rest both : List Node} (h : Hung x node.isElement node.children inner)
    (hcontains : node.span.contains y.span = true) (h' : Hung y node.isElement inner both) :
    Hung y isOpen (node.withChildren inner :: rest) (node.withChildren both :: rest) := by
  have hboth : node.Takes both := fun hclosed => (h'.length_eq hclosed).trans (h.length_eq hclosed)
  rw [← withChildren_withChildren h.takes hboth]
  refine .into (by rwa [withChildren_span]) ?_
  rwa [withChildren_isElement, h.withChildren_children]

/-- Two nodes that are apart can be hung in in either order, with the same result. -/
theorem diamond (h : Hung x isOpen forest after) (h' : Hung y isOpen forest after')
    (hapart : x.span.Apart y.span) (hnested : Nested forest) :
    ∃ both, Hung y isOpen after both ∧ Hung x isOpen after' both := by
  induction h generalizing after' with
  | last =>
    cases h' with
    | last =>
      rcases hapart with hapart | hapart
      · exact ⟨[x, y], .after hapart .last, .before hapart⟩
      · exact ⟨[y, x], .before hapart, .after hapart .last⟩
  | @before node rest hbefore =>
    cases hnested with
    | cons hsome =>
      cases h' with
      | before hbefore' =>
        rcases hapart with hapart | hapart
        · exact ⟨x :: y :: node :: rest, .after hapart (.before hbefore'), .before hapart⟩
        · exact ⟨y :: x :: node :: rest, .before hapart, .after hapart (.before hbefore)⟩
      | @after _ _ _ rest' hafter' hrest' =>
        exact ⟨x :: node :: rest', .after (by omega) (.after hafter' hrest'), .before hbefore⟩
      | @into _ _ _ inner' hcontains' hchild' =>
        have hbounds := Span.contains_iff.mp hcontains'
        exact ⟨x :: node.withChildren inner' :: rest,
          .after (by omega) (.into hcontains' hchild'), .before (by simpa using hbefore)⟩
  | @after _ node rest rest' hafter hrest ih =>
    cases hnested with
    | cons hsome _ _ _ hothers =>
      cases h' with
      | before hbefore' =>
        exact ⟨y :: node :: rest', .before hbefore', .after (by omega) (.after hafter hrest)⟩
      | after hafter' hrest' =>
        obtain ⟨both, hy, hx⟩ := ih hrest' hothers
        exact ⟨node :: both, .after hafter' hy, .after hafter hx⟩
      | @into _ _ _ inner' hcontains' hchild' =>
        exact ⟨node.withChildren inner' :: rest', .into hcontains' hchild',
          .after (by simpa using hafter) hrest⟩
  | @into _ node rest inner hcontains hchild ih =>
    cases hnested with
    | cons hsome _ _ hchildren =>
      have hbounds := Span.contains_iff.mp hcontains
      cases h' with
      | before hbefore' =>
        exact ⟨y :: node.withChildren inner :: rest, .before (by simpa using hbefore'),
          .after (by omega) (.into hcontains hchild)⟩
      | @after _ _ _ rest' hafter' hrest' =>
        exact ⟨node.withChildren inner :: rest', .after (by simpa using hafter') hrest',
          .into hcontains hchild⟩
      | @into _ _ _ inner' hcontains' hchild' =>
        obtain ⟨both, hy, hx⟩ := ih hchild' hchildren
        exact ⟨node.withChildren both :: rest, hchild.into_again hcontains' hy,
          hchild'.into_again hcontains hx⟩

end Hung

/-! ## The deepest element -/

def Deepest (outline : List (Nat × Node)) (span : Span) (entry : Nat × Node) : Prop :=
  (entry ∈ outline ∧ entry.2.isElement = true ∧ entry.2.span.contains span = true) ∧
    ∀ other ∈ outline, other.2.isElement = true → other.2.span.contains span = true →
      other = entry ∨ other.1 < entry.1

def Clear (outline : List (Nat × Node)) (span : Span) : Prop :=
  ∀ entry ∈ outline, entry.2.isElement = true → entry.2.span.contains span = false

theorem Clear.append {a b : List (Nat × Node)} {span : Span} (ha : Clear a span)
    (hb : Clear b span) : Clear (a ++ b) span :=
  List.forall_mem_append.mpr ⟨ha, hb⟩

theorem Deepest.of_clear {a b c : List (Nat × Node)} {span : Span} {entry : Nat × Node}
    (h : Deepest b span entry) (ha : Clear a span) (hc : Clear c span) :
    Deepest (a ++ b ++ c) span entry := by
  obtain ⟨⟨hmem, helement, hcontains⟩, hothers⟩ := h
  refine ⟨⟨by simp [hmem], helement, hcontains⟩, ?_⟩
  intro other hother hotherElement hotherContains
  rcases List.mem_append.mp hother with hother | hother
  · rcases List.mem_append.mp hother with hother | hother
    · rw [ha other hother hotherElement] at hotherContains
      cases hotherContains
    · exact hothers other hother hotherElement hotherContains
  · rw [hc other hother hotherElement] at hotherContains
    cases hotherContains

/-- An element in front of others that do not contain the bytes. -/
theorem Clear.deepest {outline : List (Nat × Node)} {span : Span} {entry : Nat × Node}
    (h : Clear outline span) (helement : entry.2.isElement = true)
    (hcontains : entry.2.span.contains span = true) : Deepest (entry :: outline) span entry := by
  refine ⟨⟨by simp, helement, hcontains⟩, ?_⟩
  intro other hother hotherElement hotherContains
  rcases List.mem_cons.mp hother with rfl | hother
  · exact .inl rfl
  · rw [h other hother hotherElement] at hotherContains
    cases hotherContains

theorem Deepest.cons {outline : List (Nat × Node)} {span : Span} {entry above : Nat × Node}
    (h : Deepest outline span entry) (hdepth : above.1 < entry.1) :
    Deepest (above :: outline) span entry := by
  obtain ⟨⟨hmem, helement, hcontains⟩, hothers⟩ := h
  refine ⟨⟨by simp [hmem], helement, hcontains⟩, ?_⟩
  intro other hother hotherElement hotherContains
  rcases List.mem_cons.mp hother with rfl | hother
  · exact .inr hdepth
  · exact hothers other hother hotherElement hotherContains

theorem le_depth {forest : List Node} {depth : Nat} {entry : Nat × Node}
    (h : entry ∈ forest.flatMap (outline depth)) : depth ≤ entry.1 := by
  induction forest using forest_induction generalizing depth with
  | nil => simp at h
  | cons node rest hinside hrest =>
    rw [List.flatMap_cons, outline_eq, List.cons_append, List.mem_cons, List.mem_append] at h
    rcases h with rfl | h | h
    · exact Nat.le_refl _
    · exact Nat.le_of_succ_le (hinside h)
    · exact hrest h

theorem clear_outline {forest : List Node} {span : Span} (depth : Nat)
    (h : ∀ node ∈ forest.flatMap nodes, node.span.contains span = false) :
    Clear (forest.flatMap (outline depth)) span := by
  intro entry hentry _
  apply h
  rw [← map_outline forest depth]
  exact List.mem_map_of_mem hentry

/-- Where the search ends, no element is left that could take the node. -/
theorem Hung.deepest {x : Node} {isOpen : Bool} {forest after : List Node}
    (h : Hung x isOpen forest after) (hnested : Nested forest) (hx : x.span.start < x.span.stop)
    (hleaf : x.children = []) (hdeclaration : x.isElement = false) (depth : Nat) :
    (isOpen = true ∧ x ∈ after ∧ Clear (after.flatMap (outline depth)) x.span) ∨
      ∃ entry, Deepest (after.flatMap (outline depth)) x.span entry ∧ x ∈ entry.2.children := by
  have hself (depth : Nat) : Clear (x.outline depth) x.span := by
    rw [outline_eq, hleaf]
    simp [Clear, hdeclaration]
  induction h generalizing depth with
  | last => exact .inl ⟨rfl, by simp, by simpa using hself depth⟩
  | @before node rest hbefore =>
    refine .inl ⟨rfl, by simp, (hself depth).append (clear_outline depth fun inner hinner => ?_)⟩
    obtain ⟨other, hother, hcontains⟩ := hnested.within hinner
    have hstart := hnested.all_behind hbefore other hother
    exact not_contains_of_ge hx (Nat.le_trans hstart (Span.contains_iff.mp hcontains).1)
  | @after isOpen node rest rest' hafter hrest ih =>
    have hnode : Clear (node.outline depth) x.span := by
      have hclear : Clear ([node].flatMap (outline depth)) x.span :=
        clear_outline depth fun inner hinner => by
          have hcontains := hnested.contains_of_mem (by simpa using hinner)
          exact not_contains_of_le hx (Nat.le_trans (Span.contains_iff.mp hcontains).2 hafter)
      simpa using hclear
    cases hnested with
    | cons _ _ _ _ hothers =>
      rw [List.flatMap_cons]
      rcases ih hothers depth with ⟨hopen, hmem, hclear⟩ | ⟨entry, hdeepest, hmem⟩
      · exact .inl ⟨hopen, by simp [hmem], hnode.append hclear⟩
      · refine .inr ⟨entry, ?_, hmem⟩
        simpa using hdeepest.of_clear hnode (List.forall_mem_nil _)
  | @into isOpen node rest inner hcontains hchild ih =>
    have hrest : Clear (rest.flatMap (outline depth)) x.span :=
      clear_outline depth fun other hother =>
        not_contains_of_ge hx
          (Nat.le_trans (Span.contains_iff.mp hcontains).2 (hnested.stop_le hother))
    cases hnested with
    | cons _ _ _ hchildren _ =>
      have houtline : (node.withChildren inner).outline depth =
          (depth, node.withChildren inner) :: inner.flatMap (outline (depth + 1)) := by
        rw [outline_eq, hchild.withChildren_children]
      rw [List.flatMap_cons, houtline, ← List.nil_append (_ :: _)]
      rcases ih hchildren (depth + 1) with ⟨hopen, hmem, hclear⟩ | ⟨entry, hdeepest, hmem⟩
      · refine .inr ⟨(depth, node.withChildren inner), ?_, by rwa [hchild.withChildren_children]⟩
        exact (hclear.deepest (by simpa using hopen) (by simpa using hcontains)).of_clear
          (List.forall_mem_nil _) hrest
      · refine .inr ⟨entry, ?_, hmem⟩
        exact (hdeepest.cons (le_depth hdeepest.1.1)).of_clear (List.forall_mem_nil _) hrest

/-! ## Nodes one after the other -/

structure Ready (xs forest : List Node) : Prop where
  nested : Nested forest
  nonempty : ∀ x ∈ xs, x.span.start < x.span.stop
  leaf : ∀ x ∈ xs, x.children = []
  fits : ∀ x ∈ xs, Fits x forest
  apart : xs.Pairwise fun x y => x.span.Apart y.span

namespace Ready

variable {x y : Node} {xs ys forest : List Node}

theorem hung (h : Ready (x :: xs) forest) : Hung x true forest (attach forest x) :=
  hung_attach h.nested (h.fits x (by simp)) (h.nonempty x (by simp)) (.inl rfl)

/-- One node less is left, and the others are as well off as before. -/
theorem step (h : Ready (x :: xs) forest) : Ready xs (attach forest x) := by
  have hx := h.nonempty x (by simp)
  have hleaf := h.leaf x (by simp)
  obtain ⟨hapart, hrest⟩ := List.pairwise_cons.mp h.apart
  refine ⟨h.hung.nested h.nested hx hleaf, ?_, ?_, ?_, hrest⟩
  · exact fun y hy => h.nonempty y (by simp [hy])
  · exact fun y hy => h.leaf y (by simp [hy])
  · intro y hy
    exact h.hung.fits (h.fits y (by simp [hy])) (hapart y hy) (h.nonempty y (by simp [hy])) hleaf

theorem perm (h : Ready xs forest) (hperm : xs.Perm ys) : Ready ys forest :=
  ⟨h.nested, fun x hx => h.nonempty x (hperm.mem_iff.mpr hx),
    fun x hx => h.leaf x (hperm.mem_iff.mpr hx), fun x hx => h.fits x (hperm.mem_iff.mpr hx),
    h.apart.perm hperm Span.Apart.symm⟩

theorem swap (h : Ready (x :: y :: xs) forest) :
    attach (attach forest x) y = attach (attach forest y) x := by
  have h' : Ready (y :: x :: xs) forest := h.perm (.swap y x xs)
  have hapart := (List.pairwise_cons.mp h.apart).1 y (by simp)
  obtain ⟨both, hy, hx⟩ := h.hung.diamond h'.hung hapart h.nested
  calc
    attach (attach forest x) y = both :=
      h.step.hung.unique hy h.step.nested (h'.nonempty y (by simp))
    _ = attach (attach forest y) x :=
      (h'.step.hung.unique hx h'.step.nested (h.nonempty x (by simp))).symm

theorem foldl (h : Ready (xs ++ ys) forest) : Ready ys (xs.foldl attach forest) := by
  induction xs generalizing forest with
  | nil => exact h
  | cons x xs ih => exact ih h.step

theorem foldl_perm (h : Ready xs forest) (hperm : xs.Perm ys) :
    xs.foldl attach forest = ys.foldl attach forest := by
  induction hperm generalizing forest with
  | nil => rfl
  | cons x _ ih => exact ih h.step
  | swap x y xs => rw [List.foldl_cons, List.foldl_cons, List.foldl_cons, List.foldl_cons, h.swap]
  | trans hperm _ ih ih' => exact (ih h).trans (ih' (h.perm hperm))

/-- Any of the nodes can be taken to be the last one. -/
theorem foldl_eq_attach (h : Ready xs forest) (hx : x ∈ xs) :
    ∃ before, Ready [x] before ∧ xs.foldl attach forest = attach before x := by
  obtain ⟨front, back, rfl⟩ := List.append_of_mem hx
  have hperm : (front ++ x :: back).Perm (front ++ back ++ [x]) :=
    List.perm_middle.trans (List.perm_append_singleton x _).symm
  refine ⟨(front ++ back).foldl attach forest, (h.perm hperm).foldl, ?_⟩
  rw [h.foldl_perm hperm, List.foldl_append]
  rfl

theorem foldl_within {span : Span} (h : Ready xs forest)
    (hforest : ∀ node ∈ forest, span.contains node.span = true)
    (hxs : ∀ x ∈ xs, span.contains x.span = true) :
    ∀ node ∈ xs.foldl attach forest, span.contains node.span = true := by
  induction xs generalizing forest with
  | nil => exact hforest
  | cons x xs ih =>
    refine ih h.step (fun node hnode => ?_) fun y hy => hxs y (by simp [hy])
    rcases h.hung.eq_or_exists_span hnode with rfl | ⟨other, hother, hspan⟩
    · exact hxs node (by simp)
    · rw [hspan]
      exact hforest other hother

end Ready

def isOlderForm : Node → Bool
  | .moduleDecl _ => true
  | .exportNothing _ _ => true
  | _ => false

theorem isOlderForm_leaf {x : Node} (h : x.isOlderForm = true) :
    x.children = [] ∧ x.isElement = false := by
  cases x with
  | moduleDecl | exportNothing => exact ⟨rfl, rfl⟩
  | _ => cases h

/-- Declarations in the older forms that are hung into a well-formed tree one after the other, each
inside or outside of every node as a whole: the tree stays well-formed, its declarations stand in
the order of the text, each of the new ones is a child of the deepest element around it, and the
order in which they are hung in makes no difference. -/
theorem attach_wellFormed (span : Span) (siblings xs : List Node)
    (htree : (element .program span siblings).WellFormed)
    (hforms : ∀ x ∈ xs, x.isOlderForm = true)
    (hnonempty : ∀ x ∈ xs, x.span.start < x.span.stop)
    (hinside : ∀ x ∈ xs, span.contains x.span = true)
    (hapart : xs.Pairwise fun x y => x.span.Apart y.span)
    (hadmits : ∀ x ∈ xs, ∀ node ∈ (element .program span siblings).nodes, node.Admits x) :
    let tree := element .program span (xs.foldl attach siblings)
    tree.WellFormed ∧
      ((tree.nodes.filter fun node => !node.isElement).Pairwise fun a b =>
        a.span.start ≤ b.span.start) ∧
      (∀ x ∈ xs, ∃ entry, Deepest (tree.outline 0) x.span entry ∧ x ∈ entry.2.children) ∧
      ∀ ys : List Node, ys.Perm xs → element .program span (ys.foldl attach siblings) = tree := by
  intro tree
  obtain ⟨hnested, hwithin⟩ := (wellFormed_iff_nested _).mp htree
  have hready : Ready xs siblings := by
    refine ⟨hnested, hnonempty, fun x hx => (isOlderForm_leaf (hforms x hx)).1, ?_, hapart⟩
    intro x hx node hnode
    apply hadmits x hx node
    rw [nodes_eq]
    exact List.mem_cons_of_mem _ hnode
  have hafter : Nested (xs.foldl attach siblings) := by
    have hall : Ready (xs ++ []) siblings := by rwa [List.append_nil]
    exact hall.foldl.nested
  refine ⟨(wellFormed_iff_nested _).mpr ⟨hafter, hready.foldl_within hwithin hinside⟩, ?_, ?_, ?_⟩
  · rw [nodes_eq, List.filter_cons_of_neg (by simp [tree, isElement])]
    exact hafter.sorted.filter _
  · intro x hx
    obtain ⟨hleaf, hdeclaration⟩ := isOlderForm_leaf (hforms x hx)
    obtain ⟨before, hlast, hsame⟩ := hready.foldl_eq_attach hx
    have houtline : tree.outline 0 = (0, tree) :: (attach before x).flatMap (outline 1) := by
      rw [outline_eq, ← hsame]
      rfl
    rw [houtline]
    rcases hlast.hung.deepest hlast.nested (hnonempty x hx) hleaf hdeclaration 1 with
      ⟨-, hmem, hclear⟩ | ⟨entry, hdeepest, hmem⟩
    · refine ⟨(0, tree), hclear.deepest rfl (hinside x hx), ?_⟩
      simpa [tree, children, hsame] using hmem
    · exact ⟨entry, hdeepest.cons (le_depth hdeepest.1.1), hmem⟩
  · intro ys hperm
    rw [← hready.foldl_perm hperm.symm]

/-- Two declarations inside the value of an exported variable and one behind the export. -/
theorem attach_wellFormed_nested :
    let value := element .expression ⟨15, 70⟩ [element .function ⟨15, 70⟩ []]
    let siblings := [exportVariables ⟨0, 71⟩ .var [.unset ⟨11, 12⟩ "e", .set ⟨13, 70⟩ "f" value]]
    let inner := moduleDecl ⟨⟨29, 48⟩, "m", ⟨⟨43, 46⟩, "'m'"⟩⟩
    let second := moduleDecl ⟨⟨49, 68⟩, "n", ⟨⟨64, 67⟩, "'n'"⟩⟩
    let outer := exportNothing ⟨72, 87⟩ "default"
    let tree := element .program ⟨0, 87⟩ ([outer, second, inner].foldl attach siblings)
    (element .program ⟨0, 87⟩ siblings).WellFormed ∧ tree.WellFormed ∧
      (∃ entry, Deepest (tree.outline 0) inner.span entry ∧ inner ∈ entry.2.children) ∧
      element .program ⟨0, 87⟩ ([inner, second, outer].foldl attach siblings) = tree := by
  intro value siblings inner second outer tree
  have hbefore : (element .program ⟨0, 87⟩ siblings).WellFormed := by decide +kernel
  obtain ⟨hafter, -, hdeepest, hperm⟩ := attach_wellFormed ⟨0, 87⟩ siblings [outer, second, inner]
    hbefore (by decide) (by decide) (by decide) (by decide) (by decide +kernel)
  exact ⟨hbefore, hafter, hdeepest inner (by simp),
    hperm _ (List.reverse_perm [outer, second, inner])⟩

end Node
end ModSplice
