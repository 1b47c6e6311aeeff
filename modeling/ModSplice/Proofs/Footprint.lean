import ModSplice.Proofs.Runs

/-!
# The text and the path of a run

Edits on the text and edits on the path do not meddle with each other. What a run does to the text,
and which fault it ends in, is told by the former alone. The path after a run is told by the latter,
whether the run ends in a fault or not; a walk leaves every node it has entered, so its path is the
one it began with.
-/
namespace ModSplice

namespace Edit

def isTextual : Edit → Bool
  | .copyTo _ | .skipTo _ | .insert _ | .refuse _ => true
  | .enter _ | .leave | .note _ => false

theorem quiet_of_not_isTextual {edit : Edit} (h : edit.isTextual = false) : edit.Quiet := by
  cases edit with
  | enter | leave | note => trivial
  | _ => cases h

def lead (path : List Node) : Edit → List Node
  | .enter node => node :: path
  | .leave => path.tail
  | _ => path

def isNote : Edit → Bool
  | .note _ => true
  | _ => false

end Edit

def textual (edits : List Edit) : List Edit :=
  edits.filter Edit.isTextual

@[simp] theorem textual_append (a b : List Edit) : textual (a ++ b) = textual a ++ textual b :=
  List.filter_append ..

theorem textual_flatMap {α : Type} (items : List α) (edits : α → List Edit) :
    textual (items.flatMap edits) = items.flatMap fun item => textual (edits item) :=
  List.filter_flatMap ..

@[simp] theorem textual_within (node : Node) (inside : List Edit) :
    textual (within node inside) = textual inside := by
  simp [within, textual, Edit.isTextual]

/-- The edits on the text around a part that is kept. -/
theorem textual_keepPart (node part : Node) (inside : List Edit) :
    textual (keepPart node part inside) =
      .skipTo part.span.start :: (textual inside ++ [.copyTo part.span.stop]) := by
  have hpart : keepPart node part inside =
      [.skipTo part.span.start] ++ (within node inside ++ [.copyTo part.span.stop]) := rfl
  rw [hpart, textual_append, textual_append, textual_within]
  rfl

theorem textual_valueEdits (node : Node) (span : Span) (target : String) (value : Node)
    (inside : List Edit) :
    textual (valueEdits node span target value inside) =
      [.copyTo span.start, .insert (.assign target), .skipTo value.span.start] ++
        textual inside ++ [.copyTo value.span.stop] ++
        (if value.isDefinition && value.span.stop == span.stop then [.insert .semicolon]
          else []) := by
  rw [valueEdits, textual_append, textual_append, textual_keepPart]
  split <;> simp [textual, List.filter_cons, Edit.isTextual]

theorem textual_definitionEdits (node : Node) (span : Span) (name : String) (definition : Node)
    (isDefault : Bool) (inside : List Edit) :
    textual (definitionEdits node span name definition isDefault inside) =
      [.copyTo span.start, .skipTo definition.span.start] ++ textual inside ++
        [.copyTo definition.span.stop, .insert (.publish name isDefault), .skipTo span.stop] := by
  have hedits : definitionEdits node span name definition isDefault inside =
      [.copyTo span.start] ++ (keepPart node definition inside ++
        [.insert (.publish name isDefault), .skipTo span.stop]) := rfl
  rw [hedits, textual_append, textual_append, textual_keepPart]
  simp [textual, List.filter_cons, Edit.isTextual]

theorem textual_declaratorLead (kind? : Option VarKind) (start : Nat) :
    textual (declaratorLead kind? start) = declaratorLead kind? start := by
  cases kind? <;> rfl

namespace State

/-! ## The text -/

theorem foldl_pass_sameText (edits : List Edit) (s : State) : s.SameText (edits.foldl pass s) := by
  induction edits generalizing s with
  | nil => exact ⟨rfl, rfl, rfl⟩
  | cons edit rest ih =>
    have hstep : s.SameText (s.pass edit) := by cases edit <;> exact ⟨rfl, rfl, rfl⟩
    exact hstep.trans (ih (s.pass edit))

/-- Whether an edit fails does not depend on the path and the notes. -/
theorem apply_error_congr {s t : State} {edit : Edit} {fault : Fault} (hs : s.SameText t)
    (h : s.apply edit = .error fault) : t.apply edit = .error fault := by
  cases edit with
  | copyTo offset =>
    simp only [apply, hs.cursor] at h ⊢
    cases hmove : s.cursor.copyTo offset with
    | ok cursor =>
      rw [hmove] at h
      cases h
    | error other =>
      rw [hmove] at h
      exact h
  | skipTo offset =>
    simp only [apply, hs.cursor] at h ⊢
    cases hmove : s.cursor.skipTo offset with
    | ok cursor =>
      rw [hmove] at h
      cases h
    | error other =>
      rw [hmove] at h
      exact h
  | refuse cause => exact h
  | insert | enter | leave | note => cases h

/-- What a run does to the text is told by the edits that concern it. -/
theorem run_textual (edits : List Edit) {s t : State} (hs : s.SameText t) :
    (s.run edits).1.SameText (t.run (textual edits)).1 ∧
      (s.run edits).2 = (t.run (textual edits)).2 := by
  induction edits generalizing s t with
  | nil => exact ⟨hs, rfl⟩
  | cons edit rest ih =>
    by_cases htext : edit.isTextual = true
    · rw [textual, List.filter_cons_of_pos htext, ← textual]
      cases hedit : s.apply edit with
      | ok next =>
        obtain ⟨next', hedit', hnext⟩ := apply_congr hs hedit
        simp only [run, hedit, hedit']
        exact ih hnext
      | error fault =>
        simp only [run, hedit, apply_error_congr hs hedit]
        have hleft := foldl_pass_sameText rest s
        have hright := foldl_pass_sameText (textual rest) t
        exact ⟨(hleft.symm.trans hs).trans hright, trivial⟩
    · rw [Bool.not_eq_true] at htext
      obtain ⟨next, hedit, hnext⟩ := s.apply_quiet (Edit.quiet_of_not_isTextual htext)
      rw [textual, List.filter_cons_of_neg (by simp [htext]), ← textual]
      simp only [run, hedit]
      exact ih (hnext.symm.trans hs)

/-! ## The path and the notes -/

theorem pass_path (s : State) (edit : Edit) : (s.pass edit).path = edit.lead s.path := by
  cases edit <;> rfl

theorem foldl_pass_path (edits : List Edit) (s : State) :
    (edits.foldl pass s).path = edits.foldl Edit.lead s.path := by
  induction edits generalizing s with
  | nil => rfl
  | cons edit rest ih => rw [List.foldl_cons, List.foldl_cons, ih, pass_path]

theorem apply_path {s t : State} {edit : Edit} (h : s.apply edit = .ok t) :
    t.path = edit.lead s.path := by
  cases edit with
  | copyTo offset =>
    obtain ⟨-, rfl⟩ := (apply_copyTo_eq_ok s t offset).mp h
    rfl
  | skipTo offset =>
    obtain ⟨-, rfl⟩ := (apply_skipTo_eq_ok s t offset).mp h
    rfl
  | refuse => cases h
  | insert | enter | leave | note =>
    obtain rfl := Except.ok.inj h
    rfl

/-- After a fault the path is kept in step, so it does not matter where a run stops. -/
theorem run_path (edits : List Edit) (s : State) :
    (s.run edits).1.path = edits.foldl Edit.lead s.path := by
  induction edits generalizing s with
  | nil => rfl
  | cons edit rest ih =>
    cases hedit : s.apply edit with
    | ok next =>
      simp only [run, hedit, List.foldl_cons]
      rw [ih, apply_path hedit]
    | error fault =>
      have hstill : edit.lead s.path = s.path := by
        cases edit with
        | enter | leave => cases hedit
        | _ => rfl
      simp only [run, hedit, List.foldl_cons, hstill, foldl_pass_path]

theorem foldl_pass_visits (edits : List Edit) (s : State) :
    (edits.foldl pass s).visits = s.visits := by
  induction edits generalizing s with
  | nil => rfl
  | cons edit rest ih =>
    rw [List.foldl_cons, ih]
    cases edit <;> rfl

theorem apply_visits {s t : State} {edit : Edit} (hnote : edit.isNote = false)
    (h : s.apply edit = .ok t) : t.visits = s.visits := by
  cases edit with
  | copyTo offset =>
    obtain ⟨-, rfl⟩ := (apply_copyTo_eq_ok s t offset).mp h
    rfl
  | skipTo offset =>
    obtain ⟨-, rfl⟩ := (apply_skipTo_eq_ok s t offset).mp h
    rfl
  | refuse => cases h
  | note => cases hnote
  | insert | enter | leave =>
    obtain rfl := Except.ok.inj h
    rfl

theorem run_visits {edits : List Edit} (hnotes : ∀ edit ∈ edits, edit.isNote = false) (s : State) :
    (s.run edits).1.visits = s.visits := by
  induction edits generalizing s with
  | nil => rfl
  | cons edit rest ih =>
    rw [List.forall_mem_cons] at hnotes
    cases hedit : s.apply edit with
    | ok next =>
      simp only [run, hedit]
      rw [ih hnotes.2, apply_visits hnotes.1 hedit]
    | error fault => simp only [run, hedit, foldl_pass_visits]

end State

/-! ## Properties of every walk -/

/-- A property that edits inherit: it holds of single edits on the text and of the notes that the
rules make, and it is kept when edits are joined or take place inside a node. -/
structure Inherited (rules : List Rule) (P : List Edit → Prop) : Prop where
  nil : P []
  append : ∀ {a b}, P a → P b → P (a ++ b)
  single : ∀ {edit}, edit.isTextual = true → P [edit]
  within : ∀ node {inside}, P inside → P (within node inside)
  note : ∀ node descent, verdict rules node = .note descent → P [.note node]

namespace Inherited

variable {rules : List Rule} {P : List Edit → Prop}

theorem settle (h : Inherited rules P) {node : Node} {inside replacement : List Edit}
    (hinside : P inside) (hreplacement : P replacement) :
    P ((verdict rules node).settle node inside replacement) := by
  have hwithin := h.within node hinside
  cases hverdict : verdict rules node with
  | replace => exact hreplacement
  | descend => exact hwithin
  | note descent =>
    have hnote := h.note node descent hverdict
    cases descent with
    | onward | led =>
      rw [Verdict.settle_note (by decide)]
      exact h.append hnote hwithin
    | withheld => exact hnote

theorem keepPart (h : Inherited rules P) (node part : Node) {inside : List Edit}
    (hinside : P inside) : P (keepPart node part inside) :=
  h.append (h.single rfl) (h.append (h.within node hinside) (h.single rfl))

theorem declaratorLead (h : Inherited rules P) (kind? : Option VarKind) (start : Nat) :
    P (declaratorLead kind? start) := by
  cases kind? with
  | none => exact h.single rfl
  | some kind => exact h.append (h.single rfl) (h.single rfl)

theorem replaceWhole (h : Inherited rules P) (span : Span) {substitute : Edit}
    (htext : substitute.isTextual = true) : P (replaceWhole span substitute) :=
  h.append (h.single rfl) (h.append (h.single htext) (h.single rfl))

theorem valueEdits (h : Inherited rules P) (node : Node) (span : Span) (target : String)
    (value : Node) {inside : List Edit} (hinside : P inside) :
    P (valueEdits node span target value inside) := by
  have hlead : P [.copyTo span.start, .insert (.assign target)] :=
    h.append (h.single rfl) (h.single rfl)
  refine h.append (h.append hlead (h.keepPart node value hinside)) ?_
  split
  · exact h.single rfl
  · exact h.nil

theorem definitionEdits (h : Inherited rules P) (node : Node) (span : Span) (name : String)
    (definition : Node) (isDefault : Bool) {inside : List Edit} (hinside : P inside) :
    P (definitionEdits node span name definition isDefault inside) :=
  h.append (h.single rfl) (h.append (h.keepPart node definition hinside)
    (h.append (h.single rfl) (h.single rfl)))

mutual

theorem edits (h : Inherited rules P) : ∀ node : Node, P (node.edits rules)
  | .importDecl decl => by
    have htext : decl.substitute.isTextual = true := by
      rw [ImportDecl.substitute]
      split <;> rfl
    exact h.settle h.nil (h.replaceWhole decl.span htext)
  | .moduleDecl _ | .exportNothing _ _ | .exportAll _ _ | .exportFrom _ _ _
  | .exportNames _ _ => h.settle h.nil (h.replaceWhole _ rfl)
  | .exportValue span target value =>
    h.settle (edits h value) (h.valueEdits _ span target value (edits h value))
  | .exportVariables span kind declarators => by
    have hsettle : P ((verdict rules (.exportVariables span kind declarators)).settle
        (.exportVariables span kind declarators) (Node.valuesEdits rules declarators) []) :=
      h.settle (valuesEdits h declarators) h.nil
    have hassign : P (if declarators.isEmpty then [.refuse (.unsupported .noDeclarators)]
        else Node.declaratorEdits rules (.exportVariables span kind declarators) (some kind)
          declarators) := by
      split
      · exact h.single rfl
      · exact declaratorEdits h _ (some kind) declarators
    simp only [Node.edits]
    cases hverdict : verdict rules (.exportVariables span kind declarators) with
    | replace => exact h.append (h.single rfl) hassign
    | descend | note =>
      rw [hverdict] at hsettle
      exact hsettle
  | .exportDefinition span _ name definition isDefault =>
    h.settle (edits h definition)
      (h.definitionEdits _ span name definition isDefault (edits h definition))
  | .element _ _ children => h.settle (allEdits h children) h.nil

theorem allEdits (h : Inherited rules P) : ∀ nodes : List Node, P (Node.allEdits rules nodes)
  | [] => h.nil
  | node :: rest => h.append (edits h node) (allEdits h rest)

theorem valuesEdits (h : Inherited rules P) : ∀ declarators : List Declarator,
    P (Node.valuesEdits rules declarators)
  | [] => h.nil
  | .unset _ _ :: rest => valuesEdits h rest
  | .set _ _ value :: rest => h.append (edits h value) (valuesEdits h rest)

theorem declaratorEdits (h : Inherited rules P) (node : Node) (kind? : Option VarKind) :
    ∀ declarators : List Declarator, P (Node.declaratorEdits rules node kind? declarators)
  | [] => h.nil
  | .unset span _ :: rest =>
    h.append (h.append (h.declaratorLead kind? span.start)
      (h.append (h.single rfl) (h.append (h.single rfl) (h.single rfl))))
      (declaratorEdits h node none rest)
  | .set span _ value :: rest =>
    h.append (h.append (h.append (h.declaratorLead kind? span.start) (h.single rfl))
      (h.keepPart node value (edits h value))) (declaratorEdits h node none rest)

end

end Inherited

/-- Every node entered is left again. -/
def Balanced (edits : List Edit) : Prop :=
  ∀ path, edits.foldl Edit.lead path = path

theorem balanced_inherited (rules : List Rule) : Inherited rules Balanced where
  nil _ := rfl
  append ha hb path := by rw [List.foldl_append, ha, hb]
  single {edit} htext path := by
    cases edit with
    | enter | leave | note => cases htext
    | _ => rfl
  within node inside hinside path := by
    rw [within, List.foldl_cons, List.foldl_append, hinside]
    rfl
  note _ _ _ _ := rfl

def Noteless (rules : List Rule) : Prop :=
  ∀ node, verdict rules node = .replace ∨ verdict rules node = .descend

theorem noteless_standard : Noteless Rule.standard := by
  intro node
  cases node with
  | element => exact .inr rfl
  | _ => exact .inl rfl

theorem Noteless.inherited {rules : List Rule} (h : Noteless rules) :
    Inherited rules fun edits => ∀ edit ∈ edits, edit.isNote = false where
  nil := by simp
  append ha hb := List.forall_mem_append.mpr ⟨ha, hb⟩
  single {edit} htext := by
    cases edit with
    | note => cases htext
    | _ => simp [Edit.isNote]
  within node inside hinside := by
    simp only [within, List.forall_mem_cons, List.forall_mem_append]
    exact ⟨rfl, hinside, rfl, by simp⟩
  note node descent hverdict := by
    rcases h node with h | h <;> simp [h] at hverdict

namespace State

/-- A walk leaves every node it has entered, also when it fails. -/
theorem walk_path (s : State) (rules : List Rule) (tree : Node) :
    (s.walk rules tree).1.path = s.path := by
  rw [walk, run_path, (balanced_inherited rules).edits tree]

theorem SameText.eq_of_path {s t : State} (h : s.SameText t) (hpath : s.path = t.path)
    (hvisits : s.visits = t.visits) : s = t := by
  obtain ⟨hcursor, hnames, hoptions⟩ := h
  cases s
  cases t
  simp_all

/-- Walks that make no notes and ask for the same edits on the text end alike. -/
theorem walk_eq_of_textual {rules rules' : List Rule} (hrules : Noteless rules)
    (hrules' : Noteless rules') {tree tree' : Node}
    (h : textual (tree.edits rules) = textual (tree'.edits rules')) (s : State) :
    s.walk rules tree = s.walk rules' tree' := by
  have hs : s.SameText s := ⟨rfl, rfl, rfl⟩
  have hleft := run_textual (tree.edits rules) hs
  have hright := run_textual (tree'.edits rules') hs
  rw [h] at hleft
  have htext := hleft.1.trans hright.1.symm
  have hpath : (s.walk rules tree).1.path = (s.walk rules' tree').1.path := by
    rw [walk_path, walk_path]
  have hvisits : (s.walk rules tree).1.visits = (s.walk rules' tree').1.visits := by
    rw [walk, walk, run_visits (hrules.inherited.edits tree),
      run_visits (hrules'.inherited.edits tree')]
  exact Prod.ext (htext.eq_of_path hpath hvisits) (hleft.2.trans hright.2.symm)

theorem walk_congr {tree tree' : Node}
    (h : textual (tree.edits Rule.standard) = textual (tree'.edits Rule.standard)) (s : State) :
    s.walk Rule.standard tree = s.walk Rule.standard tree' :=
  walk_eq_of_textual noteless_standard noteless_standard h s

end State

end ModSplice
