import ModSplice.Proofs.Reference
import ModSplice.Proofs.Runs

/-!
# A splice is the reference splice

Declarations leave the cursor at different places: behind the whole declaration, behind the value
they keep, behind the last declarator. What they have in common is that the output, continued with
the source up to any later boundary, is the patched source up to there. That is the invariant
which carries the walk through siblings and through nested declarations.
-/
namespace ModSplice

open Text

variable {source : String} {options : Options}

/-- A state over the given source that has not passed `start` and numbers the next temporary name
with `n`. -/
structure State.At (source : String) (options : Options) (s : State) (n start : Nat) : Prop where
  sourceEq : s.cursor.source = source
  optionsEq : s.options = options
  number : s.names.next.toNat = n
  boundary : isBoundary source s.cursor.position = true
  before : s.cursor.position ≤ start

/-- Continued up to any boundary from `stop` on, the second state is the first one with the patches
applied. -/
def State.Continues (source : String) (s t : State) (stop : Nat) (patches : List Patch) : Prop :=
  ∀ limit, isBoundary source limit = true → stop ≤ limit →
    t.cursor.output ++ between source t.cursor.position limit =
      s.cursor.output ++ patched source s.cursor.position limit patches

namespace State

theorem At.enter {s : State} {n k : Nat} (h : s.At source options n k) (node : Node) :
    (s.enter node).At source options n k :=
  ⟨h.sourceEq, h.optionsEq, h.number, h.boundary, h.before⟩

theorem At.leave {s : State} {n k : Nat} (h : s.At source options n k) :
    s.leave.At source options n k :=
  ⟨h.sourceEq, h.optionsEq, h.number, h.boundary, h.before⟩

theorem At.mono {s : State} {n k m : Nat} (h : s.At source options n k) (hkm : k ≤ m) :
    s.At source options n m :=
  ⟨h.sourceEq, h.optionsEq, h.number, h.boundary, Nat.le_trans h.before hkm⟩

theorem At.canReach {s : State} {n k : Nat} (h : s.At source options n k)
    (hk : isBoundary source k = true) : s.cursor.CanReach k :=
  ⟨h.sourceEq ▸ hk, h.before⟩

/-- Copying up to the offset that has not been passed. -/
theorem At.copyTo {s : State} {n k : Nat} (h : s.At source options n k)
    (hk : isBoundary source k = true) :
    ∃ t, s.apply (.copyTo k) = .ok t ∧ t.At source options n k ∧ t.cursor.position = k ∧
      t.cursor.output = s.cursor.output ++ between source s.cursor.position k := by
  refine ⟨_, apply_copyTo s (h.canReach hk), ?_, rfl, ?_⟩
  · exact ⟨h.sourceEq, h.optionsEq, h.number, hk, Nat.le_refl k⟩
  · simp only [Cursor.copied, h.sourceEq]

theorem At.skipTo {s : State} {n k : Nat} (h : s.At source options n k)
    (hk : isBoundary source k = true) :
    ∃ t, s.apply (.skipTo k) = .ok t ∧ t.At source options n k ∧ t.cursor.position = k ∧
      t.cursor.output = s.cursor.output := by
  refine ⟨_, apply_skipTo s (h.canReach hk), ?_, rfl, rfl⟩
  exact ⟨h.sourceEq, h.optionsEq, h.number, hk, Nat.le_refl k⟩

/-- A snippet takes its temporary names, as long as there are numbers left. -/
theorem At.insert {s : State} {n k : Nat} (h : s.At source options n k) (snippet : Snippet)
    (hn : n + snippet.stems.length < 2 ^ 32) :
    ∃ t, s.apply (.insert snippet) = .ok t ∧
      t.At source options (n + snippet.stems.length) k ∧
      t.cursor.position = s.cursor.position ∧
      t.cursor.output = s.cursor.output ++ snippet.text options s.names.next := by
  have hnumber : (s.insert snippet).names.next.toNat = n + snippet.stems.length := by
    have hl : snippet.stems.length < UInt32.size := by simp only [UInt32.size]; omega
    simp only [State.insert, Names.advance, UInt32.toNat_add, Nat.toUInt32_eq,
      UInt32.toNat_ofNat_of_lt' hl, h.number]
    exact Nat.mod_eq_of_lt hn
  refine ⟨_, rfl, ⟨h.sourceEq, h.optionsEq, hnumber, h.boundary, h.before⟩, rfl, ?_⟩
  simp only [State.insert, Cursor.write, h.optionsEq]

theorem Continues.refl (s : State) (stop : Nat) : s.Continues source s stop [] :=
  fun _ _ _ => rfl

/-- One replacement after the other, when the later patches begin behind the earlier ones. -/
theorem Continues.trans {s t u : State} {m stop : Nat} {a b : List Patch}
    (hst : s.Continues source t m a) (htu : t.Continues source u stop b) (hm : m ≤ stop)
    (hb : ∀ patch ∈ b, m ≤ patch.span.start ∧ isBoundary source patch.span.start = true) :
    s.Continues source u stop (a ++ b) := by
  intro limit hl hle
  rw [htu limit hl hle]
  cases b with
  | nil => simpa [patched] using hst limit hl (Nat.le_trans hm hle)
  | cons patch rest =>
    obtain ⟨hp, hpb⟩ := hb patch (by simp)
    -- the earlier run, continued up to the first of the later patches
    have h := hst patch.span.start hpb hp
    rw [patched_append_cons, patched, ← String.append_assoc, ← String.append_assoc, h]
    simp only [String.append_assoc]

end State

/-- From every state that has not passed `start` the edits are carried out, and apply the patches;
the number of the next temporary name goes from `n` to `m`. -/
def Renders (source : String) (options : Options) (edits : List Edit) (start stop n m : Nat)
    (patches : List Patch) : Prop :=
  ∀ s : State, s.At source options n start →
    ∃ t, s.Runs edits t ∧ t.At source options m stop ∧ s.Continues source t stop patches

/-- From every state that has not passed `start` the edits are carried out, and add exactly the
given text. -/
def Adds (source : String) (options : Options) (edits : List Edit) (start stop n m : Nat)
    (text : String) : Prop :=
  ∀ s : State, s.At source options n start →
    ∃ t, s.Runs edits t ∧ t.At source options m stop ∧ t.cursor.position = stop ∧
      t.cursor.output = s.cursor.output ++ text

theorem within_renders {edits : List Edit} {start stop n m : Nat} {patches : List Patch}
    (node : Node) (h : Renders source options edits start stop n m patches) :
    Renders source options (within node edits) start stop n m patches := by
  intro s hs
  obtain ⟨t, hrun, ht, hc⟩ := h (s.enter node) (hs.enter node)
  exact ⟨t.leave, State.runs_within s t node edits hrun, ht.leave, hc⟩

/-- A declaration of which nothing is kept. -/
theorem replaceWhole_renders {span : Span} {n : Nat} {text : String} (snippet : Snippet)
    (hspan : span.fits source = true) (hn : n + snippet.stems.length < 2 ^ 32)
    (htext : ∀ next : UInt32, next.toNat = n → snippet.text options next = text) :
    Renders source options (replaceWhole span (.insert snippet)) span.start span.stop n
      (n + snippet.stems.length) [⟨span, text⟩] := by
  intro s hs
  obtain ⟨hle, hstart, hstop⟩ := (Span.fits_iff source span).mp hspan
  obtain ⟨t, ht, hat, htp, hto⟩ := hs.copyTo hstart
  obtain ⟨u, hu, hau, hup, huo⟩ := hat.insert snippet hn
  obtain ⟨v, hv, hav, hvp, hvo⟩ := (hau.mono hle).skipTo hstop
  refine ⟨v, ?_, hav, ?_⟩
  · simp only [replaceWhole, State.runs_cons, State.runs_nil]
    exact ⟨t, ht, u, hu, v, hv, rfl⟩
  · intro limit hl hlimit
    rw [hvo, huo, hto, hvp, htext _ hat.number]
    simp only [patched, String.append_assoc]

/-- A part of a declaration is kept with the patches inside it applied, and nothing of what comes
before it. -/
theorem keepPart_adds {inside : List Edit} {n m : Nat} {patches : List Patch} (node part : Node)
    (hpart : part.span.fits source = true)
    (h : Renders source options inside part.span.start part.span.stop n m patches) :
    Adds source options (keepPart node part inside) part.span.start part.span.stop n m
      (part.kept source patches) := by
  intro s hs
  obtain ⟨hle, hstart, hstop⟩ := (Span.fits_iff source part.span).mp hpart
  obtain ⟨t, ht, hat, htp, hto⟩ := hs.skipTo hstart
  obtain ⟨u, hu, hau, hc⟩ := within_renders node h t hat
  obtain ⟨v, hv, hav, hvp, hvo⟩ := hau.copyTo hstop
  refine ⟨v, ?_, hav, hvp, ?_⟩
  · simp only [keepPart, State.runs_cons, State.runs_append]
    exact ⟨t, ht, u, hu, v, hv, rfl⟩
  · rw [hvo, hc _ hstop (Nat.le_refl _), hto, htp]
    rfl

/-- A default export keeps its value behind an assignment. What follows the value is still to
come, so the cursor stays behind the value. -/
theorem valueEdits_renders {inside : List Edit} {n m : Nat} {patches : List Patch} (node : Node)
    {span : Span} (target : String) (value : Node) (hspan : span.fits source = true)
    (hin : span.contains value.span = true) (hvalue : value.span.fits source = true)
    (hm : m < 2 ^ 32) (hnm : n ≤ m)
    (h : Renders source options inside value.span.start value.span.stop n m patches) :
    Renders source options (valueEdits node span target value inside) span.start span.stop n m
      [⟨span, options.exportTarget target ++ " = " ++ value.kept source patches ++
        (if value.isDefinition && value.span.stop == span.stop then ";" else "") ++
        between source value.span.stop span.stop⟩] := by
  intro s hs
  obtain ⟨-, hstart, hstop⟩ := (Span.fits_iff source span).mp hspan
  obtain ⟨-, -, hvstop⟩ := (Span.fits_iff source value.span).mp hvalue
  simp only [Span.contains, Bool.and_eq_true, decide_eq_true_eq] at hin
  obtain ⟨t, ht, hat, htp, hto⟩ := hs.copyTo hstart
  obtain ⟨u, hu, hau, hup, huo⟩ := hat.insert (.assign target) (by simp [Snippet.stems]; omega)
  obtain ⟨v, hv, hav, hvp, hvo⟩ := keepPart_adds node value hvalue h u (hau.mono hin.1)
  have hlead : s.Runs [.copyTo span.start, .insert (.assign target)] u := by
    simp only [State.runs_cons, State.runs_nil]
    exact ⟨t, ht, u, hu, rfl⟩
  have hkept := (State.runs_append s v _ _).mpr ⟨u, hlead, hv⟩
  have hlast : ∀ limit, isBoundary source limit = true → span.stop ≤ limit →
      between source value.span.stop span.stop ++ between source span.stop limit =
        between source value.span.stop limit :=
    fun limit hl hle => between_append hvstop hstop hl hin.2 hle
  by_cases hsemi : (value.isDefinition && value.span.stop == span.stop) = true
  · obtain ⟨w, hw, haw, hwp, hwo⟩ := hav.insert .semicolon (by simpa [Snippet.stems] using hm)
    refine ⟨w, ?_, haw.mono hin.2, ?_⟩
    · simp only [valueEdits, hsemi, if_true]
      exact (State.runs_append s w _ _).mpr ⟨v, hkept, State.runs_of_apply hw⟩
    · intro limit hl hle
      rw [hwo, hwp, hvp, hvo, huo, hto, ← hlast limit hl hle]
      simp only [Snippet.text, hsemi, if_true, patched, String.append_assoc]
  · refine ⟨v, ?_, hav.mono hin.2, ?_⟩
    · simp only [valueEdits, hsemi, Bool.false_eq_true, if_false, List.append_nil]
      exact hkept
    · intro limit hl hle
      rw [hvp, hvo, huo, hto, ← hlast limit hl hle]
      simp only [Snippet.text, hsemi, Bool.false_eq_true, if_false, patched, String.append_assoc,
        String.empty_append]

/-- An exported definition is kept and its public name follows; the rest of the export goes. -/
theorem definitionEdits_renders {inside : List Edit} {n m : Nat} {patches : List Patch}
    (node : Node) {span : Span} (name : String) (definition : Node) (isDefault : Bool)
    (hspan : span.fits source = true) (hin : span.contains definition.span = true)
    (hdef : definition.span.fits source = true) (hm : m < 2 ^ 32)
    (h : Renders source options inside definition.span.start definition.span.stop n m patches) :
    Renders source options (definitionEdits node span name definition isDefault inside)
      span.start span.stop n m
      [⟨span, definition.kept source patches ++ "\n" ++
        (if isDefault then options.exportsObject else options.member name) ++ " = " ++ name ++
        ";"⟩] := by
  intro s hs
  obtain ⟨-, hstart, hstop⟩ := (Span.fits_iff source span).mp hspan
  simp only [Span.contains, Bool.and_eq_true, decide_eq_true_eq] at hin
  obtain ⟨t, ht, hat, htp, hto⟩ := hs.copyTo hstart
  obtain ⟨u, hu, hau, hup, huo⟩ := keepPart_adds node definition hdef h t (hat.mono hin.1)
  obtain ⟨v, hv, hav, hvp, hvo⟩ :=
    hau.insert (.publish name isDefault) (by simpa [Snippet.stems] using hm)
  obtain ⟨w, hw, haw, hwp, hwo⟩ := (hav.mono hin.2).skipTo hstop
  refine ⟨w, ?_, haw, ?_⟩
  · simp only [definitionEdits, State.runs_cons, State.runs_append, State.runs_nil]
    exact ⟨t, ht, u, hu, v, hv, w, hw, rfl⟩
  · intro limit hl hle
    rw [hwo, hwp, hvo, huo, hto]
    simp only [Snippet.text, Options.exportTarget, if_true, patched, String.append_assoc]

/-- Declarators become assignments. From wherever the cursor has come to, the text in between is
copied, up to the end of the export in the end. -/
def RendersDeclarators (source : String) (options : Options) (edits : List Edit)
    (start stop n m : Nat) (declarators : List Declarator) : Prop :=
  ∀ s : State, s.At source options n start →
    ∃ t, s.Runs edits t ∧ t.At source options m stop ∧
      t.cursor.output ++ between source t.cursor.position stop =
        s.cursor.output ++
          Node.assignments source options n s.cursor.position stop declarators

/-- The assignment of a public name, up to its value. -/
theorem initialise_adds {n k : Nat} (name : String) (hk : isBoundary source k = true)
    (hn : n < 2 ^ 32) {s : State} (hs : s.At source options n k) :
    ∃ t, s.Runs [.copyTo k, .insert (.initialise name)] t ∧ t.At source options n k ∧
      t.cursor.position = k ∧
      t.cursor.output = s.cursor.output ++ (between source s.cursor.position k ++ name ++ " = " ++
        options.member name ++ " = ") := by
  obtain ⟨t, ht, hat, htp, hto⟩ := hs.copyTo hk
  obtain ⟨u, hu, hau, hup, huo⟩ :=
    hat.insert (.initialise name) (by simpa [Snippet.stems] using hn)
  refine ⟨u, ?_, hau, hup.trans htp, ?_⟩
  · simp only [State.runs_cons, State.runs_nil]
    exact ⟨t, ht, u, hu, rfl⟩
  · rw [huo, hto]
    simp only [Snippet.text, String.append_assoc]

theorem unset_renders {rest : List Declarator} {restEdits : List Edit} {start stop n m : Nat}
    {span : Span} (name : String) (hstart : start ≤ span.start) (hspan : span.fits source = true)
    (hn : n < 2 ^ 32)
    (h : RendersDeclarators source options restEdits span.stop stop n m rest) :
    RendersDeclarators source options
      ([.copyTo span.start] ++
        [.insert (.initialise name), .insert .undefined, .skipTo span.stop] ++
        restEdits) start stop n m (.unset span name :: rest) := by
  intro s hs
  obtain ⟨hle, hfrom, hto⟩ := (Span.fits_iff source span).mp hspan
  obtain ⟨t, ht, hat, htp, hto'⟩ := initialise_adds name hfrom hn (hs.mono hstart)
  obtain ⟨u, hu, hau, hup, huo⟩ := hat.insert .undefined (by simpa [Snippet.stems] using hn)
  obtain ⟨v, hv, hav, hvp, hvo⟩ := (hau.mono hle).skipTo hto
  obtain ⟨w, hw, haw, hwo⟩ := h v hav
  refine ⟨w, ?_, haw, ?_⟩
  · rw [State.runs_append]
    refine ⟨v, ?_, hw⟩
    have hrun : s.Runs ([.copyTo span.start, .insert (.initialise name)] ++
        [.insert .undefined, .skipTo span.stop]) v := by
      simp only [State.runs_append, State.runs_cons, State.runs_nil] at ht ⊢
      exact ⟨t, ht, u, hu, v, hv, rfl⟩
    exact hrun
  · rw [hwo, hvo, hvp, huo, hto']
    simp only [Snippet.text, Node.assignments, String.append_assoc]

theorem set_renders {rest : List Declarator} {inside restEdits : List Edit}
    {start stop n k m : Nat} {patches : List Patch} {span : Span} (node value : Node)
    (name : String) (hstart : start ≤ span.start) (hspan : span.fits source = true)
    (hin : span.contains value.span = true) (hvalue : value.span.fits source = true)
    (hn : n < 2 ^ 32) (hk : k = n + value.temporaries)
    (hpatches : patches = value.patches source options n)
    (hinside : Renders source options inside value.span.start value.span.stop n k patches)
    (h : RendersDeclarators source options restEdits span.stop stop k m rest) :
    RendersDeclarators source options
      ([.copyTo span.start] ++ [.insert (.initialise name)] ++ keepPart node value inside ++
        restEdits) start stop n m (.set span name value :: rest) := by
  intro s hs
  obtain ⟨-, hfrom, -⟩ := (Span.fits_iff source span).mp hspan
  simp only [Span.contains, Bool.and_eq_true, decide_eq_true_eq] at hin
  obtain ⟨t, ht, hat, htp, hto⟩ := initialise_adds name hfrom hn (hs.mono hstart)
  obtain ⟨u, hu, hau, hup, huo⟩ := keepPart_adds node value hvalue hinside t (hat.mono hin.1)
  obtain ⟨v, hv, hav, hvo⟩ := h u (hau.mono hin.2)
  refine ⟨v, ?_, hav, ?_⟩
  · rw [State.runs_append]
    refine ⟨u, ?_, hv⟩
    rw [State.runs_append]
    exact ⟨t, ht, hu⟩
  · rw [hvo, huo, hup, hto]
    subst hk hpatches
    simp only [Node.assignments, String.append_assoc]

/-- With the keyword in front, the first declarator is reached by leaving out what comes before
it. -/
theorem keyword_renders {d : Declarator} {rest : List Declarator} {edits : List Edit} {span : Span}
    {n m : Nat} (kind : VarKind) (hspan : span.fits source = true)
    (hd : isBoundary source d.span.start = true) (hle : span.start ≤ d.span.start)
    (hn : n < 2 ^ 32)
    (h : RendersDeclarators source options ([.copyTo d.span.start] ++ edits) d.span.start span.stop
      n m (d :: rest)) :
    Renders source options
      (.copyTo span.start :: ([.skipTo d.span.start, .insert (.keyword kind)] ++ edits))
      span.start span.stop n m
      [⟨span, kind.keyword ++ " " ++
        Node.assignments source options n d.span.start span.stop (d :: rest)⟩] := by
  intro s hs
  obtain ⟨-, hstart, hstop⟩ := (Span.fits_iff source span).mp hspan
  obtain ⟨t, ht, hat, htp, hto⟩ := hs.copyTo hstart
  obtain ⟨u, hu, hau, hup, huo⟩ := (hat.mono hle).skipTo hd
  obtain ⟨v, hv, hav, hvp, hvo⟩ := hau.insert (.keyword kind) (by simpa [Snippet.stems] using hn)
  obtain ⟨w, hw, haw, hwo⟩ := h v hav
  have hv' : v.cursor.position = d.span.start := hvp.trans hup
  -- at the declarator's own start there is nothing to copy
  have hnop : v.apply (.copyTo d.span.start) = .ok v := by
    rw [State.apply_copyTo v (hav.canReach hd)]
    simp [Cursor.copied, ← hv']
  refine ⟨w, ?_, haw, ?_⟩
  · simp only [List.cons_append, List.nil_append, State.runs_cons, hnop, Except.ok.injEq,
      exists_eq_left'] at hw ⊢
    exact ⟨t, ht, u, hu, v, hv, hw⟩
  · intro limit hl hlimit
    rw [← between_append haw.boundary hstop hl haw.before hlimit, ← String.append_assoc, hwo, hv',
      hvo, huo, hto]
    simp only [Snippet.text, patched, String.append_assoc]

namespace Node

theorem fits_start {source : String} {node : Node} (h : node.fits source = true) :
    isBoundary source node.span.start = true :=
  ((Span.fits_iff _ _).mp (fits_span source node h)).2.1

theorem fits_le {source : String} {node : Node} (h : node.fits source = true) :
    node.span.start ≤ node.span.stop :=
  ((Span.fits_iff _ _).mp (fits_span source node h)).1

theorem declaratorsFit_head {source : String} {d : Declarator} {rest : List Declarator}
    {start stop : Nat} (h : declaratorsFit source start stop (d :: rest) = true) :
    isBoundary source d.span.start = true ∧ start ≤ d.span.start ∧ d.span.start ≤ stop ∧
      declaratorsFit source d.span.start stop (d :: rest) = true := by
  cases d with
  | unset span name =>
    simp only [declaratorsFit, Bool.and_eq_true, decide_eq_true_eq, Span.fits_iff] at h ⊢
    simp only [Declarator.span]
    grind
  | set span name value =>
    simp only [declaratorsFit, Bool.and_eq_true, decide_eq_true_eq, Span.fits_iff] at h ⊢
    simp only [Declarator.span]
    grind

mutual

/-- The outermost declarations of a tree lie behind its start. -/
theorem outermost_start (source : String) : ∀ (node : Node), node.fits source = true →
    ∀ d ∈ node.outermost,
      node.span.start ≤ d.span.start ∧ isBoundary source d.span.start = true
  | .element _ span children, h, d, hd => by
    simp only [fits, Bool.and_eq_true] at h
    exact outermostOfAll_start source children span.start span.stop h.2 d hd
  | .importDecl _, h, d, hd | .moduleDecl _, h, d, hd | .exportValue .., h, d, hd
  | .exportNothing .., h, d, hd | .exportVariables .., h, d, hd | .exportDefinition .., h, d, hd
  | .exportAll .., h, d, hd | .exportFrom .., h, d, hd | .exportNames .., h, d, hd => by
    obtain rfl := List.mem_singleton.mp hd
    exact ⟨Nat.le_refl _, fits_start h⟩

theorem outermostOfAll_start (source : String) : ∀ (nodes : List Node) (start stop : Nat),
    allFit source start stop nodes = true → ∀ d ∈ outermostOfAll nodes,
      start ≤ d.span.start ∧ isBoundary source d.span.start = true
  | [], _, _, _, d, hd => by simp [outermostOfAll] at hd
  | node :: rest, start, stop, h, d, hd => by
    simp only [allFit, Bool.and_eq_true, decide_eq_true_eq] at h
    obtain ⟨⟨⟨hs, -⟩, hf⟩, hr⟩ := h
    have hle := fits_le hf
    rcases List.mem_append.mp hd with hd | hd
    · have := outermost_start source node hf d hd
      exact ⟨by omega, this.2⟩
    · have := outermostOfAll_start source rest _ _ hr d hd
      exact ⟨by omega, this.2⟩

end

theorem patchesOfAll_start (source : String) (o : Options) (nodes : List Node) (n start stop : Nat)
    (h : allFit source start stop nodes = true) :
    ∀ patch ∈ patchesOfAll source o n nodes,
      start ≤ patch.span.start ∧ isBoundary source patch.span.start = true := by
  intro patch hp
  have hm : patch.span ∈ (outermostOfAll nodes).map Node.span := by
    rw [← patchesOfAll_spans source o nodes n]
    exact List.mem_map_of_mem hp
  obtain ⟨d, hd, he⟩ := List.mem_map.mp hm
  rw [← he]
  exact outermostOfAll_start source nodes start stop h d hd

/-- An import that has a counterpart is replaced by its statements. -/
theorem importDecl_renders (decl : ImportDecl) (n : Nat) (hspan : decl.span.fits source = true)
    (hs : decl.isSupported = true) (hn : n + decl.temporaries < 2 ^ 32) :
    Renders source options (replaceWhole decl.span decl.substitute) decl.span.start decl.span.stop
      n (n + decl.temporaries) [⟨decl.span, decl.statements options n⟩] := by
  obtain ⟨span, kind, specifiers, quoted⟩ := decl
  cases kind with
  | bare => exact replaceWhole_renders (.load quoted.raw) hspan hn (fun _ _ => rfl)
  | default =>
    cases specifiers with
    | nil => exact absurd hs (by simp [ImportDecl.isSupported])
    | cons first rest =>
      exact replaceWhole_renders (.bind first.localName quoted.raw) hspan hn (fun _ _ => rfl)
  | named =>
    refine replaceWhole_renders (.bindMembers quoted.raw specifiers) hspan hn ?_
    rintro next rfl
    rfl
  | unrecognized => exact absurd hs (by simp [ImportDecl.isSupported])

/-- All members of a module: the second temporary name is the key. -/
theorem forwardAll_text (span : Span) (quoted : Source) (n : Nat) (hn : n + 2 < 2 ^ 32)
    (next : UInt32) (h : next.toNat = n) :
    (Snippet.forwardAll quoted.raw).text options next =
      (Node.exportAll span quoted).statements options n := by
  have hone : (1 : UInt32).toNat = 1 := rfl
  have hkey : (next + 1).toNat = n + 1 := by
    rw [UInt32.toNat_add, h, hone]
    exact Nat.mod_eq_of_lt (by omega)
  unfold Snippet.text statements
  simp only [Snippet.loadLine, Names.numbered, temporary]
  rw [hkey, h]

mutual

/-- The walk over a tree applies its patches. The induction is over the tree; a list of siblings
composes them one after the other. -/
theorem edits_render : ∀ (node : Node) (n : Nat), node.fits source = true →
    node.isSupported = true → n + node.temporaries < 2 ^ 32 →
    Renders source options (node.edits Rule.standard) node.span.start node.span.stop n
      (n + node.temporaries) (node.patches source options n)
  | .importDecl decl, n, hf, hs, hn => importDecl_renders decl n hf hs hn
  | .moduleDecl decl, _, hf, _, hn =>
    replaceWhole_renders (.bind decl.name decl.source.raw) hf hn (fun _ _ => rfl)
  | .exportValue span target value, n, hf, hs, hn => by
    simp only [fits, Bool.and_eq_true] at hf
    obtain ⟨⟨hspan, hin⟩, hvalue⟩ := hf
    exact valueEdits_renders _ target value hspan hin (fits_span _ _ hvalue) hn
      (Nat.le_add_right ..) (edits_render value n hvalue hs hn)
  | .exportNothing span target, _, hf, _, hn =>
    replaceWhole_renders (.assignUndefined target) hf hn (fun _ _ => rfl)
  | .exportVariables span kind [], _, _, hs, _ => by simp [isSupported] at hs
  | .exportVariables span kind (d :: rest), n, hf, hs, hn => by
    simp only [fits, Bool.and_eq_true] at hf
    simp only [isSupported, List.isEmpty_cons, Bool.not_false, Bool.true_and] at hs
    obtain ⟨hd, hle, hstop, hrow⟩ := declaratorsFit_head hf.2
    have hrest := declaratorEdits_render (.exportVariables span kind (d :: rest)) (d :: rest) n
      d.span.start span.stop hrow hs hn hstop
    cases d <;>
      exact keyword_renders kind hf.1 hd hle (Nat.lt_of_le_of_lt (Nat.le_add_right ..) hn) hrest
  | .exportDefinition span kind name definition isDefault, n, hf, hs, hn => by
    simp only [fits, Bool.and_eq_true] at hf
    obtain ⟨⟨hspan, hin⟩, hdef⟩ := hf
    exact definitionEdits_renders _ name definition isDefault hspan hin (fits_span _ _ hdef) hn
      (edits_render definition n hdef hs hn)
  | .exportAll span quoted, n, hf, _, hn =>
    replaceWhole_renders (.forwardAll quoted.raw) hf hn (forwardAll_text span quoted n hn)
  | .exportFrom span quoted specifiers, n, hf, _, hn => by
    refine replaceWhole_renders (.forwardMembers quoted.raw specifiers) hf hn ?_
    rintro next rfl
    rfl
  | .exportNames span specifiers, _, hf, _, hn =>
    replaceWhole_renders (.publishNames specifiers) hf hn (fun _ _ => rfl)
  | .element kind span children, n, hf, hs, hn => by
    simp only [fits, Bool.and_eq_true] at hf
    have hle := ((Span.fits_iff _ _).mp hf.1).1
    exact within_renders _ (allEdits_render children n span.start span.stop hf.2 hs hn hle)

theorem allEdits_render : ∀ (nodes : List Node) (n start stop : Nat),
    allFit source start stop nodes = true → allSupported nodes = true →
    n + temporariesOfAll nodes < 2 ^ 32 → start ≤ stop →
    Renders source options (allEdits Rule.standard nodes) start stop n
      (n + temporariesOfAll nodes) (patchesOfAll source options n nodes)
  | [], n, start, stop, _, _, _, hle => fun s hs =>
    ⟨s, (State.runs_nil s s).mpr rfl, hs.mono hle, State.Continues.refl s stop⟩
  | node :: rest, n, start, stop, hf, hs, hn, _ => by
    intro s hstart
    simp only [allFit, Bool.and_eq_true, decide_eq_true_eq] at hf
    obtain ⟨⟨⟨hfirst, hlast⟩, hnode⟩, hrest⟩ := hf
    simp only [allSupported, Bool.and_eq_true] at hs
    simp only [temporariesOfAll] at hn
    obtain ⟨t, ht, hat, hc⟩ :=
      edits_render node n hnode hs.1 (by omega) s (hstart.mono hfirst)
    obtain ⟨u, hu, hau, hc'⟩ :=
      allEdits_render rest (n + node.temporaries) node.span.stop stop hrest hs.2 (by omega) hlast
        t hat
    refine ⟨u, ?_, ?_, ?_⟩
    · exact (State.runs_append s u _ _).mpr ⟨t, ht, hu⟩
    · simpa only [temporariesOfAll, Nat.add_assoc] using hau
    · exact hc.trans hc' hlast (patchesOfAll_start source options rest _ _ stop hrest)

theorem declaratorEdits_render (node : Node) : ∀ (declarators : List Declarator)
    (n start stop : Nat), declaratorsFit source start stop declarators = true →
    valuesSupported declarators = true → n + temporariesOfValues declarators < 2 ^ 32 →
    start ≤ stop →
    RendersDeclarators source options (declaratorEdits Rule.standard node none declarators)
      start stop n (n + temporariesOfValues declarators) declarators
  | [], n, start, stop, _, _, _, hle => fun s hs =>
    ⟨s, (State.runs_nil s s).mpr rfl, hs.mono hle, rfl⟩
  | .unset span name :: rest, n, start, stop, hf, hs, hn, _ => by
    simp only [declaratorsFit, Bool.and_eq_true, decide_eq_true_eq] at hf
    obtain ⟨⟨⟨hstart, hstop⟩, hspan⟩, hrest⟩ := hf
    exact unset_renders name hstart hspan (Nat.lt_of_le_of_lt (Nat.le_add_right ..) hn)
      (declaratorEdits_render node rest n span.stop stop hrest hs hn hstop)
  | .set span name value :: rest, n, start, stop, hf, hs, hn, _ => by
    simp only [declaratorsFit, Bool.and_eq_true, decide_eq_true_eq] at hf
    obtain ⟨⟨⟨⟨hstart, hstop⟩, hspan⟩, hin, hvalue⟩, hrest⟩ := hf
    simp only [valuesSupported, Bool.and_eq_true] at hs
    simp only [temporariesOfValues] at hn
    have hvalues := declaratorEdits_render node rest (n + value.temporaries) span.stop stop hrest
      hs.2 (by omega) hstop
    rw [Nat.add_assoc] at hvalues
    exact set_renders node value name hstart hspan hin (fits_span _ _ hvalue) (by omega) rfl rfl
      (edits_render value n hvalue hs.1 (by omega)) hvalues

end

/-- A walk over a well-formed tree, whatever the options and the number of the next temporary name,
yields the source with the range of each outermost declaration replaced. -/
theorem walk_yields_reference (source : String) (options : Options) (tree : Node) (n : UInt32)
    (hf : tree.fits source = true) (hs : tree.isSupported = true)
    (hn : n.toNat + tree.temporaries < 2 ^ 32) :
    (∃ left : Names, left.next.toNat = n.toNat + tree.temporaries ∧
      State.Yields Rule.standard source options ⟨n⟩ tree
        (patched source 0 source.utf8ByteSize (tree.patches source options n.toNat)) left) ∧
      (tree.patches source options n.toNat).map Patch.span = tree.outermost.map Node.span := by
  refine ⟨?_, patches_spans source options tree n.toNat⟩
  have hstart : State.At source options { State.start source options with names := ⟨n⟩ } n.toNat
      tree.span.start :=
    ⟨rfl, rfl, rfl, isBoundary_zero source, Nat.zero_le _⟩
  obtain ⟨t, hrun, hat, hc⟩ := edits_render tree n.toNat hf hs hn _ hstart
  have hstop := ((Span.fits_iff _ _).mp (fits_span source tree hf)).2.2
  refine ⟨t.names, hat.number, t, hrun, ?_, rfl⟩
  have hfinish := t.cursor.finish_eq_ok (hat.sourceEq.symm ▸ hat.boundary)
  rw [hat.sourceEq, hc _ (isBoundary_size source) (isBoundary_le hstop)] at hfinish
  simpa [State.start] using hfinish

/-- A definition with a declaration inside, exported as the default: the definition takes a
semicolon, and the names of the import are numbered from three. -/
theorem walk_yields_reference_nested :
    let source := "export default function () \x7b module é from 'm'; \x7d\n" ++
      "import \x7b a as b \x7d from 'n'"
    let output := "module.exports = function () \x7b var é = require('m'); \x7d;\n" ++
      "var mod$3 = require('n');\nvar b = mod$3.a;"
    let inner := Node.moduleDecl ⟨⟨29, 48⟩, "é", ⟨⟨44, 47⟩, "'m'"⟩⟩
    let tree := Node.element .program ⟨0, 77⟩
      [.exportValue ⟨0, 50⟩ "default" (.element .function ⟨15, 50⟩ [inner]),
        .importDecl ⟨⟨51, 77⟩, .named, [⟨"a", some "b"⟩], ⟨⟨74, 77⟩, "'n'"⟩⟩]
    tree.fits source = true ∧ tree.isSupported = true ∧
      ∃ left, State.Yields Rule.standard source {} ⟨3⟩ tree output left := by
  intro source output inner tree
  have hf : tree.fits source = true := by decide +kernel
  have he : patched source 0 source.utf8ByteSize (tree.patches source {} 3) = output := by
    decide +kernel
  obtain ⟨⟨left, -, h⟩, -⟩ := walk_yields_reference source {} tree 3 hf rfl (by decide)
  exact ⟨hf, rfl, left, he ▸ h⟩

end Node
end ModSplice
