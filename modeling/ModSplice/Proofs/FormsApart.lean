import ModSplice.Proofs.Blanking

/-!
# The two older forms apart

A declaration that is taken is jumped over as a whole, while one in a form that is not looked for is
gone through word by word. Both ways lead to its end, with the same templates open and nothing found
in between. So what is found in one form does not depend on whether the other is looked for.
-/
namespace ModSplice

def Node.isBareExport : Node → Bool
  | .exportNothing _ _ => true
  | _ => false

namespace Forms

def modulesOnly : Forms :=
  { bareDefault := false }

def bareOnly : Forms :=
  { moduleFrom := false }

end Forms

namespace Legacy

open Text

variable {forms : Forms} {templates : Templates} {past cs : List Char}

/-! ## What is found in some of the forms -/

theorem ofChars?_eq_filter (forms : Forms) (cs : List Char) :
    ofChars? forms cs = (ofChars? {} cs).filter (isSought forms) := by
  have hall : ∀ found, isSought {} found = true := fun found => by cases found <;> rfl
  apply Option.ext
  intro found
  simp only [Option.filter_eq_some_iff, ofChars?_eq_some_iff, hall, and_true]
  constructor
  · rintro ⟨rest, hsplit, hwritten, hsought⟩
    exact ⟨⟨rest, hsplit, hwritten⟩, hsought⟩
  · rintro ⟨⟨rest, hsplit, hwritten⟩, hsought⟩
    exact ⟨rest, hsplit, hwritten, hsought⟩

/-- Where a stride takes a declaration, the text is code, a word begins and no dot comes before. -/
theorem stride_takes {found : Legacy} (h : (stride forms templates past cs).found? = some found) :
    templates.level ≠ .template ∧ past.head?.any isWordChar = false ∧ followsDot past = false := by
  rw [stride] at h
  split at h
  · cases h
  · rename_i after hstep
    simp only [codeStride] at h
    split at h
    · cases h
    · by_cases hword : beginsWord past cs = true
      · by_cases hdot : followsDot past = true
        · simp [hword, hdot] at h
        · cases cs with
          | nil => cases hword
          | cons c cs =>
            simp only [beginsWord, Bool.and_eq_true, Bool.not_eq_true'] at hword
            exact ⟨step_none hstep, hword.2, by simpa using hdot⟩
      · simp [hword] at h

/-- A stride that takes nothing, or a declaration that is looked for, is the same if only some forms
are looked for. -/
theorem stride_eq_of_sought
    (h : ∀ found ∈ (stride {} templates past cs).found?, isSought forms found = true) :
    stride forms templates past cs = stride {} templates past cs := by
  simp only [stride] at h ⊢
  split
  · rfl
  · rename_i after hstep
    rw [hstep] at h
    have hcode : codeStride forms past cs = codeStride {} past cs := by
      simp only [codeStride] at h ⊢
      cases hwidth : regionWidth? cs with
      | some width => rfl
      | none =>
        cases hfound : ofChars? {} cs with
        | none => simp [ofChars?_eq_filter forms, hfound]
        | some found =>
          simp only [hwidth, hfound] at h
          by_cases hword : beginsWord past cs = true
          · by_cases hdot : followsDot past = true
            · simp [hword, hdot]
            · have hsought : isSought forms found = true := by simpa [hword, hdot] using h
              have hforms : ofChars? forms cs = some found := by
                rw [ofChars?_eq_filter, hfound, Option.filter_some, if_pos hsought]
              simp [hword, hdot, hforms]
          · simp [hword]
    rw [hcode]

/-- A scan for some of the forms finds what a scan for both finds in them. The induction is on the
length of the text, since a declaration in another form is gone through in several strides. -/
theorem scan_eq_filter (forms : Forms) (templates : Templates) (past : List Char)
    (offset covered : Nat) (cs : List Char) :
    scan forms templates past offset covered cs =
      (scan {} templates past offset covered cs).filter fun x => isSought forms x.2 := by
  induction hn : cs.length using Nat.strongRecOn
    generalizing templates past offset covered cs with
  | ind n ih =>
    subst hn
    match cs, covered with
    | [], _ => simp [scan]
    | c :: cs, covered + 1 => exact ih cs.length (by simp) _ _ _ _ cs rfl
    | c :: cs, 0 =>
      by_cases h : ∀ found ∈ (stride {} templates past (c :: cs)).found?,
          isSought forms found = true
      · rw [scan, scan, stride_eq_of_sought h, ih cs.length (by simp) _ _ _ _ cs rfl,
          List.filter_append]
        congr 1
        symm
        rw [List.filter_eq_self]
        intro x hx
        obtain ⟨found, hfound, rfl⟩ := List.mem_map.mp hx
        exact h found (Option.mem_toList.mp hfound)
      · push Not at h
        obtain ⟨found, hfound, hother⟩ := h
        obtain ⟨hlevel, hpast, hdot⟩ := stride_takes hfound
        obtain ⟨rest, hsplit, hwritten, hsought⟩ := ofChars?_eq_some_iff.mp (stride_found hfound)
        have hnone : ofChars? forms (found.text ++ rest) = none := by
          rw [← hsplit, ofChars?_eq_filter, stride_found hfound]
          simp [hother]
        have hpasses : Passes forms templates past found.text rest :=
          hwritten.passes hlevel hpast (.inr hnone)
        have hshorter : rest.length < (c :: cs).length := by
          have hpos := List.length_pos_iff.mpr (ofChars?_text (stride_found hfound))
          rw [hsplit, List.length_append]
          omega
        rw [hsplit, hpasses, hwritten.scan_eq hsought hlevel hpast hdot,
          ih rest.length hshorter _ _ _ _ rest rfl, List.filter_cons_of_neg (by simpa using hother)]

/-! ## Blanking twice -/

/-- Text that blanking does not change stays. -/
theorem blankOut_blanked {spans : List Span} {offset : Nat} {cs : List Char}
    (h : ∀ c ∈ cs, blankChar c = [c]) : blankOut spans offset cs = cs := by
  induction cs generalizing offset with
  | nil => rfl
  | cons c cs ih =>
    rw [blankOut, ih fun d hd => h d (by simp [hd]), h c (by simp), ite_self]
    rfl

theorem blankChar_blanked (c : Char) : ∀ d ∈ blankChar c, blankChar d = [d] := by
  intro d hd
  rw [blankChar] at hd
  split at hd
  · rename_i hbreak
    rw [List.mem_singleton] at hd
    rw [hd, blankChar, if_pos hbreak]
  · rw [List.eq_of_mem_replicate hd]
    rfl

/-- To blank out some spans and then others is to blank out all of them. -/
theorem blankOut_blankOut (spans later : List Span) (offset : Nat) (cs : List Char) :
    blankOut later offset (blankOut spans offset cs) = blankOut (spans ++ later) offset cs := by
  induction cs generalizing offset with
  | nil => rfl
  | cons c cs ih =>
    rw [blankOut, blankOut, blankOut_append, List.any_append]
    by_cases hspans : (spans.any fun s => s.start ≤ offset && offset < s.stop) = true
    · rw [if_pos hspans, byteSize_blankChar, ih, blankOut_blanked (blankChar_blanked c), hspans]
      rfl
    · rw [Bool.not_eq_true] at hspans
      rw [hspans, Bool.false_or]
      simp [blankOut, ih]

theorem blankOut_congr {spans spans' : List Span} (h : ∀ s, s ∈ spans ↔ s ∈ spans') (offset : Nat)
    (cs : List Char) : blankOut spans offset cs = blankOut spans' offset cs := by
  induction cs generalizing offset with
  | nil => rfl
  | cons c cs ih =>
    have hany : (spans.any fun s => s.start ≤ offset && offset < s.stop) =
        spans'.any fun s => s.start ≤ offset && offset < s.stop := by
      rw [Bool.eq_iff_iff, List.any_eq_true, List.any_eq_true]
      simp only [h]
    rw [blankOut, blankOut, hany, ih]

/-! ## The extracts -/

/-- The declarations in some of the forms are told among all by what kind of node they make. -/
theorem declarations_eq_filter {p : Node → Bool}
    (h : ∀ offset found, p (toNode offset found) = isSought forms found) (cs : List Char) :
    declarations forms cs = (declarations {} cs).filter p := by
  have hkind : (fun x : Nat × Legacy => isSought forms x.2) =
      p ∘ fun x : Nat × Legacy => x.2.toNode x.1 := by
    funext x
    exact (h x.1 x.2).symm
  rw [declarations, declarations, scan_eq_filter, hkind, List.filter_map]

theorem isBareExport_eq_not_isModule {node : Node} (h : node ∈ declarations forms cs) :
    node.isBareExport = !node.isModule := by
  obtain ⟨⟨offset, found⟩, -, rfl⟩ := List.mem_map.mp h
  cases found <;> rfl

/-- To take some nodes out of a text and then others. -/
theorem taking_taking (first later : List Node) (source : String) :
    (taking later (taking first source).text).text = (taking (first ++ later) source).text := by
  simp only [taking, String.toList_ofList, blankOut_blankOut, List.map_append]

/-- In which order nodes are taken out of a text does not matter. -/
theorem taking_perm {nodes nodes' : List Node} (h : nodes.Perm nodes') (source : String) :
    (taking nodes source).text = (taking nodes' source).text := by
  have hmem : ∀ s, s ∈ nodes.map Node.span ↔ s ∈ nodes'.map Node.span := fun s =>
    (h.map Node.span).mem_iff
  simp only [taking, blankOut_congr hmem]

/-- The two forms are recognised independently: with both of them looked for, the declarations in
one form are those that are found when only this form is looked for, and the text is blanked out at
the spans of either. -/
theorem forms_found_apart (source : String) :
    (extract {} source).nodes.filter Node.isModule = (extract .modulesOnly source).nodes ∧
      (extract {} source).nodes.filter Node.isBareExport = (extract .bareOnly source).nodes ∧
      (extract {} source).nodes.Perm
        ((extract .modulesOnly source).nodes ++ (extract .bareOnly source).nodes) ∧
      (extract {} source).text = (taking ((extract .modulesOnly source).nodes ++
        (extract .bareOnly source).nodes) source).text ∧
      (extract {} source).text =
        (taking (extract .bareOnly source).nodes (extract .modulesOnly source).text).text ∧
      (extract {} source).text =
        (taking (extract .modulesOnly source).nodes (extract .bareOnly source).text).text := by
  let both := extract {} source
  let modules := extract .modulesOnly source
  let bare := extract .bareOnly source
  have hmodules : both.nodes.filter Node.isModule = modules.nodes :=
    (declarations_eq_filter (fun _ found => by cases found <;> rfl) source.toList).symm
  have hbare : both.nodes.filter Node.isBareExport = bare.nodes :=
    (declarations_eq_filter (fun _ found => by cases found <;> rfl) source.toList).symm
  have hperm : both.nodes.Perm (modules.nodes ++ bare.nodes) := by
    have hkinds : both.nodes.filter Node.isBareExport = both.nodes.filter (!Node.isModule ·) :=
      List.filter_congr fun node hnode => isBareExport_eq_not_isModule hnode
    rw [← hmodules, ← hbare, hkinds]
    exact (List.filter_append_perm _ _).symm
  have htext : both.text = (taking (modules.nodes ++ bare.nodes) source).text :=
    taking_perm hperm source
  refine ⟨hmodules, hbare, hperm, htext, ?_, ?_⟩
  · exact htext.trans (taking_taking modules.nodes bare.nodes source).symm
  · have hswap : both.nodes.Perm (bare.nodes ++ modules.nodes) := hperm.trans List.perm_append_comm
    exact (taking_perm hswap source).trans (taking_taking bare.nodes modules.nodes source).symm

end Legacy
end ModSplice
