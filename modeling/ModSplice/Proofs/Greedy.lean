import ModSplice.Proofs.LeadingComment

/-!
# The scan by its characters of code

The open templates matter to a scan only in that they tell which characters are code. With that
known of every character, declarations are taken from left to right, each where it can be. So a run
of characters with no place for a declaration is gone over by the scan, however its strides fall, if
the same templates are open behind it.
-/
namespace ModSplice.Legacy

open ModSplice.Text

def taken? (forms : Forms) (flags : List Bool) (past cs : List Char) : Option Legacy :=
  if flags.head? == some true && beginsWord past cs && !followsDot past then ofChars? forms cs
  else none

/-- The declarations that are taken one after the other, where `flags` tells of each character
whether it is code. The last one taken still covers `covered` characters. -/
def select (forms : Forms) (past : List Char) (offset covered : Nat) (flags : List Bool) :
    List Char → List (Nat × Legacy)
  | [] => []
  | c :: cs =>
    match covered with
    | covered + 1 => select forms (c :: past) (offset + c.utf8Size) covered flags.tail cs
    | 0 =>
      match taken? forms flags past (c :: cs) with
      | some found =>
        (offset, found) ::
          select forms (c :: past) (offset + c.utf8Size) (found.text.length - 1) flags.tail cs
      | none => select forms (c :: past) (offset + c.utf8Size) 0 flags.tail cs

variable {forms : Forms} {templates : Templates} {past cs run rest : List Char} {flags : List Bool}

theorem Candidate.taken?_eq (h : Candidate forms flags past [] cs) (later : List Bool) :
    taken? forms (flags ++ later) past cs = ofChars? forms cs := by
  have hcode : flags.head? = some true := by simpa [List.head?_eq_getElem?] using h.isCode
  have hword : Legacy.beginsWord past cs = true := h.beginsWord
  have hdot : followsDot past = false := h.noProperty
  simp [taken?, hcode, hword, hdot]

theorem taken?_eq_none {flag : Bool} (h : ¬ Candidate forms (flag :: flags) past [] cs)
    (later : List Bool) : taken? forms (flag :: flags ++ later) past cs = none := by
  rw [taken?, ite_eq_right_iff]
  intro htake
  simp only [List.cons_append, List.head?_cons, Bool.and_eq_true, beq_iff_eq,
    Bool.not_eq_true'] at htake
  by_contra hfound
  exact h ⟨htake.1.1, htake.1.2, htake.2, Option.ne_none_iff_exists'.mp hfound⟩

theorem select_covered (forms : Forms) (past rest : List Char) (offset : Nat) (later : List Bool)
    (hlength : flags.length = run.length) :
    select forms past offset run.length (flags ++ later) (run ++ rest) =
      select forms (run.reverse ++ past) (offset + byteSize run) 0 later rest := by
  induction run generalizing past offset flags with
  | nil =>
    obtain rfl := List.length_eq_zero_iff.mp hlength
    rfl
  | cons c run ih =>
    obtain ⟨flag, flags, rfl⟩ := List.exists_cons_of_length_eq_add_one hlength
    rw [List.length_cons, List.cons_append, List.cons_append, select, List.tail_cons,
      ih _ _ (Nat.succ.inj hlength)]
    simp [Nat.add_assoc]

/-- Where nothing can be taken, nothing is. -/
theorem select_pass (offset : Nat) (later : List Bool) (hlength : flags.length = run.length)
    (hnone : ∀ front back, run ++ rest = front ++ back → front.length < run.length →
      ¬ Candidate forms flags past front back) :
    select forms past offset 0 (flags ++ later) (run ++ rest) =
      select forms (run.reverse ++ past) (offset + byteSize run) 0 later rest := by
  induction run generalizing past offset flags with
  | nil =>
    obtain rfl := List.length_eq_zero_iff.mp hlength
    rfl
  | cons c run ih =>
    obtain ⟨flag, flags, rfl⟩ := List.exists_cons_of_length_eq_add_one hlength
    have hhere : taken? forms (flag :: flags ++ later) past (c :: (run ++ rest)) = none :=
      taken?_eq_none (hnone [] _ rfl (by simp)) later
    have hlater : ∀ front back, run ++ rest = front ++ back → front.length < run.length →
        ¬ Candidate forms flags (c :: past) front back := by
      intro front back hsplit hin hcandidate
      have hsame : [flag].length = [c].length := rfl
      exact hnone (c :: front) back (by rw [List.cons_append, hsplit]; rfl) (by simpa using hin)
        ((candidate_behind hsame).mpr hcandidate)
    have hrest := ih (offset + c.utf8Size) (Nat.succ.inj hlength) hlater
    simp only [List.cons_append, select] at hhere ⊢
    rw [hhere]
    simpa [Nat.add_assoc] using hrest

/-- The scan takes what the flags of its text leave open. -/
theorem scan_eq_select (forms : Forms) (templates : Templates) (past : List Char) (offset : Nat)
    (cs : List Char) :
    scan forms templates past offset 0 cs =
      select forms past offset 0 (codeFlags templates 0 cs) cs := by
  induction hn : cs.length using Nat.strongRecOn generalizing templates past offset cs with
  | ind n ih =>
    match cs with
    | [] => rfl
    | c :: cs =>
      obtain ⟨run, rest, flags, hrun, hne, hwidth, hlength, hflags, hcases⟩ :=
        stride_accounts forms templates past c cs
      obtain ⟨d, run, rfl⟩ := List.exists_cons_of_ne_nil hne
      have hshorter : rest.length < n := by
        rw [← hn, hrun, List.length_append, List.length_cons]
        omega
      rw [hrun] at hwidth hflags hcases ⊢
      rw [scan_stride forms templates past offset d run rest hwidth, hflags,
        ih rest.length hshorter _ _ _ rest rfl]
      generalize codeFlags (stride forms templates past (d :: run ++ rest)).templates 0 rest = later
      rcases hcases with ⟨found, hfound, htext, hcandidate⟩ | ⟨hnone, hpassed⟩
      · have htake := (hcandidate.taken?_eq later).trans (stride_found hfound)
        obtain ⟨flag, flags, rfl⟩ := List.exists_cons_of_length_eq_add_one hlength
        have hcovered := select_covered forms (d :: past) rest (offset + d.utf8Size) later
          (Nat.succ.inj hlength)
        rw [hfound]
        simp only [List.cons_append, select] at htake ⊢
        rw [htake]
        simpa [htext, Nat.add_assoc] using hcovered.symm
      · rw [hnone, select_pass offset _ hlength hpassed]
        rfl

/-- A run without a place for a declaration. -/
theorem passes_of_no_candidate
    (hflags : codeFlags templates 0 (run ++ rest) = flags ++ codeFlags templates 0 rest)
    (hlength : flags.length = run.length)
    (hnone : ∀ front back, run ++ rest = front ++ back → front.length < run.length →
      ¬ Candidate forms flags past front back) :
    Passes forms templates past run rest := by
  intro offset
  rw [scan_eq_select, scan_eq_select, hflags, select_pass offset _ hlength hnone]

end ModSplice.Legacy
