import ModSplice.Proofs.Forms

/-!
# Which declarations the scan takes

The strides of the scan jump over strings, comments, words and whole declarations, while the grammar
goes through the text character by character. No stride misses a place where a declaration could
begin, so the scan takes the declarations that the grammar leaves open, from left to right, each
unless it begins inside the one taken before.
-/
namespace ModSplice.Legacy

open ModSplice.Text

/-! ## Flags of plain text and of declarations -/

def special : List Char :=
  ['\x60', '\x7b', '\x7d', '/', '"', '\'']

theorem not_mem_special {p : Char → Bool} (hp : ∀ c ∈ special, p c = false) {c : Char}
    (hc : p c = true) : c ∉ special := by
  intro hmem
  rw [hp c hmem] at hc
  cases hc

theorem not_special_of_all {cs : List Char} (h : (cs.all fun c => !special.contains c) = true) :
    ∀ c ∈ cs, c ∉ special := by
  simpa using h

theorem isWordChar_not_special {c : Char} (h : isWordChar c = true) : c ∉ special :=
  not_mem_special (forall_of_all (by decide)) h

theorem isBlank_not_special {c : Char} (h : isBlank c = true) : c ∉ special :=
  not_mem_special (forall_of_all (by decide)) h

theorem step_plain {templates : Templates} {c : Char} (cs : List Char)
    (hlevel : templates.level ≠ .template) (hc : c ∉ special) :
    templates.step (c :: cs) = (templates, none) ∧ ¬ BeginsRegion c cs := by
  simp only [special, List.mem_cons, List.not_mem_nil, or_false, not_or] at hc
  obtain ⟨hback, hopen, hclose, hslash, hquotes⟩ := hc
  exact ⟨step_of_code cs hlevel hback hopen hclose, by
    simp [BeginsRegion, isQuote, hslash, hquotes]⟩

theorem codeFlags_plain {templates : Templates} {front : List Char} (rest : List Char)
    (hlevel : templates.level ≠ .template) (hfront : ∀ c ∈ front, c ∉ special) :
    codeFlags templates 0 (front ++ rest) =
      List.replicate front.length true ++ codeFlags templates 0 rest := by
  induction front with
  | nil => simp
  | cons c front ih =>
    obtain ⟨hstep, hregion⟩ := step_plain (front ++ rest) hlevel (hfront c (by simp))
    rw [List.cons_append, codeFlags_code hstep hregion, ih fun d hd => hfront d (by simp [hd])]
    simp [List.replicate_succ]

theorem IsTail.not_special {tail rest : List Char} (h : IsTail tail rest) :
    ∀ c ∈ tail, c ∉ special := by
  rcases h with ⟨indent, hindent, rfl⟩ | ⟨rfl, -⟩
  · intro c hc
    rcases List.mem_append.mp hc with hc | hc
    · exact not_mem_special (forall_of_all (by decide)) (hindent c hc)
    · rw [List.mem_singleton] at hc
      subst hc
      decide
  · simp

/-- The words and blanks of a declaration are plain. -/
theorem lead_not_special {gap name gap' gap'' : List Char} (hblanks : IsBlanks gap)
    (hname : IsName name) (hblanks' : IsBlanks gap') (hblanks'' : IsBlanks gap'') :
    ∀ c ∈ ['m', 'o', 'd', 'u', 'l', 'e'] ++ gap ++ name ++ gap' ++ ['f', 'r', 'o', 'm'] ++ gap'',
      c ∉ special := by
  simp only [List.forall_mem_append]
  refine ⟨⟨⟨⟨⟨not_special_of_all (by decide), ?_⟩, ?_⟩, ?_⟩, not_special_of_all (by decide)⟩, ?_⟩
  · exact fun c hc => isBlank_not_special (hblanks c hc)
  · exact fun c hc => isWordChar_not_special (hname.isWordChar c hc)
  · exact fun c hc => isBlank_not_special (hblanks' c hc)
  · exact fun c hc => isBlank_not_special (hblanks'' c hc)

theorem bare_not_special {gap gap' : List Char} (hblanks : IsBlanks gap) (hblanks' : IsBlanks gap') :
    ∀ c ∈ ['e', 'x', 'p', 'o', 'r', 't'] ++ gap ++ ['d', 'e', 'f', 'a', 'u', 'l', 't'] ++ gap' ++
      [';'], c ∉ special := by
  simp only [List.forall_mem_append]
  refine ⟨⟨⟨⟨not_special_of_all (by decide), ?_⟩, not_special_of_all (by decide)⟩, ?_⟩,
    not_special_of_all (by decide)⟩
  · exact fun c hc => isBlank_not_special (hblanks c hc)
  · exact fun c hc => isBlank_not_special (hblanks' c hc)

/-- A declaration begins with code, and the same templates are open behind it. -/
theorem Written.codeFlags_eq {templates : Templates} {found : Legacy} {rest : List Char}
    (h : Written found rest) (hlevel : templates.level ≠ .template) :
    ∃ flags : List Bool, flags.length = found.text.length ∧ flags[0]? = some true ∧
      codeFlags templates 0 (found.text ++ rest) = flags ++ codeFlags templates 0 rest := by
  cases h with
  | @moduleFrom gap name gap' gap'' path tail _ hgap hblanks hname hgap' hblanks' hblanks'' hpath
      htail =>
    have hlead := lead_not_special hblanks hname hblanks' hblanks''
    simp only [text]
    generalize hl : ['m', 'o', 'd', 'u', 'l', 'e'] ++ gap ++ name ++ gap' ++ ['f', 'r', 'o', 'm'] ++
      gap'' = lead at hlead ⊢
    refine ⟨List.replicate lead.length true ++ List.replicate path.length false ++
      List.replicate tail.length true, by simp, ?_, ?_⟩
    · simp [← hl, List.replicate_succ]
    · rw [List.append_assoc, List.append_assoc, codeFlags_plain _ hlevel hlead,
        codeFlags_region hlevel hpath.1, codeFlags_plain _ hlevel htail.not_special]
      simp only [List.append_assoc]
  | @bareDefault gap gap' rest hgap hblanks hblanks' =>
    simp only [text]
    refine ⟨_, ?_, ?_, codeFlags_plain rest hlevel (bare_not_special hblanks hblanks')⟩
    · simp
    · simp [List.replicate_succ]

/-! ## One stride -/

/-- A declaration could be taken behind `front`, where `past` comes before the text in turn. -/
structure Candidate (forms : Forms) (flags : List Bool) (past front back : List Char) : Prop where
  isCode : flags[front.length]? = some true
  beginsWord : beginsWord (front.reverse ++ past) back = true
  noProperty : followsDot (front.reverse ++ past) = false
  found : ∃ found, ofChars? forms back = some found

/-- What a stride does at the beginning of `cs`. It takes a declaration that can be taken there, or
it passes over characters behind none of which one can be taken. Either way it stays in step with
the flags. -/
def Accounts (forms : Forms) (templates : Templates) (past cs : List Char) (next : Stride) : Prop :=
  ∃ run rest flags, cs = run ++ rest ∧ run ≠ [] ∧ next.width = run.length ∧
    flags.length = run.length ∧
    codeFlags templates 0 cs = flags ++ codeFlags next.templates 0 rest ∧
    ((∃ found, next.found? = some found ∧ found.text = run ∧ Candidate forms flags past [] cs) ∨
      (next.found? = none ∧ ∀ front back, cs = front ++ back → front.length < run.length →
        ¬ Candidate forms flags past front back))

theorem not_candidate_of_false {forms : Forms} {past front back : List Char} {n : Nat} :
    ¬ Candidate forms (List.replicate n false) past front back := by
  intro h
  have hcode := h.isCode
  rw [List.getElem?_replicate] at hcode
  split at hcode <;> simp at hcode

theorem step_width {templates after : Templates} {c : Char} {cs : List Char} {width : Nat}
    (h : templates.step (c :: cs) = (after, some width)) :
    ∃ front rest, cs = front ++ rest ∧ width = front.length + 1 := by
  have hwidth : width = 1 ∨ width = 2 ∧ cs ≠ [] := by
    match templates with
    | [] => grind [Templates.step]
    | (depth + 1) :: outer => grind [Templates.step]
    | 0 :: outer => grind [Templates.step]
  rcases hwidth with rfl | ⟨rfl, hne⟩
  · exact ⟨[], cs, rfl, rfl⟩
  · obtain ⟨d, cs, rfl⟩ := List.exists_cons_of_ne_nil hne
    exact ⟨[d], cs, rfl, rfl⟩

theorem step_none {templates after : Templates} {c : Char} {cs : List Char}
    (h : templates.step (c :: cs) = (after, none)) : templates.level ≠ .template := by
  match templates with
  | [] => simp [Templates.level]
  | (depth + 1) :: outer => simp [Templates.level]
  | 0 :: outer => grind [Templates.step]

/-- Inside a word no other begins. -/
theorem not_beginsWord_inside {run rest front back : List Char} (past : List Char)
    (hrun : ∀ c ∈ run, isWordChar c = true) (hsplit : run ++ rest = front ++ back)
    (hlength : front.length < run.length) (hne : front ≠ []) :
    beginsWord (front.reverse ++ past) back = false := by
  have hfront : front <+: run :=
    List.prefix_of_prefix_length_le ⟨back, hsplit.symm⟩ (List.prefix_append run rest) hlength.le
  have hlast : isWordChar (front.getLast hne) = true :=
    hrun _ (hfront.subset (List.getLast_mem hne))
  simp [beginsWord, List.getLast?_eq_some_getLast hne, hlast]

theorem piece_accounts {forms : Forms} {templates after : Templates} {past : List Char} {c : Char}
    {cs : List Char} {width : Nat} (h : templates.step (c :: cs) = (after, some width)) :
    Accounts forms templates past (c :: cs) ⟨after, width, none⟩ := by
  obtain ⟨front, rest, rfl, rfl⟩ := step_width h
  refine ⟨c :: front, rest, List.replicate (front.length + 1) false, rfl, by simp, rfl, by simp, ?_,
    .inr ⟨rfl, fun _ _ _ _ => not_candidate_of_false⟩⟩
  rw [codeFlags_piece rest h, List.replicate_succ, List.cons_append]

theorem region_accounts {forms : Forms} {templates after : Templates} {past : List Char} {c : Char}
    {cs : List Char} {width : Nat} (h : templates.step (c :: cs) = (after, none))
    (hwidth : regionWidth? (c :: cs) = some width) :
    Accounts forms templates past (c :: cs) ⟨after, width, none⟩ := by
  have hbegins : BeginsRegion c cs := by
    by_contra hnone
    rw [regionWidth?_eq_none hnone] at hwidth
    cases hwidth
  obtain ⟨text, mark, rest, hsplit, hne, hregion⟩ := exists_region hbegins
  obtain ⟨d, front, rfl⟩ := List.exists_cons_of_ne_nil hne
  rw [List.cons_append, List.cons.injEq] at hsplit
  obtain ⟨rfl, rfl⟩ := hsplit
  obtain rfl : front.length + 1 = width := by
    simpa [hwidth] using hregion.regionWidth?_eq.symm
  refine ⟨c :: front, rest, List.replicate (front.length + 1) false, rfl, by simp, rfl, by simp, ?_,
    .inr ⟨rfl, fun _ _ _ _ => not_candidate_of_false⟩⟩
  simp [codeFlags, h, hwidth, codeFlags_covered, List.replicate_succ]

theorem single_accounts {forms : Forms} {templates after : Templates} {past : List Char} {c : Char}
    {cs : List Char} (h : templates.step (c :: cs) = (after, none))
    (hwidth : regionWidth? (c :: cs) = none) (hword : beginsWord past (c :: cs) = false) :
    Accounts forms templates past (c :: cs) ⟨after, 1, none⟩ := by
  refine ⟨[c], cs, [true], rfl, by simp, rfl, rfl, by simp [codeFlags, h, hwidth], .inr ⟨rfl, ?_⟩⟩
  intro front back hsplit hlength hcandidate
  obtain rfl : front = [] := List.length_eq_zero_iff.mp (by simpa using hlength)
  have hbegins := hcandidate.beginsWord
  rw [← List.nil_append back, ← hsplit] at hbegins
  simp [hword] at hbegins

theorem isWordStart_of_beginsWord {past cs : List Char} {c : Char}
    (h : beginsWord past (c :: cs) = true) : isWordStart c = true := by
  simp only [beginsWord, List.head?_cons, Option.any_some, Bool.and_eq_true] at h
  exact h.1

/-- A word leaves the open templates as they are. -/
theorem step_word {templates after : Templates} {c : Char} {cs : List Char}
    (h : templates.step (c :: cs) = (after, none)) (hc : isWordStart c = true) :
    after = templates := by
  have hplain := isWordChar_not_special (isWordChar_of_isWordStart c hc)
  rw [(step_plain cs (step_none h) hplain).1] at h
  exact (Prod.mk.inj h).1.symm

/-- A word at which nothing can be taken. -/
theorem word_accounts {forms : Forms} {templates after : Templates} {past : List Char} {c : Char}
    {cs : List Char} (h : templates.step (c :: cs) = (after, none)) (hc : isWordStart c = true)
    (hnone : followsDot past = true ∨ ofChars? forms (c :: cs) = none) :
    Accounts forms templates past (c :: cs)
      ⟨after, ((c :: cs).takeWhile isWordChar).length, none⟩ := by
  obtain rfl := step_word h hc
  obtain ⟨run, rest, hsplit, htake, -, hrun, -⟩ := exists_run isWordChar (c :: cs)
  have hne : run ≠ [] := by
    rw [← htake, List.takeWhile_cons, if_pos (isWordChar_of_isWordStart c hc)]
    simp
  rw [htake]
  refine ⟨run, rest, List.replicate run.length true, hsplit, hne, rfl, by simp, ?_, .inr ⟨rfl, ?_⟩⟩
  · rw [hsplit]
    exact codeFlags_plain rest (step_none h) fun d hd => isWordChar_not_special (hrun d hd)
  · intro front back hfront hlength hcandidate
    by_cases hempty : front = []
    · subst hempty
      have hdot := hcandidate.noProperty
      obtain ⟨found, hfound⟩ := hcandidate.found
      rw [← List.nil_append back, ← hfront] at hfound
      rcases hnone with hnone | hnone
      · simp [hnone] at hdot
      · rw [hnone] at hfound
        cases hfound
    · have hinside := not_beginsWord_inside past hrun (hsplit ▸ hfront) hlength hempty
      rw [hcandidate.beginsWord] at hinside
      cases hinside

theorem declaration_accounts {forms : Forms} {templates after : Templates} {past : List Char}
    {c : Char} {cs : List Char} {found : Legacy} (h : templates.step (c :: cs) = (after, none))
    (hword : beginsWord past (c :: cs) = true) (hdot : followsDot past = false)
    (hfound : ofChars? forms (c :: cs) = some found) :
    Accounts forms templates past (c :: cs) ⟨after, found.text.length, some found⟩ := by
  obtain rfl := step_word h (isWordStart_of_beginsWord hword)
  obtain ⟨rest, hsplit, hwritten, -⟩ := ofChars?_eq_some_iff.mp hfound
  obtain ⟨flags, hlength, hfirst, hflags⟩ := hwritten.codeFlags_eq (step_none h)
  refine ⟨found.text, rest, flags, hsplit, ofChars?_text hfound, rfl, hlength, hsplit ▸ hflags,
    .inl ⟨found, rfl, rfl, hfirst, hword, hdot, found, hfound⟩⟩

theorem stride_accounts (forms : Forms) (templates : Templates) (past : List Char) (c : Char)
    (cs : List Char) :
    Accounts forms templates past (c :: cs) (stride forms templates past (c :: cs)) := by
  rw [stride]
  split
  · rename_i after width hstep
    exact piece_accounts hstep
  · rename_i after hstep
    simp only [codeStride]
    cases hwidth : regionWidth? (c :: cs) with
    | some width => exact region_accounts hstep hwidth
    | none =>
      by_cases hword : beginsWord past (c :: cs) = true
      · have hc := isWordStart_of_beginsWord hword
        by_cases hdot : followsDot past = true
        · simp only [hword, hdot]
          exact word_accounts hstep hc (.inl hdot)
        · cases hfound : ofChars? forms (c :: cs) with
          | some found =>
            simp only [hword, hdot]
            exact declaration_accounts hstep hword (by simpa using hdot) hfound
          | none =>
            simp only [hword, hdot]
            exact word_accounts hstep hc (.inr hfound)
      · rw [Bool.not_eq_true] at hword
        simp only [hword]
        exact single_accounts hstep hwidth hword

/-! ## The whole scan -/

theorem scan_covered (forms : Forms) (templates : Templates) (past : List Char) (offset : Nat)
    (front cs : List Char) :
    scan forms templates past offset front.length (front ++ cs) =
      scan forms templates (front.reverse ++ past) (offset + byteSize front) 0 cs := by
  induction front generalizing past offset with
  | nil => simp
  | cons c front ih => simp [scan, ih, Nat.add_assoc]

theorem scan_stride (forms : Forms) (templates : Templates) (past : List Char) (offset : Nat)
    (c : Char) (run rest : List Char)
    (hwidth : (stride forms templates past (c :: run ++ rest)).width = (c :: run).length) :
    scan forms templates past offset 0 (c :: run ++ rest) =
      (stride forms templates past (c :: run ++ rest)).found?.toList.map
        (fun found => (offset, found)) ++
      scan forms (stride forms templates past (c :: run ++ rest)).templates
        ((c :: run).reverse ++ past) (offset + byteSize (c :: run)) 0 rest := by
  rw [List.cons_append] at hwidth ⊢
  rw [scan, hwidth, List.length_cons, Nat.add_sub_cancel, scan_covered]
  simp [Nat.add_assoc]

theorem le_of_mem_scan {forms : Forms} {templates : Templates} {past cs : List Char}
    {offset : Nat} {x : Nat × Legacy} (h : x ∈ scan forms templates past offset 0 cs) :
    offset ≤ x.1 := by
  obtain ⟨front, -, -, hoffset, -⟩ := scan_found forms cs templates past offset 0 x h
  omega

def Covers (place : Nat) (x : Nat × Legacy) : Prop :=
  x.1 < place ∧ place < x.1 + byteSize x.2.text

theorem candidate_behind {forms : Forms} {flags later : List Bool} {past run front back : List Char}
    (hlength : flags.length = run.length) :
    Candidate forms (flags ++ later) past (run ++ front) back ↔
      Candidate forms later (run.reverse ++ past) front back := by
  have hflag : (flags ++ later)[(run ++ front).length]? = later[front.length]? := by
    rw [List.getElem?_append_right (by simp [hlength])]
    simp [hlength]
  have hpast : (run ++ front).reverse ++ past = front.reverse ++ (run.reverse ++ past) := by simp
  constructor
  · rintro ⟨hcode, hword, hdot, hfound⟩
    exact ⟨hflag ▸ hcode, hpast ▸ hword, hpast ▸ hdot, hfound⟩
  · rintro ⟨hcode, hword, hdot, hfound⟩
    exact ⟨hflag ▸ hcode, hpast ▸ hword, hpast ▸ hdot, hfound⟩

theorem candidate_in {forms : Forms} {flags later : List Bool} {past front back : List Char}
    (hlength : front.length < flags.length) :
    Candidate forms (flags ++ later) past front back ↔ Candidate forms flags past front back := by
  have hflag : (flags ++ later)[front.length]? = flags[front.length]? :=
    List.getElem?_append_left hlength
  constructor
  · rintro ⟨hcode, hword, hdot, hfound⟩
    exact ⟨hflag ▸ hcode, hword, hdot, hfound⟩
  · rintro ⟨hcode, hword, hdot, hfound⟩
    exact ⟨hflag ▸ hcode, hword, hdot, hfound⟩

theorem byteSize_lt_of_prefix {front run : List Char} (h : front <+: run)
    (hlength : front.length < run.length) : byteSize front < byteSize run := by
  obtain ⟨rest, rfl⟩ := h
  have hne : rest ≠ [] := by
    rintro rfl
    simp at hlength
  have hpos := byteSize_pos hne
  rw [byteSize_append]
  omega

/-- Places that a stride covers: only a declaration that it takes begins there. -/
theorem selects_in {forms : Forms} {flags : List Bool} {past front back run : List Char}
    {offset : Nat} {taken? : Option Legacy} {later : List (Nat × Legacy)}
    (hfront : front <+: run) (hin : front.length < run.length)
    (hlater : ∀ x ∈ later, offset + byteSize run ≤ x.1)
    (hcases : (∃ found, taken? = some found ∧ found.text = run ∧
        Candidate forms flags past [] (front ++ back)) ∨
      (taken? = none ∧ ¬ Candidate forms flags past front back)) :
    (∃ x ∈ taken?.toList.map (fun found => (offset, found)) ++ later,
        x.1 = offset + byteSize front) ↔
      Candidate forms flags past front back ∧
        ∀ x ∈ taken?.toList.map (fun found => (offset, found)) ++ later,
          ¬ Covers (offset + byteSize front) x := by
  have hsize := byteSize_lt_of_prefix hfront hin
  have hfar : ∀ x ∈ later, ¬ x.1 = offset + byteSize front := by
    intro x hx
    have := hlater x hx
    omega
  rcases hcases with ⟨found, rfl, rfl, hcandidate⟩ | ⟨rfl, hpassed⟩
  · simp only [Option.toList_some, List.map_cons, List.map_nil, List.cons_append, List.nil_append,
      List.mem_cons]
    by_cases hempty : front = []
    · subst hempty
      refine iff_of_true ⟨(offset, found), .inl rfl, by simp⟩ ⟨hcandidate, ?_⟩
      rintro x (rfl | hx) hcovers
      · simp [Covers] at hcovers
      · have := hlater x hx
        simp only [Covers, byteSize_nil] at hcovers
        omega
    · have hpos := byteSize_pos hempty
      refine iff_of_false ?_ ?_
      · rintro ⟨x, rfl | hx, hplace⟩
        · simp only at hplace
          omega
        · exact hfar x hx hplace
      · rintro ⟨-, hcovers⟩
        refine hcovers (offset, found) (.inl rfl) ⟨?_, ?_⟩
        · simp only
          omega
        · simp only
          omega
  · refine iff_of_false ?_ fun h => hpassed h.1
    rintro ⟨x, hx, hplace⟩
    exact hfar x (by simpa using hx) hplace

/-- Places behind a stride: what it takes has no part in them. -/
theorem selects_behind {front run : List Char} {offset : Nat} {taken? : Option Legacy}
    {later : List (Nat × Legacy)} (hne : run ≠ []) (htaken : ∀ found ∈ taken?, found.text = run) :
    ((∃ x ∈ taken?.toList.map (fun found => (offset, found)) ++ later,
        x.1 = offset + byteSize (run ++ front)) ↔
      ∃ x ∈ later, x.1 = offset + byteSize run + byteSize front) ∧
    ((∀ x ∈ taken?.toList.map (fun found => (offset, found)) ++ later,
        ¬ Covers (offset + byteSize (run ++ front)) x) ↔
      ∀ x ∈ later, ¬ Covers (offset + byteSize run + byteSize front) x) := by
  have hpos := byteSize_pos hne
  rw [byteSize_append, ← Nat.add_assoc]
  cases taken? with
  | none => simp
  | some found =>
    have htext : found.text = run := htaken found rfl
    have hfirst : ¬ offset = offset + byteSize run + byteSize front := by omega
    have hcovers : ¬ Covers (offset + byteSize run + byteSize front) (offset, found) := by
      simp only [Covers, htext]
      omega
    simp [hfirst, hcovers]

/-- The scan takes a declaration at every place where one can be taken and that no earlier one
covers. -/
theorem scan_selects (forms : Forms) (cs : List Char) (templates : Templates) (past : List Char)
    (offset : Nat) (front back : List Char) (hsplit : cs = front ++ back) :
    (∃ x ∈ scan forms templates past offset 0 cs, x.1 = offset + byteSize front) ↔
      Candidate forms (codeFlags templates 0 cs) past front back ∧
        ∀ x ∈ scan forms templates past offset 0 cs, ¬ Covers (offset + byteSize front) x := by
  induction hn : cs.length using Nat.strongRecOn generalizing cs templates past offset front with
  | ind n ih =>
    match cs with
    | [] =>
      constructor
      · simp [scan]
      · rintro ⟨hcandidate, -⟩
        simpa [codeFlags] using hcandidate.isCode
    | c :: cs =>
      obtain ⟨run, rest, flags, hrun, hne, hwidth, hlength, hflags, hcases⟩ :=
        stride_accounts forms templates past c cs
      obtain ⟨d, run, rfl⟩ := List.exists_cons_of_ne_nil hne
      rw [hrun] at hwidth hflags hsplit hcases hn ⊢
      rw [scan_stride forms templates past offset d run rest hwidth, hflags]
      rcases Nat.lt_or_ge front.length (d :: run).length with hin | hbehind
      · rw [candidate_in (hlength ▸ hin)]
        refine selects_in (List.prefix_of_prefix_length_le ⟨back, hsplit.symm⟩
          (List.prefix_append (d :: run) rest) hin.le) hin (fun x => le_of_mem_scan) ?_
        rcases hcases with ⟨found, hfound, htext, hcandidate⟩ | ⟨hnone, hpassed⟩
        · exact .inl ⟨found, hfound, htext, hsplit ▸ hcandidate⟩
        · exact .inr ⟨hnone, hpassed front back hsplit hin⟩
      · obtain ⟨front, rfl⟩ := List.prefix_of_prefix_length_le (List.prefix_append (d :: run) rest)
          ⟨back, hsplit.symm⟩ hbehind
        rw [List.append_assoc, List.append_cancel_left_eq] at hsplit
        have htaken : ∀ found ∈ (stride forms templates past (d :: run ++ rest)).found?,
            found.text = d :: run := by
          intro found hfound
          rcases hcases with ⟨found', hfound', htext, -⟩ | ⟨hnone, -⟩
          · obtain rfl := Option.some.inj (hfound'.symm.trans hfound)
            exact htext
          · rw [hnone] at hfound
            cases hfound
        obtain ⟨hplace, hcovers⟩ := selects_behind hne htaken
        rw [hplace, hcovers, candidate_behind hlength]
        refine ih rest.length ?_ rest _ _ _ front hsplit rfl
        rw [← hn, List.length_append, List.length_cons]
        omega

theorem beginsWord_reverse (front back : List Char) :
    beginsWord front.reverse back = true ↔
      back.head?.any isWordStart = true ∧ front.getLast?.any isWordChar = false := by
  rw [beginsWord, List.head?_reverse, Bool.and_eq_true, Bool.not_eq_true']

theorem followsDot_reverse (front : List Char) :
    followsDot front.reverse = false ↔ (front.filter fun c => !isBlank c).getLast? ≠ some '.' := by
  rw [followsDot, ← List.head?_filter, List.filter_reverse, List.head?_reverse, beq_eq_false_iff_ne]

theorem declarations_starts (forms : Forms) (cs : List Char) (place : Nat) :
    (∃ node ∈ declarations forms cs, node.span.start = place) ↔
      ∃ x ∈ scan forms [] [] 0 0 cs, x.1 = place := by
  constructor
  · rintro ⟨node, hnode, hstart⟩
    obtain ⟨x, hx, rfl⟩ := List.mem_map.mp hnode
    exact ⟨x, hx, (toNode_start x.1 x.2).symm.trans hstart⟩
  · rintro ⟨x, hx, hstart⟩
    exact ⟨_, List.mem_map_of_mem hx, (toNode_start x.1 x.2).trans hstart⟩

theorem declarations_covers (forms : Forms) (cs : List Char) (place : Nat) :
    (∀ node ∈ declarations forms cs, ¬ (node.span.start < place ∧ place < node.span.stop)) ↔
      ∀ x ∈ scan forms [] [] 0 0 cs, ¬ Covers place x := by
  simp only [declarations, List.forall_mem_map, toNode_start, toNode_stop, Covers]

theorem Reading.isCode_iff {cs : List Char} {ms : Marked} (h : Reading cs ms) (i : Nat) :
    (codeFlags [] 0 cs)[i]? = some true ↔ ms[i]?.map Prod.snd = some .code := by
  rw [← h.flags_eq, Marked.flags, List.getElem?_map]
  cases ms[i]? <;> simp

/-- The declarations of a text are those that its lexical grammar leaves open. One is found at a
character if and only if the character is code in the reading of the text, begins a word, follows no
dot, has a declaration written from there on, and lies in none that was found before. -/
theorem declaration_starts_iff (forms : Forms) (source : String) :
    (∃ ms, Reading source.toList ms) ∧
      ∀ ms, Reading source.toList ms → ∀ front back, source.toList = front ++ back →
        ((∃ node ∈ (extract forms source).nodes, node.span.start = byteSize front) ↔
          (ms[front.length]?.map Prod.snd = some .code ∧
            (back.head?.any isWordStart = true ∧ front.getLast?.any isWordChar = false) ∧
            (front.filter fun c => !isBlank c).getLast? ≠ some '.' ∧
            Begins forms back ∧
            ∀ node ∈ (extract forms source).nodes,
              ¬ (node.span.start < byteSize front ∧ byteSize front < node.span.stop))) := by
  refine ⟨exists_reading _, ?_⟩
  intro ms hreading front back hsplit
  have hselects := scan_selects forms source.toList [] [] 0 front back hsplit
  rw [Nat.zero_add, ← declarations_starts, ← declarations_covers] at hselects
  change (∃ node ∈ declarations forms source.toList, node.span.start = byteSize front) ↔ _
  rw [hselects, ← hreading.isCode_iff, ← beginsWord_reverse, ← followsDot_reverse, begins_iff]
  constructor
  · rintro ⟨⟨hcode, hword, hdot, hfound⟩, hcovers⟩
    rw [List.append_nil] at hword hdot
    exact ⟨hcode, hword, hdot, hfound, hcovers⟩
  · rintro ⟨hcode, hword, hdot, hfound, hcovers⟩
    rw [← List.append_nil front.reverse] at hword hdot
    exact ⟨⟨hcode, hword, hdot, hfound⟩, hcovers⟩

/-- Two declarations in one template: the first is text of a template inside it, the second stands
in a hole. -/
theorem declaration_starts_in_hole :
    let source := "`$\x7b`module a from 'a'`\x7d$\x7bmodule b from 'b'\x7d`"
    (¬ ∃ node ∈ (extract {} source).nodes, node.span.start = 4) ∧
      ∃ node ∈ (extract {} source).nodes, node.span.start = 25 := by
  intro source
  obtain ⟨⟨ms, hreading⟩, hiff⟩ := declaration_starts_iff {} source
  have hplaces (n : Nat) :=
    hiff ms hreading (source.toList.take n) (source.toList.drop n) (List.take_append_drop ..).symm
  have htext : byteSize (source.toList.take 4) = 4 := by decide +kernel
  have hhole : byteSize (source.toList.take 25) = 25 := by decide +kernel
  have hfound : ofChars? {} (source.toList.drop 25) =
      some (.moduleFrom "module b from ".toList ['b'] "'b'".toList []) := by decide +kernel
  rw [← htext, ← hhole, hplaces 4, hplaces 25]
  simp only [← hreading.isCode_iff, begins_iff]
  refine ⟨?_, by decide +kernel, by decide +kernel, by decide +kernel, ⟨_, hfound⟩,
    by decide +kernel⟩
  rintro ⟨hcode, -⟩
  exact absurd hcode (by decide +kernel)

end ModSplice.Legacy
