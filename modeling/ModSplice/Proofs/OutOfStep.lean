import ModSplice.Proofs.PathLiteral

/-!
# Text in front of a slash

A text that is read as code comes to an end in front of a slash, or something in it does not: a
string that no quote closes, or a template. Then what comes behind the slash is no code either, up
to the next mark that ends the string or the text of the template. Where the slash is in the code
inside a template, it takes closing braces to get back to the template's own text.
-/
namespace ModSplice.Legacy

open ModSplice.Text

variable {templates : Templates} {level : Level} {later : List Char}

/-! ## What a reading sees of the text behind it -/

theorem Single.congr {c : Char} {mark : Mark} {cs cs' : List Char} (h : Single level c mark cs)
    (hhead : cs'.head? = cs.head?) : Single level c mark cs' := by
  have hnil : cs' = [] ↔ cs = [] := by
    rw [← List.head?_eq_none_iff, hhead, List.head?_eq_none_iff]
  cases level <;> simpa [Single, BeginsRegion, hhead, hnil] using h

theorem Region.congr {text cs cs' : List Char} {mark : Mark} (h : Region text mark cs)
    (hne : cs ≠ []) (hhead : cs'.head? = cs.head?) : Region text mark cs' := by
  cases h with
  | line hbody hrest => exact .line hbody (hhead ▸ hrest)
  | block hbody => exact .block hbody
  | string hquote hbody => exact .string hquote hbody
  | openBlock | openString => exact absurd rfl hne

/-- In front of another text with the same first character the same is read. -/
theorem Lexed.congr {ms : Marked} {rest rest' : List Char} (h : Lexed level ms rest)
    (hne : rest ≠ []) (hhead : rest'.head? = rest.head?) : Lexed level ms rest' := by
  have happend : ∀ front : List Char, (front ++ rest').head? = (front ++ rest).head? := by
    intro front
    rw [List.head?_append, List.head?_append, hhead]
  induction h generalizing rest' with
  | nil => exact .nil
  | single hsingle _ ih => exact .single (hsingle.congr (happend _)) (ih hne hhead happend)
  | escape c _ ih => exact .escape c (ih hne hhead happend)
  | region hlevel hregion _ ih =>
    exact .region hlevel (hregion.congr (by simp [hne]) (happend _)) (ih hne hhead happend)
  | closed henclose _ _ ihinside ih =>
    refine .closed henclose (ihinside (by simp) rfl ?_) (ih hne hhead happend)
    intro front
    rw [List.head?_append, List.head?_append]
    rfl
  | unclosed => exact absurd rfl hne

/-! ## Strings and templates that are open at the slash -/

def behindSlash (n : Nat) (later : List Char) : List Char :=
  ['/', ';', '\n'] ++ (List.replicate n '\x7d' ++ later)

/-- With enough braces in between, the first character of the text is no code. -/
def Hides (later : List Char) (templates : Templates) (cs : List Char) : Prop :=
  ∃ n, (codeFlags templates 0 (cs ++ behindSlash n later))[(cs ++ behindSlash n []).length]? =
    some false

/-- The characters that may end a string, or text of a template, or take the next one with them. -/
def ending : List Char :=
  ['"', '\'', '\x60', '$', '\\']

theorem behindSlash_head (n : Nat) (later : List Char) :
    (behindSlash n later).head? = ['/'].head? := rfl

/-- What is hidden behind a text is hidden behind a longer one, if the flags go on from there. -/
theorem Hides.behind {after : Templates} {run cs : List Char} (h : Hides later after cs)
    (hflags : ∀ back, back.head? = ['/'].head? → ∃ flags, flags.length = run.length ∧
      codeFlags templates 0 (run ++ (cs ++ back)) = flags ++ codeFlags after 0 (cs ++ back)) :
    Hides later templates (run ++ cs) := by
  obtain ⟨n, hfalse⟩ := h
  obtain ⟨flags, hlength, hflags⟩ := hflags _ (behindSlash_head n later)
  refine ⟨n, ?_⟩
  rw [List.append_assoc, hflags, List.append_assoc, List.length_append, ← hlength,
    List.getElem?_append_right (by omega), Nat.add_sub_cancel_left]
  exact hfalse

/-- Text of a template in which nothing comes to an end. -/
theorem codeFlags_templateText {front : List Char} (rest : List Char)
    (hlevel : templates.level = .template) (hfront : ∀ c ∈ front, c ∉ ending) :
    codeFlags templates 0 (front ++ rest) =
      List.replicate front.length false ++ codeFlags templates 0 rest := by
  induction front with
  | nil => simp
  | cons c front ih =>
    have hc := hfront c (by simp)
    simp only [ending, List.mem_cons, List.not_mem_nil, or_false, not_or] at hc
    obtain ⟨-, -, hback, hdollar, hescape⟩ := hc
    have hsingle : Single templates.level c .template (front ++ rest) := by
      rw [hlevel]
      exact ⟨rfl, hback, fun h => hescape h.1, fun h => hdollar h.1⟩
    rw [List.cons_append, codeFlags_single hsingle, ih fun d hd => hfront d (by simp [hd])]
    rfl

theorem not_ending {c : Char} (hc : c ∉ ending) : ∀ d ∈ ['/', ';', '\n', c], d ∉ ending := by
  simpa [ending] using hc

/-- Text of a template is no code. -/
theorem hides_template {c : Char} {rest : List Char} (hlevel : templates.level = .template)
    (hc : c ∉ ending) : Hides (c :: rest) templates [] := by
  refine ⟨0, ?_⟩
  change (codeFlags templates 0 (['/', ';', '\n', c] ++ rest))[3]? = some false
  rw [codeFlags_templateText rest hlevel (not_ending hc)]
  rfl

/-- A backslash in front of the slash takes it along. -/
theorem hides_escape {c : Char} {rest : List Char} (hlevel : templates.level = .template)
    (hc : c ∉ ending) : Hides (c :: rest) templates ['\\'] := by
  refine ⟨0, ?_⟩
  have hfront : ∀ d ∈ [';', '\n', c], d ∉ ending := fun d hd => not_ending hc d (by simp [hd])
  change (codeFlags templates 0 ('\\' :: '/' :: ([';', '\n', c] ++ rest)))[4]? = some false
  rw [codeFlags_escape _ _ hlevel, codeFlags_templateText rest hlevel hfront]
  rfl

/-- The braces that are open in the code inside a template, closed one by one. -/
theorem codeFlags_braces (depth : Nat) (outer : Templates) (rest : List Char) :
    ∃ flags, flags.length = depth + 1 ∧
      codeFlags ((depth + 1) :: outer) 0 (List.replicate (depth + 1) '\x7d' ++ rest) =
        flags ++ codeFlags (0 :: outer) 0 rest := by
  induction depth with
  | zero => exact ⟨[false], rfl, by simp [codeFlags, Templates.step]⟩
  | succ depth ih =>
    obtain ⟨flags, hlength, hflags⟩ := ih
    have hstep : ∀ cs, Templates.step ((depth + 2) :: outer) ('\x7d' :: cs) =
        ((depth + 1) :: outer, none) := fun cs => by simp [Templates.step]
    refine ⟨true :: flags, by simp [hlength], ?_⟩
    rw [List.replicate_succ, List.cons_append, codeFlags_code (hstep _)
      (by simp [BeginsRegion, isQuote]), hflags, List.cons_append]

/-- Braces close the code inside a template, and its own text follows. -/
theorem hides_embedded {c : Char} {rest : List Char} (depth : Nat) (outer : Templates)
    (hc : c ∉ ending) : Hides (c :: rest) ((depth + 1) :: outer) [] := by
  refine ⟨depth + 1, ?_⟩
  have hlevel : Templates.level ((depth + 1) :: outer) ≠ .template := by simp [Templates.level]
  obtain ⟨flags, hlength, hflags⟩ := codeFlags_braces depth outer (c :: rest)
  have hslash : ∀ cs, codeFlags ((depth + 1) :: outer) 0 ('/' :: ([';', '\n'] ++ cs)) =
      true :: true :: true :: codeFlags ((depth + 1) :: outer) 0 cs := by
    intro cs
    rw [codeFlags_code (step_of_code _ hlevel (by decide) (by decide) (by decide))
      (by simp [BeginsRegion, isQuote]), codeFlags_plain cs hlevel (not_special_of_all (by decide))]
    rfl
  have htext : codeFlags (0 :: outer) 0 ([c] ++ rest) = [false] ++ codeFlags (0 :: outer) 0 rest :=
    codeFlags_templateText rest rfl (by simpa using hc)
  rw [List.singleton_append, List.singleton_append] at htext
  change (codeFlags ((depth + 1) :: outer) 0 ('/' :: ([';', '\n'] ++
    (List.replicate (depth + 1) '\x7d' ++ c :: rest))))[_]? = some false
  rw [hslash, hflags, htext]
  simp [behindSlash, hlength]

theorem stringBody_of_not_ending {quote : Char} {cs : List Char} (hquote : isQuote quote = true)
    (h : ∀ c ∈ cs, c ∉ ending) : StringBody quote cs := by
  induction cs with
  | nil => exact .nil
  | cons c cs ih =>
    have hc := h c (by simp)
    simp only [ending, List.mem_cons, List.not_mem_nil, or_false, not_or] at hc
    obtain ⟨hdouble, hsimple, -, -, hescape⟩ := hc
    refine .single ?_ hescape (ih fun d hd => h d (by simp [hd]))
    rcases isQuote_cases hquote with rfl | rfl
    · exact hdouble
    · exact hsimple

/-- The inside of a string is no code. -/
theorem codeFlags_stringBody {quote : Char} {inside : List Char} (rest : List Char)
    (hlevel : templates.level ≠ .template) (hquote : isQuote quote = true)
    (hinside : StringBody quote inside) :
    (codeFlags templates 0 (quote :: (inside ++ rest)))[inside.length]? = some false := by
  obtain ⟨text, behind, hsplit, -, hregion⟩ := exists_quoted (inside ++ rest) hquote
  have hwidth := hregion.regionWidth?_eq
  rw [← hsplit, regionWidth?_quote _ hquote, stringRest_body _ hquote hinside,
    Option.some.injEq] at hwidth
  rw [hsplit, codeFlags_region hlevel hregion, List.getElem?_append_left (by simp; omega),
    List.getElem?_replicate, if_pos (by omega)]

/-- A string that is open at the slash goes on behind it. -/
theorem hides_string {c quote : Char} {body last rest : List Char}
    (hlevel : templates.level ≠ .template) (hquote : isQuote quote = true)
    (hbody : StringBody quote body) (hlast : last = [] ∨ last = ['\\']) (hc : c ∉ ending) :
    Hides (c :: rest) templates (quote :: (body ++ last)) := by
  have hclosing : ∀ d ∈ [';', '\n', c], d ∉ ending := fun d hd => not_ending hc d (by simp [hd])
  have hbehind : StringBody quote (last ++ ['/', ';', '\n', c]) := by
    rcases hlast with rfl | rfl
    · exact stringBody_of_not_ending hquote (not_ending hc)
    · exact .pair '/' (stringBody_of_not_ending hquote hclosing)
  have hinside := codeFlags_stringBody rest hlevel hquote (hbody.append hbehind)
  refine ⟨0, ?_⟩
  simpa [behindSlash, Nat.add_assoc] using hinside

/-! ## The inside of a literal -/

def Stops : Level → List Char → Prop
  | .outside, rest => rest = []
  | .embedded, rest => rest.head? = some '\x7d'
  | .template, rest => rest.head? = some '\x60'

/-- The text in front of a slash can be read up to where its level comes to an end. -/
def Settles (level : Level) (cs : List Char) : Prop :=
  ∃ ms rest, cs = ms.chars ++ rest ∧ Lexed level ms (rest ++ ['/']) ∧ Stops level rest

theorem Encloses.stops {inner : Level} {opening : List Char} {closing : Char} {mark : Mark}
    (h : Encloses level opening closing mark inner) {rest : List Char} (hstops : Stops inner rest) :
    rest.head? = some closing := by
  cases h with
  | template | code | braces => exact hstops

/-- Either a text in front of a slash settles, or it hides what comes behind. -/
def Decided (later : List Char) (templates : Templates) (cs : List Char) : Prop :=
  Settles templates.level cs ∨ Hides later templates cs

theorem Decided.single {c : Char} {mark : Mark} {cs : List Char} (h : Decided later templates cs)
    (hsingle : Single templates.level c mark (cs ++ ['/'])) :
    Decided later templates (c :: cs) := by
  rcases h with ⟨ms, rest, rfl, hlexed, hstops⟩ | hhides
  · rw [List.append_assoc] at hsingle
    exact .inl ⟨(c, mark) :: ms, rest, rfl, .single hsingle hlexed, hstops⟩
  · have hrun : Hides later templates ([c] ++ cs) := by
      refine hhides.behind fun back hback => ⟨[mark == .code], rfl, ?_⟩
      have hheads : (cs ++ back).head? = (cs ++ ['/']).head? := by
        rw [List.head?_append, List.head?_append, hback]
      exact codeFlags_single (hsingle.congr hheads)
    exact .inr hrun

theorem Decided.string {quote : Char} {body cs : List Char} (h : Decided later templates cs)
    (hlevel : templates.level ≠ .template) (hquote : isQuote quote = true)
    (hbody : StringBody quote body) : Decided later templates (quote :: body ++ [quote] ++ cs) := by
  rcases h with ⟨ms, rest, rfl, hlexed, hstops⟩ | hhides
  · exact .inl ⟨Marked.ofChars .quoted (quote :: body ++ [quote]) ++ ms, rest, by simp,
      .region hlevel (.string hquote hbody) hlexed, hstops⟩
  · refine .inr (hhides.behind fun back _ =>
      ⟨_, ?_, codeFlags_region hlevel (.string hquote hbody)⟩)
    rw [List.length_replicate]

/-- Text inside text: what is inside and what follows are decided by assumption. -/
theorem Decided.enclosed {inner : Level} {opening : List Char} {closing : Char} {mark : Mark}
    (henclose : Encloses templates.level opening closing mark inner) {cs : List Char}
    (ih : ∀ templates' cs', cs' <:+ cs → Decided later templates' cs') :
    Decided later templates (opening ++ cs) := by
  obtain ⟨within, rfl, hopen, hclose⟩ := codeFlags_enclosed henclose
  rcases ih within cs List.suffix_rfl with ⟨inside, rest, rfl, hinside, hstops⟩ | hhides
  · obtain ⟨rest, rfl⟩ := List.head?_eq_some_iff.mp (henclose.stops hstops)
    rcases ih templates rest ⟨inside.chars ++ [closing], by simp⟩ with
      ⟨ms, rest, rfl, hlexed, hstops⟩ | hhides
    · rw [List.cons_append, List.append_assoc] at hinside
      exact .inl ⟨Marked.ofChars mark opening ++ inside ++ (closing, mark) :: ms, rest, by simp,
        .closed henclose hinside hlexed, hstops⟩
    · have hrun : Hides later templates (opening ++ inside.chars ++ [closing] ++ rest) := by
        refine hhides.behind fun back _ => ⟨List.replicate opening.length (mark == .code) ++
          inside.flags ++ [mark == .code], by simp [Marked.chars, Marked.flags], ?_⟩
        have hlexed : Lexed within.level inside (closing :: (rest ++ back)) :=
          hinside.congr (by simp) rfl
        simp [hopen, codeFlags_lexed hlexed within rfl, hclose]
      exact .inr (by simpa using hrun)
  · exact .inr (hhides.behind fun back _ => ⟨_, by rw [List.length_replicate], hopen _⟩)

/-- A backquote ends the text of a template, and a backslash may take the slash with it. -/
theorem Decided.template_cons {c d : Char} {cs rest : List Char} (hd : d ∉ ending)
    (hlevel : templates.level = .template)
    (ih : ∀ templates' cs', cs' <:+ cs → Decided (d :: rest) templates' cs') :
    Decided (d :: rest) templates (c :: cs) := by
  by_cases hback : c = '\x60'
  · subst hback
    refine .inl ⟨[], _, rfl, .nil, ?_⟩
    rw [hlevel]
    rfl
  by_cases hescape : c = '\\'
  · subst hescape
    cases cs with
    | nil => exact .inr (hides_escape hlevel hd)
    | cons e cs =>
      rcases ih templates cs (List.suffix_cons e cs) with ⟨ms, rest, rfl, hlexed, hstops⟩ | hhides
      · rw [hlevel] at hlexed
        refine .inl ⟨('\\', .template) :: (e, .template) :: ms, rest, rfl, ?_, hstops⟩
        rw [hlevel]
        exact .escape e hlexed
      · have hrun : Hides (d :: rest) templates (['\\', e] ++ cs) :=
          hhides.behind fun back _ => ⟨[false, false], rfl, codeFlags_escape e _ hlevel⟩
        exact .inr hrun
  by_cases hcode : c = '$' ∧ cs.head? = some '\x7b'
  · obtain ⟨rfl, hhead⟩ := hcode
    obtain ⟨cs, rfl⟩ := List.head?_eq_some_iff.mp hhead
    have henclose : Encloses templates.level ['$', '\x7b'] '\x7d' .template .embedded := by
      rw [hlevel]
      exact .code
    exact .enclosed henclose fun templates' cs' h =>
      ih templates' cs' (h.trans (List.suffix_cons ..))
  · have hsingle : Single templates.level c .template (cs ++ ['/']) := by
      rw [hlevel]
      refine ⟨rfl, hback, fun h => hescape h.1, fun h => hcode ⟨h.1, ?_⟩⟩
      cases cs with
      | nil => simp at h
      | cons e cs => simpa using h.2
    exact (ih templates cs List.suffix_rfl).single hsingle

/-- In code a quote begins a string, which may be open at the slash. -/
theorem Decided.code_cons {c d : Char} {cs rest : List Char} (hd : d ∉ ending) (hslash : c ≠ '/')
    (hlevel : templates.level ≠ .template)
    (ih : ∀ templates' cs', cs' <:+ cs → Decided (d :: rest) templates' cs') :
    Decided (d :: rest) templates (c :: cs) := by
  by_cases hquote : isQuote c = true
  · obtain ⟨body, last, rfl, hbody, hlast⟩ := exists_string c cs
    rcases hlast with hclosed | hopen
    · obtain ⟨last, rfl⟩ := List.head?_eq_some_iff.mp hclosed
      have hlater := ih templates last ⟨body ++ [c], by simp⟩
      simpa using hlater.string hlevel hquote hbody
    · exact .inr (hides_string hlevel hquote hbody hopen hd)
  by_cases hback : c = '\x60'
  · subst hback
    exact .enclosed (.template hlevel) ih
  have hregion : ¬ BeginsRegion c (cs ++ ['/']) := by simp [BeginsRegion, hquote, hslash]
  have hnext := ih templates cs List.suffix_rfl
  cases hkind : templates.level with
  | outside =>
    have hsingle : Single templates.level c .code (cs ++ ['/']) := by
      rw [hkind]
      exact ⟨rfl, hback, hregion⟩
    exact hnext.single hsingle
  | embedded =>
    by_cases hopen : c = '\x7b'
    · subst hopen
      have henclose : Encloses templates.level ['\x7b'] '\x7d' .code .embedded := by
        rw [hkind]
        exact .braces
      exact .enclosed henclose ih
    by_cases hclose : c = '\x7d'
    · subst hclose
      refine .inl ⟨[], _, rfl, .nil, ?_⟩
      rw [hkind]
      rfl
    · have hsingle : Single templates.level c .code (cs ++ ['/']) := by
        rw [hkind]
        exact ⟨rfl, hback, hopen, hclose, hregion⟩
      exact hnext.single hsingle
  | template => exact absurd hkind hlevel

/-- Every text without a slash is decided. The induction is on its length and over all templates,
since what is inside a template is read with other templates open. -/
theorem decided {c : Char} (rest : List Char) (hc : c ∉ ending) {cs : List Char} (hslash : '/' ∉ cs)
    (templates : Templates) : Decided (c :: rest) templates cs := by
  induction hn : cs.length using Nat.strongRecOn generalizing cs templates with
  | ind n ih =>
    cases cs with
    | nil =>
      match templates with
      | [] => exact .inl ⟨[], [], rfl, .nil, rfl⟩
      | 0 :: outer => exact .inr (hides_template rfl hc)
      | (depth + 1) :: outer => exact .inr (hides_embedded depth outer hc)
    | cons d cs =>
      rw [List.mem_cons, not_or] at hslash
      have hshorter : ∀ templates' cs', cs' <:+ cs → Decided (c :: rest) templates' cs' := by
        intro templates' cs' h
        refine ih cs'.length ?_ (fun hmem => hslash.2 (h.subset hmem)) templates' rfl
        have hle := h.length_le
        rw [← hn, List.length_cons]
        omega
      by_cases hlevel : templates.level = .template
      · exact .template_cons hc hlevel hshorter
      · exact .code_cons hc (Ne.symm hslash.1) hlevel hshorter

end ModSplice.Legacy
