import Mathlib.Data.List.TakeWhile
import ModSplice.Legacy.Scan

/-!
# The lexical grammar of a text

A text is a sequence of comments, strings, templates and single characters of code, and a template
holds code in its turn, without bound. The grammar is given as a relation on texts whose characters
are marked with what they belong to. Two facts tie it to the scan. Every text has a reading, and in
every reading the characters of code are those that the stack of open templates gives, so that the
stack does the work of the recursion.
-/
namespace ModSplice.Legacy

open ModSplice.Text

/-- What a character belongs to. The marks around the code inside a template are the template's. -/
inductive Mark where
  | code
  | comment
  | quoted
  | template
  deriving DecidableEq, Repr

abbrev Marked := List (Char × Mark)

namespace Marked

def ofChars (mark : Mark) (cs : List Char) : Marked :=
  cs.map fun c => (c, mark)

def chars (ms : Marked) : List Char :=
  ms.map Prod.fst

def flags (ms : Marked) : List Bool :=
  ms.map fun m => m.2 == .code

@[simp] theorem chars_nil : chars [] = [] := rfl

@[simp] theorem chars_cons (m : Char × Mark) (ms : Marked) : chars (m :: ms) = m.1 :: chars ms :=
  rfl

@[simp] theorem chars_append (a b : Marked) : chars (a ++ b) = chars a ++ chars b :=
  List.map_append

@[simp] theorem chars_ofChars (mark : Mark) (cs : List Char) : chars (ofChars mark cs) = cs := by
  simp [chars, ofChars, Function.comp_def]

@[simp] theorem flags_nil : flags [] = [] := rfl

@[simp] theorem flags_cons (m : Char × Mark) (ms : Marked) :
    flags (m :: ms) = (m.2 == .code) :: flags ms := rfl

@[simp] theorem flags_append (a b : Marked) : flags (a ++ b) = flags a ++ flags b :=
  List.map_append

@[simp] theorem flags_ofChars (mark : Mark) (cs : List Char) :
    flags (ofChars mark cs) = List.replicate cs.length (mark == .code) := by
  simp [flags, ofChars, Function.comp_def, List.map_const']

end Marked

/-- The inside of a string: pairs of a backslash and any character, and single characters that are
neither a backslash nor the quote. -/
inductive StringBody (quote : Char) : List Char → Prop
  | nil : StringBody quote []
  | pair (c : Char) {cs : List Char} : StringBody quote cs → StringBody quote ('\\' :: c :: cs)
  | single {c : Char} {cs : List Char} :
    c ≠ quote → c ≠ '\\' → StringBody quote cs → StringBody quote (c :: cs)

/-- A whole comment or string, what it is, and the text behind it. -/
inductive Region : List Char → Mark → List Char → Prop
  | line {body rest : List Char} :
    '\n' ∉ body → (∀ c ∈ rest.head?, c = '\n') → Region ('/' :: '/' :: body) .comment rest
  | block {body rest : List Char} :
    ¬ ['*', '/'] <:+: body ++ ['*'] → Region ('/' :: '*' :: body ++ ['*', '/']) .comment rest
  | openBlock {body : List Char} :
    ¬ ['*', '/'] <:+: body → Region ('/' :: '*' :: body) .comment []
  | string {quote : Char} {body rest : List Char} :
    isQuote quote = true → StringBody quote body → Region (quote :: body ++ [quote]) .quoted rest
  /-- A string that is not closed may end in a backslash with nothing behind it. -/
  | openString {quote : Char} {body last : List Char} :
    isQuote quote = true → StringBody quote body → last = [] ∨ last = ['\\'] →
    Region (quote :: body ++ last) .quoted []

/-- Where a piece of text stands: in no template, in the code inside a template, or in a template's
own text. -/
inductive Level where
  | outside
  | embedded
  | template
  deriving DecidableEq, Repr

def BeginsRegion (c : Char) (rest : List Char) : Prop :=
  isQuote c = true ∨ c = '/' ∧ (rest.head? = some '/' ∨ rest.head? = some '*')

/-- Whether a character stands for itself in front of the given text, and as what. -/
def Single : Level → Char → Mark → List Char → Prop
  | .outside, c, mark, rest => mark = .code ∧ c ≠ '\x60' ∧ ¬ BeginsRegion c rest
  | .embedded, c, mark, rest =>
    mark = .code ∧ c ≠ '\x60' ∧ c ≠ '\x7b' ∧ c ≠ '\x7d' ∧ ¬ BeginsRegion c rest
  | .template, c, mark, rest =>
    mark = .template ∧ c ≠ '\x60' ∧ ¬ (c = '\\' ∧ rest ≠ []) ∧
      ¬ (c = '$' ∧ rest.head? = some '\x7b')

/-- `Encloses outer opening closing mark inner`: what encloses text of another level, with the
characters that open and close it. -/
inductive Encloses : Level → List Char → Char → Mark → Level → Prop
  | template {level : Level} :
    level ≠ .template → Encloses level ['\x60'] '\x60' .template .template
  | code : Encloses .template ['$', '\x7b'] '\x7d' .template .embedded
  | braces : Encloses .embedded ['\x7b'] '\x7d' .code .embedded

/-- `Lexed level ms rest`: a text is read as `ms` at the given level, where `rest` comes behind
it. -/
inductive Lexed : Level → Marked → List Char → Prop
  | nil {level : Level} {rest : List Char} : Lexed level [] rest
  | single {level : Level} {c : Char} {mark : Mark} {later : Marked} {rest : List Char} :
    Single level c mark (later.chars ++ rest) → Lexed level later rest →
    Lexed level ((c, mark) :: later) rest
  | escape (c : Char) {later : Marked} {rest : List Char} :
    Lexed .template later rest →
    Lexed .template (('\\', .template) :: (c, .template) :: later) rest
  | region {level : Level} {text : List Char} {mark : Mark} {later : Marked} {rest : List Char} :
    level ≠ .template → Region text mark (later.chars ++ rest) → Lexed level later rest →
    Lexed level (Marked.ofChars mark text ++ later) rest
  | closed {level inner : Level} {opening : List Char} {closing : Char} {mark : Mark}
      {inside later : Marked} {rest : List Char} :
    Encloses level opening closing mark inner →
    Lexed inner inside (closing :: (later.chars ++ rest)) → Lexed level later rest →
    Lexed level (Marked.ofChars mark opening ++ inside ++ (closing, mark) :: later) rest
  | unclosed {level inner : Level} {opening : List Char} {closing : Char} {mark : Mark}
      {inside : Marked} :
    Encloses level opening closing mark inner → Lexed inner inside [] →
    Lexed level (Marked.ofChars mark opening ++ inside) []

def Reading (cs : List Char) (ms : Marked) : Prop :=
  Lexed .outside ms [] ∧ ms.chars = cs

/-! ## Widths of comments and strings -/

theorem infix_close_cons (c : Char) (cs : List Char) :
    ['*', '/'] <:+: c :: cs ↔ (c = '*' ∧ cs.head? = some '/') ∨ ['*', '/'] <:+: cs := by
  rw [List.infix_cons_iff, List.cons_prefix_cons]
  cases cs with
  | nil => simp
  | cons d cs => simp [eq_comm]

theorem blockRest_cons (c : Char) (cs : List Char) :
    blockRest (c :: cs) = if c = '*' ∧ cs.head? = some '/' then 2 else blockRest cs + 1 := by
  by_cases h : c = '*' ∧ cs.head? = some '/'
  · obtain ⟨rfl, h⟩ := h
    obtain ⟨rest, rfl⟩ := List.head?_eq_some_iff.mp h
    rfl
  · rw [if_neg h, blockRest]
    intro rest hc hcs
    exact h ⟨hc, by simp [hcs]⟩

theorem blockRest_closed {body : List Char} (rest : List Char)
    (h : ¬ ['*', '/'] <:+: body ++ ['*']) :
    blockRest (body ++ '*' :: '/' :: rest) = body.length + 2 := by
  induction body with
  | nil => rfl
  | cons c body ih =>
    rw [List.cons_append, infix_close_cons, not_or] at h
    have hfirst : ¬ (c = '*' ∧ (body ++ '*' :: '/' :: rest).head? = some '/') := by
      cases body with
      | nil => simp
      | cons d body => simpa using h.1
    rw [List.cons_append, blockRest_cons, if_neg hfirst, ih h.2, List.length_cons]

theorem blockRest_open {body : List Char} (h : ¬ ['*', '/'] <:+: body) :
    blockRest body = body.length := by
  induction body with
  | nil => rfl
  | cons c body ih =>
    rw [infix_close_cons, not_or] at h
    rw [blockRest_cons, if_neg h.1, ih h.2, List.length_cons]

/-- What follows the opening of a block comment either holds the first closing mark or none. -/
theorem exists_block (cs : List Char) :
    (∃ body rest, cs = body ++ '*' :: '/' :: rest ∧ ¬ ['*', '/'] <:+: body ++ ['*']) ∨
      ¬ ['*', '/'] <:+: cs := by
  induction cs with
  | nil => exact .inr (by simp)
  | cons c cs ih =>
    by_cases hfirst : c = '*' ∧ cs.head? = some '/'
    · obtain ⟨rfl, hhead⟩ := hfirst
      obtain ⟨rest, rfl⟩ := List.head?_eq_some_iff.mp hhead
      exact .inl ⟨[], rest, rfl, by simp [infix_close_cons]⟩
    · rcases ih with ⟨body, rest, rfl, hbody⟩ | hnone
      · refine .inl ⟨c :: body, rest, rfl, ?_⟩
        rw [List.cons_append, infix_close_cons, not_or]
        refine ⟨?_, hbody⟩
        cases body with
        | nil => simp
        | cons d body => simpa using hfirst
      · exact .inr (by rw [infix_close_cons, not_or]; exact ⟨hfirst, hnone⟩)

theorem quote_ne_backslash {quote : Char} (h : isQuote quote = true) : quote ≠ '\\' := by
  rintro rfl
  simp [isQuote] at h

theorem stringRest_close (quote : Char) (cs : List Char) : stringRest quote (quote :: cs) = 1 := by
  cases cs <;> simp [stringRest]

theorem stringRest_single {quote c : Char} (cs : List Char) (hc : c ≠ quote) (hb : c ≠ '\\') :
    stringRest quote (c :: cs) = stringRest quote cs + 1 := by
  cases cs <;> simp [stringRest, hc, hb]

theorem stringRest_pair {quote : Char} (c : Char) (cs : List Char) (hquote : isQuote quote = true) :
    stringRest quote ('\\' :: c :: cs) = stringRest quote cs + 2 := by
  simp [stringRest, (quote_ne_backslash hquote).symm]

theorem stringRest_lone {quote : Char} (hquote : isQuote quote = true) :
    stringRest quote ['\\'] = 1 := by
  simp [stringRest, (quote_ne_backslash hquote).symm]

theorem stringRest_body {quote : Char} {body : List Char} (rest : List Char)
    (hquote : isQuote quote = true) (h : StringBody quote body) :
    stringRest quote (body ++ rest) = body.length + stringRest quote rest := by
  induction h with
  | nil => simp
  | pair c _ ih =>
    rw [List.cons_append, List.cons_append, stringRest_pair c _ hquote, ih]
    simp only [List.length_cons]
    omega
  | single hc hb _ ih =>
    rw [List.cons_append, stringRest_single _ hc hb, ih, List.length_cons]
    omega

/-- What follows an opening quote is closed by another or runs to the end. -/
theorem exists_string (quote : Char) (cs : List Char) :
    ∃ body rest, cs = body ++ rest ∧ StringBody quote body ∧
      (rest.head? = some quote ∨ rest = [] ∨ rest = ['\\']) := by
  induction hn : cs.length using Nat.strongRecOn generalizing cs with
  | ind n ih =>
    match cs with
    | [] => exact ⟨[], [], rfl, .nil, .inr (.inl rfl)⟩
    | c :: cs =>
      subst hn
      by_cases hc : c = quote
      · exact ⟨[], c :: cs, rfl, .nil, .inl (by simp [hc])⟩
      by_cases hb : c = '\\'
      · subst hb
        match cs with
        | [] => exact ⟨[], ['\\'], rfl, .nil, .inr (.inr rfl)⟩
        | d :: cs =>
          have hless : cs.length < ('\\' :: d :: cs).length := by
            simp only [List.length_cons]
            omega
          obtain ⟨body, rest, rfl, hbody, hrest⟩ := ih cs.length hless cs rfl
          exact ⟨'\\' :: d :: body, rest, rfl, .pair d hbody, hrest⟩
      · obtain ⟨body, rest, rfl, hbody, hrest⟩ := ih cs.length (by simp) cs rfl
        exact ⟨c :: body, rest, rfl, .single hc hb hbody, hrest⟩

theorem takeWhile_eq_of_stop {α : Type} {p : α → Bool} {front rest : List α}
    (hfront : ∀ x ∈ front, p x = true) (hrest : ∀ x ∈ rest.head?, p x = false) :
    (front ++ rest).takeWhile p = front := by
  rw [List.takeWhile_append_of_pos hfront]
  cases rest with
  | nil => simp
  | cons x rest => simp [hrest x rfl]

theorem regionWidth?_quote {quote : Char} (cs : List Char) (h : isQuote quote = true) :
    regionWidth? (quote :: cs) = some (stringRest quote cs + 1) := by
  simp only [isQuote, Bool.or_eq_true, beq_iff_eq] at h
  rcases h with rfl | rfl <;> rfl

/-- A comment or string begins neither with a backquote nor with a brace. -/
theorem Region.head {text rest : List Char} {mark : Mark} (h : Region text mark rest) :
    ∃ c front, text = c :: front ∧ c ≠ '\x60' ∧ c ≠ '\x7b' ∧ c ≠ '\x7d' := by
  cases h with
  | line | block | openBlock => exact ⟨_, _, rfl, by decide⟩
  | string hquote | openString hquote =>
    refine ⟨_, _, rfl, ?_⟩
    simp only [isQuote, Bool.or_eq_true, beq_iff_eq] at hquote
    rcases hquote with rfl | rfl <;> decide

theorem Region.mark_ne_code {text rest : List Char} {mark : Mark} (h : Region text mark rest) :
    (mark == .code) = false := by
  cases h <;> rfl

/-- A comment or string in front of a text has the width that the scan gives it. -/
theorem Region.regionWidth?_eq {text rest : List Char} {mark : Mark} (h : Region text mark rest) :
    regionWidth? (text ++ rest) = some text.length := by
  cases h with
  | @line body rest hbody hrest =>
    have htake : (body ++ rest).takeWhile (· != '\n') = body := by
      apply takeWhile_eq_of_stop
      · intro c hc
        simpa using fun h : c = '\n' => hbody (h ▸ hc)
      · intro c hc
        simp [hrest c hc]
    simp [regionWidth?, htake]
  | block hbody => simp [regionWidth?, blockRest_closed _ hbody]
  | openBlock hbody => simp [regionWidth?, blockRest_open hbody]
  | string hquote hbody =>
    rw [List.append_assoc, List.cons_append, regionWidth?_quote _ hquote,
      stringRest_body _ hquote hbody]
    simp [stringRest_close]
  | @openString quote body last hquote hbody hlast =>
    have hwidth : stringRest quote last = last.length := by
      rcases hlast with rfl | rfl
      · rfl
      · exact stringRest_lone hquote
    rw [List.append_nil, List.cons_append, regionWidth?_quote _ hquote,
      stringRest_body _ hquote hbody, hwidth]
    simp

theorem regionWidth?_eq_none {c : Char} {cs : List Char} (h : ¬ BeginsRegion c cs) :
    regionWidth? (c :: cs) = none := by
  simp only [BeginsRegion, not_or, not_and] at h
  obtain ⟨hquote, hslash⟩ := h
  rw [regionWidth?]
  · simp [hquote]
  · intro rest hc hcs
    exact (hslash hc).1 (by simp [hcs])
  · intro rest hc hcs
    exact (hslash hc).2 (by simp [hcs])

theorem exists_quoted {quote : Char} (cs : List Char) (hquote : isQuote quote = true) :
    ∃ text rest, quote :: cs = text ++ rest ∧ text ≠ [] ∧ Region text .quoted rest := by
  obtain ⟨body, rest, rfl, hbody, hrest⟩ := exists_string quote cs
  rcases hrest with hclosed | hopen
  · obtain ⟨rest, rfl⟩ := List.head?_eq_some_iff.mp hclosed
    exact ⟨quote :: body ++ [quote], rest, by simp, by simp, .string hquote hbody⟩
  · exact ⟨quote :: body ++ rest, [], by simp, by simp, .openString hquote hbody hopen⟩

/-- Where a comment or string begins, the text splits into it and the rest. -/
theorem exists_region {c : Char} {cs : List Char} (h : BeginsRegion c cs) :
    ∃ text mark rest, c :: cs = text ++ rest ∧ text ≠ [] ∧ Region text mark rest := by
  rcases h with hquote | ⟨rfl, hnext | hnext⟩
  · obtain ⟨text, rest, hsplit, hne, hregion⟩ := exists_quoted cs hquote
    exact ⟨text, .quoted, rest, hsplit, hne, hregion⟩
  · obtain ⟨rest, rfl⟩ := List.head?_eq_some_iff.mp hnext
    refine ⟨'/' :: '/' :: rest.takeWhile (· != '\n'), .comment, rest.dropWhile (· != '\n'), by simp,
      by simp, .line ?_ ?_⟩
    · intro hmem
      simpa using List.mem_takeWhile_imp hmem
    · intro c hc
      have hstop := List.head?_dropWhile_not (· != '\n') rest
      rw [hc] at hstop
      simpa using hstop
  · obtain ⟨rest, rfl⟩ := List.head?_eq_some_iff.mp hnext
    rcases exists_block rest with ⟨body, rest, rfl, hbody⟩ | hnone
    · exact ⟨'/' :: '*' :: body ++ ['*', '/'], .comment, rest, by simp, by simp, .block hbody⟩
    · exact ⟨'/' :: '*' :: rest, .comment, [], by simp, by simp, .openBlock hnone⟩

/-! ## Which characters are code -/

/-- For each character whether it is code, given the open templates and how many characters of a
stride are still to come. The strides are those of the scan, but words are no strides here. -/
def codeFlags (templates : Templates) (covered : Nat) : List Char → List Bool
  | [] => []
  | c :: cs =>
    match covered with
    | covered + 1 => false :: codeFlags templates covered cs
    | 0 =>
      match templates.step (c :: cs) with
      | (templates, some width) => false :: codeFlags templates (width - 1) cs
      | (templates, none) =>
        match regionWidth? (c :: cs) with
        | some width => false :: codeFlags templates (width - 1) cs
        | none => true :: codeFlags templates 0 cs

theorem codeFlags_covered (templates : Templates) (front cs : List Char) :
    codeFlags templates front.length (front ++ cs) =
      List.replicate front.length false ++ codeFlags templates 0 cs := by
  induction front with
  | nil => simp
  | cons c front ih => simp [codeFlags, ih, List.replicate_succ]

/-- A piece of a template. -/
theorem codeFlags_piece {templates after : Templates} {c : Char} {front : List Char}
    (cs : List Char) (h : templates.step (c :: (front ++ cs)) = (after, some (front.length + 1))) :
    codeFlags templates 0 (c :: (front ++ cs)) =
      false :: (List.replicate front.length false ++ codeFlags after 0 cs) := by
  simp [codeFlags, h, codeFlags_covered]

/-- A character of code. -/
theorem codeFlags_code {templates after : Templates} {c : Char} {cs : List Char}
    (h : templates.step (c :: cs) = (after, none)) (hregion : ¬ BeginsRegion c cs) :
    codeFlags templates 0 (c :: cs) = true :: codeFlags after 0 cs := by
  simp [codeFlags, h, regionWidth?_eq_none hregion]

def Templates.level : Templates → Level
  | [] => .outside
  | 0 :: _ => .template
  | _ :: _ => .embedded

/-- In code the stack stays as it is, but for backquotes and braces. -/
theorem step_of_code {templates : Templates} {c : Char} (cs : List Char)
    (hlevel : templates.level ≠ .template) (hback : c ≠ '\x60') (hopen : c ≠ '\x7b')
    (hclose : c ≠ '\x7d') : templates.step (c :: cs) = (templates, none) := by
  match templates with
  | [] => simp [Templates.step, hback]
  | 0 :: outer => simp [Templates.level] at hlevel
  | (depth + 1) :: outer => simp [Templates.step, hback, hopen, hclose]

theorem codeFlags_region {templates : Templates} {text rest : List Char} {mark : Mark}
    (hlevel : templates.level ≠ .template) (h : Region text mark rest) :
    codeFlags templates 0 (text ++ rest) =
      List.replicate text.length false ++ codeFlags templates 0 rest := by
  obtain ⟨c, front, rfl, hback, hopen, hclose⟩ := h.head
  have hwidth := h.regionWidth?_eq
  rw [List.cons_append] at hwidth ⊢
  have hstep := step_of_code (front ++ rest) hlevel hback hopen hclose
  simp [codeFlags, hstep, hwidth, codeFlags_covered, List.replicate_succ]

/-- A character that stands for itself. -/
theorem codeFlags_single {templates : Templates} {c : Char} {mark : Mark} {cs : List Char}
    (h : Single templates.level c mark cs) :
    codeFlags templates 0 (c :: cs) = (mark == .code) :: codeFlags templates 0 cs := by
  match templates with
  | [] =>
    obtain ⟨rfl, hback, hregion⟩ := h
    exact codeFlags_code (by simp [Templates.step, hback]) hregion
  | (depth + 1) :: outer =>
    obtain ⟨rfl, hback, hopen, hclose, hregion⟩ := h
    exact codeFlags_code (by simp [Templates.step, hback, hopen, hclose]) hregion
  | 0 :: outer =>
    obtain ⟨rfl, hback, hescape, hcode⟩ := h
    have hstep : Templates.step (0 :: outer) (c :: ([] ++ cs)) = (0 :: outer, some (0 + 1)) := by
      rw [Templates.step, if_neg (by simpa using hescape), if_neg (by simpa using hcode),
        if_neg hback]
    exact codeFlags_piece cs hstep

theorem codeFlags_escape {templates : Templates} (c : Char) (cs : List Char)
    (hlevel : templates.level = .template) :
    codeFlags templates 0 ('\\' :: c :: cs) = false :: false :: codeFlags templates 0 cs := by
  match templates with
  | 0 :: outer => simp [codeFlags, Templates.step]

/-- What encloses text leads to other templates, and back again behind it. -/
theorem codeFlags_enclosed {templates : Templates} {opening : List Char} {closing : Char}
    {mark : Mark} {level : Level} (h : Encloses templates.level opening closing mark level) :
    ∃ within : Templates, within.level = level ∧
      (∀ cs, codeFlags templates 0 (opening ++ cs) =
        List.replicate opening.length (mark == .code) ++ codeFlags within 0 cs) ∧
      ∀ cs, codeFlags within 0 (closing :: cs) = (mark == .code) :: codeFlags templates 0 cs := by
  match templates, h with
  | [], .template _ =>
    exact ⟨[0], rfl, fun _ => by simp [codeFlags, Templates.step],
      fun _ => by simp [codeFlags, Templates.step]⟩
  | (depth + 1) :: outer, .template _ =>
    exact ⟨0 :: (depth + 1) :: outer, rfl, fun _ => by simp [codeFlags, Templates.step],
      fun _ => by simp [codeFlags, Templates.step]⟩
  | 0 :: outer, .template hlevel => exact absurd rfl hlevel
  | 0 :: outer, .code =>
    exact ⟨1 :: outer, rfl, fun _ => by simp [codeFlags, Templates.step],
      fun _ => by simp [codeFlags, Templates.step]⟩
  | (depth + 1) :: outer, .braces =>
    refine ⟨(depth + 2) :: outer, rfl, fun cs => ?_, fun cs => ?_⟩
    · exact codeFlags_code (by simp [Templates.step]) (by simp [BeginsRegion, isQuote])
    · exact codeFlags_code (by simp [Templates.step]) (by simp [BeginsRegion, isQuote])

/-- Whatever is read, the stack gives the same characters of code and is afterwards as it was
before. -/
theorem codeFlags_lexed {level : Level} {ms : Marked} {rest : List Char} (h : Lexed level ms rest)
    (templates : Templates) (hlevel : templates.level = level) :
    codeFlags templates 0 (ms.chars ++ rest) = ms.flags ++ codeFlags templates 0 rest := by
  induction h generalizing templates with
  | nil => rfl
  | single hsingle _ ih =>
    rw [Marked.chars_cons, List.cons_append, codeFlags_single (hlevel ▸ hsingle), ih _ hlevel]
    rfl
  | escape c _ ih =>
    simp only [Marked.chars_cons, List.cons_append]
    rw [codeFlags_escape c _ hlevel, ih _ hlevel]
    rfl
  | region hcode hregion _ ih =>
    simp only [Marked.chars_append, Marked.chars_ofChars, List.append_assoc]
    rw [codeFlags_region (hlevel ▸ hcode) hregion, ih _ hlevel]
    simp [hregion.mark_ne_code]
  | closed henclose _ _ ihinside ih =>
    obtain ⟨within, hwithin, hopen, hclose⟩ := codeFlags_enclosed (hlevel ▸ henclose)
    simp [hopen, ihinside _ hwithin, hclose, ih _ hlevel]
  | @unclosed level inner opening closing mark inside henclose _ ih =>
    obtain ⟨within, hwithin, hopen, -⟩ := codeFlags_enclosed (hlevel ▸ henclose)
    have hinside : codeFlags within 0 inside.chars = inside.flags := by
      simpa [codeFlags] using ih _ hwithin
    simp [hopen, hinside, codeFlags]

theorem Reading.flags_eq {cs : List Char} {ms : Marked} (h : Reading cs ms) :
    ms.flags = codeFlags [] 0 cs := by
  have hflags := codeFlags_lexed h.1 [] rfl
  simpa [h.2, codeFlags] using hflags.symm

/-! ## Every text has a reading -/

/-- Where the reading of a level ends: at the end of the text, or in front of the character that
closes what is around it. -/
def Ends : Level → List Char → Prop
  | .outside, rest => rest = []
  | .embedded, rest => rest = [] ∨ rest.head? = some '\x7d'
  | .template, rest => rest = [] ∨ rest.head? = some '\x60'

theorem ends_nil (level : Level) : Ends level [] := by
  cases level <;> simp [Ends]

theorem Encloses.ends {outer inner : Level} {opening : List Char} {closing : Char} {mark : Mark}
    (h : Encloses outer opening closing mark inner) {rest : List Char} (hends : Ends inner rest) :
    rest = [] ∨ rest.head? = some closing := by
  cases h with
  | template | code | braces => exact hends

/-- A beginning of the text can be read up to where its level ends. -/
def Readable (level : Level) (cs : List Char) : Prop :=
  ∃ ms rest, cs = ms.chars ++ rest ∧ Lexed level ms rest ∧ Ends level rest

theorem Readable.single {level : Level} {c : Char} {mark : Mark} {cs : List Char}
    (hsingle : Single level c mark cs) (h : Readable level cs) : Readable level (c :: cs) := by
  obtain ⟨ms, rest, rfl, hlexed, hends⟩ := h
  exact ⟨(c, mark) :: ms, rest, rfl, .single hsingle hlexed, hends⟩

/-- Text inside text: what is shorter than the whole can be read by assumption. -/
theorem Readable.enclosed {level inner : Level} {opening : List Char} {closing : Char} {mark : Mark}
    (henclose : Encloses level opening closing mark inner) {cs : List Char}
    (ih : ∀ level' cs', cs'.length ≤ cs.length → Readable level' cs') :
    Readable level (opening ++ cs) := by
  obtain ⟨inside, rest, rfl, hinside, hends⟩ := ih inner cs le_rfl
  rcases henclose.ends hends with rfl | hclosing
  · exact ⟨Marked.ofChars mark opening ++ inside, [], by simp, .unclosed henclose hinside,
      ends_nil level⟩
  · obtain ⟨rest, rfl⟩ := List.head?_eq_some_iff.mp hclosing
    obtain ⟨later, rest, rfl, hlater, hends⟩ := ih level rest (by simp; omega)
    exact ⟨Marked.ofChars mark opening ++ inside ++ (closing, mark) :: later, rest, by simp,
      .closed henclose hinside hlater, hends⟩

theorem Readable.template_cons (c : Char) (cs : List Char)
    (ih : ∀ level' cs', cs'.length ≤ cs.length → Readable level' cs') :
    Readable .template (c :: cs) := by
  by_cases hback : c = '\x60'
  · exact ⟨[], c :: cs, rfl, .nil, .inr (by simp [hback])⟩
  by_cases hescape : c = '\\' ∧ cs ≠ []
  · obtain ⟨rfl, hne⟩ := hescape
    obtain ⟨d, cs, rfl⟩ := List.exists_cons_of_ne_nil hne
    obtain ⟨ms, rest, rfl, hlexed, hends⟩ := ih .template cs (by simp)
    exact ⟨('\\', .template) :: (d, .template) :: ms, rest, rfl, .escape d hlexed, hends⟩
  by_cases hcode : c = '$' ∧ cs.head? = some '\x7b'
  · obtain ⟨rfl, hhead⟩ := hcode
    obtain ⟨cs, rfl⟩ := List.head?_eq_some_iff.mp hhead
    exact Readable.enclosed .code fun level' cs' h => ih level' cs' (by simp; omega)
  · exact (ih .template cs le_rfl).single ⟨rfl, hback, hescape, hcode⟩

theorem Readable.code_cons {level : Level} (hlevel : level ≠ .template) (c : Char) (cs : List Char)
    (ih : ∀ level' cs', cs'.length ≤ cs.length → Readable level' cs') :
    Readable level (c :: cs) := by
  by_cases hregion : BeginsRegion c cs
  · obtain ⟨text, mark, rest, hsplit, hne, hregion⟩ := exists_region hregion
    have hlength := congrArg List.length hsplit
    have hpos := List.length_pos_iff.mpr hne
    rw [List.length_cons, List.length_append] at hlength
    obtain ⟨ms, rest, rfl, hlexed, hends⟩ := ih level rest (by omega)
    exact ⟨Marked.ofChars mark text ++ ms, rest, by simp [hsplit], .region hlevel hregion hlexed,
      hends⟩
  by_cases hback : c = '\x60'
  · subst hback
    exact Readable.enclosed (.template hlevel) ih
  cases level with
  | outside => exact (ih .outside cs le_rfl).single ⟨rfl, hback, hregion⟩
  | embedded =>
    by_cases hopen : c = '\x7b'
    · subst hopen
      exact Readable.enclosed .braces ih
    by_cases hclose : c = '\x7d'
    · exact ⟨[], c :: cs, rfl, .nil, .inr (by simp [hclose])⟩
    · exact (ih .embedded cs le_rfl).single ⟨rfl, hback, hopen, hclose, hregion⟩
  | template => exact absurd rfl hlevel

theorem readable (cs : List Char) (level : Level) : Readable level cs := by
  induction hn : cs.length using Nat.strongRecOn generalizing cs level with
  | ind n ih =>
    match cs with
    | [] => exact ⟨[], [], rfl, .nil, ends_nil level⟩
    | c :: cs =>
      have hshorter : ∀ level' cs', cs'.length ≤ cs.length → Readable level' cs' := by
        intro level' cs' h
        exact ih cs'.length (by rw [← hn, List.length_cons]; omega) cs' level' rfl
      by_cases hlevel : level = .template
      · exact hlevel ▸ Readable.template_cons c cs hshorter
      · exact Readable.code_cons hlevel c cs hshorter

theorem exists_reading (cs : List Char) : ∃ ms, Reading cs ms := by
  obtain ⟨ms, rest, rfl, hlexed, hends⟩ := readable cs .outside
  obtain rfl : rest = [] := hends
  exact ⟨ms, hlexed, by simp⟩

end ModSplice.Legacy
