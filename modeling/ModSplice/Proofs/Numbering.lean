import ModSplice.Proofs.Footprint
import ModSplice.Proofs.TemporaryNames

/-!
# Numbers of temporary names

All temporary names of a state come from one counter. Whatever is done with the state, and whatever
fails on the way, the names that have been drawn are numbered one after the other, so that no two
are alike as long as the counter does not run over: a name ends in its number, whatever its stem.
-/
namespace ModSplice

namespace Names

/-- A name tells its number: no digit is a dollar sign, so the number is what stands behind the last
one, also if the stem has dollar signs and digits of its own. -/
theorem eq_of_numbered_eq {stem stem' : String} {n m : UInt32}
    (h : numbered stem n = numbered stem' m) : n = m := by
  have hdigits : ∀ k c, c ∈ (Nat.toDigits 10 k).reverse → (c != '$') = true := by
    intro k c hc
    have hdigit : c.isDigit = true :=
      Nat.isDigit_of_mem_toDigits (by decide) (by decide) (List.mem_reverse.mp hc)
    rw [bne_iff_ne]
    rintro rfl
    exact absurd hdigit (by decide)
  have htail : ∀ (stem : String) (k : UInt32),
      (numbered stem k).toList.reverse.takeWhile (· != '$') =
        (Nat.toDigits 10 k.toNat).reverse := by
    intro stem k
    have hlist : (numbered stem k).toList.reverse =
        (Nat.toDigits 10 k.toNat).reverse ++ '$' :: stem.toList.reverse := by
      simp [numbered, Nat.repr]
    rw [hlist, List.takeWhile_append_of_pos (hdigits k.toNat)]
    simp
  have heq : Nat.toDigits 10 n.toNat = Nat.toDigits 10 m.toNat := by
    rw [← List.reverse_inj, ← htail stem n, ← htail stem' m, h]
  have hnumber : n.toNat = m.toNat := calc
    n.toNat = Nat.ofDigitChars 10 (Nat.toDigits 10 n.toNat) 0 := Nat.ofDigitChars_ten_toDigits.symm
    _ = Nat.ofDigitChars 10 (Nat.toDigits 10 m.toNat) 0 := by rw [heq]
    _ = m.toNat := Nat.ofDigitChars_ten_toDigits
  exact UInt32.toNat_inj.mp hnumber

/-- No two of the names are alike if there are not more than there are numbers. -/
theorem numberedFrom_nodup {stems : List String} (h : stems.length ≤ 2 ^ 32) (n : UInt32) :
    (numberedFrom n stems).Nodup := by
  induction stems generalizing n with
  | nil => exact .nil
  | cons stem rest ih =>
    rw [List.length_cons] at h
    refine List.nodup_cons.mpr ⟨fun hmem => ?_, ih (by omega) (n + 1)⟩
    obtain ⟨k, other, hk, heq⟩ := (mem_numberedFrom _ _ _).mp hmem
    obtain ⟨hlt, -⟩ := List.getElem?_eq_some_iff.mp hk
    have hnumber : n.toNat = (n.toNat + 1 + k) % 4294967296 := by
      simpa using congrArg UInt32.toNat (eq_of_numbered_eq heq)
    have hbound : n.toNat < 2 ^ 32 := n.toNat_lt
    omega

/-- The names are numbered one after the other from the first supply on, and the second supply is
what they leave of it. -/
def InTurn (first : Names) (names : List String) (last : Names) : Prop :=
  ∃ stems, names = numberedFrom first.next stems ∧ last = first.advance stems.length

namespace InTurn

variable {first second third : Names} {names names' : List String}

theorem nil (first : Names) : first.InTurn [] first :=
  ⟨[], rfl, by simp [advance]⟩

theorem append (h : first.InTurn names second) (h' : second.InTurn names' third) :
    first.InTurn (names ++ names') third := by
  obtain ⟨stems, rfl, rfl⟩ := h
  obtain ⟨stems', rfl, rfl⟩ := h'
  refine ⟨stems ++ stems', (numberedFrom_append first.next stems stems').symm, ?_⟩
  have hcount : (stems.length + stems'.length).toUInt32 =
      stems.length.toUInt32 + stems'.length.toUInt32 := UInt32.ofNat_add ..
  rw [List.length_append, advance, advance, advance, hcount, UInt32.add_assoc]

/-- Drawn from zero on, each name has as its number how many were drawn before, and no two names are
alike. -/
theorem from_zero (h : first.InTurn names second) (hfirst : first.next = 0)
    (hcount : names.length < 2 ^ 32) :
    names.Nodup ∧ ∀ k name, names[k]? = some name → ∃ stem, name = temporary stem k := by
  obtain ⟨stems, rfl, -⟩ := h
  rw [length_numberedFrom] at hcount
  refine ⟨numberedFrom_nodup (by omega) _, fun k name hk => ?_⟩
  rw [getElem?_numberedFrom, Option.map_eq_some_iff] at hk
  obtain ⟨stem, hstem, rfl⟩ := hk
  obtain ⟨hlt, -⟩ := List.getElem?_eq_some_iff.mp hstem
  have hnumber : (first.next + k.toUInt32).toNat = k := by
    simp [hfirst]
    omega
  exact ⟨stem, by rw [numbered, hnumber, temporary]⟩

end InTurn

end Names

namespace State

/-- The names that a run draws are in turn, also when it ends in a fault. -/
theorem run_inTurn (edits : List Edit) (s : State) :
    s.names.InTurn (s.drawn edits) (s.run edits).1.names := by
  induction edits generalizing s with
  | nil => exact .nil _
  | cons edit rest ih =>
    cases hedit : s.apply edit with
    | ok next =>
      simp only [drawn, run, hedit]
      obtain ⟨hnames, hleft⟩ := drawAll_eq edit.stems s
      have hnext : next.names = s.names.advance edit.stems.length :=
        (apply_names hedit).trans hleft
      exact .append ⟨edit.stems, hnames, hnext⟩ (ih next)
    | error fault =>
      simp only [drawn, run, hedit, (foldl_pass_sameText rest s).names]
      exact .nil _

end State

namespace Step

def KeepsNumbers : Step → Prop
  | .renumber => False
  | .next _ keepNames => keepNames = true
  | _ => True

end Step

namespace Session

def drawn (splicer : Splicer) (s : State) : Step → List String
  | .draw stem => [(s.draw stem).1]
  | .walk tree => s.drawn (tree.edits splicer.rules)
  | _ => []

def allDrawn (s : State) : List (Splicer × Step) → List String
  | [] => []
  | (splicer, first) :: rest =>
    drawn splicer s first ++ allDrawn (step splicer s first).2 rest

theorem move_names (s : State) (moved : Except Fault Cursor) :
    (move s moved).2.names = s.names := by
  cases moved <;> rfl

theorem step_inTurn (splicer : Splicer) (s : State) (x : Step) (hx : x.KeepsNumbers) :
    s.names.InTurn (drawn splicer s x) (step splicer s x).2.names := by
  cases x with
  | draw stem =>
    obtain ⟨hnames, hleft⟩ := s.drawAll_eq [stem]
    exact ⟨[stem], hnames, hleft⟩
  | walk tree =>
    rw [step_walk]
    exact s.run_inTurn _
  | copyTo offset | skipTo offset =>
    rw [step, move_names]
    exact .nil _
  | splice tree =>
    rw [step_splice]
    exact .nil _
  | next source keepNames =>
    have hkept : (step splicer s (.next source keepNames)).2.names = s.names := by
      simp only [step]
      cases s.cursor.finish with
      | error fault => rfl
      | ok output => simp [show keepNames = true from hx]
    rw [hkept]
    exact .nil _
  | renumber => exact hx.elim
  | write text | setOptions options => exact .nil _

/-- One step after the other, the names stay in turn. -/
theorem allDrawn_inTurn (steps : List (Splicer × Step)) (s : State)
    (h : ∀ x ∈ steps, x.2.KeepsNumbers) :
    s.names.InTurn (allDrawn s steps) (after s steps).names := by
  induction steps generalizing s with
  | nil => exact .nil _
  | cons x rest ih =>
    obtain ⟨hx, hrest⟩ := List.forall_mem_cons.mp h
    exact (step_inTurn x.1 s x.2 hx).append (ih _ hrest)

end Session

/-! ## Names in the text -/

/-- The text of a snippet in which the given temporary names stand. -/
def Snippet.spelt (o : Options) : Snippet → List String → String
  | .bindMembers raw specifiers, [loaded] =>
    loadLine o loaded raw ++ "\n" ++
      lines (fun s => "var " ++ s.localName ++ " = " ++ loaded ++ "." ++ s.name ++ ";") specifiers
  | .forwardAll raw, [loaded, key] =>
    loadLine o loaded raw ++ "\n" ++
      "for (var " ++ key ++ " in " ++ loaded ++ ") " ++ o.exportsObject ++ "[" ++ key ++ "] = " ++
      loaded ++ "[" ++ key ++ "];"
  | .forwardMembers raw specifiers, [loaded] =>
    loadLine o loaded raw ++ "\n" ++
      lines (fun s => o.member s.localName ++ " = " ++ loaded ++ "." ++ s.name ++ ";") specifiers
  | snippet, _ => snippet.text o 0

/-- What is inserted draws its names as anyone would, and is spelt with them. -/
theorem State.insert_eq_drawAll (s : State) (snippet : Snippet) :
    (s.insert snippet).cursor =
        s.cursor.write (snippet.spelt s.options (s.drawAll snippet.stems).1) ∧
      (s.insert snippet).names = (s.drawAll snippet.stems).2.names := by
  refine ⟨?_, ((drawAll_eq snippet.stems s).2).symm⟩
  cases snippet <;> rfl

namespace Session

/-- Temporary names are numbered without gaps and never reused. Over any steps that do not begin to
number again, with walks by whichever rules and failing or not, names drawn from zero on go by how
many were drawn before, and no two are the same. A standard walk that carries out all its edits
draws, in the order of the declarations, one name for a list of imports or of forwarded exports, two
for a module that is forwarded as a whole, and none for any other. The names are those in the text. -/
theorem temporaries_numbered_in_turn :
    (∀ (s : State) (steps : List (Splicer × Step)), s.names.next = 0 →
      (∀ x ∈ steps, x.2.KeepsNumbers) → (allDrawn s steps).length < 2 ^ 32 →
      (allDrawn s steps).Nodup ∧
        ∀ k name, (allDrawn s steps)[k]? = some name → ∃ stem, name = temporary stem k) ∧
    (∀ (s t : State) (tree : Node), s.walk Rule.standard tree = (t, none) →
      s.drawn (tree.edits Rule.standard) =
        Names.numberedFrom s.names.next (tree.nodes.flatMap Node.ownStems) ∧
      t.names = s.names.advance (tree.nodes.flatMap Node.ownStems).length) ∧
    ∀ (s : State) (snippet : Snippet),
      (s.insert snippet).cursor =
          s.cursor.write (snippet.spelt s.options (s.drawAll snippet.stems).1) ∧
        (s.insert snippet).names = (s.drawAll snippet.stems).2.names := by
  refine ⟨?_, ?_, State.insert_eq_drawAll⟩
  · intro s steps hzero hsteps hcount
    exact (allDrawn_inTurn steps s hsteps).from_zero hzero hcount
  · intro s t tree hwalk
    have hdrawn := State.drawn_eq (show s.Runs (tree.edits Rule.standard) t from hwalk)
    rw [tree.stems_eq] at hdrawn
    refine ⟨hdrawn, ?_⟩
    obtain ⟨stems, hstems, hleft⟩ := s.run_inTurn (tree.edits Rule.standard)
    have hcount : stems.length = tree.stems.length := by
      have hlength := congrArg List.length (hstems.symm.trans hdrawn)
      simpa using hlength
    rw [← State.walk, hwalk, hcount] at hleft
    exact hleft

/-- Stems that look like numbered names, with a walk that fails after one of its two imports; and a
walk that does not fail. -/
theorem temporaries_numbered_in_turn_failing :
    let imported (span : Span) := Node.importDecl ⟨span, .named, [⟨"é", none⟩], ⟨⟨0, 0⟩, "'m'"⟩⟩
    let failing := Node.element .program ⟨0, 3⟩ [imported ⟨1, 3⟩, imported ⟨0, 2⟩]
    let tree := Node.element .program ⟨0, 3⟩
      [.exportAll ⟨0, 1⟩ ⟨⟨0, 0⟩, "'n'"⟩, .exportNothing ⟨1, 2⟩ "default", imported ⟨2, 3⟩]
    let start := State.start "abc" {}
    let steps : List (Splicer × Step) :=
      [({}, .draw "a$1"), ({}, .draw "a"), ({}, .walk failing), ({}, .draw "mod")]
    (start.walk Rule.standard failing).2 = some (.regression 3 0) ∧
      allDrawn start steps = ["a$1$0", "a$1", "mod$2", "mod$3"] ∧ (allDrawn start steps).Nodup ∧
      (start.walk Rule.standard tree).2 = none ∧
      start.drawn (tree.edits Rule.standard) = ["mod$0", "key$1", "mod$2"] := by
  intro imported failing tree start steps
  have hdrawn : allDrawn start steps = ["a$1$0", "a$1", "mod$2", "mod$3"] := by decide +kernel
  have hsteps : ∀ x ∈ steps, x.2.KeepsNumbers := by simp [steps, Step.KeepsNumbers]
  have hnone : (start.walk Rule.standard tree).2 = none := by decide +kernel
  obtain ⟨hsession, hstandard, -⟩ := temporaries_numbered_in_turn
  refine ⟨by decide +kernel, hdrawn, (hsession start steps rfl hsteps (by simp [hdrawn])).1, hnone, ?_⟩
  rw [(hstandard start _ tree (Prod.ext rfl hnone)).1]
  decide +kernel

end Session

end ModSplice
