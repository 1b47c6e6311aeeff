import ModSplice.Proofs.OwnText

/-!
# Blanking keeps offsets

A character is blanked out by as many bytes as it takes, so all offsets stay what they are. Whether
it is blanked out depends on the place of its first byte only. Since the spans of declarations begin
and end at boundaries, that is the same as for each of its bytes, and what lies outside the spans
stays, byte by byte and slice by slice.
-/
namespace ModSplice

namespace Text

/-! ## Bytes and characters -/

def byte? (text : String) (offset : Nat) : Option UInt8 :=
  text.toUTF8.data[offset]?

theorem byte?_eq_none {text : String} {offset : Nat} (h : text.utf8ByteSize ≤ offset) :
    byte? text offset = none :=
  Array.getElem?_eq_none h

theorem byte?_parts (a b c : String) {k : Nat} (hk : k < b.utf8ByteSize) :
    byte? (a ++ b ++ c) (a.utf8ByteSize + k) = byte? b k := by
  have ha : a.toByteArray.data.size = a.utf8ByteSize := rfl
  have hb : b.toByteArray.data.size = b.utf8ByteSize := rfl
  simp only [byte?, String.toUTF8_eq_toByteArray, String.toByteArray_append, ByteArray.data_append]
  rw [Array.getElem?_append_left (by simp only [Array.size_append, ha, hb]; omega),
    Array.getElem?_append_right (by omega), ha, Nat.add_sub_cancel_left]

/-- Each byte is one of a character. -/
theorem exists_char {cs : List Char} {k : Nat} (h : k < byteSize cs) :
    ∃ front c back, cs = front ++ c :: back ∧ byteSize front ≤ k ∧
      k < byteSize front + c.utf8Size := by
  induction cs generalizing k with
  | nil => simp at h
  | cons c cs ih =>
    by_cases hc : k < c.utf8Size
    · exact ⟨[], c, cs, rfl, by simp, by simpa using hc⟩
    · rw [byteSize_cons] at h
      obtain ⟨front, d, back, rfl, hle, hlt⟩ := ih (k := k - c.utf8Size) (by omega)
      exact ⟨c :: front, d, back, rfl, by rw [byteSize_cons]; omega, by rw [byteSize_cons]; omega⟩

/-- Inside a character there is no boundary. -/
theorem eq_of_isBoundary_char {front back : List Char} {c : Char} {k : Nat}
    (h : isBoundary (String.ofList (front ++ c :: back)) k = true) (hle : byteSize front ≤ k)
    (hlt : k < byteSize front + c.utf8Size) : k = byteSize front := by
  rw [String.ofList_append] at h
  obtain ⟨a, b, hsplit, hsize⟩ := isBoundary_iff.mp (isBoundary_rest h
    (by rwa [← Legacy.byteSize_eq]))
  rw [← Legacy.byteSize_eq] at hsize
  have hchars : c :: back = a.toList ++ b.toList := by
    rw [← String.toList_append, ← hsplit, String.toList_ofList]
  cases ha : a.toList with
  | nil =>
    have hzero : a.utf8ByteSize = 0 := by simpa using ha
    omega
  | cons d rest =>
    rw [ha, List.cons_append, List.cons.injEq] at hchars
    have hfirst : a.utf8ByteSize = d.utf8Size + byteSize rest := by
      rw [← byteSize_cons, ← ha, Legacy.byteSize_toList]
    rw [hchars.1] at hlt
    omega

end Text

open Text

namespace Legacy

/-! ## Blanking any spans -/

@[simp] theorem byteSize_blankChar (c : Char) : byteSize (blankChar c) = c.utf8Size := by
  have hspaces : ∀ n, byteSize (List.replicate n ' ') = n := by
    intro n
    induction n with
    | zero => rfl
    | succ n ih =>
      have hspace : ' '.utf8Size = 1 := rfl
      rw [List.replicate_succ, byteSize_cons, ih, hspace, Nat.add_comm]
  rw [blankChar]
  split
  · simp
  · exact hspaces c.utf8Size

@[simp] theorem byteSize_blankOut (spans : List Span) (offset : Nat) (cs : List Char) :
    byteSize (blankOut spans offset cs) = byteSize cs := by
  induction cs generalizing offset with
  | nil => rfl
  | cons c cs ih =>
    rw [blankOut, byteSize_append, ih, byteSize_cons]
    split <;> simp

/-- The slice over a part of the blanked text is the part blanked out. -/
theorem slice?_blankOut (spans : List Span) (front part rest : List Char) :
    slice? (String.ofList (blankOut spans 0 (front ++ part ++ rest))) (byteSize front)
      (byteSize front + byteSize part) =
        some (String.ofList (blankOut spans (byteSize front) part)) := by
  have hslice := slice?_ofList (blankOut spans 0 front) (blankOut spans (byteSize front) part)
    (blankOut spans (byteSize (front ++ part)) rest)
  rw [byteSize_blankOut, byteSize_blankOut] at hslice
  rw [blankOut_append, blankOut_append, Nat.zero_add, Nat.zero_add]
  exact hslice

theorem isBoundary_blankOut (spans : List Span) {cs : List Char} {k : Nat}
    (h : isBoundary (String.ofList cs) k = true) :
    isBoundary (String.ofList (blankOut spans 0 cs)) k = true := by
  obtain ⟨a, b, hsplit, rfl⟩ := isBoundary_iff.mp h
  have hcs : cs = a.toList ++ b.toList := by
    rw [← String.toList_append, ← hsplit, String.toList_ofList]
  rw [hcs, blankOut_append, String.ofList_append]
  refine isBoundary_iff.mpr ⟨_, _, rfl, ?_⟩
  rw [← byteSize_eq, byteSize_blankOut, byteSize_toList]

theorem ofList_blankChar (c : Char) :
    String.ofList (blankChar c) = if c = '\n' ∨ c = '\r' then String.singleton c
      else String.ofList (List.replicate c.utf8Size ' ') := by
  rw [blankChar, String.singleton_eq_ofList]
  by_cases hbreak : c = '\n' ∨ c = '\r' <;> simp [hbreak]

/-- A character inside a span is blanked out. -/
theorem slice?_blankOut_inside {spans : List Span} {s : Span} {front : List Char} (hs : s ∈ spans)
    (hstart : s.start ≤ byteSize front) (hstop : byteSize front < s.stop) (back : List Char)
    (c : Char) :
    slice? (String.ofList (blankOut spans 0 (front ++ [c] ++ back))) (byteSize front)
      (byteSize front + c.utf8Size) = some (String.ofList (blankChar c)) := by
  have hhit : (spans.any fun s => s.start ≤ byteSize front && byteSize front < s.stop) = true := by
    rw [List.any_eq_true]
    exact ⟨s, hs, by simp [hstart, hstop]⟩
  have hslice := slice?_blankOut spans front [c] back
  rw [blankOut, hhit] at hslice
  simpa [blankOut] using hslice

/-! ## Blanking spans between boundaries -/

section Aligned

variable {spans : List Span} {cs : List Char} (haligned : ∀ s ∈ spans,
  isBoundary (String.ofList cs) s.start = true ∧ isBoundary (String.ofList cs) s.stop = true)
include haligned

/-- A character stays if one of its bytes lies outside all spans. -/
theorem blankOut_char {front back : List Char} {c : Char} {k : Nat}
    (hcs : cs = front ++ c :: back) (hle : byteSize front ≤ k)
    (hlt : k < byteSize front + c.utf8Size) (hout : ∀ s ∈ spans, k < s.start ∨ s.stop ≤ k) :
    blankOut spans 0 cs =
      blankOut spans 0 front ++ c :: blankOut spans (byteSize front + c.utf8Size) back := by
  have hkept : blankOut spans (byteSize front) [c] = [c] := by
    apply blankOut_outside
    intro s hs
    obtain ⟨hstart, hstop⟩ := haligned s hs
    rw [hcs] at hstart hstop
    -- no span ends inside the character, so its other bytes are outside with this one
    have hfirst := eq_of_isBoundary_char hstart
    have hlast := eq_of_isBoundary_char hstop
    have hs := hout s hs
    rw [byteSize_cons, byteSize_nil]
    omega
  have happend := blankOut_append spans (byteSize front) [c] back
  rw [hcs, blankOut_append, Nat.zero_add, ← List.singleton_append, happend, hkept]
  simp

theorem byte?_blankOut {k : Nat} (hout : ∀ s ∈ spans, k < s.start ∨ s.stop ≤ k) :
    byte? (String.ofList (blankOut spans 0 cs)) k = byte? (String.ofList cs) k := by
  by_cases hk : k < byteSize cs
  · obtain ⟨front, c, back, hcs, hle, hlt⟩ := exists_char hk
    have hbyte : ∀ before after : List Char, byteSize before = byteSize front →
        byte? (String.ofList (before ++ c :: after)) k =
          byte? (String.singleton c) (k - byteSize front) := by
      intro before after hsize
      have hparts := byte?_parts (String.ofList before) (String.singleton c) (String.ofList after)
        (k := k - byteSize front) (by rw [String.utf8ByteSize_singleton]; omega)
      rw [← byteSize_eq, hsize, Nat.add_sub_cancel' hle, String.singleton_eq_ofList,
        ← String.ofList_append, ← String.ofList_append] at hparts
      rw [String.singleton_eq_ofList]
      simpa using hparts
    rw [blankOut_char haligned hcs hle hlt hout, hbyte _ _ (byteSize_blankOut spans 0 front), hcs,
      hbyte _ _ rfl]
  · rw [byte?_eq_none (by rw [← byteSize_eq, byteSize_blankOut]; omega),
      byte?_eq_none (by rw [← byteSize_eq]; omega)]

/-- Outside the spans there are no new boundaries. -/
theorem isBoundary_blankOut_iff {k : Nat} (hout : ∀ s ∈ spans, k ≤ s.start ∨ s.stop ≤ k) :
    isBoundary (String.ofList (blankOut spans 0 cs)) k = true ↔
      isBoundary (String.ofList cs) k = true := by
  refine ⟨fun h => ?_, isBoundary_blankOut spans⟩
  by_contra hno
  have hne : ∀ place, isBoundary (String.ofList cs) place = true → k ≠ place := by
    rintro place hplace rfl
    exact hno hplace
  have hsize := isBoundary_le h
  have hend := hne _ (isBoundary_size (String.ofList cs))
  rw [← byteSize_eq] at hsize hend
  rw [byteSize_blankOut] at hsize
  obtain ⟨front, c, back, hcs, hle, hlt⟩ := exists_char (Nat.lt_of_le_of_ne hsize hend)
  have hstrict : ∀ s ∈ spans, k < s.start ∨ s.stop ≤ k := by
    intro s hs
    have hstart := hne _ (haligned s hs).1
    have hs := hout s hs
    omega
  rw [blankOut_char haligned hcs hle hlt hstrict] at h
  have hfront : k = byteSize front := by
    have hplace := eq_of_isBoundary_char h
    rw [byteSize_blankOut] at hplace
    exact hplace hle hlt
  refine hne _ (isBoundary_iff.mpr ⟨String.ofList front, String.ofList (c :: back), ?_, rfl⟩) ?_
  · rw [hcs, String.ofList_append]
  · rw [hfront, byteSize_eq]

theorem slice?_blankOut_outside {p q : Nat} (hout : ∀ s ∈ spans, q ≤ s.start ∨ s.stop ≤ p) :
    slice? (String.ofList (blankOut spans 0 cs)) p q = slice? (String.ofList cs) p q := by
  by_cases hpq : p ≤ q
  · have hstart := isBoundary_blankOut_iff haligned (k := p) fun s hs => by
      have hs := hout s hs
      omega
    have hstop := isBoundary_blankOut_iff haligned (k := q) fun s hs => by
      have hs := hout s hs
      omega
    by_cases hcut : isBoundary (String.ofList cs) p = true ∧ isBoundary (String.ofList cs) q = true
    · obtain ⟨a, b, c, hsplit, rfl, rfl⟩ := exists_parts hcut.1 hcut.2 hpq
      have hcs : cs = a.toList ++ b.toList ++ c.toList := by
        rw [← String.toList_append, ← String.toList_append, ← hsplit, String.toList_ofList]
      have hkept : blankOut spans a.utf8ByteSize b.toList = b.toList :=
        blankOut_outside (by rwa [byteSize_toList])
      have hblanked := slice?_blankOut spans a.toList b.toList c.toList
      rw [byteSize_toList, byteSize_toList, hkept, ← hcs, String.ofList_toList] at hblanked
      rw [hblanked, hsplit, slice?_parts]
    · have hcut' := hcut
      rw [← hstart, ← hstop] at hcut'
      simp only [slice?, Bool.and_eq_true, and_assoc, hcut, hcut', and_false, if_false]
  · simp [slice?, hpq]

end Aligned

/-! ## Extracts -/

/-- The text of an extract has the offsets of the source. Outside the spans of the nodes the two
agree by bytes and by slices, and inside each character but a line break gives way to spaces. -/
theorem extract_keeps_offsets (forms : Forms) (source : String) :
    let x := extract forms source
    x.text.utf8ByteSize = source.utf8ByteSize ∧
    (∀ k, isBoundary source k = true → isBoundary x.text k = true) ∧
    (∀ k, (∀ node ∈ x.nodes, k < node.span.start ∨ node.span.stop ≤ k) →
      byte? x.text k = byte? source k) ∧
    (∀ front c back, source = front ++ String.singleton c ++ back →
      (∃ node ∈ x.nodes, node.span.start ≤ front.utf8ByteSize ∧
        front.utf8ByteSize < node.span.stop) →
      slice? x.text front.utf8ByteSize (front.utf8ByteSize + c.utf8Size) =
        some (if c = '\n' ∨ c = '\r' then String.singleton c
          else String.ofList (List.replicate c.utf8Size ' '))) ∧
    ∀ p q, (∀ node ∈ x.nodes, q ≤ node.span.start ∨ node.span.stop ≤ p) →
      slice? x.text p q = slice? source p q := by
  intro x
  let spans := x.nodes.map Node.span
  have htext : x.text = String.ofList (blankOut spans 0 source.toList) := rfl
  have hsource : source = String.ofList source.toList := String.ofList_toList.symm
  have haligned : ∀ s ∈ spans, isBoundary (String.ofList source.toList) s.start = true ∧
      isBoundary (String.ofList source.toList) s.stop = true := by
    intro s hs
    obtain ⟨node, hnode, rfl⟩ := List.mem_map.mp hs
    rw [← hsource]
    exact (tells_of_mem hnode).isBoundary
  have hspans : ∀ {P : Span → Prop}, (∀ node ∈ x.nodes, P node.span) → ∀ s ∈ spans, P s := by
    intro P h s hs
    obtain ⟨node, hnode, rfl⟩ := List.mem_map.mp hs
    exact h node hnode
  refine ⟨?_, fun k hk => ?_, fun k hout => ?_, fun front c back hsplit hin => ?_,
    fun p q hout => ?_⟩
  · rw [htext, ← byteSize_eq, byteSize_blankOut, byteSize_toList]
  · rw [hsource] at hk
    rw [htext]
    exact isBoundary_blankOut spans hk
  · rw [htext, byte?_blankOut haligned (hspans hout), ← hsource]
  · obtain ⟨node, hnode, hstart, hstop⟩ := hin
    have hsize := byteSize_toList front
    have hchars : source.toList = front.toList ++ [c] ++ back.toList := by simp [hsplit]
    have hslice := slice?_blankOut_inside (List.mem_map_of_mem hnode) (hsize ▸ hstart)
      (hsize ▸ hstop) back.toList c
    rw [hsize, ← hchars, ofList_blankChar] at hslice
    exact hslice
  · rw [htext, slice?_blankOut_outside haligned (hspans hout), ← hsource]

/-- A declaration over two lines, between letters of two bytes and with a path of three. -/
theorem extract_keeps_offsets_wide :
    let source := "é module ñ\n from '€';ü"
    let x := extract {} source
    x.nodes.map Node.span = [⟨3, 25⟩] ∧ byte? x.text 26 = byte? source 26 ∧
      slice? x.text 12 13 = some "\n" ∧ slice? x.text 20 23 = some "   " ∧
      slice? x.text 0 3 = slice? source 0 3 ∧ slice? x.text 25 27 = slice? source 25 27 := by
  intro source x
  have hscan : scan {} [] [] 0 0 source.toList =
      [(3, .moduleFrom "module ñ\n from ".toList ['ñ'] "'€'".toList [';'])] := by decide +kernel
  obtain ⟨decl, hnodes, hspan⟩ : ∃ decl, x.nodes = [decl] ∧ decl.span = ⟨3, 25⟩ := by
    refine ⟨.moduleDecl ⟨⟨3, 25⟩, "ñ", ⟨⟨19, 24⟩, "'€'"⟩⟩, ?_, rfl⟩
    change declarations {} source.toList = _
    rw [declarations, hscan]
    rfl
  obtain ⟨-, -, hbyte, hchar, hslice⟩ := extract_keeps_offsets {} source
  simp only [show (extract {} source).nodes = [decl] from hnodes, List.mem_singleton, forall_eq,
    exists_eq_left, hspan] at hbyte hchar hslice
  exact ⟨by rw [hnodes, List.map_singleton, hspan], hbyte 26 (by decide),
    hchar "é module ñ" '\n' " from '€';ü" (by decide) (by decide),
    hchar "é module ñ\n from '" '€' "';ü" (by decide) (by decide), hslice 0 3 (by decide),
    hslice 25 27 (by decide)⟩

end Legacy
end ModSplice
