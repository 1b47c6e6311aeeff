import Mathlib.Data.String.Basic
import ModSplice.Text.Utf8

/-!
# Boundaries and slices

Two boundaries cut a text into three parts, and the slice between them is the middle one. What is
said about slices here follows from that.
-/
namespace ModSplice.Text

/-- A boundary is the size of a beginning of the text. -/
theorem isBoundary_iff {text : String} {offset : Nat} :
    isBoundary text offset = true ↔ ∃ a b, text = a ++ b ∧ offset = a.utf8ByteSize := by
  simp only [isBoundary, String.Pos.Raw.isValid_eq_true_iff,
    String.Pos.Raw.isValid_iff_exists_append, String.Pos.Raw.ext_iff, String.byteIdx_rawEndPos]

theorem isBoundary_le {text : String} {offset : Nat} (h : isBoundary text offset = true) :
    offset ≤ text.utf8ByteSize := by
  obtain ⟨a, b, rfl, rfl⟩ := isBoundary_iff.mp h
  simp

@[simp] theorem isBoundary_zero (text : String) : isBoundary text 0 = true :=
  isBoundary_iff.mpr ⟨"", text, by simp, by simp⟩

@[simp] theorem isBoundary_size (text : String) : isBoundary text text.utf8ByteSize = true :=
  isBoundary_iff.mpr ⟨text, "", by simp, rfl⟩

theorem isBoundary_append_right {text : String} {offset : Nat} (h : isBoundary text offset = true)
    (more : String) : isBoundary (text ++ more) offset = true := by
  obtain ⟨a, b, rfl, rfl⟩ := isBoundary_iff.mp h
  exact isBoundary_iff.mpr ⟨a, b ++ more, String.append_assoc, rfl⟩

theorem isBoundary_append_left {text : String} {offset : Nat} (h : isBoundary text offset = true)
    (lead : String) : isBoundary (lead ++ text) (lead.utf8ByteSize + offset) = true := by
  obtain ⟨a, b, rfl, rfl⟩ := isBoundary_iff.mp h
  exact isBoundary_iff.mpr ⟨lead ++ a, b, String.append_assoc.symm, by simp⟩

/-- A boundary behind a beginning of the text is a boundary of the rest. -/
theorem isBoundary_rest {lead text : String} {offset : Nat}
    (h : isBoundary (lead ++ text) offset = true) (hle : lead.utf8ByteSize ≤ offset) :
    isBoundary text (offset - lead.utf8ByteSize) = true := by
  simp only [isBoundary, String.Pos.Raw.isValid_eq_true_iff] at h ⊢
  rcases String.Pos.Raw.isValid_append.mp h with hl | ⟨-, hr⟩
  · have := hl.le_utf8ByteSize
    have he : offset - lead.utf8ByteSize = 0 := by simp only at this; omega
    rw [he]
    exact String.Pos.Raw.isValid_zero
  · have he : (⟨offset⟩ : String.Pos.Raw) - lead = ⟨offset - lead.utf8ByteSize⟩ := by
      simp [String.Pos.Raw.ext_iff]
    exact he ▸ hr

/-- Two boundaries in order cut the text into three parts. -/
theorem exists_parts {text : String} {start stop : Nat} (hs : isBoundary text start = true)
    (ht : isBoundary text stop = true) (h : start ≤ stop) :
    ∃ a b c, text = a ++ b ++ c ∧ start = a.utf8ByteSize ∧
      stop = a.utf8ByteSize + b.utf8ByteSize := by
  obtain ⟨a, rest, rfl, rfl⟩ := isBoundary_iff.mp hs
  obtain ⟨b, c, rfl, hb⟩ := isBoundary_iff.mp (isBoundary_rest ht h)
  exact ⟨a, b, c, String.append_assoc.symm, rfl, by omega⟩

theorem between_parts (a b c : String) :
    between (a ++ b ++ c) a.utf8ByteSize (a.utf8ByteSize + b.utf8ByteSize) = b := by
  have h := String.extract_of_valid a.toList b.toList c.toList
  simpa only [between, String.ofList_append, String.ofList_toList, String.utf8Len_toList] using h

@[simp] theorem between_self (text : String) (offset : Nat) : between text offset offset = "" := by
  simp [between, String.Pos.Raw.extract]

/-- Slices that meet join up. -/
theorem between_append {text : String} {p q r : Nat} (hp : isBoundary text p = true)
    (hq : isBoundary text q = true) (hr : isBoundary text r = true) (hpq : p ≤ q) (hqr : q ≤ r) :
    between text p q ++ between text q r = between text p r := by
  obtain ⟨a, b, rest, rfl, rfl, rfl⟩ := exists_parts hp hq hpq
  have hsize : (a ++ b).utf8ByteSize = a.utf8ByteSize + b.utf8ByteSize := by simp
  obtain ⟨c, d, rfl, hc⟩ := isBoundary_iff.mp (isBoundary_rest hr (by omega))
  have hr' : r = a.utf8ByteSize + (b ++ c).utf8ByteSize := by simp; omega
  have h₁ := between_parts a b (c ++ d)
  have h₂ := between_parts (a ++ b) c d
  have h₃ := between_parts a (b ++ c) d
  rw [hsize] at h₂
  subst hr'
  simp only [String.utf8ByteSize_append, String.append_assoc, ← Nat.add_assoc] at h₁ h₂ h₃ ⊢
  rw [h₁, h₂, h₃]

/-- A slice stays what it is when text is put around it. -/
theorem between_embed {text : String} {start stop : Nat} (hs : isBoundary text start = true)
    (ht : isBoundary text stop = true) (h : start ≤ stop) (lead tail : String) :
    between (lead ++ text ++ tail) (lead.utf8ByteSize + start) (lead.utf8ByteSize + stop) =
      between text start stop := by
  obtain ⟨a, b, c, rfl, rfl, rfl⟩ := exists_parts hs ht h
  rw [between_parts]
  have h := between_parts (lead ++ a) b (c ++ tail)
  simpa only [String.utf8ByteSize_append, String.append_assoc, Nat.add_assoc] using h

theorem isBoundary_embed {text : String} {offset : Nat} (h : isBoundary text offset = true)
    (lead tail : String) :
    isBoundary (lead ++ text ++ tail) (lead.utf8ByteSize + offset) = true :=
  isBoundary_append_right (isBoundary_append_left h lead) tail

theorem slice?_parts (a b c : String) :
    slice? (a ++ b ++ c) a.utf8ByteSize (a.utf8ByteSize + b.utf8ByteSize) = some b := by
  have hstart : isBoundary (a ++ b ++ c) a.utf8ByteSize = true :=
    isBoundary_embed (isBoundary_zero b) a c
  have hstop : isBoundary (a ++ b ++ c) (a.utf8ByteSize + b.utf8ByteSize) = true :=
    isBoundary_embed (isBoundary_size b) a c
  simp only [slice?, hstart, hstop, between_parts]
  simp

end ModSplice.Text
