import ModSplice.Legacy.Scan

/-!
# Where the scan finds declarations

The scan meets the declarations from left to right, each at the beginning of what is left of the
text. Their texts are not empty, so their spans are not either, and they start one behind the other.
-/
namespace ModSplice.Legacy

open ModSplice.Text

theorem byteSize_pos {cs : List Char} (h : cs ≠ []) : 0 < byteSize cs := by
  cases cs with
  | nil => exact absurd rfl h
  | cons c cs =>
    have := c.utf8Size_pos
    rw [byteSize_cons]
    omega

theorem length_afterWord_le (cs : List Char) : (afterWord cs).length ≤ cs.length :=
  (List.dropWhile_sublist _).length_le

theorem length_afterBlanks_le (cs : List Char) : (afterBlanks cs).length ≤ cs.length :=
  (List.dropWhile_sublist _).length_le

theorem length_afterSomeBlanks?_lt {cs rest : List Char} (h : afterSomeBlanks? cs = some rest) :
    rest.length < cs.length := by
  cases cs with
  | nil => simp [afterSomeBlanks?] at h
  | cons c cs =>
    obtain ⟨-, h⟩ := Option.ite_none_right_eq_some.mp h
    obtain rfl := Option.some.inj h
    have := length_afterBlanks_le cs
    rw [List.length_cons]
    omega

theorem path?_ne_nil {cs path : List Char} (h : path? cs = some path) : path ≠ [] := by
  cases cs with
  | nil => simp [path?] at h
  | cons quote rest =>
    obtain ⟨hpath, h⟩ := Option.ite_none_right_eq_some.mp h
    obtain rfl := Option.some.inj h
    intro hnil
    simp [hnil] at hpath

theorem before_ne_nil {cs rest : List Char} (h : rest.length < cs.length) :
    before cs rest ≠ [] := by
  intro hnil
  have hlength : (before cs rest).length = cs.length - rest.length := by
    rw [before, List.length_take]
    omega
  rw [hnil, List.length_nil] at hlength
  omega

theorem moduleFrom?_eq_some {cs : List Char} {found : Legacy} (h : moduleFrom? cs = some found) :
    ∃ atName atFrom path, afterSomeBlanks? (afterWord cs) = some atName ∧
      atName.head?.any isWordStart = true ∧
      afterSomeBlanks? (afterWord atName) = some atFrom ∧
      atFrom.takeWhile isWordChar = ['f', 'r', 'o', 'm'] ∧
      path? (afterBlanks (afterWord atFrom)) = some path ∧
      found = .moduleFrom (before cs (afterBlanks (afterWord atFrom)))
        (atName.takeWhile isWordChar) path
        (semicolonTail ((afterBlanks (afterWord atFrom)).drop path.length)) := by
  simp only [moduleFrom?, Option.bind_eq_bind, Option.bind_eq_some_iff] at h
  obtain ⟨atName, hname, h⟩ := h
  obtain ⟨hstart, h⟩ := Option.ite_none_left_eq_some.mp h
  obtain ⟨atFrom, hatFrom, h⟩ := Option.bind_eq_some_iff.mp h
  obtain ⟨hfrom, h⟩ := Option.ite_none_left_eq_some.mp h
  obtain ⟨path, hpath, h⟩ := Option.bind_eq_some_iff.mp h
  exact ⟨atName, atFrom, path, hname, by simpa using hstart, hatFrom,
    Decidable.not_not.mp hfrom, hpath, (Option.some.inj h).symm⟩

theorem bareDefault?_eq_some {cs : List Char} {found : Legacy} (h : bareDefault? cs = some found) :
    ∃ atDefault rest, afterSomeBlanks? (afterWord cs) = some atDefault ∧
      atDefault.takeWhile isWordChar = ['d', 'e', 'f', 'a', 'u', 'l', 't'] ∧
      afterBlanks (afterWord atDefault) = ';' :: rest ∧ found = .bareDefault (before cs rest) := by
  simp only [bareDefault?, Option.bind_eq_bind, Option.bind_eq_some_iff] at h
  obtain ⟨atDefault, hatDefault, h⟩ := h
  obtain ⟨hword, h⟩ := Option.ite_none_left_eq_some.mp h
  split at h
  · rename_i rest hrest
    exact ⟨atDefault, rest, hatDefault, Decidable.not_not.mp hword, hrest, (Option.some.inj h).symm⟩
  · cases h

/-- A declaration has some text. -/
theorem ofChars?_text {forms : Forms} {cs : List Char} {found : Legacy}
    (h : ofChars? forms cs = some found) : found.text ≠ [] := by
  simp only [ofChars?] at h
  split at h
  · obtain ⟨atName, atFrom, path, -, -, -, -, hpath, rfl⟩ := moduleFrom?_eq_some h
    have hne := path?_ne_nil hpath
    simp [text, hne]
  · obtain ⟨-, h⟩ := Option.ite_none_right_eq_some.mp h
    obtain ⟨atDefault, rest, hatDefault, -, hrest, rfl⟩ := bareDefault?_eq_some h
    apply before_ne_nil
    have hword := length_afterWord_le cs
    have hblanks := length_afterSomeBlanks?_lt hatDefault
    have hlast := length_afterWord_le atDefault
    have hend := length_afterBlanks_le (afterWord atDefault)
    rw [hrest, List.length_cons] at hend
    omega

/-- What a stride finds begins the text there. -/
theorem stride_found {forms : Forms} {templates : Templates} {past cs : List Char} {found : Legacy}
    (h : (stride forms templates past cs).found? = some found) :
    ofChars? forms cs = some found := by
  rw [stride] at h
  split at h
  · cases h
  · simp only [codeStride] at h
    split at h
    · cases h
    · split at h
      · cases h
      · split at h
        · cases h
        · split at h
          · rename_i found' hfound
            obtain rfl := Option.some.inj h
            exact hfound
          · cases h

/-- Each declaration of the scan begins what is left of the text at its offset. -/
theorem scan_found (forms : Forms) (cs : List Char) (templates : Templates) (past : List Char)
    (offset covered : Nat) (x : Nat × Legacy)
    (hx : x ∈ scan forms templates past offset covered cs) :
    ∃ front back, cs = front ++ back ∧ x.1 = offset + byteSize front ∧
      ofChars? forms back = some x.2 := by
  induction cs generalizing templates past offset covered with
  | nil => simp [scan] at hx
  | cons c cs ih =>
    -- what is found further on is found behind one more character
    have hlater : ∀ templates covered,
        x ∈ scan forms templates (c :: past) (offset + c.utf8Size) covered cs →
        ∃ front back, c :: cs = front ++ back ∧ x.1 = offset + byteSize front ∧
          ofChars? forms back = some x.2 := by
      intro templates covered h
      obtain ⟨front, back, rfl, hoffset, hfound⟩ := ih templates (c :: past) _ covered h
      refine ⟨c :: front, back, rfl, ?_, hfound⟩
      rw [hoffset, byteSize_cons, Nat.add_assoc]
    cases covered with
    | succ covered => exact hlater _ _ hx
    | zero =>
      rw [scan, List.mem_append] at hx
      rcases hx with hx | hx
      · obtain ⟨found, hfound, rfl⟩ := List.mem_map.mp hx
        exact ⟨[], c :: cs, rfl, by simp, stride_found (Option.mem_toList.mp hfound)⟩
      · exact hlater _ _ hx

/-- The declarations of the scan start one behind the other. -/
theorem scan_pairwise (forms : Forms) (cs : List Char) (templates : Templates) (past : List Char)
    (offset covered : Nat) :
    (scan forms templates past offset covered cs).Pairwise fun x y => x.1 < y.1 := by
  induction cs generalizing templates past offset covered with
  | nil => exact .nil
  | cons c cs ih =>
    cases covered with
    | succ covered => exact ih _ _ _ _
    | zero =>
      rw [scan, List.pairwise_append]
      refine ⟨?_, ih _ _ _ _, ?_⟩
      · cases (stride forms templates past (c :: cs)).found? <;> simp
      · intro x hx y hy
        obtain ⟨found, -, rfl⟩ := List.mem_map.mp hx
        obtain ⟨front, -, -, hoffset, -⟩ := scan_found forms cs _ _ _ _ y hy
        have hc := c.utf8Size_pos
        simp only [hoffset]
        omega

theorem toNode_start (offset : Nat) (found : Legacy) :
    (found.toNode offset).span.start = offset := by
  cases found <;> rfl

theorem toNode_stop (offset : Nat) (found : Legacy) :
    (found.toNode offset).span.stop = offset + byteSize found.text := by
  cases found <;> rfl

theorem declarations_nonempty (forms : Forms) (source : List Char) (node : Node)
    (h : node ∈ declarations forms source) : node.span.start < node.span.stop := by
  obtain ⟨⟨offset, found⟩, hx, rfl⟩ := List.mem_map.mp h
  obtain ⟨-, back, -, -, hfound⟩ := scan_found forms source _ _ _ _ _ hx
  have hsize : 0 < byteSize found.text := byteSize_pos (ofChars?_text hfound)
  rw [toNode_start, toNode_stop]
  omega

theorem declarations_pairwise (forms : Forms) (source : List Char) :
    (declarations forms source).Pairwise fun a b => a.span.start < b.span.start := by
  rw [declarations, List.pairwise_map]
  refine (scan_pairwise forms source [] [] 0 0).imp ?_
  intro x y h
  simpa only [toNode_start] using h

end ModSplice.Legacy
