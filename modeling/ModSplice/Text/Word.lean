import ModSplice.Text.Letter
import ModSplice.Text.Numeral

/-! Words: runs of the characters that make up an identifier. -/
namespace ModSplice.Text

def isWordStart (c : Char) : Bool :=
  isAlphabetic c || c == '_' || c == '$'

def isWordChar (c : Char) : Bool :=
  isAlphabetic c || isNumeral c || c == '_' || c == '$'

theorem isWordChar_of_isWordStart (c : Char) (h : isWordStart c = true) : isWordChar c = true := by
  simp only [isWordStart, isWordChar, Bool.or_eq_true] at h ⊢
  rcases h with (h | h) | h <;> simp [h]

end ModSplice.Text
