/-! Texts by their UTF-8 bytes: sizes, character boundaries and slices. -/
namespace ModSplice.Text

def byteSize : List Char → Nat
  | [] => 0
  | c :: cs => c.utf8Size + byteSize cs

@[simp] theorem byteSize_nil : byteSize [] = 0 := rfl
@[simp] theorem byteSize_cons (c : Char) (cs : List Char) :
    byteSize (c :: cs) = c.utf8Size + byteSize cs := rfl

@[simp] theorem byteSize_append (a b : List Char) :
    byteSize (a ++ b) = byteSize a + byteSize b := by
  induction a with
  | nil => simp
  | cons c a ih => simp [ih, Nat.add_assoc]

/-- Whether `offset` is the end of the text or a character begins there. -/
def isBoundary (text : String) (offset : Nat) : Bool :=
  String.Pos.Raw.isValid text ⟨offset⟩

def between (text : String) (start stop : Nat) : String :=
  String.Pos.Raw.extract text ⟨start⟩ ⟨stop⟩

/-- The text from `start` to `stop`, if these are boundaries in order. -/
def slice? (text : String) (start stop : Nat) : Option String :=
  if start ≤ stop && isBoundary text start && isBoundary text stop then
    some (between text start stop)
  else none

end ModSplice.Text
