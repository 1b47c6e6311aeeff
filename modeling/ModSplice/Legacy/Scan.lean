import ModSplice.Legacy.Declaration
import ModSplice.Legacy.Template

/-!
The scan of a source text for declarations in the older forms. It goes through the text in strides:
each takes a piece of a template, a comment, a string, a word, a declaration or a single character.
-/
namespace ModSplice.Legacy

open ModSplice.Text

/-- One stride: the templates open behind it, its width in characters, and the declaration if it is
one. -/
structure Stride where
  templates : Templates
  width : Nat
  found? : Option Legacy := none
  deriving DecidableEq, Repr

def beginsWord (past : List Char) (cs : List Char) : Bool :=
  cs.head?.any isWordStart && !past.head?.any isWordChar

/-- Whether the last character that is not blank is a dot, so that a word is the name of a
property. -/
def followsDot (past : List Char) : Bool :=
  past.find? (fun c => !isBlank c) == some '.'

def codeStride (forms : Forms) (past cs : List Char) : Nat × Option Legacy :=
  match regionWidth? cs with
  | some width => (width, none)
  | none =>
    if !beginsWord past cs then (1, none)
    else if followsDot past then ((cs.takeWhile isWordChar).length, none)
    else
      match ofChars? forms cs with
      | some found => (found.text.length, some found)
      | none => ((cs.takeWhile isWordChar).length, none)

/-- The stride at the beginning of `cs`, where `past` comes before it, last character first. -/
def stride (forms : Forms) (templates : Templates) (past cs : List Char) : Stride :=
  match templates.step cs with
  | (templates, some width) => ⟨templates, width, none⟩
  | (templates, none) =>
    let (width, found?) := codeStride forms past cs
    ⟨templates, width, found?⟩

/-- The declarations in `cs` with the offsets of their first bytes, in order. `past` comes before
`cs`, last character first, and takes `offset` bytes; the last stride still covers `covered`
characters of `cs`. -/
def scan (forms : Forms) (templates : Templates) (past : List Char) (offset covered : Nat) :
    List Char → List (Nat × Legacy)
  | [] => []
  | c :: cs =>
    match covered with
    | covered + 1 => scan forms templates (c :: past) (offset + c.utf8Size) covered cs
    | 0 =>
      let next := stride forms templates past (c :: cs)
      next.found?.toList.map (fun found => (offset, found)) ++
        scan forms next.templates (c :: past) (offset + c.utf8Size) (next.width - 1) cs

def declarations (forms : Forms) (source : List Char) : List Node :=
  (scan forms [] [] 0 0 source).map fun (offset, found) => found.toNode offset

/-- Blanks out a character, byte for byte; line breaks stay. -/
def blankChar (c : Char) : List Char :=
  if c = '\n' || c = '\r' then [c] else List.replicate c.utf8Size ' '

/-- The text with the characters inside the spans blanked out, where `offset` bytes come before
it. -/
def blankOut (spans : List Span) (offset : Nat) : List Char → List Char
  | [] => []
  | c :: cs =>
    (if spans.any fun s => s.start ≤ offset && offset < s.stop then blankChar c else [c]) ++
      blankOut spans (offset + c.utf8Size) cs

/-- A source text without its declarations in the older forms, and these as nodes. -/
structure Extract where
  text : String
  nodes : List Node

def extract (forms : Forms) (source : String) : Extract :=
  let nodes := declarations forms source.toList
  { text := String.ofList (blankOut (nodes.map Node.span) 0 source.toList), nodes }

end ModSplice.Legacy
