import ModSplice.Json.Basic

/-!
How records and variants are laid out in JSON.

A record is an object with named fields, or an array that lists the fields in their order and may
stop early. A tagged record carries the name of its variant in one more field, in front of the
others when it is an array.
-/
namespace ModSplice.Json

/-- The value of a named field, given at most once. -/
def field? (fields : List (String × Json)) (name : String) : Option (Option Json) :=
  match fields.filter (·.1 == name) with
  | [] => some none
  | [(_, value)] => some (some value)
  | _ => none

/-- The values given for the named fields, in that order. Other fields are passed over; a named
field that is given twice, and an array with more values than names, is refused. -/
def record? (names : List String) : Json → Option (List (Option Json))
  | .obj fields => names.mapM (field? fields)
  | .arr items =>
    if items.length ≤ names.length then
      some (items.map some ++ List.replicate (names.length - items.length) none)
    else none
  | _ => none

/-- Splits a tagged record into its tag and the record without it. -/
def tagged? (tag : String) : Json → Option (Json × Json)
  | .obj fields =>
    match fields.filter (·.1 == tag) with
    | [(_, value)] => some (value, .obj (fields.filter (·.1 != tag)))
    | _ => none
  | .arr (value :: rest) => some (value, .arr rest)
  | _ => none

/-- The variant that a tag names. Below the top of a document its number in the list will do. -/
def variant? (names : List String) (nested : Bool) : Json → Option String
  | .str name => if names.contains name then some name else none
  | .nat i => if nested then names[i]? else none
  | _ => none

/-- A plain choice: its name, or an object with the name as its one key and nothing under it. -/
def choice? : Json → Option String
  | .str name => some name
  | .obj [(name, .null)] => some name
  | .obj [(name, .obj [])] => some name
  | _ => none

def itemsOrEmpty? : Option Json → Option (List Json)
  | none => some []
  | some value => value.toItems?

def flagOrFalse? : Option Json → Option Bool
  | none => some false
  | some value => value.toBool?

def textOrNone? : Option Json → Option (Option String)
  | none => some none
  | some .null => some none
  | some value => value.toString?.map some

end ModSplice.Json
