/-!
Command lines: `transform`, `check` or `parse` with the name of a file, and options with values. An
option is given at most once, as `--name value`, `--name=value`, or in its short form as `-n value`
or `-nvalue`. A value that begins with a hyphen has to be joined to its option. After `--` there are
no more options. To ask for help, or for the parser's own tree in place of the tree of declarations,
is no request here.
-/
namespace ModSplice.Command

structure OptionForm where
  name : String
  letter? : Option Char := none
  /-- Names of files may not be empty; other values may. -/
  mayBeEmpty : Bool := false
  deriving DecidableEq, Repr

def configForm : OptionForm := { name := "config" }

def transformForms : List OptionForm :=
  [configForm, { name := "output", letter? := some 'o' }, { name := "tree" },
    { name := "exports-object", mayBeEmpty := true }, { name := "loader", mayBeEmpty := true }]

/-- What was given: values of options by name, and the words in between. -/
structure Given where
  values : List (String × String) := []
  operands : List String := []
  deriving DecidableEq, Repr

namespace Given

def set? (given : Given) (form : OptionForm) (value : String) : Option Given :=
  if (given.values.lookup form.name).isSome || (value.isEmpty && !form.mayBeEmpty) then none
  else some { given with values := (form.name, value) :: given.values }

def addOperand (given : Given) (word : String) : Given :=
  { given with operands := given.operands ++ [word] }

end Given

inductive Word where
  | operand
  | option (form : OptionForm) (value? : Option String)
  /-- The mark after which there are no more options. -/
  | endOfOptions
  | unknown
  deriving DecidableEq, Repr

/-- An option without its hyphens, up to an equals sign. -/
def longWord (forms : List OptionForm) (body : List Char) : Word :=
  let name := String.ofList (body.takeWhile (· != '='))
  let value? :=
    match body.dropWhile (· != '=') with
    | _ :: value => some (String.ofList value)
    | [] => none
  match forms.find? (·.name == name) with
  | some form => .option form value?
  | none => .unknown

/-- An option by its letter; what is joined to it is its value, an equals sign in between not
counted. -/
def shortWord (forms : List OptionForm) (letter : Char) (rest : List Char) : Word :=
  match forms.find? (·.letter? == some letter) with
  | some form =>
    match rest with
    | [] => .option form none
    | '=' :: value => .option form (some (String.ofList value))
    | value => .option form (some (String.ofList value))
  | none => .unknown

def Word.ofString (forms : List OptionForm) (word : String) : Word :=
  match word.toList with
  | ['-', '-'] => .endOfOptions
  | '-' :: '-' :: body => longWord forms body
  | '-' :: letter :: rest => shortWord forms letter rest
  | _ => .operand

/-- Whether a word stands for itself and not for an option. -/
def isValue (word : String) : Bool :=
  Word.ofString [] word == .operand

/-- Reads the words of a command line; `none` if they cannot be understood. `waiting?` is an option
whose value comes next. -/
def Given.ofWords? (forms : List OptionForm) (given : Given) (waiting? : Option OptionForm) :
    List String → Option Given
  | [] => if waiting?.isNone then some given else none
  | word :: rest =>
    match waiting? with
    | some form =>
      if isValue word then (given.set? form word).bind fun given => ofWords? forms given none rest
      else none
    | none =>
      match Word.ofString forms word with
      | .operand => ofWords? forms (given.addOperand word) none rest
      | .option form (some value) =>
        (given.set? form value).bind fun given => ofWords? forms given none rest
      | .option form none => ofWords? forms given (some form) rest
      | .endOfOptions => some (rest.foldl Given.addOperand given)
      | .unknown => none

inductive Action where
  | transform (output? tree? exportsObject? loader? : Option String)
  | check
  | parse
  deriving DecidableEq, Repr

structure Request where
  action : Action
  input : String
  config? : Option String
  deriving DecidableEq, Repr

namespace Request

/-- The request that a subcommand and the words behind it make; a configuration file given here
takes the place of one given before. -/
def ofSubcommand? (config? : Option String) (subcommand : String) (words : List String) :
    Option Request := do
  let forms ←
    match subcommand with
    | "transform" => some transformForms
    | "check" => some [configForm]
    | "parse" => some [configForm]
    | _ => none
  let given ← Given.ofWords? forms {} none words
  let value (name : String) := given.values.lookup name
  match given.operands with
  | [input] =>
    if input.isEmpty then none
    else
      some {
        action :=
          match subcommand with
          | "transform" =>
            .transform (value "output") (value "tree") (value "exports-object") (value "loader")
          | "check" => .check
          | _ => .parse
        input
        config? := (value "config").or config? }
  | _ => none

/-- The request that the words of a command line make. `config?` is the configuration file given so
far, and `waiting` says that its name comes next. -/
def ofWords? (config? : Option String) (waiting : Bool) : List String → Option Request
  | [] => none
  | word :: rest =>
    if waiting then
      if isValue word && !word.isEmpty then ofWords? (some word) false rest else none
    else
      match Word.ofString [configForm] word with
      | .operand => ofSubcommand? config? word rest
      | .option _ value? =>
        if config?.isSome then none
        else
          match value? with
          | some value => if value.isEmpty then none else ofWords? (some value) false rest
          | none => ofWords? none true rest
      | _ => none

end Request
end ModSplice.Command
