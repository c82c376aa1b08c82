/-!
# Arguments of a command

A command line is a list of arguments.  Options come in a short and a long form and take one value
each, given apart or attached; anything else that does not begin with a dash is a word.  A value
given apart may not begin with a dash, unless it is a dash and nothing else.

An option may be given more than once, and then the last time counts.  Only that one has to have a
value, but all values have to make sense (`Occurrences.value?`).
-/

namespace Bindery.CommandLine

/-- An option by its two names. -/
structure OptionName where
  short : Char
  long : String
  deriving DecidableEq, Repr

/-- The options of a command line in order, by their long names, each with its value if it has
one. -/
abbrev Occurrences := List (String × Option String)

/-- What an argument is. -/
inductive ArgumentKind where
  /-- Not an option. -/
  | word
  /-- An option whose value is the next argument. -/
  | option (name : String)
  /-- An option with its value. -/
  | optionWith (name value : String)
  /-- Something that looks like an option and is none. -/
  | unknown
  deriving DecidableEq, Repr

/-- The part of a text before the first `=`, and the part behind it, if there is one. -/
def splitAtEquals (cs : List Char) : List Char × Option (List Char) :=
  (cs.takeWhile (· ≠ '='), (cs.dropWhile (· ≠ '=')).tail?)

/-- What an argument is, given the options there are. -/
def ArgumentKind.of (options : List OptionName) (argument : String) : ArgumentKind :=
  match argument.toList with
  | '-' :: '-' :: cs =>
    if cs.isEmpty then .word
    else
      let (name, value?) := splitAtEquals cs
      match options.find? (·.long = String.ofList name), value? with
      | some found, none => .option found.long
      | some found, some value => .optionWith found.long (String.ofList value)
      | none, _ => .unknown
  | '-' :: c :: cs =>
    match options.find? (·.short = c), cs with
    | some found, [] => .option found.long
    | some found, '=' :: value => .optionWith found.long (String.ofList value)
    | some found, value => .optionWith found.long (String.ofList value)
    | none, _ => .unknown
  | _ => .word

/-- Whether an argument can be the value of the option before it. -/
def isSeparateValue (argument : String) : Bool :=
  argument = "-" || argument.toList.head? ≠ some '-'

/-- Reads options up to the first word, and gives what is left.  An option that another option
follows, or nothing, or two dashes, has no value. -/
def readOptions (options : List OptionName) : List String → Option (Occurrences × List String)
  | [] => some ([], [])
  | argument :: arguments =>
    match ArgumentKind.of options argument with
    | .word => some ([], argument :: arguments)
    | .optionWith name value => do
      let (given, rest) ← readOptions options arguments
      return ((name, some value) :: given, rest)
    | .option name =>
      match arguments with
      | [] => some ([(name, none)], [])
      | value :: behind =>
        if isSeparateValue value then do
          let (given, rest) ← readOptions options behind
          return ((name, some value) :: given, rest)
        else do
          let (given, rest) ← readOptions options (value :: behind)
          return ((name, none) :: given, rest)
    | .unknown => none

/-- Reads options with a word before, between or behind them.  Behind two dashes the word may look
like an option. -/
def readOneWord (options : List OptionName) (arguments : List String) :
    Option (Occurrences × String) := do
  let (before, rest) ← readOptions options arguments
  match rest with
  | ["--", word] => return (before, word)
  | "--" :: _ => none
  | word :: rest => do
    let (behind, rest) ← readOptions options rest
    if rest = [] || rest = ["--"] then return (before ++ behind, word) else none
  | [] => none

namespace Occurrences

variable {α : Type}

/-- What was given each time an option occurs. -/
def named (given : Occurrences) (name : String) : List (Option String) :=
  (given.filter fun occurrence => occurrence.1 = name).map (·.2)

/-- Reads what was given for one occurrence of an option. -/
def readGiven (read : String → Option α) : Option String → Option (Option α)
  | none => some none
  | some text => (read text).map some

/-- What an option says, if it is given at all; there is no answer if that makes no sense.  Every
value is read, the last occurrence counts, and it must have a value. -/
def value? (given : Occurrences) (name : String) (read : String → Option α) :
    Option (Option α) := do
  let values ← (given.named name).mapM (readGiven read)
  match values.getLast? with
  | none => return none
  | some value => return some (← value)

end Occurrences

end Bindery.CommandLine
