/-
OperatorGrammar/CommandLine/Arguments.lean

Taking a command line apart.

Design.  After the command the arguments are read one by one.  An option whose
value is not attached to it is left pending.  It is settled, and its value
checked, only when the next known argument or the end comes, so that an unknown
argument right behind it is reported first.  That an expression and a file
exclude each other is checked last.
-/
import OperatorGrammar.CommandLine.GrammarFlags

namespace OperatorGrammar

/-- What is asked for. -/
inductive Command where
  /-- Show the tree. -/
  | parse
  /-- Say only whether there is one. -/
  | check
  deriving DecidableEq, Repr

/-- When diagnostics are coloured. -/
inductive ColourChoice where
  /-- On a terminal. -/
  | auto
  | always
  | never
  deriving DecidableEq, Repr

/-- Why a command line is refused. -/
inductive UsageError where
  /-- No arguments at all. -/
  | noArguments
  | helpRequested
  | invalidSubcommand
  | unknownArgument
  /-- Two arguments that exclude each other, or one given twice. -/
  | argumentConflict
  /-- A value that cannot be read. -/
  | valueValidation
  /-- A value that is no choice, or missing. -/
  | invalidValue
  /-- A value for a switch. -/
  | tooManyValues
  deriving DecidableEq, Repr

/-- A command line taken apart. -/
structure Arguments where
  command : Command
  expr : Option String
  file : Option String
  grammar : GrammarFlags
  colour : ColourChoice
  json : Bool
  deriving DecidableEq, Repr

namespace Arguments

/-- The options that take a value. -/
inductive Valued where
  | file
  | binaryOp
  | unaryOp
  | identifierChar
  | plugin
  | colour
  deriving DecidableEq, Repr

/-- The options that take none. -/
inductive Switch where
  | noDefaults
  | json
  | help
  deriving DecidableEq, Repr

/-- An option by its long name. -/
def ofLong? (command : Command) (name : String) : Option (Valued ⊕ Switch) :=
  if name = "file" then some (.inl .file)
  else if name = "binary-op" then some (.inl .binaryOp)
  else if name = "unary-op" then some (.inl .unaryOp)
  else if name = "ident-char" then some (.inl .identifierChar)
  else if name = "plugin" then some (.inl .plugin)
  else if name = "color" then some (.inl .colour)
  else if name = "no-defaults" then some (.inr .noDefaults)
  else if name = "json" ∧ command = .parse then some (.inr .json)
  else if name = "help" then some (.inr .help)
  else none

/-- An option by its letter. -/
def ofShort? (letter : Char) : Option (Valued ⊕ Switch) :=
  if letter = 'f' then some (.inl .file)
  else if letter = 'h' then some (.inr .help)
  else none

/-- The outer form of an argument. -/
inductive Form where
  /-- Only values follow. -/
  | escape
  | long (name : String) (attached : Option String)
  | short (letter : Char) (attached : Option String)
  | value

/-- The outer form of an argument.  A value attached to a letter may have an equals
sign in front; a dash alone is a value. -/
def formOf (argument : String) : Form :=
  match argument.toList with
  | ['-', '-'] => .escape
  | '-' :: '-' :: rest =>
    let name := String.ofList (rest.takeWhile (· ≠ '='))
    match rest.dropWhile (· ≠ '=') with
    | [] => .long name none
    | _ :: value => .long name (some (String.ofList value))
  | '-' :: letter :: rest =>
    match rest with
    | [] => .short letter none
    | '=' :: value => .short letter (some (String.ofList value))
    | value => .short letter (some (String.ofList value))
  | _ => .value

/-- What was read so far. -/
structure Progress where
  expr : Option String
  file : Option String
  grammar : GrammarFlags
  colour : Option ColourChoice
  json : Bool
  /-- An option that is not settled yet, and its value if that was met. -/
  pending : Option (Valued × Option String)

/-- Nothing read. -/
def Progress.start : Progress := ⟨none, none, .none, none, false, none⟩

namespace Progress

/-- Changes the flags of the grammar. -/
def mapGrammar (p : Progress) (f : GrammarFlags → GrammarFlags) : Progress :=
  { p with grammar := f p.grammar }

/-- Takes the value of an option. -/
def accept (p : Progress) (value : String) : Valued → Except UsageError Progress
  | .file =>
    if p.file.isSome then .error .argumentConflict
    else if value = "" then .error .invalidValue
    else .ok { p with file := some value }
  | .binaryOp =>
    match OperatorSpec.ofString? value with
    | .ok spec => .ok (p.mapGrammar fun g => { g with binaryOps := g.binaryOps ++ [spec] })
    | .error _ => .error .valueValidation
  | .unaryOp => .ok (p.mapGrammar fun g => { g with unaryOps := g.unaryOps ++ [value] })
  | .identifierChar =>
    match value.toList with
    | [c] => .ok (p.mapGrammar fun g => { g with identifierChars := g.identifierChars ++ [c] })
    | _ => .error .valueValidation
  | .plugin =>
    if (Plugin.bundled? value).isSome then
      .ok (p.mapGrammar fun g => { g with plugins := g.plugins ++ [value] })
    else .error .invalidValue
  | .colour =>
    if p.colour.isSome then .error .argumentConflict
    else if value = "auto" then .ok { p with colour := some .auto }
    else if value = "always" then .ok { p with colour := some .always }
    else if value = "never" then .ok { p with colour := some .never }
    else .error .invalidValue

/-- Settles the pending option. -/
def settle (p : Progress) : Except UsageError Progress :=
  match p.pending with
  | none => .ok p
  | some (_, none) => .error .invalidValue
  | some (option, some value) => { p with pending := none }.accept value option

/-- Takes a switch. -/
def switch (p : Progress) : Switch → Except UsageError Progress
  | .noDefaults =>
    if p.grammar.noDefaults then .error .argumentConflict
    else .ok (p.mapGrammar fun g => { g with noDefaults := true })
  | .json => if p.json then .error .argumentConflict else .ok { p with json := true }
  | .help => .error .helpRequested

/-- Takes an option of either sort with the value attached to it. -/
def option (p : Progress) (attached : Option String) : Valued ⊕ Switch → Except UsageError Progress
  | .inl valued => do
    let p ← p.settle
    match attached with
    | some value => p.accept value valued
    | none => pure { p with pending := some (valued, none) }
  | .inr switch =>
    match attached with
    | some _ => .error .tooManyValues
    | none => do
      let p ← p.settle
      p.switch switch

/-- Takes a value that belongs to no option. -/
def positional (p : Progress) (value : String) : Except UsageError Progress :=
  if p.expr.isSome then .error .unknownArgument
  else do
    let p ← p.settle
    pure { p with expr := some value }

/-- Takes a letter.  A letter without a value may have further letters behind it. -/
def letters (p : Progress) (letter : Char) (attached : Option String) : Except UsageError Progress :=
  match ofShort? letter with
  | none => .error .unknownArgument
  | some (.inl valued) => p.option attached (.inl valued)
  | some (.inr switch) => p.option none (.inr switch)

end Progress

/-- Reads the arguments after the command. -/
def walk (command : Command) : List String → Bool → Progress → Except UsageError Progress
  | [], _, p => p.settle
  | argument :: arguments, true, p => do
    walk command arguments true (← p.positional argument)
  | argument :: arguments, false, p =>
    match formOf argument with
    | .escape => walk command arguments true p
    | .long name attached =>
      match ofLong? command name with
      | none => .error .unknownArgument
      | some found => do walk command arguments false (← p.option attached found)
    | .short letter attached => do
      walk command arguments false (← p.letters letter attached)
    | .value =>
      match p.pending with
      | some (option, none) =>
        walk command arguments false { p with pending := some (option, some argument) }
      | _ => do walk command arguments false (← p.positional argument)

/-- Reads the arguments of a command. -/
def ofCommand (command : Command) (arguments : List String) : Except UsageError Arguments := do
  let p ← walk command arguments false .start
  if p.expr.isSome && p.file.isSome then .error .argumentConflict
  else pure ⟨command, p.expr, p.file, p.grammar, p.colour.getD .auto, p.json⟩

/-- The command of a name. -/
def command? (name : String) : Option Command :=
  if name = "parse" then some .parse
  else if name = "check" then some .check
  else none

/-- What asking for help about a command answers. -/
def help : List String → UsageError
  | [] => .helpRequested
  | name :: _ => if (command? name).isSome || name = "help" then .helpRequested else .invalidSubcommand

/-- Takes a command line apart. -/
def ofList : List String → Except UsageError Arguments
  | [] => .error .noArguments
  | name :: arguments =>
    match command? name with
    | some command => ofCommand command arguments
    | none =>
      if name = "help" then .error (help arguments)
      else match formOf name with
        | .escape =>
          match arguments with
          | [] => .error .noArguments
          | next :: _ =>
            .error (if (command? next).isSome || next = "help" then .unknownArgument
              else .invalidSubcommand)
        | .long "help" none => .error .helpRequested
        | .long "help" (some _) => .error .tooManyValues
        | .short 'h' _ => .error .helpRequested
        | .long _ _ => .error .unknownArgument
        | .short _ _ => .error .unknownArgument
        | .value => .error .invalidSubcommand

end Arguments

end OperatorGrammar
