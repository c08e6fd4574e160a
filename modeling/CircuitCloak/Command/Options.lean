import CircuitCloak.Command.Value

/-! Words of a command line: options by their long or short names, with the values that follow them,
and positional words. The value that follows an option is examined when the next option or
positional word comes, so that the words of a command are read before a value in front of it. -/

namespace CircuitCloak.Command

structure OptionForm where
  long : String
  short : Option Char := none
  /-- What the value is, if the option takes one. -/
  value : Option ValueForm := none
  /-- It may come more than once. -/
  mayRepeat : Bool := false
  deriving DecidableEq, Repr

inductive Stop where
  | usage
  | help
  | version
  deriving DecidableEq, Repr

structure Words where
  options : List (String × String) := []
  positionals : List String := []
  /-- The last option, with the value that followed it, until it is examined. -/
  pending : Option (OptionForm × String) := none
  /-- What follows the first positional word, where that one is a command. -/
  rest : List String := []
  deriving DecidableEq, Repr

structure Grammar where
  options : List OptionForm
  /-- What the positional words are. -/
  positionals : List ValueForm := []
  /-- Instead of positional words there is a command, which reads the words after it. -/
  hasCommands : Bool := false
  /-- A version can be asked for. -/
  hasVersion : Bool := false

namespace Words

def isGiven (words : Words) (option : String) : Bool := (words.options.lookup option).isSome

def addOption (words : Words) (form : OptionForm) (value : String) : Except Stop Words :=
  if words.isGiven form.long && !form.mayRepeat then .error .usage
  else if form.value.any fun expected => !expected.accepts value then .error .usage
  else .ok { words with options := words.options ++ [(form.long, value)] }

/-- Examines the pending option. -/
def settle (words : Words) : Except Stop Words :=
  match words.pending with
  | some (form, value) => { words with pending := none }.addOption form value
  | none => .ok words

/-- Notes an option, after the pending one. -/
def giveOption (words : Words) (form : OptionForm) (value : String) : Except Stop Words := do
  (← words.settle).addOption form value

/-- Stops, after the pending option. -/
def stopFor {α : Type} (words : Words) (stop : Stop) : Except Stop α := do
  let _ ← words.settle
  .error stop

end Words

namespace Grammar

def long? (grammar : Grammar) (name : String) : Option OptionForm :=
  grammar.options.find? (·.long == name)

def short? (grammar : Grammar) (letter : Char) : Option OptionForm :=
  grammar.options.find? (·.short == some letter)

/-- A word that is no option: it does not begin with a dash, or is nothing else. -/
def isValue (word : List Char) : Bool := word.head? != some '-' || word == ['-']

/-- The name and the value of a long option such as `name=value`. -/
def splitLong (word : List Char) : String × Option String :=
  let (name, rest) := word.span (· != '=')
  (String.ofList name, match rest with
    | [] => none
    | _ :: value => some (String.ofList value))

/-- What is left to read after an option. -/
inductive Next where
  | done (words : Words)
  /-- The next word is the option's value. -/
  | value (form : OptionForm) (words : Words)

def readLong (grammar : Grammar) (words : Words) (word : List Char) : Except Stop Next := do
  let (name, value) := splitLong word
  match grammar.long? name, value with
  | some form, some value =>
    if form.value.isSome then return .done (← words.giveOption form value) else .error .usage
  | some form, none =>
    if form.value.isSome then return .value form (← words.settle)
    else return .done (← words.giveOption form "")
  | none, value =>
    if value.isSome then .error .usage
    else if name == "help" then words.stopFor .help
    else if name == "version" && grammar.hasVersion then words.stopFor .version
    else .error .usage

/-- A value behind a letter, which an equals sign may precede. -/
def attached : List Char → String
  | '=' :: value => String.ofList value
  | value => String.ofList value

def readLetters (grammar : Grammar) (words : Words) : List Char → Except Stop Next
  | [] => .ok (.done words)
  | letter :: rest =>
    match grammar.short? letter with
    | some form =>
      if form.value.isSome then
        if rest.isEmpty then words.settle.map (.value form)
        else (words.giveOption form (attached rest)).map .done
      else do
        let words ← words.giveOption form ""
        grammar.readLetters words rest
    | none =>
      if letter == 'h' then words.stopFor .help
      else if letter == 'V' && grammar.hasVersion then words.stopFor .version
      else .error .usage

/-- Notes a positional word of the form that is due. -/
def addPositional (grammar : Grammar) (words : Words) (word : String) : Except Stop Words := do
  let words ← words.settle
  match grammar.positionals[words.positionals.length]? with
  | some form =>
    if form.accepts word then
      return { words with positionals := words.positionals ++ [word] }
    else .error .usage
  | none => .error .usage

/-- Reads words from left to right. The option before a command stays pending. -/
def read (grammar : Grammar) (words : Words) : List String → Except Stop Words
  | [] => words.settle
  | word :: more =>
    match word.toList with
    | ['-', '-'] => do (← more.foldlM grammar.addPositional words).settle
    | characters =>
      if isValue characters then
        if grammar.hasCommands then .ok { words with positionals := [word], rest := more }
        else match grammar.addPositional words word with
          | .ok words => grammar.read words more
          | .error stop => .error stop
      else
        let next := match characters with
          | '-' :: '-' :: name => grammar.readLong words name
          | _ => grammar.readLetters words characters.tail
        match next, more with
        | .error stop, _ => .error stop
        | .ok (.done words), more => grammar.read words more
        | .ok (.value _ _), [] => .error .usage
        | .ok (.value form words), value :: more =>
          let words := { words with pending := some (form, value) }
          if isValue value.toList then grammar.read words more else .error .usage

end Grammar

end CircuitCloak.Command
