/-!
# Requests on the command line

The words of a command line, read as a command with its options. A valued option takes what is
attached to it or else the next word, each option stands at most once, and what cannot be read is a
usage error.
-/
namespace ApiDocs.CommandLine

/-- Where the facts and the configuration come from. -/
structure SourceOptions where
  facts : String
  config : Option String
  service : Option String
  deriving DecidableEq, Repr

inductive Command where
  /-- Write every document. -/
  | generate (source : SourceOptions) (output : String) (previous publishFolder : Option String)
  /-- Render the OpenAPI document. -/
  | openApi (source : SourceOptions) (output : Option String)
  /-- Render the collection and the environments. -/
  | collection (source : SourceOptions) (output : String) (previous publishFolder : Option String)
  /-- Put the bundle together again. -/
  | bundle (config service : Option String) (output : String)
  /-- Show what would be extracted. -/
  | inspect (source : SourceOptions)
  deriving DecidableEq, Repr

structure Request where
  command : Command
  verbose : Bool
  deriving DecidableEq, Repr

/-- Why there is no command to carry out. -/
inductive NoRequest where
  | help
  | version
  | usage
  deriving DecidableEq, Repr

/-- What an option takes. -/
inductive Kind where
  | flag
  /-- Any text. -/
  | text
  /-- A text that is not empty. -/
  | path
  | help
  | version
  deriving DecidableEq, Repr

structure OptionForm where
  word : String
  letter : Option Char
  kind : Kind
  deriving DecidableEq, Repr

namespace OptionForm

def verbose : OptionForm := ⟨"verbose", some 'v', .flag⟩

def help : OptionForm := ⟨"help", some 'h', .help⟩

def version : OptionForm := ⟨"version", some 'V', .version⟩

def config : OptionForm := ⟨"config", some 'c', .path⟩

def service : OptionForm := ⟨"service", none, .text⟩

def output : OptionForm := ⟨"output", some 'o', .path⟩

def sourceForms : List OptionForm := [⟨"facts", some 'f', .path⟩, config, service]

def publishingForms : List OptionForm :=
  [output, ⟨"previous", none, .path⟩, ⟨"publish-dir", none, .path⟩]

end OptionForm

/-- The options that were given, by word. -/
abbrev Given := List (String × String)

/-- Takes in an option with its value. -/
def Given.add (given : Given) (form : OptionForm) (value : String) : Except NoRequest Given :=
  if (given.lookup form.word).isSome then .error .usage
  else if form.kind = .path ∧ value.isEmpty then .error .usage
  else .ok ((form.word, value) :: given)

/-- What is read of a word: the options so far, and an option whose value comes next. -/
abbrev Taken := Except NoRequest (Given × Option OptionForm)

/-- An option without an attached value. -/
def bare (given : Given) (form : OptionForm) : Taken :=
  match form.kind with
  | .flag => (given.add form "").map fun given => (given, none)
  | .text | .path => .ok (given, some form)
  | .help => .error .help
  | .version => .error .version

/-- The letters after a single hyphen: flags, and at the end an option that may have the rest as its
value, also after an equals sign. -/
def readLetters (forms : List OptionForm) (given : Given) : List Char → Taken
  | [] => .ok (given, none)
  | c :: rest =>
    match forms.find? fun f => f.letter == some c with
    | none => .error .usage
    | some form =>
      if form.kind = .text ∨ form.kind = .path then
        match rest with
        | [] => .ok (given, some form)
        | '=' :: value => (given.add form (String.ofList value)).map fun given => (given, none)
        | value => (given.add form (String.ofList value)).map fun given => (given, none)
      else
        match bare given form with
        | .ok (given, _) => readLetters forms given rest
        | .error e => .error e

/-- The word after two hyphens, perhaps with a value after an equals sign. -/
def readWord (forms : List OptionForm) (given : Given) (cs : List Char) : Taken :=
  let word := String.ofList (cs.takeWhile (· != '='))
  match forms.find? fun f => f.word == word, cs.dropWhile (· != '=') with
  | none, _ => .error .usage
  | some form, [] => bare given form
  | some form, _ :: value =>
    if form.kind = .text ∨ form.kind = .path then
      (given.add form (String.ofList value)).map fun given => (given, none)
    else .error .usage

/-- Reads words as options. With `pending`, its value comes first. Two hyphens end the options. The
words from the first one that is no option are left. -/
def readOptions (forms : List OptionForm) :
    Given → Option OptionForm → List String → Except NoRequest (Given × List String)
  | given, none, [] => .ok (given, [])
  | _, some _, [] => .error .usage
  | given, pending, arg :: rest =>
    match pending, arg.toList with
    | some _, '-' :: _ :: _ => .error .usage
    | some form, _ =>
      match given.add form arg with
      | .ok given => readOptions forms given none rest
      | .error e => .error e
    | none, ['-', '-'] => if rest.isEmpty then .ok (given, []) else .error .usage
    | none, '-' :: '-' :: cs =>
      match readWord forms given cs with
      | .ok (given, pending) => readOptions forms given pending rest
      | .error e => .error e
    | none, '-' :: c :: cs =>
      match readLetters forms given (c :: cs) with
      | .ok (given, pending) => readOptions forms given pending rest
      | .error e => .error e
    | none, _ => .ok (given, arg :: rest)

/-- Reads all words as options. -/
def readAll (forms : List OptionForm) (args : List String) : Except NoRequest Given :=
  match readOptions (forms ++ [.verbose, .help]) [] none args with
  | .ok (given, []) => .ok given
  | .ok _ => .error .usage
  | .error e => .error e

def defaultOutput : String := "./output"

def SourceOptions.ofGiven (given : Given) : Except NoRequest SourceOptions :=
  match given.lookup "facts" with
  | some facts => .ok ⟨facts, given.lookup "config", given.lookup "service"⟩
  | none => .error .usage

/-- The names of the commands. -/
def commandNames : List String :=
  ["generate", "openapi", "postman", "bundle", "inspect", "help"]

/-- A command by name, with its words. -/
def Request.ofCommand (verbose : Bool) (name : String) (args : List String) :
    Except NoRequest Request := do
  let request (given : Given) (command : Command) : Request :=
    ⟨command, verbose || (given.lookup "verbose").isSome⟩
  match name with
  | "generate" =>
    let given ← readAll (OptionForm.sourceForms ++ OptionForm.publishingForms) args
    return request given (.generate (← SourceOptions.ofGiven given)
      ((given.lookup "output").getD defaultOutput) (given.lookup "previous")
      (given.lookup "publish-dir"))
  | "openapi" =>
    let given ← readAll (OptionForm.sourceForms ++ [.output]) args
    return request given (.openApi (← SourceOptions.ofGiven given) (given.lookup "output"))
  | "postman" =>
    let given ← readAll (OptionForm.sourceForms ++ OptionForm.publishingForms) args
    return request given (.collection (← SourceOptions.ofGiven given)
      ((given.lookup "output").getD defaultOutput) (given.lookup "previous")
      (given.lookup "publish-dir"))
  | "bundle" =>
    let given ← readAll [.config, .service, .output] args
    let config := given.lookup "config"
    let service := given.lookup "service"
    if config.isNone && service.isNone then .error .usage
    else return request given (.bundle config service ((given.lookup "output").getD defaultOutput))
  | "inspect" =>
    let given ← readAll OptionForm.sourceForms args
    return request given (.inspect (← SourceOptions.ofGiven given))
  | "help" =>
    match args with
    | [] => .error .help
    | [name] => .error (if commandNames.contains name then .help else .usage)
    | _ => .error .usage
  | _ => .error .usage

/-- The request that the words of a command line make. -/
def Request.ofArguments (args : List String) : Except NoRequest Request :=
  match readOptions [.verbose, .help, .version] [] none args with
  | .ok (given, name :: rest) => ofCommand (given.lookup "verbose").isSome name rest
  | .ok (_, []) => .error .usage
  | .error e => .error e

end ApiDocs.CommandLine
