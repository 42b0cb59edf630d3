import LambdaTrace.Text.Find
import LambdaTrace.Text.Integer

/-!
# The arguments of the command line

The program takes at most one operand, the file to run, and a few options. An
option can be cut short as long as it stays the only one that starts so, its text
can follow in an argument of its own or after an equals sign, and the text of an
option of one letter can follow that letter at once. Two dashes are no text even
there: an option whose text they are is left without one
(`LambdaTrace.OptionText.nothing`).

Reading has two passes. `LambdaTrace.Argument.ofText` tells what each argument is,
whatever stands beside it; `LambdaTrace.CommandLine.readArguments` then takes them
in order. A negative number and an argument with a space in it are operands although
they start with a dash, and after the argument `--` everything is an operand.
-/

namespace LambdaTrace

/-- The options of the command line. -/
inductive CommandOption where
  | help
  | strategy
  | timeout
  | noPrelude
  | noResugar
  deriving DecidableEq

namespace CommandOption

/-- The full word for an option. -/
def name : CommandOption → String
  | .help => "--help"
  | .strategy => "--strategy"
  | .timeout => "--timeout"
  | .noPrelude => "--no-prelude"
  | .noResugar => "--no-resugar"

/-- The options as they are written. -/
def spellings : List (String × CommandOption) :=
  [("-h", .help), ("-s", .strategy), ("-t", .timeout)] ++
    [help, strategy, timeout, noPrelude, noResugar].map fun o => (o.name, o)

/-- The option that is written in full as a text. -/
def spelled? (text : List Char) : Option CommandOption :=
  (spellings.find? (·.1.toList == text)).map (·.2)

/-- The options written with a text as their beginning. -/
def abbreviated (text : List Char) : List CommandOption :=
  (spellings.filter (text.isPrefixOf ·.1.toList)).map (·.2)

/-- The option of one letter. -/
def ofLetter? (c : Char) : Option CommandOption :=
  spelled? ['-', c]

end CommandOption

/-- Why the arguments make no sense. -/
inductive ArgumentError where
  /-- The beginning of several options. -/
  | ambiguous (argument : String)
  /-- An option without the text that it needs. -/
  | missingText (o : CommandOption)
  /-- An option with a text that it does not take. -/
  | surplusText (o : CommandOption)
  /-- A number of steps that is no number. -/
  | notANumber (text : String)
  /-- An argument too many, or an option that does not exist. -/
  | unrecognized
  deriving DecidableEq

/-- What is said about arguments that make no sense. -/
def ArgumentError.message : ArgumentError → String
  | .ambiguous argument => argument ++ " could be short for several options"
  | .missingText o => o.name ++ " needs a text"
  | .surplusText o => o.name ++ " takes no text"
  | .notANumber text => "'" ++ text ++ "' is no number of steps"
  | .unrecognized => "there is an argument too many, or an option that does not exist"

/-- What follows an option in its own argument. -/
inductive Attachment where
  | nothing
  /-- A text that follows the letter of an option, at once or after an equals sign. -/
  | direct (text : List Char)
  /-- A text that follows the word for an option and an equals sign. -/
  | equals (text : List Char)
  deriving DecidableEq

/-- A text attached to an option as it is spelled, after an equals sign. -/
def Attachment.afterEquals (spelling text : List Char) : Attachment :=
  match spelling with
  | ['-', _] => .direct text
  | _ => .equals text

/-- What an argument is. -/
inductive Argument where
  | operand (text : String)
  /-- An option, with what is attached to it. -/
  | option (o : CommandOption) (attached : Attachment)
  /-- What looks like an option but is none. -/
  | unknown
  /-- The argument `--`. -/
  | separator
  deriving DecidableEq

namespace Argument

/-- Whether a text is a negative number, with or without a decimal point. It may end
with a line end. -/
def isNegativeNumber (s : List Char) : Bool :=
  let isDigit := fun c => (decimalDigit? c).isSome
  let s := if s.getLast? == some '\n' then s.dropLast else s
  match s with
  | '-' :: digits =>
    match digits.dropWhile isDigit with
    | [] => !digits.isEmpty
    | '.' :: places => !places.isEmpty && places.all isDigit
    | _ => false
  | _ => false

/-- The options that an argument can be short for, with what is attached. A single
dash is followed by one letter and the text attached to it. -/
def readings (s : List Char) : List Argument :=
  match s with
  | '-' :: '-' :: _ =>
    match cutAt? ['='] s with
    | some (word, text) => (CommandOption.abbreviated word).map fun o => .option o (.equals text)
    | none => (CommandOption.abbreviated s).map fun o => .option o .nothing
  | '-' :: c :: text => (CommandOption.ofLetter? c).toList.map fun o => .option o (.direct text)
  | _ => []

/-- The option with an equals sign and a text after it that an argument is. -/
def withEquals? (s : List Char) : Option Argument :=
  (cutAt? ['='] s).bind fun (word, text) =>
    (CommandOption.spelled? word).map fun o => .option o (.afterEquals word text)

/-- An argument that starts with a dash and is longer than that. -/
def ofDashed (s : List Char) : Except ArgumentError Argument :=
  match CommandOption.spelled? s with
  | some o => .ok (.option o .nothing)
  | none =>
    match withEquals? s with
    | some a => .ok a
    | none =>
      match readings s with
      | [a] => .ok a
      | [] =>
        .ok (if isNegativeNumber s || s.contains ' ' then .operand (String.ofList s) else .unknown)
      | _ :: _ :: _ => .error (.ambiguous (String.ofList s))

/-- **What an argument is,** seen alone. -/
def ofText (text : String) : Except ArgumentError Argument :=
  match text.toList with
  | '-' :: c :: s => ofDashed ('-' :: c :: s)
  | _ => .ok (.operand text)

/-- What the arguments are. After a separator all are operands. -/
def ofTexts : List String → Except ArgumentError (List Argument)
  | [] => .ok []
  | text :: texts =>
    if text == "--" then .ok (.separator :: texts.map .operand)
    else
      match ofText text with
      | .error e => .error e
      | .ok a => (ofTexts texts).map (a :: ·)

end Argument

/-- The text of an option. -/
inductive OptionText (α : Type) where
  | given (value : α)
  /-- There were two dashes in its place. -/
  | nothing
  deriving DecidableEq

/-- What the options ask for. -/
structure Request where
  strategy : Option (OptionText String)
  budget : Option (OptionText Int)
  prelude : Bool
  resugars : Bool
  deriving DecidableEq

/-- What the arguments ask for. -/
inductive Invocation where
  /-- To be told about the arguments. -/
  | help
  /-- To run a file. -/
  | file (path : String) (request : Request)
  /-- To run the shell. -/
  | shell (request : Request)
  deriving DecidableEq

namespace CommandLine

/-- How the program is called. -/
def usage : String :=
  "[--help] [--strategy NAME] [--timeout STEPS] [--no-prelude] [--no-resugar] [FILE]\n" ++
    "Runs a file of lambda terms, or the shell if no file is given."

/-- What is known after some of the arguments. -/
structure Reading where
  /-- The operand, if there is one. -/
  path : Option String
  /-- Whether no operand may follow. -/
  closed : Bool
  request : Request
  /-- Whether there was an argument that has no place. -/
  surplus : Bool

/-- What is known before the first argument. -/
def Reading.start : Reading :=
  ⟨none, false, ⟨none, none, true, true⟩, false⟩

/-- What the arguments ask for, once all of them are read. -/
def Reading.finish (r : Reading) : Except ArgumentError Invocation :=
  if r.surplus then .error .unrecognized
  else .ok (match r.path with
    | some path => .file path r.request
    | none => .shell r.request)

/-- The operand is taken, and none may follow. -/
def Reading.takePath (r : Reading) (path : Option String) : Reading :=
  { r with path, closed := true }

/-- Takes the text of an option. -/
def Reading.setText (r : Reading) (o : CommandOption) (text : String) :
    Except ArgumentError Reading :=
  match o with
  | .strategy =>
    let strategy := if text = "--" then .nothing else .given text
    .ok { r with request := { r.request with strategy := some strategy } }
  | .timeout =>
    if text = "--" then .ok { r with request := { r.request with budget := some .nothing } }
    else
      match integer? text with
      | some n => .ok { r with request := { r.request with budget := some (.given n) } }
      | none => .error (.notANumber text)
  | o => .error (.surplusText o)

/-- An option without a text. Whether an operand follows is of interest to the
options that need one. -/
inductive Bare where
  /-- The option is done. -/
  | done (r : Reading)
  /-- The option takes the next argument as its text. -/
  | needsText

/-- Takes an option that has no text attached; not the one for help. -/
def Reading.takeBare (r : Reading) : CommandOption → Bare
  | .noPrelude => .done { r with request := { r.request with prelude := false } }
  | .noResugar => .done { r with request := { r.request with resugars := false } }
  | _ => .needsText

/-- Whether help is given although a text is attached to its letter. Each character of
it has to be the letter of an option, up to one that takes the others for its text;
the last one may need a text, which the next argument has to be. -/
def helpWithLetters (next : List Argument) : List Char → Except ArgumentError Unit
  | [] => .error (.surplusText .help)
  | c :: s =>
    match CommandOption.ofLetter? c, s with
    | none, _ => .error (.surplusText .help)
    | some .help, [] => .ok ()
    | some .help, s => helpWithLetters next s
    | some o, [] =>
      match next with
      | .operand _ :: _ => .ok ()
      | _ => .error (.missingText o)
    | some _, _ => .ok ()

/-- Takes the arguments in turn. -/
def readFrom (r : Reading) : List Argument → Except ArgumentError Invocation
  | [] => r.finish
  | .unknown :: rest => readFrom { r with surplus := true } rest
  | .option .help .nothing :: _ => .ok .help
  | .option .help (.direct letters) :: rest =>
    (helpWithLetters rest letters).map fun () => .help
  | .option o (.direct text) :: rest | .option o (.equals text) :: rest =>
    match r.setText o (String.ofList text) with
    | .error e => .error e
    | .ok r => readFrom r rest
  | .option o .nothing :: rest =>
    match r.takeBare o, rest with
    | .done r, rest => readFrom r rest
    | .needsText, .operand text :: rest =>
      match r.setText o text with
      | .error e => .error e
      | .ok r => readFrom r rest
    | .needsText, _ => .error (.missingText o)
  | .operand path :: .separator :: rest =>
    readFrom (if r.closed then { r with surplus := true } else r.takePath (some path)) rest
  | .operand path :: rest =>
    readFrom (if r.closed then { r with surplus := true } else r.takePath (some path)) rest
  | .separator :: .operand path :: rest =>
    readFrom (if r.closed then { r with surplus := true } else r.takePath (some path)) rest
  | .separator :: rest =>
    readFrom (if r.closed then { r with surplus := true } else r.takePath none) rest

/-- **What the arguments ask for.** -/
def readArguments (arguments : List String) : Except ArgumentError Invocation :=
  match Argument.ofTexts arguments with
  | .error e => .error e
  | .ok as => readFrom .start as

end CommandLine

end LambdaTrace
