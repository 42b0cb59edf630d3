import LambdaTrace.Text.Blank

/-!
# Commands of the shell

What is typed at the prompt is either a command, an empty line, or a statement. The
line is stripped first. Its longest run of ASCII letters, digits and underscores in
front is the name of a command if there is a command of that name; a question mark
in front stands for the command `help`, and an exclamation mark keeps the line from
being a command.
-/

namespace LambdaTrace

/-- The commands of the shell. -/
inductive Command where
  | strategy
  | timeout
  | macros
  | guess
  | tree
  | help
  | endOfInput
  | exit
  deriving DecidableEq

namespace Command

/-- The commands there are. -/
def all : List Command :=
  [.strategy, .timeout, .macros, .guess, .tree, .help, .endOfInput, .exit]

/-- The word a command is called by. -/
def name : Command → String
  | .strategy => "strategy"
  | .timeout => "timeout"
  | .macros => "macros"
  | .guess => "guess"
  | .tree => "tree"
  | .help => "help"
  | .endOfInput => "EOF"
  | .exit => "exit"

/-- What is said about a command when help on it is asked for. -/
def description : Command → String
  | .strategy => "strategy [cbv|cbn|normal|applicative]: shows or sets the evaluation strategy."
  | .timeout => "timeout [steps]: shows or sets how many steps a reduction may take."
  | .macros => "macros: lists the defined macros, each one after the macros it depends on."
  | .guess =>
    "guess <λ-term>: checks a guess of the next step of the last reduced term " ++
      "('...' matches anything)."
  | .tree => "tree <λ-term>: displays the syntax tree of a λ-term."
  | .help => "Doesnt return docs, but rather a short intro."
  | .endOfInput => "Exits evaluator."
  | .exit => "Exits evaluator."

/-- The command of a name. -/
def ofName? (word : String) : Option Command :=
  all.find? (·.name == word)

/-- What is said when help on no particular command is asked for. -/
def introduction : String :=
  "Welcome to lambdalab!\n\n" ++
    "Type a λ-term to watch it reduce step by step, e.g. '(λx. x) (λy. y)'. Type '\\' \n" ++
    "instead of 'λ' if you like. Uppercase names are macros: define one with \n" ++
    "'I ≜ λx. x' (or 'I := λx. x') and use it as 'I y'. Try 'PLUS ONE ONE'.\n\n" ++
    "Commands: strategy, timeout, macros, guess, tree, exit. Type 'help <command>' \n" ++
    "for more. A line starting with a command name runs that command, so write a term \n" ++
    "like 'exit y' with parentheses: '(exit y)'."

/-- What is said when help is asked for: on the command of a name, or in general. -/
def helpOn (name : String) : String :=
  if name.isEmpty then introduction
  else match ofName? name with
    | some c => c.description
    | none => "*** No help on " ++ name

end Command

/-- What a line at the prompt is. -/
inductive Input where
  /-- Nothing. -/
  | nothing
  /-- A command with what follows its name. -/
  | command (c : Command) (argument : String)
  /-- Part of a statement. -/
  | statement (line : String)
  deriving DecidableEq

namespace Input

/-- A character of the name of a command. -/
def isNameChar (c : Char) : Bool :=
  c.isAlphanum || c == '_'

/-- A stripped line that does not start with a question mark or an exclamation mark. -/
def ofStripped (s : List Char) : Input :=
  match Command.ofName? (String.ofList (s.takeWhile isNameChar)) with
  | some c => .command c (String.ofList (stripChars (s.dropWhile isNameChar)))
  | none => .statement (String.ofList s)

/-- **What a line at the prompt is.** -/
def ofLine (line : String) : Input :=
  match stripChars line.toList with
  | [] => .nothing
  | '?' :: s => .command .help (String.ofList (stripChars s))
  | '!' :: s => .statement (String.ofList ('!' :: s))
  | s => ofStripped s

end Input

end LambdaTrace
