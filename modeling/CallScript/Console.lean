import CallScript.Expr.Json
import CallScript.Prelude
import CallScript.Text.Cluster.Basic

/-!
# The console

What the command line does, as functions from texts to texts: running a whole program, and a
session that evaluates one line after the other in one scope. A line is a command, a tree in JSON
if it starts with a brace, or else a program. Both work within a bound on evaluation and have no
report if an evaluation reaches it.
-/

namespace CallScript.Console

/-- What a run of the command line leaves behind. -/
structure Report where
  output : String := ""
  errors : String := ""
  status : Nat := 0

def unlines (lines : List String) : String :=
  String.join (lines.map (· ++ "\n"))

/-- The lines that a run has printed, given the store before it and the one after it. -/
def printedLines (before after : Store) : List String :=
  (after.printed.toList.drop before.printed.size).map Value.display

/-! ## Whole programs -/

/-- Runs a program in a fresh world. Its value is not shown. -/
def runProgram (fuel : Nat) (source : String) : Option Report :=
  let (global, world) := World.newGlobal {}
  (world.run fuel source global).map fun (result, after) =>
    let output := unlines (printedLines world.store after.store)
    match result with
    | .ok _ => { output := output }
    | .error e => { output := output, errors := unlines [e.message], status := 1 }

/-- Runs a program file, given its content, if there is such a file. -/
def runFile (fuel : Nat) (path : String) (content? : Option ByteArray) : Option Report :=
  let unreadable (reason : String) : Report :=
    { errors := unlines ["Cannot read " ++ path ++ ": " ++ reason], status := 1 }
  match content? with
  | none => some (unreadable "No such file or directory (os error 2)")
  | some content =>
    match String.fromUTF8? content with
    | none => some (unreadable "stream did not contain valid UTF-8")
    | some source => runProgram fuel source

/-! ## Sessions -/

structure Session where
  world : World
  -- The scope in which lines are evaluated.
  scope : ScopeId
  showTree : Bool := false
  showJson : Bool := false

/-- A session that starts: a scope inside a fresh prelude. -/
def Session.start : Session :=
  let (global, world) := World.newGlobal {}
  let (scope, world) := world.newChild global
  { world := world, scope := scope }

def banner : List String :=
  ["Egg - a tiny expression language",
    "Enter expressions like: +(1, 2)",
    "Enter JSON syntax trees like: \x7b\"type\":\"word\",\"name\":\"true\"\x7d",
    "Type :help for more commands, or Ctrl+C to exit.",
    ""]

def farewell : List String :=
  ["Goodbye!"]

def help : List String :=
  ["Egg Interpreter:",
    "  :help  - Show this help message",
    "  :env   - Show current environment bindings",
    "  :ast   - Toggle display of the parsed syntax tree",
    "  :json  - Toggle display of the syntax tree as JSON",
    "  :quit  - Exit the interpreter",
    "  :exit  - Exit the interpreter",
    "  Ctrl+C - Exit the interpreter",
    "",
    "Syntax:",
    "  Numbers: 42       Strings: \"text\"      Words: x, +, total",
    "  Calls: op(arg, arg, ...), chainable as f(1)(2)",
    "  Comments: # to end of line",
    "",
    "Special forms:",
    "  if(cond, then, else)   while(cond, body)   do(expr, ...)",
    "  define(name, value)    set(name, value)    fun(param, ..., body)",
    "",
    "Examples:",
    "  define(plusOne, fun(a, +(a, 1)))",
    "  plusOne(10)",
    "  length(array(1, 2, 3))",
    ""]

/-! ### Listing the bindings -/

def column (name : String) : String :=
  "  " ++ name ++ .ofList (List.replicate (15 - name.length) ' ')

def columns : List String → List String
  | a :: b :: c :: d :: rest => String.join ([a, b, c, d].map column) :: columns rest
  | [] => []
  | names => [String.join (names.map column)]

def isBuiltin : Value → Bool
  | .builtin _ _ => true
  | _ => false

/-- The lines that list bindings: the builtins by name, then all other values. -/
def bindingLines (bindings : Bindings Value) : List String :=
  let builtins := bindings.entries.filter fun entry => isBuiltin entry.2
  let others := bindings.entries.filter fun entry => !isBuiltin entry.2
  if bindings.entries.isEmpty then ["Environment is empty."]
  else
    ["Environment bindings (" ++ toString bindings.entries.length ++ " total):", ""]
      ++ (if builtins.isEmpty then []
        else ["Built-in functions (" ++ toString builtins.length ++ "):"]
          ++ columns (builtins.map (·.1)) ++ [""])
      ++ (if others.isEmpty then []
        else ["Values (" ++ toString others.length ++ "):"]
          ++ others.map fun entry => "  " ++ entry.1 ++ " = " ++ entry.2.display)

/-! ### Lines -/

inductive Request where
  | nothing
  | help
  | listBindings
  | toggleTree
  | toggleJson
  | quit
  | program (text : String)
  | json (text : String)
deriving DecidableEq, Repr

/-- What a line asks for; white space around it does not count. -/
def Request.ofLine (line : String) : Request :=
  match String.ofList (Text.trimBlank line.toList) with
  | "" => .nothing
  | ":help" => .help
  | ":env" => .listBindings
  | ":ast" => .toggleTree
  | ":json" => .toggleJson
  | ":quit" => .quit
  | ":exit" => .quit
  | text => if text.toList.head? = some '\x7b' then .json text else .program text

def onOff (switch : Bool) : String :=
  if switch then "on" else "off"

namespace Session

/-- Evaluates a tree and shows its value, after the views of the tree that are switched on. -/
def evaluate (fuel : Nat) (session : Session) (e : Expr) : Option (Session × List String) :=
  (session.world.eval fuel e session.scope).map fun (result, world) =>
    let views :=
      (if session.showTree then ["→ " ++ e.tagged] else [])
        ++ (if session.showJson then ["→ " ++ e.toJsonText] else [])
    let shown :=
      match result with
      | .ok v => v.display
      | .error e => "Error: " ++ e.message
    ({ session with world := world },
      views ++ printedLines session.world.store world.store ++ [shown])

/-- Evaluates what has been read from a line, or shows why nothing could be read. -/
def evaluateRead (fuel : Nat) (session : Session) (read : Except SyntaxError Expr) :
    Option (Session × List String) :=
  match read with
  | .ok e => session.evaluate fuel e
  | .error e => some (session, ["Error: " ++ (Error.ofSyntax e).message])

/-- Does what a line asks for: the session after it and the lines of output. -/
def answer (fuel : Nat) (session : Session) : Request → Option (Session × List String)
  | .nothing => some (session, [])
  | .help => some (session, Console.help)
  | .listBindings => some (session, bindingLines (session.world.store.visible session.scope))
  | .toggleTree =>
    let switch := !session.showTree
    some ({ session with showTree := switch }, ["Syntax tree display " ++ onOff switch])
  | .toggleJson =>
    let switch := !session.showJson
    some ({ session with showJson := switch }, ["JSON syntax tree display " ++ onOff switch])
  | .quit => some (session, [])
  | .program text => session.evaluateRead fuel (Source.parse text)
  | .json text => session.evaluateRead fuel (Expr.ofJsonText text)

/-- Answers lines up to one that quits, or all of them. -/
def answerAll (fuel : Nat) (session : Session) : List String → Option (Session × List String)
  | [] => some (session, [])
  | line :: rest =>
    match Request.ofLine line with
    | .quit => some (session, [])
    | request => do
      let (next, lines) ← session.answer fuel request
      let (last, more) ← next.answerAll fuel rest
      return (last, lines ++ more)

end Session

def runSession (fuel : Nat) (lines : List String) : Option Report :=
  (Session.start.answerAll fuel lines).map fun (_, output) =>
    { output := unlines (banner ++ output ++ farewell) }

/-- A line as it counts, with its backspaces applied. -/
def edited (line : String) : String :=
  .ofList (Text.applyBackspaces line.toList)

/-- The lines of an input as they count. Each ends with a line feed; the last one may lack it. -/
def linesOf (input : String) : List String :=
  let pieces := input.splitOn "\n"
  let lines := if pieces.getLast? = some "" then pieces.dropLast else pieces
  lines.map edited

end CallScript.Console
