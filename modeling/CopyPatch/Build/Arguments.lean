import CopyPatch.Build.Config

/-! The command line: three positional arguments and a few options, which may stand anywhere. What
is wrong, or asks for help or the version, decides as soon as it is met. -/
namespace CopyPatch

structure Arguments where
  positional : List String := []
  jobs : Option Nat := none
  seed : Option Nat := none
  force : Bool := false
  deriving DecidableEq, Repr

/-- Why no build is run. -/
inductive Dismissal where
  | usage
  | help
  | version
  deriving DecidableEq, Repr

namespace Arguments

/-- A decimal number of 64 bits, a plus in front allowed. -/
def number? (text : String) : Option Nat :=
  let digits := match text.toList with
    | '+' :: rest => rest
    | cs => cs
  (Text.decimal? digits).filter (· < 2 ^ 64)

/-- The options that take a number. -/
inductive Setting where
  | jobs
  | seed
  deriving DecidableEq, Repr

/-- Set an option, which may be given once. -/
def set (arguments : Arguments) (setting : Setting) (text : String) :
    Except Dismissal Arguments :=
  match number? text, setting with
  | none, _ => .error .usage
  | some n, .jobs =>
    if arguments.jobs.isSome then .error .usage else .ok { arguments with jobs := some n }
  | some n, .seed =>
    if arguments.seed.isSome then .error .usage else .ok { arguments with seed := some n }

/-- Take a positional argument. There are three, and the last is not empty. -/
def place (arguments : Arguments) (text : String) : Except Dismissal Arguments :=
  if arguments.positional.length = 3 || (arguments.positional.length = 2 && text = "") then
    .error .usage
  else .ok { arguments with positional := arguments.positional ++ [text] }

/-- Whether an argument is an option and not a value. -/
def isOption (text : String) : Bool := text.toList.head? = some '-' && text ≠ "-"

/-- Set an option to the value attached to it or else to the next argument. The flag tells whether
the next argument was used. -/
def setFrom (arguments : Arguments) (setting : Setting) (attached next : Option String) :
    Except Dismissal (Arguments × Bool) :=
  match attached, next with
  | some text, _ => (arguments.set setting text).map (·, false)
  | none, some text =>
    if isOption text then .error .usage else (arguments.set setting text).map (·, true)
  | none, none => .error .usage

/-- A long option, after its two strokes. -/
def long (arguments : Arguments) (text : List Char) (next : Option String) :
    Except Dismissal (Arguments × Bool) :=
  let (name, rest) := text.span (· ≠ '=')
  let attached := rest.head?.map fun _ => String.ofList rest.tail
  let name := String.ofList name
  if name = "jobs" then arguments.setFrom .jobs attached next
  else if name = "seed" then arguments.setFrom .seed attached next
  else if attached.isSome then .error .usage
  else if name = "force" then
    if arguments.force then .error .usage else .ok ({ arguments with force := true }, false)
  else if name = "help" then .error .help
  else if name = "version" then .error .version
  else .error .usage

/-- Short options, after their stroke. The first decides: it ends the reading or takes the rest as
its value. -/
def short (arguments : Arguments) (text : List Char) (next : Option String) :
    Except Dismissal (Arguments × Bool) :=
  match text with
  | 'h' :: _ => .error .help
  | 'V' :: _ => .error .version
  | ['j'] => arguments.setFrom .jobs none next
  | 'j' :: '=' :: value => arguments.setFrom .jobs (some (String.ofList value)) next
  | 'j' :: value => arguments.setFrom .jobs (some (String.ofList value)) next
  | _ => .error .usage

/-- Take one argument; the flag tells whether the next one was used with it. -/
def take (arguments : Arguments) (text : String) (next : Option String) :
    Except Dismissal (Arguments × Bool) :=
  if isOption text then
    match text.toList with
    | '-' :: '-' :: name => arguments.long name next
    | _ => arguments.short (text.toList.drop 1) next
  else (arguments.place text).map (·, false)

/-- Read arguments in order. After two strokes alone all are positional. -/
def readFrom (arguments : Arguments) : List String → Except Dismissal Arguments
  | [] => .ok arguments
  | text :: rest =>
    if text = "--" then rest.foldlM place arguments
    else match arguments.take text rest.head? with
      | .error dismissal => .error dismissal
      | .ok (arguments, true) => arguments.readFrom (rest.drop 1)
      | .ok (arguments, false) => arguments.readFrom rest
termination_by texts => texts.length
decreasing_by
  · simp only [List.length_drop, List.length_cons]
    omega
  · simp

/-- Read a command line. All three positional arguments are needed. -/
def read (texts : List String) : Except Dismissal Arguments := do
  let arguments ← ({} : Arguments).readFrom texts
  if arguments.positional.length = 3 then return arguments else .error .usage

/-- The build that the arguments ask for. -/
def config (arguments : Arguments) : Except BuildError BuildConfig := do
  let part := fun i => (arguments.positional[i]?).getD ""
  let config ← BuildConfig.ofLists (part 0) (part 1) (part 2)
  return { config with
    jobs := arguments.jobs
    seed := arguments.seed.map UInt64.ofNat
    force := arguments.force }

end Arguments

end CopyPatch
