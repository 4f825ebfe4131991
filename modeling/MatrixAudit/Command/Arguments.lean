import MatrixAudit.Settings

/-!
# Command lines

Arguments are read from left to right, and the first one that does not fit decides. Long options
take their value behind an equals sign or as the next argument, which must not look like an option
then. Two dashes end the options. No option and no place is filled twice.
-/

namespace MatrixAudit

inductive Stop where
  | help
  | usage
deriving DecidableEq

inductive Item where
  | place (value : String)
  | option (name : String) (value : String)
  | switch (name : String)
  | stop (reason : Stop)
deriving DecidableEq

namespace Item

def looksLikeOption (argument : String) : Bool :=
  match argument.toList with
  | '-' :: _ :: _ => true
  | _ => false

/-- The switches of a cluster of short options. -/
def ofShort : List Char → List Item
  | [] => []
  | 'v' :: rest => switch "verbose" :: ofShort rest
  | 'h' :: _ | 'V' :: _ => [stop .help]
  | _ => [stop .usage]

/-- The name of a long option and the value attached to it. -/
def splitLong (characters : List Char) : String × Option String :=
  (String.ofList (characters.takeWhile (· ≠ '=')),
    match characters.dropWhile (· ≠ '=') with
    | _ :: value => some (String.ofList value)
    | [] => none)

/-- The parts of a command line, up to the first that does not fit. The long options with a value
and those without are named; the short ones are the same for all commands. -/
def ofArguments (valueOptions switches : List String) : List String → List Item
  | [] => []
  | "--" :: rest => rest.map place
  | argument :: rest =>
    match argument.toList with
    | '-' :: '-' :: long =>
      let (name, attached) := splitLong long
      if valueOptions.contains name then
        match attached, rest with
        | some value, rest => option name value :: ofArguments valueOptions switches rest
        | none, value :: rest =>
          if looksLikeOption value then [stop .usage]
          else option name value :: ofArguments valueOptions switches rest
        | none, [] => [stop .usage]
      else if attached.isSome then [stop .usage]
      else if name = "help" || name = "version" then [stop .help]
      else if switches.contains name then
        switch name :: ofArguments valueOptions switches rest
      else [stop .usage]
    | '-' :: first :: more => ofShort (first :: more) ++ ofArguments valueOptions switches rest
    | _ => place argument :: ofArguments valueOptions switches rest

end Item

/-- The digits of a number as a command line spells it, if they are that. -/
def decimal? (digits : List Char) : Option Nat :=
  if !digits.isEmpty && digits.all Char.isDigit then some (Nat.ofDigitChars 10 digits 0) else none

/-- A number up to `greatest`, possibly behind a plus sign. -/
def plainNumber? (greatest : Nat) (text : String) : Option Nat := do
  let value ← match text.toList with
    | '+' :: digits => decimal? digits
    | digits => decimal? digits
  if value ≤ greatest then some value else none

def wordArgument? (text : String) : Option Word :=
  (plainNumber? (UInt64.size - 1) text).map UInt64.ofNat

/-- A port; zero may have a minus sign. -/
def portArgument? (text : String) : Option UInt16 :=
  match text.toList with
  | '-' :: digits =>
    match decimal? digits with
    | some 0 => some 0
    | _ => none
  | _ => (plainNumber? (UInt16.size - 1) text).map UInt16.ofNat

def pathArgument? (text : String) : Option String := if text.isEmpty then none else some text

/-- Fills a place that is still free with a value that fits it. -/
def fill {α : Type} (held : Option α) (value : Option α) : Except Stop (Option α) :=
  match held, value with
  | none, some value => .ok (some value)
  | _, _ => .error .usage

/-- What the options that all commands share have set so far. -/
structure SharedOptions where
  port : Option UInt16 := none
  timeoutSeconds : Option Word := none
  report : Option String := none
  verbose : Option Unit := none

structure VerifierArguments where
  dataset : String
  client : String
  settings : VerifierSettings
  report : Option String
  verbose : Bool
deriving DecidableEq

structure AuditorArguments where
  client : String
  settings : AuditorSettings
  report : Option String
  verbose : Bool
deriving DecidableEq

namespace VerifierArguments

structure Draft extends SharedOptions where
  dataset : Option String := none
  client : Option String := none
  mode : Option Mode := none
  bind : Option String := none
  sequential : Option Unit := none

def Draft.take (d : Draft) : Item → Except Stop Draft
  | .place value =>
    if d.dataset.isNone then do return { d with dataset := ← fill d.dataset (pathArgument? value) }
    else if d.client.isNone then do
      return { d with client := ← fill d.client (pathArgument? value) }
    else do return { d with port := ← fill d.port (portArgument? value) }
  | .option "mode" value => do return { d with mode := ← fill d.mode (Mode.ofLabel? value) }
  | .option "bind" value => do return { d with bind := ← fill d.bind (some value) }
  | .option "io-timeout" value => do
    return { d with timeoutSeconds := ← fill d.timeoutSeconds (wordArgument? value) }
  | .option "report" value => do return { d with report := ← fill d.report (pathArgument? value) }
  | .switch "sequential" => do return { d with sequential := ← fill d.sequential (some ()) }
  | .switch "verbose" => do return { d with verbose := ← fill d.verbose (some ()) }
  | .stop reason => .error reason
  | _ => .error .usage

def Draft.complete (d : Draft) : Except Stop VerifierArguments :=
  match d.dataset, d.client with
  | some dataset, some client =>
    let usual : VerifierSettings := {}
    .ok {
      dataset := dataset
      client := client
      settings := {
        mode := d.mode.getD usual.mode
        bind := d.bind.getD usual.bind
        port := d.port.getD usual.port
        timeoutSeconds := d.timeoutSeconds.getD usual.timeoutSeconds
        parallel := d.sequential.isNone }
      report := d.report
      verbose := d.verbose.isSome }
  | _, _ => .error .usage

/-- The arguments that a command line spells: the dataset, the client and possibly a port, with
options anywhere between them. -/
def ofArguments (arguments : List String) : Except Stop VerifierArguments := do
  let items := Item.ofArguments ["mode", "bind", "io-timeout", "report"] ["sequential", "verbose"]
    arguments
  (← items.foldlM Draft.take {}).complete

end VerifierArguments

namespace AuditorArguments

structure Draft extends SharedOptions where
  client : Option String := none
  host : Option String := none
  seed : Option Word := none

def Draft.take (d : Draft) : Item → Except Stop Draft
  | .place value => do return { d with client := ← fill d.client (pathArgument? value) }
  | .option "host" value => do return { d with host := ← fill d.host (some value) }
  | .option "port" value => do return { d with port := ← fill d.port (portArgument? value) }
  | .option "seed" value => do return { d with seed := ← fill d.seed (wordArgument? value) }
  | .option "io-timeout" value => do
    return { d with timeoutSeconds := ← fill d.timeoutSeconds (wordArgument? value) }
  | .option "report" value => do return { d with report := ← fill d.report (pathArgument? value) }
  | .switch "verbose" => do return { d with verbose := ← fill d.verbose (some ()) }
  | .stop reason => .error reason
  | _ => .error .usage

def Draft.complete (d : Draft) : Except Stop AuditorArguments :=
  match d.client with
  | some client =>
    let usual : AuditorSettings := {}
    .ok {
      client := client
      settings := {
        host := d.host.getD usual.host
        port := d.port.getD usual.port
        timeoutSeconds := d.timeoutSeconds.getD usual.timeoutSeconds
        seed := d.seed }
      report := d.report
      verbose := d.verbose.isSome }
  | none => .error .usage

/-- The arguments that a command line spells: the client, with options before and behind it. -/
def ofArguments (arguments : List String) : Except Stop AuditorArguments := do
  let items := Item.ofArguments ["host", "port", "seed", "io-timeout", "report"] ["verbose"]
    arguments
  (← items.foldlM Draft.take {}).complete

end AuditorArguments

end MatrixAudit
