import BundleSize.CommandLine.Switch
import BundleSize.Text.Integer

/-!
# Command lines

A command line names one file, may ask for minification, and may limit the
number of entries. Its arguments take effect in their order, so that a
request for help counts unless an error comes before it. Only in the end is
it seen whether a file was named and whether something was left over.

Letters of short forms may share a dash. They take effect together, after
the whole of them has been read.
-/

namespace BundleSize

/-- What a command line asks for. -/
structure CommandArguments where
  file : String
  minify : Bool := false
  limit : Option Int := none
  deriving Repr, DecidableEq

/-- Why a command line asks for nothing. -/
inductive CommandStop where
  | help
  | usage (error : UsageError)
  deriving Repr, DecidableEq

namespace CommandArguments

/-- What the arguments so far ask for, with those that nothing is known about. -/
structure Draft where
  file : Option String := none
  minify : Bool := false
  limit : Option Int := none
  extras : List String := []

namespace Draft

/-- Takes in a switch that wants no value. -/
def flag (d : Draft) : Switch → Except CommandStop Draft
  | .help => .error .help
  | _ => .ok { d with minify := true }

/-- Takes in the value of a switch. -/
def value (d : Draft) (switch : Switch) (text : String) : Except CommandStop Draft :=
  match Text.readInteger text with
  | .ok n => .ok { d with limit := some n }
  | .error _ => .error (.usage (.notANumber switch text))

/-- Takes in an argument that nothing is known about. -/
def extra (d : Draft) (text : String) : Draft := { d with extras := d.extras ++ [text] }

end Draft

/-- The switches whose letters share a dash, from `switch` on, with what is left of the argument
when a letter is no switch. Only the last letter could have a value, and none of them wants one. -/
def letters (switch : Switch) (equals : Bool) :
    List Char → Except UsageError (List Switch × Option String)
  | [] => if equals then .error (.unwantedValue switch "") else .ok ([switch], none)
  | c :: rest =>
    if equals || c = '-' then .error (.unwantedValue switch (String.ofList (c :: rest)))
    else
      match Switch.ofLetter? c with
      | none => .ok ([switch], some (String.ofList ('-' :: c :: rest)))
      | some next =>
        let more :=
          match rest with
          | '=' :: value => letters next true value
          | rest => letters next false rest
        more.map fun (switches, left) => (switch :: switches, left)

/-- Takes in arguments one after the other. Two dashes next to the file's name are not left
over. -/
def take : List Argument → Draft → Except CommandStop Draft
  | [], d => .ok d
  | .operand text :: rest, d =>
    match d.file with
    | some _ => take rest (d.extra text)
    | none =>
      let d := { d with file := some text }
      match rest with
      | .divider :: rest => take rest d
      | rest => take rest d
  | .divider :: rest, d =>
    match d.file, rest with
    | none, .operand text :: rest => take rest { d with file := some text }
    | _, rest => take rest (d.extra "--")
  | .unknown text :: rest, d => take rest (d.extra text)
  | .short switch equals attached :: rest, d =>
    match letters switch equals attached with
    | .error e => .error (.usage e)
    | .ok (switches, left) => do
      take rest (← switches.foldlM Draft.flag (left.toList.foldl Draft.extra d))
  | .long switch none :: rest, d =>
    if switch.wantsValue then
      match rest with
      | .operand text :: rest => do take rest (← d.value switch text)
      | _ => .error (.usage (.valueRequired switch))
    else do take rest (← d.flag switch)
  | .long switch (some value) :: rest, d =>
    if switch.wantsValue then do take rest (← d.value switch value)
    else .error (.usage (.unwantedValue switch value))

/-- What a draft asks for in the end. -/
def ofDraft (d : Draft) : Except CommandStop CommandArguments :=
  match d.file with
  | none => .error (.usage .fileRequired)
  | some file =>
    if d.extras.isEmpty then .ok { file, minify := d.minify, limit := d.limit }
    else .error (.usage (.unrecognized d.extras))

/-- What the arguments of a command line ask for. -/
def ofTexts (texts : List String) : Except CommandStop CommandArguments := do
  let arguments ← (Argument.ofTexts texts).mapError .usage
  ofDraft (← take arguments {})

end CommandArguments

end BundleSize
