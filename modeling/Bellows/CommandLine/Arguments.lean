/-!
Arguments of a command divided into options and operands. An option has long names and letters;
letters may be written together, and a value stands behind its option in the same argument or is
the next one. Two hyphens alone end the options.
-/
namespace Bellows.CommandLine

/-- Why arguments cannot be understood. -/
inductive UsageFault
  | noCommand
  | unknownCommand (name : String)
  | unknownOption (name : String)
  | valueMissing (option : String)
  | valueRefused (option : String)
  | optionMissing (option : String)
  | operandMissing (operand : String)
  | extraOperands (operands : List String)
  | badValue (option value : String)
  | noSuchFile (path : String)
  | notFile (path : String)
  deriving DecidableEq, Repr

/-- An option under all its names. -/
structure Switch (κ : Type) where
  key : κ
  long : List String
  letters : List Char
  takesValue : Bool

/-- Options with their values in order, and everything that belongs to no option. -/
structure Arguments (κ : Type) where
  options : List (κ × String)
  operands : List String

/-- What one argument gives: options with their values, and then an option that still awaits its
value, with the name under which it was written. -/
structure Given (κ : Type) where
  options : List (κ × String)
  awaiting : Option (κ × String)

namespace Arguments

variable {κ : Type} (switches : List (Switch κ))

/-- An argument with a long name, and perhaps a value behind an equals sign. -/
def readLong (argument : List Char) : Except UsageFault (Given κ) :=
  let name := String.ofList (argument.takeWhile (· != '='))
  match switches.find? (fun s => s.long.contains name), argument.dropWhile (· != '=') with
  | none, _ => .error (.unknownOption name)
  | some s, [] => .ok (if s.takesValue then ⟨[], some (s.key, name)⟩ else ⟨[(s.key, "")], none⟩)
  | some s, _ :: value =>
    if s.takesValue then .ok ⟨[(s.key, String.ofList value)], none⟩ else .error (.valueRefused name)

/-- Letters of options; what stands behind the letter of an option with a value is the value. -/
def readLetters : List Char → Except UsageFault (Given κ)
  | [] => .ok ⟨[], none⟩
  | c :: cs =>
    let name := String.ofList ['-', c]
    match switches.find? (fun s => s.letters.contains c) with
    | none => .error (.unknownOption name)
    | some s =>
      if s.takesValue then
        .ok (if cs.isEmpty then ⟨[], some (s.key, name)⟩ else ⟨[(s.key, String.ofList cs)], none⟩)
      else do
        let given ← readLetters cs
        .ok { given with options := (s.key, "") :: given.options }

/-- What an argument gives; `none` if it is no option. A hyphen alone is none. -/
def readOption (argument : String) : Option (Except UsageFault (Given κ)) :=
  match argument.toList with
  | '-' :: '-' :: cs => some (readLong switches ('-' :: '-' :: cs))
  | '-' :: c :: cs => some (readLetters switches (c :: cs))
  | _ => none

/-- Options put in front of arguments. -/
def withOptions (options : List (κ × String)) (a : Arguments κ) : Arguments κ :=
  { a with options := options ++ a.options }

/-- Arguments divided into options and operands. Where operands are not mixed with options, the
first operand ends the options. -/
def divide (mixed : Bool) : List String → Except UsageFault (Arguments κ)
  | [] => .ok ⟨[], []⟩
  | argument :: rest =>
    if argument = "--" then .ok ⟨[], rest⟩
    else
      match readOption switches argument with
      | none =>
        if mixed then do
          let a ← divide mixed rest
          .ok { a with operands := argument :: a.operands }
        else .ok ⟨[], argument :: rest⟩
      | some (.error fault) => .error fault
      | some (.ok ⟨options, none⟩) => (divide mixed rest).map (withOptions options)
      | some (.ok ⟨options, some (key, name)⟩) =>
        match rest with
        | [] => .error (.valueMissing name)
        | value :: rest => (divide mixed rest).map (withOptions (options ++ [(key, value)]))

/-- The value of an option; the last one holds. -/
def value? [DecidableEq κ] (a : Arguments κ) (key : κ) : Option String :=
  (a.options.reverse.find? fun o => o.1 = key).map Prod.snd

/-- Whether an option is given. -/
def has [DecidableEq κ] (a : Arguments κ) (key : κ) : Bool := (a.value? key).isSome

end Arguments
end Bellows.CommandLine
