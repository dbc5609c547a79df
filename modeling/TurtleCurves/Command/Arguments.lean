/-!
This module contains the splitting of command-line arguments into options and the rest. A long option is
a word, which an equals sign may join to its value; short options are letters and may stand together
behind one dash, the last of them with its value. A lone pair of dashes ends the options.
-/

namespace TurtleCurves
namespace Command

structure OptionSpec (κ : Type) where
  names : List String
  key : κ
  takesValue : Bool

structure Usage (κ : Type) where
  options : List (OptionSpec κ)
  mixed : Bool

structure Arguments (κ : Type) where
  options : List (κ × String) := []
  positional : List String := []
  pending : Option κ := none
  /-- Whether the rest holds no options. -/
  ended : Bool := false

namespace Arguments

variable {κ : Type}

def find? (usage : Usage κ) (name : String) : Option (OptionSpec κ) :=
  usage.options.find? fun spec => spec.names.contains name

def withOption (a : Arguments κ) (key : κ) (value : String) : Arguments κ :=
  { a with options := a.options ++ [(key, value)], pending := none }

def takeLong (usage : Usage κ) (a : Arguments κ) (argument : String) : Option (Arguments κ) :=
  match argument.splitOn "=" with
  | name :: first :: rest =>
    match find? usage name with
    | some spec => if spec.takesValue then some (a.withOption spec.key ("=".intercalate (first :: rest))) else none
    | none => none
  | _ =>
    match find? usage argument with
    | some spec =>
      if spec.takesValue then some { a with pending := some spec.key }
      else some (a.withOption spec.key "")
    | none => none

/-- Takes short options; what follows the letter of one that takes a value is its value. -/
def takeShort (usage : Usage κ) (a : Arguments κ) : List Char → Option (Arguments κ)
  | [] => some a
  | c :: rest =>
    match find? usage (String.ofList ['-', c]) with
    | none => none
    | some spec =>
      if !spec.takesValue then takeShort usage (a.withOption spec.key "") rest
      else if rest.isEmpty then some { a with pending := some spec.key }
      else some (a.withOption spec.key (String.ofList rest))

def take (usage : Usage κ) (a : Arguments κ) (argument : String) : Option (Arguments κ) :=
  match a.pending with
  | some key => some (a.withOption key argument)
  | none =>
    if a.ended then some { a with positional := a.positional ++ [argument] }
    else
      match argument.toList with
      | ['-', '-'] => some { a with ended := true }
      | '-' :: '-' :: _ => takeLong usage a argument
      | '-' :: c :: rest => takeShort usage a (c :: rest)
      | _ => some { a with positional := a.positional ++ [argument], ended := !usage.mixed }

def split (usage : Usage κ) (arguments : List String) : Option (Arguments κ) := do
  let a ← arguments.foldlM (take usage) {}
  if a.pending.isSome then none else some a

variable [DecidableEq κ]

def value? (a : Arguments κ) (key : κ) : Option String :=
  a.options.reverse.lookup key

def has (a : Arguments κ) (key : κ) : Bool :=
  (a.value? key).isSome

end Arguments
end Command
end TurtleCurves
