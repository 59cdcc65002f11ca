/-!
# Arguments

A command line is a row of arguments: flags, options with a value, and operands.
Behind two dashes every argument is an operand.

## Contents

The shape of a command line and the reader that sorts its arguments.
-/

namespace PostingIndex

structure ArgumentShape where
  flags : List String := []
  options : List String := []
  stopsAtOperand : Bool := false

structure Arguments where
  flags : List String := []
  options : List (String × String) := []
  operands : List String := []
  rest : List String := []

namespace Arguments

inductive Form where
  | separator
  | long (name : String) (value : Option String)
  | short
  | operand

def cutAtEquals : List Char -> List Char × Option (List Char)
  | [] => ([], none)
  | '=' :: rest => ([], some rest)
  | c :: rest =>
      let (name, value) := cutAtEquals rest
      (c :: name, value)

/-- The form of an argument.  A single dash is an operand. -/
def form (argument : String) : Form :=
  match argument.toList with
  | ['-', '-'] => .separator
  | '-' :: '-' :: rest =>
      let (name, value) := cutAtEquals rest
      .long (String.ofList name) (value.map String.ofList)
  | '-' :: _ :: _ => .short
  | _ => .operand

def takeFlag? (arguments : Arguments) (name : String) (value : Option String) :
    Option Arguments :=
  if value.isSome ∨ arguments.flags.contains name then
    none
  else
    some { arguments with flags := name :: arguments.flags }

def takeOption? (arguments : Arguments) (name value : String) : Option Arguments :=
  if (arguments.options.lookup name).isSome then
    none
  else
    some { arguments with options := (name, value) :: arguments.options }

def takeOperand (arguments : Arguments) (operand : String) : Arguments :=
  { arguments with operands := arguments.operands ++ [operand] }

/--
Sorts arguments.  The value of an option follows an equals sign or is the next
argument, which then may not have the form of a flag or an option.
-/
def sort? (shape : ArgumentShape) (arguments : Arguments) :
    List String -> Option Arguments
  | [] => some arguments
  | argument :: rest =>
      match form argument with
      | .separator => some (rest.foldl takeOperand arguments)
      | .short => none
      | .operand =>
          if shape.stopsAtOperand then
            some { arguments.takeOperand argument with rest }
          else
            sort? shape (arguments.takeOperand argument) rest
      | .long name value =>
          if shape.flags.contains name then
            match arguments.takeFlag? name value with
            | none => none
            | some arguments => sort? shape arguments rest
          else if shape.options.contains name then
            match value, rest with
            | some value, rest =>
                match arguments.takeOption? name value with
                | none => none
                | some arguments => sort? shape arguments rest
            | none, [] => none
            | none, next :: rest =>
                match form next with
                | .operand =>
                    match arguments.takeOption? name next with
                    | none => none
                    | some arguments => sort? shape arguments rest
                | _ => none
          else
            none

def hasFlag (arguments : Arguments) (name : String) : Bool :=
  arguments.flags.contains name

def option? (arguments : Arguments) (name : String) : Option String :=
  arguments.options.lookup name

end Arguments

end PostingIndex
