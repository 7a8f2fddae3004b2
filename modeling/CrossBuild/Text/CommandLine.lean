/-!
# Command lines

Writing the arguments of a command as one line, such that a program which takes the line apart by
the usual rules for quotes and backslashes gets the arguments back.
-/

namespace CrossBuild.CommandLine

/-- Whether an argument goes between quotes: it is empty or holds a blank or a tab. -/
def needsQuotes (argument : List Char) : Bool :=
  argument.isEmpty || argument.contains ' ' || argument.contains '\t'

/-- An argument after `pending` backslashes. Backslashes are doubled before a quote, and at the end
when the closing quote follows. -/
def escape (quotes : Bool) (pending : Nat) : List Char → List Char
  | [] => List.replicate (if quotes then 2 * pending else pending) '\\'
  | c :: s =>
    if c = '\\' then escape quotes (pending + 1) s
    else if c = '"' then
      List.replicate (2 * pending) '\\' ++ '\\' :: '"' :: escape quotes 0 s
    else List.replicate pending '\\' ++ c :: escape quotes 0 s

/-- An argument as it stands on the line. -/
def quoteArgument (argument : List Char) : List Char :=
  if needsQuotes argument then '"' :: escape true 0 argument ++ ['"'] else escape false 0 argument

/-- The line of some arguments. -/
def render (arguments : List String) : String :=
  String.intercalate " " (arguments.map fun a => String.ofList (quoteArgument a.toList))

end CrossBuild.CommandLine
