import Citations.Command.Arguments

/-!
# Usage and help

The help lists the switches in groups, each with its names on the left and what it does from
column 24 on, on a line of its own where the names take up too much room.
-/

namespace Citations
namespace Usage

def program : Text := "citebuilder".toList

def line (t : Text) : Text := t ++ ['\n']

def synopsis : Text :=
  line "usage: citebuilder [-h] (-t TEXT | -T FILE) [--strict] [--separator SEP]".toList ++
    line "                   [-d FILE] [-e KEY=VALUE] [-o FILE] [--debug] [--json-logs]".toList

def description : Text :=
  line "citebuilder – render a citation from a fragment template and a data mapping".toList ++
    line "Fragments look like \"\x7b, by @author\x7d\" and vanish when @author is empty.".toList

def effect : Switch → Text
  | .help => "show this help message and exit".toList
  | .template => "Citation template given inline.".toList
  | .templateFile => "Read the template from FILE (newlines are folded away).".toList
  | .strict => "Reject templates whose brackets do not nest properly.".toList
  | .separator => "Joiner for combo tokens such as @A+B+C (default \", \").".toList
  | .data => "JSON object with the data mapping (\"-\" reads stdin).".toList
  | .assign => "Set a single key. Repeatable; applied after --data.".toList
  | .output => "Write the citation to FILE instead of stdout.".toList
  | .debug => "Show unresolved tokens as [key] and trace every pass.".toList
  | .jsonLogs => "Emit log records as JSON.".toList

/-- The names of a switch, each with its value. -/
def invocation (s : Switch) : Text :=
  Text.joined ", ".toList (s.names.map fun n =>
    match s.valueName with
    | none => n
    | some v => n ++ ' ' :: v)

/-- Where the right column starts. -/
def column : Nat := 24

def entry (s : Switch) : Text :=
  let names := ' ' :: ' ' :: invocation s
  let gap (n : Nat) : Text := List.replicate n ' '
  if names.length + 2 ≤ column then
    line (names ++ gap (column - names.length) ++ effect s)
  else line names ++ line (gap column ++ effect s)

/-- The groups in which switches are listed. -/
def groups : List (Text × List Switch) := [
  ("options".toList, [.help]),
  ("Template".toList, [.template, .templateFile, .strict, .separator]),
  ("Data".toList, [.data, .assign]),
  ("Output & diagnostics".toList, [.output, .debug, .jsonLogs])]

def help : Text :=
  synopsis ++ '\n' :: description ++
    groups.flatMap fun (title, ss) => '\n' :: line (title ++ [':']) ++ ss.flatMap entry

/-- What is told when arguments are refused. -/
def refusal (e : UsageError) : Text :=
  synopsis ++ line (program ++ ": error: ".toList ++ e.message)

end Usage
end Citations
