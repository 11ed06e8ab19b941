import Citations.Text.Basic

/-!
# The switches of the command line

Each switch has a short name, a long name or both, and takes a value or none.

* `Switch`            the switches;
* `Switch.all`        in the order in which they are listed;
* `Switch.named?`     the switch of a name;
* `Switch.title`      all names of a switch.
-/

namespace Citations

inductive Switch where
  | help
  | template
  | templateFile
  | strict
  | separator
  | data
  | assign
  | output
  | debug
  | jsonLogs
  deriving DecidableEq, Repr

namespace Switch

def all : List Switch :=
  [.help, .template, .templateFile, .strict, .separator, .data, .assign, .output, .debug, .jsonLogs]

def names : Switch → List Text
  | .help => ["-h".toList, "--help".toList]
  | .template => ["-t".toList, "--template".toList]
  | .templateFile => ["-T".toList, "--template-file".toList]
  | .strict => ["--strict".toList]
  | .separator => ["--separator".toList]
  | .data => ["-d".toList, "--data".toList]
  | .assign => ["-e".toList, "--set".toList]
  | .output => ["-o".toList, "--output".toList]
  | .debug => ["--debug".toList]
  | .jsonLogs => ["--json-logs".toList]

def valueName : Switch → Option Text
  | .template => some "TEXT".toList
  | .templateFile | .data | .output => some "FILE".toList
  | .separator => some "SEP".toList
  | .assign => some "KEY=VALUE".toList
  | .help | .strict | .debug | .jsonLogs => none

def takesValue (s : Switch) : Bool := s.valueName.isSome

def title (s : Switch) : Text := Text.joined ['/'] s.names

/-- All names with their switches, in the order of the list. -/
def allNames : List (Text × Switch) := all.flatMap fun s => s.names.map fun n => (n, s)

def named? (name : Text) : Option Switch := (allNames.find? fun x => x.1 == name).map (·.2)

/-- The names that begin with a text. -/
def beginning (t : Text) : List (Text × Switch) := allNames.filter fun x => t.isPrefixOf x.1

theorem mem_all (s : Switch) : s ∈ all := by cases s <;> decide

end Switch
end Citations
