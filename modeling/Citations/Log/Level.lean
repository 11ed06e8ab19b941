import Citations.Text.Numeral

/-!
# Levels of log records

A level is a number; five of them, and zero, have names.
-/

namespace Citations
namespace Level

def debug : Int := 10
def info : Int := 20
def warning : Int := 30
def error : Int := 40
def critical : Int := 50

/-- The level up to which no record counts, whatever the loggers say. -/
def disabled : Int := 0

/-- The name of a level; one without a name is told by its number. -/
def name (level : Int) : Text :=
  if level = 0 then "NOTSET".toList
  else if level = 10 then "DEBUG".toList
  else if level = 20 then "INFO".toList
  else if level = 30 then "WARNING".toList
  else if level = 40 then "ERROR".toList
  else if level = 50 then "CRITICAL".toList
  else "Level ".toList ++ Text.ofInt level

end Level
end Citations
