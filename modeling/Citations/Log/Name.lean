import Citations.Text.Basic

/-!
# Names of loggers

Loggers form a tree by the points in their names.  All of this library's loggers hang below one
base logger.

* `LoggerName.qualified`    the full name of a logger asked for by a short name;
* `LoggerName.belowBase`    whether the records of a logger reach the base logger.
-/

namespace Citations
namespace LoggerName

def base : Text := "citebuilder".toList

/-- A name that begins like the base logger's is taken as full; another goes below the base. -/
def qualified (name : Text) : Text :=
  if name = [] then base
  else if base.isPrefixOf name then name
  else base ++ '.' :: name

/-- Whether a full name is the base logger's or one below it. -/
def belowBase (name : Text) : Bool := name == base || (base ++ ['.']).isPrefixOf name

def builder : Text := qualified "builder".toList
def expander : Text := qualified "expand".toList
def validator : Text := qualified "validator".toList
def templates : Text := qualified "templates".toList

theorem qualified_nil : qualified [] = base := rfl

theorem belowBase_base : belowBase base = true := by decide

/-- A logger is the base logger, or stands below it if a point follows the base logger's name. -/
theorem belowBase_iff {name : Text} :
    belowBase name = true ↔ name = base ∨ ∃ x, name = base ++ '.' :: x := by
  rw [belowBase, Bool.or_eq_true, beq_iff_eq, List.isPrefixOf_iff_prefix]
  refine or_congr_right ⟨?_, ?_⟩
  · rintro ⟨x, rfl⟩
    exact ⟨x, by simp⟩
  · rintro ⟨x, rfl⟩
    exact ⟨x, by simp⟩

end LoggerName
end Citations
