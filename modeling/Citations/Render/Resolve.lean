import Citations.Value.Written

/-!
# What a key stands for

* `lookup`    the text of the value at a key, empty where the value leaves a fragment out;
* `resolve`   the same for a key that may combine several with `+`: the texts that are not empty,
              in order, with the separator between them.
-/

namespace Citations
namespace Render

def lookup (data : Entries) (key : Text) : Text :=
  match data.get? key with
  | none => []
  | some v => if v.isEmpty then [] else v.display

theorem lookup_nil (key : Text) : lookup [] key = [] := rfl

/-- The members of a combined key; two `+` in a row hold none between them. -/
def members (key : Text) : List Text := (Text.splitAt '+' key).filter (· ≠ [])

theorem members_nil : members [] = [] := rfl

/-- The texts of the members that are not empty. -/
def memberTexts (data : Entries) (key : Text) : List Text :=
  ((members key).map (lookup data)).filter (· ≠ [])

def resolve (data : Entries) (separator key : Text) : Text :=
  if '+' ∈ key then Text.joined separator (memberTexts data key) else lookup data key

theorem resolve_of_not_mem {data : Entries} {separator key : Text} (h : '+' ∉ key) :
    resolve data separator key = lookup data key := by
  simp [resolve, h]

end Render
end Citations
