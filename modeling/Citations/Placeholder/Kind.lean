import Citations.Text.Basic

/-!
# The kinds of things that a placeholder reaches

From the key, which is a text, a placeholder reaches attributes, from these others, and so on:
kinds, what kinds have in common, numbers that describe kinds, and functions.  Truth values are
whole numbers, and every kind but that of all objects rests on that of all objects.

* `Kind`               the kinds;
* `Kind.line`          a kind and those that it rests on, in the order in which they are searched;
* `AttributeSort`      how an attribute behaves;
* `Kind.Figures`       the numbers that describe a kind.
-/

namespace Citations

inductive Kind where
  | text
  | object
  | kind
  | tuple
  | whole
  | nothing
  /-- a function that has taken the thing it was asked of -/
  | function
  /-- an operator that has taken the thing it was asked of -/
  | wrapper
  | method
  | slot
  | field
  | member
  | shared
  /-- the attributes of a kind by their names -/
  | proxy
  /-- a kind with an argument -/
  | alias
  /-- a function that takes nothing it is asked of, as a kind holds it -/
  | held
  | truth
  | mapping
  deriving DecidableEq, Repr

namespace Kind

def name : Kind → Text
  | .text => "str".toList
  | .object => "object".toList
  | .kind => "type".toList
  | .tuple => "tuple".toList
  | .whole => "int".toList
  | .nothing => "NoneType".toList
  | .function => "builtin_function_or_method".toList
  | .wrapper => "method-wrapper".toList
  | .method => "method_descriptor".toList
  | .slot => "wrapper_descriptor".toList
  | .field => "getset_descriptor".toList
  | .member => "member_descriptor".toList
  | .shared => "classmethod_descriptor".toList
  | .proxy => "mappingproxy".toList
  | .alias => "GenericAlias".toList
  | .held => "staticmethod".toList
  | .truth => "bool".toList
  | .mapping => "dict".toList

/-- The module that a kind is of. -/
def home : Kind → Text
  | .alias => "types".toList
  | _ => "builtins".toList

/-- The name with that of a module other than the usual. -/
def fullName : Kind → Text
  | .alias => home .alias ++ '.' :: name .alias
  | k => k.name

/-- The kind that a kind rests on. -/
def base : Kind → Option Kind
  | .object => none
  | .truth => some .whole
  | _ => some .object

def line : Kind → List Kind
  | .object => [.object]
  | .truth => [.truth, .whole, .object]
  | k => [k, .object]

/-- Sizes, places and marks of the things of a kind. -/
structure Figures where
  size : Nat
  itemSize : Nat := 0
  marks : Nat
  referencesAt : Nat := 0
  entriesAt : Nat := 0

def figures : Kind → Figures
  | .text => { size := 80, marks := 273159424 }
  | .object => { size := 16, marks := 529664 }
  | .kind =>
    { size := 904, itemSize := 40, marks := 2148031744, referencesAt := 368, entriesAt := 264 }
  | .tuple => { size := 24, itemSize := 8, marks := 71849248 }
  | .whole => { size := 24, itemSize := 4, marks := 21501184 }
  | .nothing => { size := 16, marks := 528640 }
  | .function => { size := 56, marks := 547200, referencesAt := 40 }
  | .wrapper => { size := 32, marks := 545152 }
  | .method => { size := 56, marks := 678272 }
  | .slot => { size := 56, marks := 676224 }
  | .field => { size := 48, marks := 545152 }
  | .member => { size := 48, marks := 545152 }
  | .shared => { size := 56, marks := 545152 }
  | .proxy => { size := 24, marks := 545088 }
  | .alias => { size := 64, marks := 548096, referencesAt := 40 }
  | .held => { size := 32, marks := 546048, entriesAt := 24 }
  | .truth => { size := 32, itemSize := 4, marks := 21500160 }
  | .mapping => { size := 48, marks := 541611328 }

end Kind

/-- How an attribute behaves. -/
inductive AttributeSort where
  /-- a function that takes the thing it is asked of -/
  | method
  /-- an operator -/
  | slot
  /-- a value that each thing has of its own -/
  | field
  | member
  /-- a function that takes the kind of the thing it is asked of -/
  | shared
  /-- a function that takes the kind that has it -/
  | fixed
  /-- a function that takes nothing it is asked of -/
  | static
  /-- the same value for all things -/
  | constant
  deriving DecidableEq, Repr

/-- An attribute of a kind. -/
structure Attribute where
  name : Text
  sort : AttributeSort
  /-- what it says about itself -/
  about : Option Text
  /-- what it takes -/
  takes : Option Text

end Citations
