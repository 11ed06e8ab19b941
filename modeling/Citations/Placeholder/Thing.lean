import Citations.Placeholder.Catalog
import Citations.Placeholder.Error
import Citations.Text.Numeral

/-!
# What a placeholder reaches

* `Thing`                  the things;
* `Thing.attributeNamed`   the attribute of a name;
* `Memory`                 the address of each thing;
* `Thing.written`, `Thing.display`   a thing as text, with the addresses that it shows;
* `Thing.item`             what an index picks.
-/

namespace Citations

inductive Thing where
  | text (t : Text)
  | whole (i : Int)
  | truth (b : Bool)
  | nothing
  | tuple (xs : List Thing)
  | kind (k : Kind)
  /-- the attributes of a kind by their names -/
  | proxy (k : Kind)
  /-- a function of a kind that has taken a thing -/
  | function (owner : Kind) (name : Text) (taken : Thing)
  /-- an operator of a kind that has taken a thing -/
  | wrapper (owner : Kind) (name : Text) (taken : Thing)
  /-- an attribute of a kind that has taken nothing -/
  | untaken (sort : AttributeSort) (owner : Kind) (name : Text)
  /-- a function of a kind that takes nothing it is asked of, as the kind holds it -/
  | held (owner : Kind) (name : Text)
  /-- a kind with an argument -/
  | alias (k : Kind) (argument : Thing)
  /-- a mapping without entries -/
  | noEntries

namespace Thing

def kindOf : Thing → Kind
  | .text _ => .text
  | .whole _ => .whole
  | .truth _ => .truth
  | .nothing => .nothing
  | .tuple _ => .tuple
  | .kind _ => .kind
  | .proxy _ => .proxy
  | .function .. => .function
  | .wrapper .. => .wrapper
  | .untaken .method .. => .method
  | .untaken .slot .. => .slot
  | .untaken .field .. => .field
  | .untaken .member .. => .member
  | .untaken _ .. => .shared
  | .held .. => .held
  | .alias .. => .alias
  | .noEntries => .mapping

def ofOption : Option Text → Thing
  | some t => .text t
  | none => .nothing

end Thing

/-! ## attributes of kinds -/

namespace Kind

def own? (k : Kind) (name : Text) : Option Attribute := k.attributes.find? fun a => a.name == name

/-- The attribute of a name along the line of a kind, with the kind that has it. -/
def find? (k : Kind) (name : Text) : Option (Kind × Attribute) :=
  k.line.findSome? fun o => (o.own? name).map fun a => (o, a)

/-- What is under a name of a kind, asked of the kind. -/
def raw (k o : Kind) (a : Attribute) : Thing :=
  match a.sort with
  | .shared => .function o a.name (.kind k)
  | .fixed | .static => .function o a.name (.kind o)
  | .constant => if a.name = "__doc__".toList then .ofOption o.about else .nothing
  | sort => .untaken sort o a.name

end Kind

namespace Thing

/-! ## values of fields -/

/-- The field of a kind; a few have no value. -/
def kindField (k : Kind) (name : String) : Except PlaceholderError Thing :=
  match name with
  | "__name__" | "__qualname__" => .ok (.text k.name)
  | "__module__" => .ok (.text k.home)
  | "__bases__" => .ok (.tuple (k.base.toList.map .kind))
  | "__base__" => .ok (match k.base with | some b => .kind b | none => .nothing)
  | "__mro__" => .ok (.tuple (k.line.map .kind))
  | "__dict__" => .ok (.proxy k)
  | "__doc__" =>
    .ok (match k.about, k.own? name.toList with
      | some t, _ => .text t
      | none, some a => k.raw k a
      | none, none => .nothing)
  | "__text_signature__" => .ok (.ofOption k.takes)
  | "__basicsize__" => .ok (.whole k.figures.size)
  | "__itemsize__" => .ok (.whole k.figures.itemSize)
  | "__flags__" => .ok (.whole k.figures.marks)
  | "__weakrefoffset__" => .ok (.whole k.figures.referencesAt)
  | "__dictoffset__" => .ok (.whole k.figures.entriesAt)
  | "__annotations__" => .error (.noKindAttribute k.fullName name.toList)
  | _ => .error (.noValue name.toList)

/-- Whether a kind has a function of the name that takes nothing it is asked of. -/
def isStatic (owner : Kind) (name : Text) : Bool :=
  (owner.own? name).any fun a => a.sort = .static

/-- The field of a function or operator, taken or not. -/
def functionField (owner : Kind) (name : Text) (fullName : Text) (taken : Thing) :
    String → Thing
  | "__name__" => .text name
  | "__qualname__" => .text fullName
  | "__self__" => if isStatic owner name then .nothing else taken
  | "__objclass__" => .kind owner
  | "__doc__" => .ofOption ((owner.own? name).bind (·.about))
  | "__text_signature__" => .ofOption ((owner.own? name).bind (·.takes))
  | _ => .nothing

def wholeField (i : Int) : String → Thing
  | "imag" => .whole 0
  | "denominator" => .whole 1
  | _ => .whole i

def heldField (owner : Kind) (name : Text) : String → Thing
  | "__isabstractmethod__" => .truth false
  | "__dict__" => .noEntries
  | _ => .function owner name (.kind owner)

def aliasField (k : Kind) (argument : Thing) : String → Thing
  | "__args__" => .tuple [argument]
  | "__origin__" => .kind k
  | "__parameters__" => .tuple []
  | "__unpacked__" => .truth false
  | _ => .nothing

def within (k : Kind) (name : Text) : Text := k.name ++ '.' :: name

def field (x : Thing) (name : Text) : Except PlaceholderError Thing :=
  if name = "__class__".toList then .ok (.kind x.kindOf)
  else
    let key := String.ofList name
    match x with
    | .kind k => kindField k key
    | .whole i => .ok (wholeField i key)
    | .truth b => .ok (wholeField b.toNat key)
    | .function o n (.kind k) => .ok (functionField o n (within k n) (.kind k) key)
    | .function o n y => .ok (functionField o n (within y.kindOf n) y key)
    | .wrapper o n y => .ok (functionField o n (within o n) y key)
    | .untaken _ o n => .ok (functionField o n (within o n) .nothing key)
    | .held o n => .ok (heldField o n key)
    | .alias k y => .ok (aliasField k y key)
    | _ => .ok .nothing

/-! ## attributes of things -/

/-- What an attribute of a kind is for a thing of it. -/
def taking (x : Thing) (o : Kind) (a : Attribute) : Except PlaceholderError Thing :=
  match a.sort with
  | .method => .ok (.function o a.name x)
  | .slot => .ok (.wrapper o a.name x)
  | .field | .member => x.field a.name
  | .shared | .fixed | .static | .constant => .ok (x.kindOf.raw o a)

def isField (a : Attribute) : Bool := a.sort = .field || a.sort = .member

/-- The attribute of a kind: fields that all kinds have come first, then what the kind has for its
things, then what all kinds have else. -/
def kindAttribute (k : Kind) (name : Text) : Except PlaceholderError Thing :=
  match Kind.find? .kind name, k.find? name with
  | some (o, a), inner =>
    if isField a then taking (.kind k) o a
    else match inner with
      | some (o', a') => .ok (k.raw o' a')
      | none => taking (.kind k) o a
  | none, some (o, a) => .ok (k.raw o a)
  | none, none => .error (.noKindAttribute k.fullName name)

/-- The attributes that a kind with an argument has of its own; it has all others of the kind. -/
def aliasNames : List Text :=
  ["__class__", "__origin__", "__args__", "__unpacked__", "__parameters__",
    "__typing_unpacked_tuple_args__", "__mro_entries__", "__reduce_ex__", "__reduce__", "__copy__",
    "__deepcopy__"].map String.toList

/-- The attribute that a thing has from its kind. -/
def ofKind (x : Thing) (name : Text) : Except PlaceholderError Thing :=
  match x.kindOf.find? name with
  | some (o, a) => x.taking o a
  | none => .error (.noAttribute x.kindOf.fullName name)

def attributeNamed (x : Thing) (name : Text) : Except PlaceholderError Thing :=
  match x with
  | .kind k => kindAttribute k name
  | .alias k y =>
    if aliasNames.contains name then ofKind (.alias k y) name else kindAttribute k name
  | x => x.ofKind name

/-! ## things as text -/

end Thing

/-- Where things lie: the address of each, which is another every time. -/
abbrev Memory := Thing → Nat

/-- All addresses are zero. -/
def Memory.blank : Memory := fun _ => 0

namespace Thing

/-- How an untaken attribute is called. -/
def untakenName : AttributeSort → Text
  | .slot => "slot wrapper".toList
  | .field => "attribute".toList
  | .member => "member".toList
  | _ => "method".toList

def untakenText (sort : AttributeSort) (owner : Kind) (name : Text) : Text :=
  '<' :: untakenName sort ++ " '".toList ++ name ++ "' of '".toList ++ owner.fullName ++
    "' objects>".toList

section
variable (memory : Memory)

/-- The end of the text of what has taken a thing: its kind and its address. -/
def placeText (taken : Thing) : Text :=
  " of ".toList ++ taken.kindOf.fullName ++ " object at 0x".toList ++
    Nat.toDigits 16 (memory taken) ++ ['>']

def functionText (name : Text) (taken : Thing) : Text :=
  "<built-in method ".toList ++ name ++ placeText memory taken

def wrapperText (name : Text) (taken : Thing) : Text :=
  "<method-wrapper '".toList ++ name ++ '\'' :: placeText memory taken

def heldText (owner : Kind) (name : Text) : Text :=
  "<staticmethod(".toList ++ functionText memory name (.kind owner) ++ ")>".toList

/-- What a kind holds under the name of an attribute, as text. -/
def heldEntry (k : Kind) (a : Attribute) : Text :=
  match a.sort with
  | .fixed => functionText memory a.name (.kind k)
  | .static => heldText memory k a.name
  | .constant =>
    if a.name = "__doc__".toList then (k.about.map Text.quoted).getD "None".toList
    else "None".toList
  | sort => untakenText sort k a.name

/-- All that a kind holds by its names. -/
def entriesText (k : Kind) : Text :=
  '{' :: Text.joined ", ".toList (k.attributes.map fun a =>
    Text.quoted a.name ++ ": ".toList ++ heldEntry memory k a) ++ ['}']

mutual

/-- A thing as text, texts in quotes. -/
def written : Thing → Text
  | .text t => Text.quoted t
  | .whole i => Text.ofInt i
  | .truth b => if b then "True".toList else "False".toList
  | .nothing => "None".toList
  | .tuple xs =>
    match writtenAll xs with
    | [p] => '(' :: p ++ [',', ')']
    | ps => '(' :: Text.joined [',', ' '] ps ++ [')']
  | .kind k => "<class '".toList ++ k.fullName ++ ['\'', '>']
  | .proxy k => "mappingproxy(".toList ++ entriesText memory k ++ [')']
  | .function _ n y => functionText memory n y
  | .wrapper _ n y => wrapperText memory n y
  | .untaken s o n => untakenText s o n
  | .held o n => heldText memory o n
  | .alias k y => k.name ++ '[' :: written y ++ [']']
  | .noEntries => ['{', '}']

def writtenAll : List Thing → List Text
  | [] => []
  | x :: xs => written x :: writtenAll xs

end

/-- A thing as text, a text as it is and what a kind holds without its name. -/
def display : Thing → Text
  | .text t => t
  | .proxy k => entriesText memory k
  | x => written memory x

/-- A thing as text of the first 128 code points only, texts in quotes. -/
def writtenAscii (x : Thing) : Text :=
  (written memory x).flatMap fun c => if c.toNat < 128 then [c] else Text.codePoint c.toNat

end

/-! ## items -/

/-- What an index picks: the text of its name, and the number that it is if it is one. -/
def item (memory : Memory) (x : Thing) (name : Text) (number : Option Nat) :
    Except PlaceholderError Thing :=
  let argument : Thing := match number with
    | some i => .whole i
    | none => .text name
  match x, number with
  | .text t, some i =>
    match t[i]? with
    | some c => .ok (.text [c])
    | none => .error (.indexTooLarge "string".toList)
  | .text _, none => .error .indexNoNumber
  | .tuple xs, some i =>
    match xs[i]? with
    | some y => .ok y
    | none => .error (.indexTooLarge "tuple".toList)
  | .tuple _, none => .error .indexNoWhole
  | .proxy k, none =>
    match k.own? name with
    | some a => .ok (match a.sort with
        | .shared => .untaken .shared k a.name
        | .static => .held k a.name
        | _ => k.raw k a)
    | none => .error (.noEntry (argument.written memory))
  | .proxy _, some _ | .noEntries, _ => .error (.noEntry (argument.written memory))
  | .kind k, _ =>
    if k = .kind ∨ (k.own? "__class_getitem__".toList).isSome then .ok (.alias k argument)
    else .error (.noItems ("type '".toList ++ k.fullName ++ ['\'']))
  | .alias k y, _ => .error (.notGeneric ((Thing.alias k y).written memory))
  | x, _ => .error (.noItems ('\'' :: x.kindOf.fullName ++ "' object".toList))

end Thing
end Citations
