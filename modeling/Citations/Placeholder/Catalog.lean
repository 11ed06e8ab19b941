import Citations.Placeholder.Kind

/-!
# The attributes of each kind

Which attributes the things of a kind have, of which sort each is, what it says about itself and
what it takes.

* `operators`            what the operators say, which is the same for every kind;
* `Kind.attributes`      the attributes that are of the kind itself;
* `Kind.about`           what a kind says about itself.
-/

namespace Citations

namespace Attribute

/-- The operators: what they do, and what they take. -/
def operators : List (String × String × String) := [
  ("__repr__", "Return repr(self).", "($self, /)"),
  ("__hash__", "Return hash(self).", "($self, /)"),
  ("__str__", "Return str(self).", "($self, /)"),
  ("__getattribute__", "Return getattr(self, name).", "($self, name, /)"),
  ("__lt__", "Return self<value.", "($self, value, /)"),
  ("__le__", "Return self<=value.", "($self, value, /)"),
  ("__eq__", "Return self==value.", "($self, value, /)"),
  ("__ne__", "Return self!=value.", "($self, value, /)"),
  ("__gt__", "Return self>value.", "($self, value, /)"),
  ("__ge__", "Return self>=value.", "($self, value, /)"),
  ("__iter__", "Implement iter(self).", "($self, /)"),
  ("__mod__", "Return self%value.", "($self, value, /)"),
  ("__rmod__", "Return value%self.", "($self, value, /)"),
  ("__len__", "Return len(self).", "($self, /)"),
  ("__getitem__", "Return self[key].", "($self, key, /)"),
  ("__add__", "Return self+value.", "($self, value, /)"),
  ("__mul__", "Return self*value.", "($self, value, /)"),
  ("__rmul__", "Return value*self.", "($self, value, /)"),
  ("__contains__", "Return key in self.", "($self, key, /)"),
  ("__setattr__", "Implement setattr(self, name, value).", "($self, name, value, /)"),
  ("__delattr__", "Implement delattr(self, name).", "($self, name, /)"),
  ("__init__",
    "Initialize self.  See help(type(self)) for accurate signature.",
    "($self, /, *args, **kwargs)"),
  ("__call__", "Call self as a function.", "($self, /, *args, **kwargs)"),
  ("__or__", "Return self|value.", "($self, value, /)"),
  ("__ror__", "Return value|self.", "($self, value, /)"),
  ("__radd__", "Return value+self.", "($self, value, /)"),
  ("__sub__", "Return self-value.", "($self, value, /)"),
  ("__rsub__", "Return value-self.", "($self, value, /)"),
  ("__divmod__", "Return divmod(self, value).", "($self, value, /)"),
  ("__rdivmod__", "Return divmod(value, self).", "($self, value, /)"),
  ("__pow__", "Return pow(self, value, mod).", "($self, value, mod=None, /)"),
  ("__rpow__", "Return pow(value, self, mod).", "($self, value, mod=None, /)"),
  ("__neg__", "-self", "($self, /)"),
  ("__pos__", "+self", "($self, /)"),
  ("__abs__", "abs(self)", "($self, /)"),
  ("__bool__", "True if self else False", "($self, /)"),
  ("__invert__", "~self", "($self, /)"),
  ("__lshift__", "Return self<<value.", "($self, value, /)"),
  ("__rlshift__", "Return value<<self.", "($self, value, /)"),
  ("__rshift__", "Return self>>value.", "($self, value, /)"),
  ("__rrshift__", "Return value>>self.", "($self, value, /)"),
  ("__and__", "Return self&value.", "($self, value, /)"),
  ("__rand__", "Return value&self.", "($self, value, /)"),
  ("__xor__", "Return self^value.", "($self, value, /)"),
  ("__rxor__", "Return value^self.", "($self, value, /)"),
  ("__int__", "int(self)", "($self, /)"),
  ("__float__", "float(self)", "($self, /)"),
  ("__floordiv__", "Return self//value.", "($self, value, /)"),
  ("__rfloordiv__", "Return value//self.", "($self, value, /)"),
  ("__truediv__", "Return self/value.", "($self, value, /)"),
  ("__rtruediv__", "Return value/self.", "($self, value, /)"),
  ("__index__",
    "Return self converted to an integer, if self is suitable for use as an index into a list.",
    "($self, /)"),
  ("__get__",
    "Return an attribute of instance, which is of type owner.",
    "($self, instance, owner=None, /)"),
  ("__set__", "Set an attribute of instance to value.", "($self, instance, value, /)"),
  ("__delete__", "Delete an attribute of instance.", "($self, instance, /)"),
  ("__ior__", "Return self|=value.", "($self, value, /)"),
  ("__setitem__", "Set self[key] to value.", "($self, key, value, /)"),
  ("__delitem__", "Delete self[key].", "($self, key, /)")]

def textOfLines (lines : List String) : Text := Text.joined ['\n'] (lines.map String.toList)

/-- An attribute that says what stands in the lines, or nothing where there are none. -/
def make (sort : AttributeSort) (name : String) (lines : List String) (takes : String) :
    Attribute where
  name := name.toList
  sort := sort
  about := if lines = [] then none else some (textOfLines lines)
  takes := if takes = "" then none else some takes.toList

/-- The operators of the given names. -/
def operatorsNamed (names : List String) : List Attribute :=
  names.filterMap fun n =>
    (operators.find? fun o => o.1 == n).map fun o => make .slot o.1 [o.2.1] o.2.2

/-- Attributes of one sort that say nothing about themselves. -/
def silent (sort : AttributeSort) (names : List String) : List Attribute :=
  names.map fun n => make sort n [] ""

/-- What makes things of a kind. -/
def maker : Attribute :=
  make .fixed "__new__"
    ["Create and return a new object.  See help(type) for accurate signature."]
    "($type, *args, **kwargs)"

end Attribute

namespace Kind
open Attribute

def textAttributes : List Attribute :=
  [maker] ++
    operatorsNamed
      ["__repr__", "__hash__", "__str__", "__getattribute__", "__lt__", "__le__", "__eq__",
       "__ne__", "__gt__", "__ge__", "__iter__", "__mod__", "__rmod__", "__len__", "__getitem__",
       "__add__", "__mul__", "__rmul__", "__contains__"] ++
    [
      make .method "encode" [
        "Encode the string using the codec registered for encoding.",
        "",
        "  encoding",
        "    The encoding in which to encode the string.",
        "  errors",
        "    The error handling scheme to use for encoding errors.",
        "    The default is 'strict' meaning that encoding errors raise a",
        "    UnicodeEncodeError.  Other possible values are 'ignore', 'replace' and",
        "    'xmlcharrefreplace' as well as any other name registered with",
        "    codecs.register_error that can handle UnicodeEncodeErrors."]
        "($self, /, encoding='utf-8', errors='strict')",
      make .method "replace" [
        "Return a copy with all occurrences of substring old replaced by new.",
        "",
        "  count",
        "    Maximum number of occurrences to replace.",
        "    -1 (the default value) means replace all occurrences.",
        "",
        "If the optional argument count is given, only the first count occurrences are",
        "replaced."]
        "($self, old, new, count=-1, /)",
      make .method "split" [
        "Return a list of the substrings in the string, using sep as the separator string.",
        "",
        "  sep",
        "    The separator used to split the string.",
        "",
        "    When set to None (the default value), will split on any whitespace",
        "    character (including \\n \\r \\t \\f and spaces) and will discard",
        "    empty strings from the result.",
        "  maxsplit",
        "    Maximum number of splits.",
        "    -1 (the default value) means no limit.",
        "",
        "Splitting starts at the front of the string and works to the end.",
        "",
        "Note, str.split() is mainly useful for data that has been intentionally",
        "delimited.  With natural text that includes punctuation, consider using",
        "the regular expression module."]
        "($self, /, sep=None, maxsplit=-1)",
      make .method "rsplit" [
        "Return a list of the substrings in the string, using sep as the separator string.",
        "",
        "  sep",
        "    The separator used to split the string.",
        "",
        "    When set to None (the default value), will split on any whitespace",
        "    character (including \\n \\r \\t \\f and spaces) and will discard",
        "    empty strings from the result.",
        "  maxsplit",
        "    Maximum number of splits.",
        "    -1 (the default value) means no limit.",
        "",
        "Splitting starts at the end of the string and works to the front."]
        "($self, /, sep=None, maxsplit=-1)",
      make .method "join" [
        "Concatenate any number of strings.",
        "",
        "The string whose method is called is inserted in between each given string.",
        "The result is returned as a new string.",
        "",
        "Example: '.'.join(['ab', 'pq', 'rs']) -> 'ab.pq.rs'"]
        "($self, iterable, /)",
      make .method "capitalize" [
        "Return a capitalized version of the string.",
        "",
        "More specifically, make the first character have upper case and the rest lower",
        "case."]
        "($self, /)",
      make .method "casefold" [
        "Return a version of the string suitable for caseless comparisons."]
        "($self, /)",
      make .method "title" [
        "Return a version of the string where each word is titlecased.",
        "",
        "More specifically, words start with uppercased characters and all remaining",
        "cased characters have lower case."]
        "($self, /)",
      make .method "center" [
        "Return a centered string of length width.",
        "",
        "Padding is done using the specified fill character (default is a space)."]
        "($self, width, fillchar=' ', /)",
      make .method "count" [
        "S.count(sub[, start[, end]]) -> int",
        "",
        "Return the number of non-overlapping occurrences of substring sub in",
        "string S[start:end].  Optional arguments start and end are",
        "interpreted as in slice notation."]
        "",
      make .method "expandtabs" [
        "Return a copy where all tab characters are expanded using spaces.",
        "",
        "If tabsize is not given, a tab size of 8 characters is assumed."]
        "($self, /, tabsize=8)",
      make .method "find" [
        "S.find(sub[, start[, end]]) -> int",
        "",
        "Return the lowest index in S where substring sub is found,",
        "such that sub is contained within S[start:end].  Optional",
        "arguments start and end are interpreted as in slice notation.",
        "",
        "Return -1 on failure."]
        "",
      make .method "partition" [
        "Partition the string into three parts using the given separator.",
        "",
        "This will search for the separator in the string.  If the separator is found,",
        "returns a 3-tuple containing the part before the separator, the separator",
        "itself, and the part after it.",
        "",
        "If the separator is not found, returns a 3-tuple containing the original string",
        "and two empty strings."]
        "($self, sep, /)",
      make .method "index" [
        "S.index(sub[, start[, end]]) -> int",
        "",
        "Return the lowest index in S where substring sub is found,",
        "such that sub is contained within S[start:end].  Optional",
        "arguments start and end are interpreted as in slice notation.",
        "",
        "Raises ValueError when the substring is not found."]
        "",
      make .method "ljust" [
        "Return a left-justified string of length width.",
        "",
        "Padding is done using the specified fill character (default is a space)."]
        "($self, width, fillchar=' ', /)",
      make .method "lower" ["Return a copy of the string converted to lowercase."] "($self, /)",
      make .method "lstrip" [
        "Return a copy of the string with leading whitespace removed.",
        "",
        "If chars is given and not None, remove characters in chars instead."]
        "($self, chars=None, /)",
      make .method "rfind" [
        "S.rfind(sub[, start[, end]]) -> int",
        "",
        "Return the highest index in S where substring sub is found,",
        "such that sub is contained within S[start:end].  Optional",
        "arguments start and end are interpreted as in slice notation.",
        "",
        "Return -1 on failure."]
        "",
      make .method "rindex" [
        "S.rindex(sub[, start[, end]]) -> int",
        "",
        "Return the highest index in S where substring sub is found,",
        "such that sub is contained within S[start:end].  Optional",
        "arguments start and end are interpreted as in slice notation.",
        "",
        "Raises ValueError when the substring is not found."]
        "",
      make .method "rjust" [
        "Return a right-justified string of length width.",
        "",
        "Padding is done using the specified fill character (default is a space)."]
        "($self, width, fillchar=' ', /)",
      make .method "rstrip" [
        "Return a copy of the string with trailing whitespace removed.",
        "",
        "If chars is given and not None, remove characters in chars instead."]
        "($self, chars=None, /)",
      make .method "rpartition" [
        "Partition the string into three parts using the given separator.",
        "",
        "This will search for the separator in the string, starting at the end. If",
        "the separator is found, returns a 3-tuple containing the part before the",
        "separator, the separator itself, and the part after it.",
        "",
        "If the separator is not found, returns a 3-tuple containing two empty strings",
        "and the original string."]
        "($self, sep, /)",
      make .method "splitlines" [
        "Return a list of the lines in the string, breaking at line boundaries.",
        "",
        "Line breaks are not included in the resulting list unless keepends is given and",
        "true."]
        "($self, /, keepends=False)",
      make .method "strip" [
        "Return a copy of the string with leading and trailing whitespace removed.",
        "",
        "If chars is given and not None, remove characters in chars instead."]
        "($self, chars=None, /)",
      make .method "swapcase" [
        "Convert uppercase characters to lowercase and lowercase characters to uppercase."]
        "($self, /)",
      make .method "translate" [
        "Replace each character in the string using the given translation table.",
        "",
        "  table",
        "    Translation table, which must be a mapping of Unicode ordinals to",
        "    Unicode ordinals, strings, or None.",
        "",
        "The table must implement lookup/indexing via __getitem__, for instance a",
        "dictionary or list.  If this operation raises LookupError, the character is",
        "left untouched.  Characters mapped to None are deleted."]
        "($self, table, /)",
      make .method "upper" ["Return a copy of the string converted to uppercase."] "($self, /)",
      make .method "startswith" [
        "S.startswith(prefix[, start[, end]]) -> bool",
        "",
        "Return True if S starts with the specified prefix, False otherwise.",
        "With optional start, test S beginning at that position.",
        "With optional end, stop comparing S at that position.",
        "prefix can also be a tuple of strings to try."]
        "",
      make .method "endswith" [
        "S.endswith(suffix[, start[, end]]) -> bool",
        "",
        "Return True if S ends with the specified suffix, False otherwise.",
        "With optional start, test S beginning at that position.",
        "With optional end, stop comparing S at that position.",
        "suffix can also be a tuple of strings to try."]
        "",
      make .method "removeprefix" [
        "Return a str with the given prefix string removed if present.",
        "",
        "If the string starts with the prefix string, return string[len(prefix):].",
        "Otherwise, return a copy of the original string."]
        "($self, prefix, /)",
      make .method "removesuffix" [
        "Return a str with the given suffix string removed if present.",
        "",
        "If the string ends with the suffix string and that suffix is not empty,",
        "return string[:-len(suffix)]. Otherwise, return a copy of the original",
        "string."]
        "($self, suffix, /)",
      make .method "isascii" [
        "Return True if all characters in the string are ASCII, False otherwise.",
        "",
        "ASCII characters have code points in the range U+0000-U+007F.",
        "Empty string is ASCII too."]
        "($self, /)",
      make .method "islower" [
        "Return True if the string is a lowercase string, False otherwise.",
        "",
        "A string is lowercase if all cased characters in the string are lowercase and",
        "there is at least one cased character in the string."]
        "($self, /)",
      make .method "isupper" [
        "Return True if the string is an uppercase string, False otherwise.",
        "",
        "A string is uppercase if all cased characters in the string are uppercase and",
        "there is at least one cased character in the string."]
        "($self, /)",
      make .method "istitle" [
        "Return True if the string is a title-cased string, False otherwise.",
        "",
        "In a title-cased string, upper- and title-case characters may only",
        "follow uncased characters and lowercase characters only cased ones."]
        "($self, /)",
      make .method "isspace" [
        "Return True if the string is a whitespace string, False otherwise.",
        "",
        "A string is whitespace if all characters in the string are whitespace and there",
        "is at least one character in the string."]
        "($self, /)",
      make .method "isdecimal" [
        "Return True if the string is a decimal string, False otherwise.",
        "",
        "A string is a decimal string if all characters in the string are decimal and",
        "there is at least one character in the string."]
        "($self, /)",
      make .method "isdigit" [
        "Return True if the string is a digit string, False otherwise.",
        "",
        "A string is a digit string if all characters in the string are digits and there",
        "is at least one character in the string."]
        "($self, /)",
      make .method "isnumeric" [
        "Return True if the string is a numeric string, False otherwise.",
        "",
        "A string is numeric if all characters in the string are numeric and there is at",
        "least one character in the string."]
        "($self, /)",
      make .method "isalpha" [
        "Return True if the string is an alphabetic string, False otherwise.",
        "",
        "A string is alphabetic if all characters in the string are alphabetic and there",
        "is at least one character in the string."]
        "($self, /)",
      make .method "isalnum" [
        "Return True if the string is an alpha-numeric string, False otherwise.",
        "",
        "A string is alpha-numeric if all characters in the string are alpha-numeric and",
        "there is at least one character in the string."]
        "($self, /)",
      make .method "isidentifier" [
        "Return True if the string is a valid Python identifier, False otherwise.",
        "",
        "Call keyword.iskeyword(s) to test whether string s is a reserved identifier,",
        "such as \"def\" or \"class\"."]
        "($self, /)",
      make .method "isprintable" [
        "Return True if the string is printable, False otherwise.",
        "",
        "A string is printable if all of its characters are considered printable in",
        "repr() or if it is empty."]
        "($self, /)",
      make .method "zfill" [
        "Pad a numeric string with zeros on the left, to fill a field of the given width.",
        "",
        "The string is never truncated."]
        "($self, width, /)",
      make .method "format" [
        "S.format(*args, **kwargs) -> str",
        "",
        "Return a formatted version of S, using substitutions from args and kwargs.",
        "The substitutions are identified by braces ('\x7b' and '\x7d')."]
        "",
      make .method "format_map" [
        "S.format_map(mapping) -> str",
        "",
        "Return a formatted version of S, using substitutions from mapping.",
        "The substitutions are identified by braces ('\x7b' and '\x7d')."]
        "",
      make .method "__format__" [
        "Return a formatted version of the string as described by format_spec."]
        "($self, format_spec, /)",
      make .static "maketrans" [
        "Return a translation table usable for str.translate().",
        "",
        "If there is only one argument, it must be a dictionary mapping Unicode",
        "ordinals (integers) or characters to Unicode ordinals, strings or None.",
        "Character keys will be then converted to ordinals.",
        "If there are two arguments, they must be strings of equal length, and",
        "in the resulting dictionary, each character in x will be mapped to the",
        "character at the same position in y. If there is a third argument, it",
        "must be a string, whose characters will be mapped to None in the result."]
        "(x, y=<unrepresentable>, z=<unrepresentable>, /)",
      make .method "__sizeof__" ["Return the size of the string in memory, in bytes."]
        "($self, /)"] ++
    silent .method ["__getnewargs__"] ++
    silent .constant ["__doc__"]

def objectAttributes : List Attribute :=
  [maker] ++
    operatorsNamed
      ["__repr__", "__hash__", "__str__", "__getattribute__", "__setattr__", "__delattr__",
       "__lt__", "__le__", "__eq__", "__ne__", "__gt__", "__ge__", "__init__"] ++
    [
      make .method "__reduce_ex__" ["Helper for pickle."] "($self, protocol, /)",
      make .method "__reduce__" ["Helper for pickle."] "($self, /)",
      make .method "__getstate__" ["Helper for pickle."] "($self, /)",
      make .shared "__subclasshook__" [
        "Abstract classes can override this to customize issubclass().",
        "",
        "This is invoked early on by abc.ABCMeta.__subclasscheck__().",
        "It should return True, False or NotImplemented.  If it returns",
        "NotImplemented, the normal algorithm is used.  Otherwise, it",
        "overrides the normal algorithm (and the outcome is cached).",
        ""]
        "",
      make .shared "__init_subclass__" [
        "This method is called when a class is subclassed.",
        "",
        "The default implementation does nothing. It may be",
        "overridden to extend subclasses.",
        ""]
        "",
      make .method "__format__" ["Default object formatter."] "($self, format_spec, /)",
      make .method "__sizeof__" ["Size of object in memory, in bytes."] "($self, /)",
      make .method "__dir__" ["Default dir() implementation."] "($self, /)",
      make .field "__class__" ["the object's class"] ""] ++
    silent .constant ["__doc__"]

def kindAttributes : List Attribute :=
  [maker] ++
    operatorsNamed
      ["__repr__", "__call__", "__getattribute__", "__setattr__", "__delattr__", "__init__",
       "__or__", "__ror__"] ++
    [
      make .method "mro" ["Return a type's method resolution order."] "($self, /)",
      make .method "__subclasses__" ["Return a list of immediate subclasses."] "($self, /)",
      make .shared "__prepare__" [
        "__prepare__() -> dict",
        "used to create the namespace for the class statement"]
        "",
      make .method "__instancecheck__" ["Check if an object is an instance."]
        "($self, instance, /)",
      make .method "__subclasscheck__" ["Check if a class is a subclass."] "($self, subclass, /)",
      make .method "__dir__" ["Specialized __dir__ implementation for types."] "($self, /)",
      make .method "__sizeof__" ["Return memory consumption of the type object."] "($self, /)"] ++
    silent .member
      ["__basicsize__", "__itemsize__", "__flags__", "__weakrefoffset__", "__base__",
       "__dictoffset__", "__mro__"] ++
    silent .field
      ["__name__", "__qualname__", "__bases__", "__module__", "__abstractmethods__", "__dict__",
       "__doc__", "__text_signature__", "__annotations__"]

def tupleAttributes : List Attribute :=
  [maker] ++
    operatorsNamed
      ["__repr__", "__hash__", "__getattribute__", "__lt__", "__le__", "__eq__", "__ne__",
       "__gt__", "__ge__", "__iter__", "__len__", "__getitem__", "__add__", "__mul__", "__rmul__",
       "__contains__"] ++
    [
      make .method "__getnewargs__" [] "($self, /)",
      make .method "index" [
        "Return first index of value.",
        "",
        "Raises ValueError if the value is not present."]
        "($self, value, start=0, stop=sys.maxsize, /)",
      make .method "count" ["Return number of occurrences of value."] "($self, value, /)",
      make .shared "__class_getitem__" ["See PEP 585"] ""] ++
    silent .constant ["__doc__"]

def wholeAttributes : List Attribute :=
  [maker] ++
    operatorsNamed
      ["__repr__", "__hash__", "__getattribute__", "__lt__", "__le__", "__eq__", "__ne__",
       "__gt__", "__ge__", "__add__", "__radd__", "__sub__", "__rsub__", "__mul__", "__rmul__",
       "__mod__", "__rmod__", "__divmod__", "__rdivmod__", "__pow__", "__rpow__", "__neg__",
       "__pos__", "__abs__", "__bool__", "__invert__", "__lshift__", "__rlshift__", "__rshift__",
       "__rrshift__", "__and__", "__rand__", "__xor__", "__rxor__", "__or__", "__ror__", "__int__",
       "__float__", "__floordiv__", "__rfloordiv__", "__truediv__", "__rtruediv__", "__index__"] ++
    [
      make .method "conjugate" ["Returns self, the complex conjugate of any int."] "",
      make .method "bit_length" [
        "Number of bits necessary to represent self in binary.",
        "",
        ">>> bin(37)",
        "'0b100101'",
        ">>> (37).bit_length()",
        "6"]
        "($self, /)",
      make .method "bit_count" [
        "Number of ones in the binary representation of the absolute value of self.",
        "",
        "Also known as the population count.",
        "",
        ">>> bin(13)",
        "'0b1101'",
        ">>> (13).bit_count()",
        "3"]
        "($self, /)",
      make .method "to_bytes" [
        "Return an array of bytes representing an integer.",
        "",
        "  length",
        "    Length of bytes object to use.  An OverflowError is raised if the",
        "    integer is not representable with the given number of bytes.  Default",
        "    is length 1.",
        "  byteorder",
        "    The byte order used to represent the integer.  If byteorder is 'big',",
        "    the most significant byte is at the beginning of the byte array.  If",
        "    byteorder is 'little', the most significant byte is at the end of the",
        "    byte array.  To request the native byte order of the host system, use",
        "    `sys.byteorder' as the byte order value.  Default is to use 'big'.",
        "  signed",
        "    Determines whether two's complement is used to represent the integer.",
        "    If signed is False and a negative integer is given, an OverflowError",
        "    is raised."]
        "($self, /, length=1, byteorder='big', *, signed=False)",
      make .shared "from_bytes" [
        "Return the integer represented by the given array of bytes.",
        "",
        "  bytes",
        "    Holds the array of bytes to convert.  The argument must either",
        "    support the buffer protocol or be an iterable object producing bytes.",
        "    Bytes and bytearray are examples of built-in objects that support the",
        "    buffer protocol.",
        "  byteorder",
        "    The byte order used to represent the integer.  If byteorder is 'big',",
        "    the most significant byte is at the beginning of the byte array.  If",
        "    byteorder is 'little', the most significant byte is at the end of the",
        "    byte array.  To request the native byte order of the host system, use",
        "    `sys.byteorder' as the byte order value.  Default is to use 'big'.",
        "  signed",
        "    Indicates whether two's complement is used to represent the integer."]
        "($type, /, bytes, byteorder='big', *, signed=False)",
      make .method "as_integer_ratio" [
        "Return integer ratio.",
        "",
        "Return a pair of integers, whose ratio is exactly equal to the original int",
        "and with a positive denominator.",
        "",
        ">>> (10).as_integer_ratio()",
        "(10, 1)",
        ">>> (-10).as_integer_ratio()",
        "(-10, 1)",
        ">>> (0).as_integer_ratio()",
        "(0, 1)"]
        "($self, /)",
      make .method "__trunc__" ["Truncating an Integral returns itself."] "",
      make .method "__floor__" ["Flooring an Integral returns itself."] "",
      make .method "__ceil__" ["Ceiling of an Integral returns itself."] "",
      make .method "__round__" [
        "Rounding an Integral returns itself.",
        "",
        "Rounding with an ndigits argument also returns an integer."]
        "($self, ndigits=<unrepresentable>, /)",
      make .method "__getnewargs__" [] "($self, /)",
      make .method "__format__" [] "($self, format_spec, /)",
      make .method "__sizeof__" ["Returns size in memory, in bytes."] "($self, /)",
      make .field "real" ["the real part of a complex number"] "",
      make .field "imag" ["the imaginary part of a complex number"] "",
      make .field "numerator" ["the numerator of a rational number in lowest terms"] "",
      make .field "denominator" ["the denominator of a rational number in lowest terms"] ""] ++
    silent .constant ["__doc__"]

def nothingAttributes : List Attribute :=
  [maker] ++
    operatorsNamed
      ["__repr__", "__bool__"] ++
    silent .constant ["__doc__"]

def functionAttributes : List Attribute :=
  operatorsNamed
      ["__repr__", "__hash__", "__call__", "__getattribute__", "__lt__", "__le__", "__eq__",
       "__ne__", "__gt__", "__ge__"] ++
    silent .method ["__reduce__"] ++
    silent .member ["__module__"] ++
    silent .field ["__doc__", "__name__", "__qualname__", "__self__", "__text_signature__"]

def wrapperAttributes : List Attribute :=
  operatorsNamed
      ["__repr__", "__hash__", "__call__", "__getattribute__", "__lt__", "__le__", "__eq__",
       "__ne__", "__gt__", "__ge__"] ++
    silent .method ["__reduce__"] ++
    silent .member ["__self__"] ++
    silent .field
      ["__objclass__", "__name__", "__qualname__", "__doc__", "__text_signature__"]

def methodAttributes : List Attribute :=
  operatorsNamed
      ["__repr__", "__call__", "__getattribute__", "__get__"] ++
    silent .method ["__reduce__"] ++
    silent .member ["__objclass__", "__name__"] ++
    silent .field ["__doc__", "__qualname__", "__text_signature__"]

def slotAttributes : List Attribute :=
  operatorsNamed
      ["__repr__", "__call__", "__getattribute__", "__get__"] ++
    silent .method ["__reduce__"] ++
    silent .member ["__objclass__", "__name__"] ++
    silent .field ["__doc__", "__qualname__", "__text_signature__"]

def fieldAttributes : List Attribute :=
  operatorsNamed
      ["__repr__", "__getattribute__", "__get__", "__set__", "__delete__"] ++
    silent .member ["__objclass__", "__name__"] ++
    silent .field ["__doc__", "__qualname__"]

def memberAttributes : List Attribute :=
  operatorsNamed
      ["__repr__", "__getattribute__", "__get__", "__set__", "__delete__"] ++
    silent .method ["__reduce__"] ++
    silent .member ["__objclass__", "__name__"] ++
    silent .field ["__doc__", "__qualname__"]

def sharedAttributes : List Attribute :=
  operatorsNamed
      ["__repr__", "__call__", "__getattribute__", "__get__"] ++
    silent .member ["__objclass__", "__name__"] ++
    silent .field ["__doc__", "__qualname__", "__text_signature__"]

def proxyAttributes : List Attribute :=
  [maker] ++
    operatorsNamed
      ["__repr__", "__str__", "__getattribute__", "__lt__", "__le__", "__eq__", "__ne__", "__gt__",
       "__ge__", "__iter__", "__or__", "__ror__", "__ior__", "__len__", "__getitem__",
       "__contains__"] ++
    [
      make .method "get" [
        "D.get(k[,d]) -> D[k] if k in D, else d.  d defaults to None."]
        "",
      make .method "keys" ["D.keys() -> a set-like object providing a view on D's keys"] "",
      make .method "values" ["D.values() -> an object providing a view on D's values"] "",
      make .method "items" [
        "D.items() -> a set-like object providing a view on D's items"]
        "",
      make .method "copy" ["D.copy() -> a shallow copy of D"] "",
      make .shared "__class_getitem__" ["See PEP 585"] "",
      make .method "__reversed__" ["D.__reversed__() -> reverse iterator"] ""] ++
    silent .constant ["__doc__", "__hash__"]

def aliasAttributes : List Attribute :=
  [maker] ++
    operatorsNamed
      ["__repr__", "__hash__", "__call__", "__getattribute__", "__lt__", "__le__", "__eq__",
       "__ne__", "__gt__", "__ge__", "__iter__", "__or__", "__ror__", "__getitem__"] ++
    silent .method
      ["__mro_entries__", "__instancecheck__", "__subclasscheck__", "__reduce__", "__dir__"] ++
    silent .member ["__origin__", "__args__", "__unpacked__"] ++
    [
      make .field "__parameters__" ["Type variables in the GenericAlias."] ""] ++
    silent .field ["__typing_unpacked_tuple_args__"] ++
    silent .constant ["__doc__"]

def heldAttributes : List Attribute :=
  [maker] ++
    operatorsNamed ["__repr__", "__call__", "__get__", "__init__"] ++
    silent .member ["__func__", "__wrapped__"] ++
    silent .field ["__isabstractmethod__", "__dict__"] ++
    silent .constant ["__doc__"]

def truthAttributes : List Attribute :=
  [maker] ++
    operatorsNamed
      ["__repr__", "__and__", "__rand__", "__xor__", "__rxor__", "__or__", "__ror__"] ++
    silent .constant ["__doc__"]

def mappingAttributes : List Attribute :=
  [maker] ++
    operatorsNamed ["__repr__"] ++
    silent .constant ["__hash__"] ++
    operatorsNamed
      ["__getattribute__", "__lt__", "__le__", "__eq__", "__ne__", "__gt__", "__ge__", "__iter__",
       "__init__", "__or__", "__ror__", "__ior__", "__len__"] ++
    [
      make .method "__getitem__" ["x.__getitem__(y) <==> x[y]"] ""] ++
    operatorsNamed ["__setitem__", "__delitem__"] ++
    [
      make .method "__contains__" ["True if the dictionary has the specified key, else False."]
        "($self, key, /)",
      make .method "__sizeof__" ["D.__sizeof__() -> size of D in memory, in bytes"] "",
      make .method "get" ["Return the value for key if key is in the dictionary, else default."]
        "($self, key, default=None, /)",
      make .method "setdefault" [
        "Insert key with a value of default if key is not in the dictionary.",
        "",
        "Return the value for key if key is in the dictionary, else default."]
        "($self, key, default=None, /)",
      make .method "pop" [
        "D.pop(k[,d]) -> v, remove specified key and return the corresponding value.",
        "",
        "If the key is not found, return the default if given; otherwise,",
        "raise a KeyError."]
        "($self, key, default=<unrepresentable>, /)",
      make .method "popitem" [
        "Remove and return a (key, value) pair as a 2-tuple.",
        "",
        "Pairs are returned in LIFO (last-in, first-out) order.",
        "Raises KeyError if the dict is empty."]
        "($self, /)",
      make .method "keys" ["D.keys() -> a set-like object providing a view on D's keys"] "",
      make .method "items" ["D.items() -> a set-like object providing a view on D's items"] "",
      make .method "values" ["D.values() -> an object providing a view on D's values"] "",
      make .method "update" [
        "D.update([E, ]**F) -> None.  Update D from dict/iterable E and F.",
        "If E is present and has a .keys() method, then does:  for k in E: D[k] = E[k]",
        "If E is present and lacks a .keys() method, then does:  for k, v in E: D[k] = v",
        "In either case, this is followed by: for k in F:  D[k] = F[k]"]
        "",
      make .shared "fromkeys" [
        "Create a new dictionary with keys from iterable and values set to value."]
        "($type, iterable, value=None, /)",
      make .method "clear" ["D.clear() -> None.  Remove all items from D."] "",
      make .method "copy" ["D.copy() -> a shallow copy of D"] "",
      make .method "__reversed__" ["Return a reverse iterator over the dict keys."] "($self, /)",
      make .shared "__class_getitem__" ["See PEP 585"] ""] ++
    silent .constant ["__doc__"]

/-- The attributes that are of a kind itself, in their order there. -/
def attributes : Kind → List Attribute
  | .text => textAttributes
  | .object => objectAttributes
  | .kind => kindAttributes
  | .tuple => tupleAttributes
  | .whole => wholeAttributes
  | .nothing => nothingAttributes
  | .function => functionAttributes
  | .wrapper => wrapperAttributes
  | .method => methodAttributes
  | .slot => slotAttributes
  | .field => fieldAttributes
  | .member => memberAttributes
  | .shared => sharedAttributes
  | .proxy => proxyAttributes
  | .alias => aliasAttributes
  | .held => heldAttributes
  | .truth => truthAttributes
  | .mapping => mappingAttributes

/-- What a kind says about itself, if it says anything. -/
def about : Kind → Option Text
  | .text => some (textOfLines [
      "str(object='') -> str",
      "str(bytes_or_buffer[, encoding[, errors]]) -> str",
      "",
      "Create a new string object from the given object. If encoding or",
      "errors is specified, then the object must expose a data buffer",
      "that will be decoded using the given encoding and error handler.",
      "Otherwise, returns the result of object.__str__() (if defined)",
      "or repr(object).",
      "encoding defaults to sys.getdefaultencoding().",
      "errors defaults to 'strict'."])
  | .object => some (textOfLines [
      "The base class of the class hierarchy.",
      "",
      "When called, it accepts no arguments and returns a new featureless",
      "instance that has no instance attributes and cannot be given any.",
      ""])
  | .kind => some (textOfLines [
      "type(object) -> the object's type",
      "type(name, bases, dict, **kwds) -> a new type"])
  | .tuple => some (textOfLines [
      "Built-in immutable sequence.",
      "",
      "If no argument is given, the constructor returns an empty tuple.",
      "If iterable is specified the tuple is initialized from iterable's items.",
      "",
      "If the argument is a tuple, the return value is the same object."])
  | .whole => some (textOfLines [
      "int([x]) -> integer",
      "int(x, base=10) -> integer",
      "",
      "Convert a number or string to an integer, or return 0 if no arguments",
      "are given.  If x is a number, return x.__int__().  For floating point",
      "numbers, this truncates towards zero.",
      "",
      "If x is not a number or if base is given, then x must be a string,",
      "bytes, or bytearray instance representing an integer literal in the",
      "given base.  The literal can be preceded by '+' or '-' and be surrounded",
      "by whitespace.  The base defaults to 10.  Valid bases are 0 and 2-36.",
      "Base 0 means to interpret the base from the string as an integer literal.",
      ">>> int('0b100', base=0)",
      "4"])
  | .alias => some (textOfLines [
      "Represent a PEP 585 generic type",
      "",
      "E.g. for t = list[int], t.__origin__ is list and t.__args__ is (int,)."])
  | .held => some (textOfLines [
      "staticmethod(function) -> method",
      "",
      "Convert a function to be a static method.",
      "",
      "A static method does not receive an implicit first argument.",
      "To declare a static method, use this idiom:",
      "",
      "     class C:",
      "         @staticmethod",
      "         def f(arg1, arg2, argN):",
      "             ...",
      "",
      "It can be called either on the class (e.g. C.f()) or on an instance",
      "(e.g. C().f()). Both the class and the instance are ignored, and",
      "neither is passed implicitly as the first argument to the method.",
      "",
      "Static methods in Python are similar to those found in Java or C++.",
      "For a more advanced concept, see the classmethod builtin."])
  | .truth => some (textOfLines [
      "bool(x) -> bool",
      "",
      "Returns True when the argument x is true, False otherwise.",
      "The builtins True and False are the only two instances of the class bool.",
      "The class bool is a subclass of the class int, and cannot be subclassed."])
  | .mapping => some (textOfLines [
      "dict() -> new empty dictionary",
      "dict(mapping) -> new dictionary initialized from a mapping object's",
      "    (key, value) pairs",
      "dict(iterable) -> new dictionary initialized as if via:",
      "    d = \x7b\x7d",
      "    for k, v in iterable:",
      "        d[k] = v",
      "dict(**kwargs) -> new dictionary initialized with the name=value pairs",
      "    in the keyword argument list.  For example:  dict(one=1, two=2)"])
  | _ => none

/-- What making a thing of a kind takes, if it tells. -/
def takes : Kind → Option Text
  | .object => some "()".toList
  | .tuple => some "(iterable=(), /)".toList
  | _ => none

end Kind
end Citations
