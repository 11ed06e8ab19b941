import Citations.Text.Quoted

/-!
# What can be wrong with a placeholder

A placeholder is a pattern that names the key of an unresolved token.  `PlaceholderError` lists
the ways in which filling one fails, `PlaceholderError.message` the wording.
-/

namespace Citations

inductive PlaceholderError where
  /-- a `}` that closes nothing -/
  | strayClosing
  /-- a `{` at the very end -/
  | strayOpening
  /-- a `{` within a field's name -/
  | openingInName
  /-- nothing behind the `!` -/
  | missingConversion
  /-- more than one character behind the `!` -/
  | longConversion
  | unclosedLayout
  | unclosedField
  /-- fields in the layout of a field in a layout -/
  | tooDeep
  | unknownName (name : Text)
  | noPosition (n : Nat)
  | tooManyDigits
  | emptyAccess
  /-- something other than an access behind an index -/
  | afterIndex
  | unclosedIndex
  /-- a thing of a kind has no such attribute -/
  | noAttribute (kind name : Text)
  | noKindAttribute (kind name : Text)
  /-- an attribute that has no value here -/
  | noValue (name : Text)
  | indexNoNumber
  | indexNoWhole
  | indexTooLarge (what : Text)
  /-- nothing stands under this key -/
  | noEntry (shown : Text)
  | noItems (what : Text)
  | notGeneric (shown : Text)
  | unknownConversion (c : Char)
  /-- a layout for things of a kind that have none -/
  | noLayout (kind : Text)
  | sign (space : Bool)
  | negativeZero
  | alternate
  | fillBehindSign
  | bothSeparators
  | separator (separator kind : Char)
  | wholePrecision
  | wholeNegativeZero
  | characterSign
  | characterAlternate
  | noCharacter
  | missingPrecision
  | badLayout (layout kind : Text)
  | unknownKind (c : Char) (kind : Text)
  deriving DecidableEq, Repr

/-- A character in quotes, or its code point where it is no plain one. -/
private def shownChar (c : Char) : Text :=
  if 32 < c.toNat ∧ c.toNat < 128 then ['\'', c, '\'']
  else "'\\x".toList ++ Nat.toDigits 16 c.toNat ++ ['\'']

def PlaceholderError.message : PlaceholderError → Text
  | .strayClosing => "Single '\x7d' encountered in format string".toList
  | .strayOpening => "Single '\x7b' encountered in format string".toList
  | .openingInName => "unexpected '\x7b' in field name".toList
  | .missingConversion => "end of string while looking for conversion specifier".toList
  | .longConversion => "expected ':' after conversion specifier".toList
  | .unclosedLayout => "unmatched '\x7b' in format spec".toList
  | .unclosedField => "expected '\x7d' before end of string".toList
  | .tooDeep => "Max string recursion exceeded".toList
  | .unknownName name => Text.quoted name
  | .noPosition n =>
    "Replacement index ".toList ++ Text.ofNat n ++ " out of range for positional args tuple".toList
  | .tooManyDigits => "Too many decimal digits in format string".toList
  | .emptyAccess => "Empty attribute in format string".toList
  | .afterIndex => "Only '.' or '[' may follow ']' in format field specifier".toList
  | .unclosedIndex => "Missing ']' in format string".toList
  | .noAttribute kind name =>
    '\'' :: kind ++ "' object has no attribute '".toList ++ name ++ ['\'']
  | .noKindAttribute kind name =>
    "type object '".toList ++ kind ++ "' has no attribute '".toList ++ name ++ ['\'']
  | .noValue name => name
  | .indexNoNumber => "string indices must be integers, not 'str'".toList
  | .indexNoWhole => "tuple indices must be integers or slices, not str".toList
  | .indexTooLarge what => what ++ " index out of range".toList
  | .noEntry shown => shown
  | .noItems what => what ++ " is not subscriptable".toList
  | .notGeneric shown => shown ++ " is not a generic class".toList
  | .unknownConversion c =>
    "Unknown conversion specifier ".toList ++
      (if 32 < c.toNat ∧ c.toNat < 127 then [c]
        else "\\x".toList ++ Nat.toDigits 16 c.toNat)
  | .noLayout kind =>
    "unsupported format string passed to ".toList ++ kind ++ ".__format__".toList
  | .sign true => "Space not allowed in string format specifier".toList
  | .sign false => "Sign not allowed in string format specifier".toList
  | .negativeZero => "Negative zero coercion (z) not allowed in string format specifier".toList
  | .alternate => "Alternate form (#) not allowed in string format specifier".toList
  | .fillBehindSign => "'=' alignment not allowed in string format specifier".toList
  | .bothSeparators => "Cannot specify both ',' and '_'.".toList
  | .separator s k => "Cannot specify '".toList ++ s :: "' with ".toList ++ shownChar k ++ ['.']
  | .wholePrecision => "Precision not allowed in integer format specifier".toList
  | .wholeNegativeZero =>
    "Negative zero coercion (z) not allowed in integer format specifier".toList
  | .characterSign => "Sign not allowed with integer format specifier 'c'".toList
  | .characterAlternate =>
    "Alternate form (#) not allowed with integer format specifier 'c'".toList
  | .noCharacter => "%c arg not in range(0x110000)".toList
  | .missingPrecision => "Format specifier missing precision".toList
  | .badLayout t kind =>
    "Invalid format specifier '".toList ++ t ++ "' for object of type '".toList ++ kind ++ ['\'']
  | .unknownKind c kind =>
    "Unknown format code ".toList ++ shownChar c ++ " for object of type '".toList ++ kind ++
      ['\'']

end Citations
