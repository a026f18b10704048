import MetricTree.Binary64.Notation
import MetricTree.Text.Numeral
import MetricTree.Text.Quoted

namespace MetricTree

/-- What an attached reporter's call failed with. -/
structure Failure where
  kind : String
  message : String
  deriving DecidableEq

/-- The report of a failure: its kind, and its message if it has one. -/
def Failure.text (f : Failure) : String :=
  if f.message.isEmpty then f.kind else f.kind ++ ": " ++ f.message

/-- Why a field of a record or a setting was refused. -/
inductive Refusal where
  | missing
  | notText
  | tooShort
  | notUnicode
  | notAmongChoices
  | notDict
  | notInteger
  | fractional
  | unreadableInteger
  /-- An integer that takes too much room. -/
  | tooLarge
  | notFinite
  | notNumber
  | unreadableNumber
  | belowMinimum
  | forbidden (message : String)
  deriving DecidableEq

/-- A refused field, with the way to it from the outermost one. -/
structure Issue where
  path : List String
  refusal : Refusal
  deriving DecidableEq

/-- Everything that can go wrong, by cause. -/
inductive Fault where
  /-- A part of an identity is no text. -/
  | partNotText (part typeName : String)
  /-- A part of an identity holds a character that identities are built with. -/
  | partReserved (part : String) (text : Text) (char : Letter)
  | partEmpty (part : String)
  | pieceNotText (index : Nat) (typeName : String)
  | notConcatenable (typeName : String)
  | notComparable (left right : String)
  | notHashable (typeName : String)
  | notIterable (typeName : String)
  | notSubscriptable (typeName : String)
  /-- A row has nothing at the place that was asked for. -/
  | placeMissing (typeName : String)
  | notCallable (typeName : String)
  | notAddable (left right : String)
  | integerTooLarge
  /-- An integer of more digits than are written. -/
  | integerTooLong
  | notNumeric (typeName : String)
  /-- A text that writes no number, as it is quoted. -/
  | unreadableNumber (given : String)
  | infiniteInteger
  | undefinedInteger
  | negativeInterval (seconds : Binary64)
  | daysOutOfRange (days : Int)
  /-- An integer that does not fit into so many bits. -/
  | integerTooWide (bits : Nat)
  | unitUnknown (name : String)
  | partNotNumber (unit typeName : String)
  | separatorUnusable (given : String)
  | reporterIncomplete (typeName : String)
  | optionUnknown (name : String)
  /-- A replacement of something that is given already. -/
  | givenTwice (owner name : String)
  /-- The attached reporter failed to close. -/
  | closeFailed
  | missingMethod (typeName method : String)
  | notEnterable (typeName : String)
  | levelNotInteger
  | attributeTaken (name : Text)
  | attributeNotText (typeName : String)
  /-- An attribute that only takes values of a kind of its own. -/
  | attributeKind (name expected typeName : String)
  | attributeFixed (name : String)
  | startNotBytes
  | yearOutOfRange (year : Int)
  | notATime (typeName : String)
  | timeUndefined
  /-- The seconds of a time do not fit into 64 bits. -/
  | timeTooLarge
  /-- The year of a time, counted from 1900, does not fit into 32 bits. -/
  | yearTooLarge
  | argumentsMissing
  | argumentsLeft
  | argumentsWithoutKeys
  | placeNotInteger (typeName : String)
  | measureNotInteger
  | measureTooLarge (name : String)
  | templateIncomplete
  | keyIncomplete
  | conversionUnknown (char : Letter) (index : Nat)
  | conversionNeedsNumber (char : Char) (typeName : String)
  | conversionNeedsInteger (char : Char) (typeName : String)
  | notReal (typeName : String)
  | notCharacter
  | characterOutOfRange
  | notWritable (typeName : String)
  | keyNotWritable (typeName : String)
  | notFiniteInJson
  /-- A text holds half of a surrogate pair, which no encoding has. -/
  | notEncodable
  | scopeMissing
  /-- Steps within steps go too deep. -/
  | tooDeep
  /-- A key that leads to nothing, as it is written. -/
  | keyMissing (key : String)
  | keywordNotText
  | variableUnnamed
  | variableNameUnusable
  | nullCharacter
  | invalid (issues : List Issue)
  /-- A failure raised by a caller or a reporter, passed on. -/
  | raised (failure : Failure)
  /-- An interruption, which nothing contains. -/
  | aborted (message : String)

namespace Fault

def reservedCharacters : List Letter := ['=', ',', '+']

/-- The named character, or a star where the text in front of it leaves a choice. -/
def reservedNamed (before : Text) (char : Letter) : Letter :=
  if (reservedCharacters.filter before.toList.contains).length ≤ 1 then char else '*'

def message : Fault → String
  | partNotText part typeName => part ++ " must be a string, got " ++ typeName
  | partReserved part text char =>
    let before := part ++ " " ++ Text.quoted text
    before ++ " contains reserved character " ++ Text.quoted (.singleton (reservedNamed before char))
  | partEmpty part => part ++ " must not be empty"
  | pieceNotText index typeName =>
    "sequence item " ++ toString index ++ ": expected str instance, " ++ typeName ++ " found"
  | notConcatenable typeName => "can only concatenate str (not \"" ++ typeName ++ "\") to str"
  | notComparable left right =>
    "'<' not supported between instances of '" ++ left ++ "' and '" ++ right ++ "'"
  | notHashable typeName => "unhashable type: '" ++ typeName ++ "'"
  | notIterable typeName => "'" ++ typeName ++ "' object is not iterable"
  | notSubscriptable typeName => "'" ++ typeName ++ "' object is not subscriptable"
  | placeMissing typeName =>
    let row := match typeName with
      | "str" => "string "
      | "bytes" => ""
      | name => name ++ " "
    row ++ "index out of range"
  | notCallable typeName => "'" ++ typeName ++ "' object is not callable"
  | notAddable left right =>
    "unsupported operand type(s) for +=: '" ++ left ++ "' and '" ++ right ++ "'"
  | integerTooLarge => "int too large to convert to float"
  | notNumeric typeName => "float() argument must be a string or a real number, not '" ++ typeName ++ "'"
  | integerTooLong =>
    "Exceeds the limit (" ++ toString Text.longest ++ " digits) for integer string conversion; " ++
      "use sys.set_int_max_str_digits() to increase the limit"
  | unreadableNumber given => "could not convert string to float: " ++ given
  | infiniteInteger => "cannot convert float infinity to integer"
  | undefinedInteger => "cannot convert float NaN to integer"
  | negativeInterval seconds => "report interval must not be negative, got " ++ seconds.toText
  | daysOutOfRange days => "days=" ++ toString days ++ "; must have magnitude <= 999999999"
  | integerTooWide bits =>
    "Python int too large to convert to C " ++ if bits = 64 then "ssize_t" else "int"
  | unitUnknown name => "'" ++ name ++ "' is an invalid keyword argument for __new__()"
  | partNotNumber unit typeName => "unsupported type for timedelta " ++ unit ++ " component: " ++ typeName
  | separatorUnusable given => "separator " ++ given ++ " is not usable in metric identities"
  | reporterIncomplete typeName =>
    "reporter " ++ typeName ++ " does not implement report_counter/report_gauge/flush"
  | optionUnknown name => "ScopeOptions.__init__() got an unexpected keyword argument '" ++ name ++ "'"
  | givenTwice owner name => owner ++ "() got multiple values for argument '" ++ name ++ "'"
  | closeFailed => "reporter failed to close"
  | missingMethod typeName method => "'" ++ typeName ++ "' object has no attribute '" ++ method ++ "'"
  | notEnterable typeName => "'" ++ typeName ++ "' object does not support the context manager protocol"
  | levelNotInteger => "level must be an integer"
  | attributeTaken name =>
    Text.quoted ↑("Attempt to overwrite " ++ Text.quoted name ++ " in LogRecord")
  | attributeNotText typeName => "attribute name must be string, not '" ++ typeName ++ "'"
  | attributeKind name expected typeName => name ++ " must be set to a " ++ expected ++ ", not " ++ typeName
  | attributeFixed name => "attribute '" ++ name ++ "' of 'LogRecord' objects is not writable"
  | startNotBytes => "startswith first arg must be bytes or a tuple of bytes, not str"
  | yearOutOfRange year => "year " ++ toString year ++ " is out of range"
  | notATime typeName => "'" ++ typeName ++ "' object cannot be interpreted as an integer"
  | timeUndefined => "Invalid value NaN (not a number)"
  | timeTooLarge => "timestamp out of range for platform time_t"
  | yearTooLarge => "[Errno 75] Value too large for defined data type"
  | argumentsMissing => "not enough arguments for format string"
  | argumentsLeft => "not all arguments converted during string formatting"
  | argumentsWithoutKeys => "format requires a mapping"
  | placeNotInteger typeName =>
    (if typeName = "bytes" then "byte" else typeName) ++ " indices must be integers or slices, not str"
  | measureNotInteger => "* wants int"
  | measureTooLarge name => name ++ " too big"
  | templateIncomplete => "incomplete format"
  | keyIncomplete => "incomplete format key"
  | conversionUnknown char index =>
    let shown := if 31 < char.code && char.code < 127 then char.char?.getD '?' else '?'
    "unsupported format character '" ++ String.singleton shown ++ "' (0x" ++
      String.ofList (Nat.toDigits 16 char.code) ++ ") at index " ++ toString index
  | conversionNeedsNumber char typeName =>
    "%" ++ String.singleton char ++ " format: a real number is required, not " ++ typeName
  | conversionNeedsInteger char typeName =>
    "%" ++ String.singleton char ++ " format: an integer is required, not " ++ typeName
  | notReal typeName => "must be real number, not " ++ typeName
  | notCharacter => "%c requires int or char"
  | characterOutOfRange => "%c arg not in range(0x110000)"
  | notWritable typeName => "Object of type " ++ typeName ++ " is not JSON serializable"
  | keyNotWritable typeName => "keys must be str, int, float, bool or None, not " ++ typeName
  | notFiniteInJson => "Out of range float values are not JSON compliant"
  | notEncodable => "surrogates not allowed"
  | scopeMissing => "Metrics scope not configured on application state"
  | tooDeep => "maximum recursion depth exceeded"
  | keyMissing key => key
  | keywordNotText => "keywords must be strings"
  | variableUnnamed => "[Errno 22] Invalid argument"
  | variableNameUnusable => "illegal environment variable name"
  | nullCharacter => "embedded null byte"
  | invalid _ => "validation failed"
  | raised failure => failure.message
  | aborted message => message

end Fault

end MetricTree
