import RelationalSolver.Config.Document
import RelationalSolver.Text.Fraction
import RelationalSolver.Text.Scanner

/-!
# TOML: strings, numbers, dates and keys

Everything that a value or a key is made of, and that is written on one line or
between quotes.
-/

namespace RelationalSolver.Toml

open Text

/-- A space or a tab. -/
def isBlank (c : Char) : Bool := c = ' ' || c = '\t'

/-- Every character may stand in a text but controls; the tab may. -/
def isTextChar (c : Char) : Bool := c = '\t' || (0x20 ≤ c.toNat && c.toNat ≠ 0x7f)

/-! ## Strings -/

/-- The character that a short escape stands for. -/
def shortEscape? : Char → Option Char
  | 'b' => some '\x08'
  | 't' => some '\t'
  | 'n' => some '\n'
  | 'f' => some '\x0c'
  | 'r' => some '\r'
  | '"' => some '"'
  | '\\' => some '\\'
  | _ => none

/-- An escape after its backslash: the character, and how many characters the
escape has. -/
def escape? : List Char → Option (Char × Nat)
  | 'u' :: rest => do
      if rest.length < 4 then none
      pure (← charOfHex? (rest.take 4), 5)
  | 'U' :: rest => do
      if rest.length < 8 then none
      pure (← charOfHex? (rest.take 8), 9)
  | c :: _ => do pure (← shortEscape? c, 1)
  | [] => none

/-- Put a character in front of a text that was read. -/
def followedBy (c : Char) (read : Option (List Char × List Char)) :
    Option (List Char × List Char) :=
  read.map fun (text, rest) => (c :: text, rest)

/-- A text up to its closing double quote.  The characters of an escape that was
replaced are passed over. -/
def basicText (passing : Nat) : List Char → Option (List Char × List Char)
  | [] => none
  | c :: rest =>
      match passing with
      | passing + 1 => basicText passing rest
      | 0 =>
          if c = '"' then some ([], rest)
          else if c = '\\' then
            match escape? rest with
            | some (char, length) => followedBy char (basicText length rest)
            | none => none
          else if isTextChar c then followedBy c (basicText 0 rest)
          else none

/-- A text up to its closing single quote. -/
def literalText : List Char → Option (List Char × List Char)
  | [] => none
  | c :: rest =>
      if c = '\'' then some ([], rest)
      else if isTextChar c then followedBy c (literalText rest)
      else none

/-- The end of a text between three quotes: up to two more quotes right before
the closing ones belong to the text. -/
def closing? (quote : Char) (chars : List Char) : Option (List Char × List Char) :=
  let quotes := (chars.takeWhile (· = quote)).length
  if quotes < 3 then none
  else
    let inside := min (quotes - 3) 2
    some (List.replicate inside quote, chars.drop (inside + 3))

/-- What stands between a backslash and the next character that is not blank
begins a new line. -/
def endsLine (chars : List Char) : Bool :=
  match chars.dropWhile isBlank with
  | '\n' :: _ => true
  | '\r' :: '\n' :: _ => true
  | _ => false

/-- What is read next of a text between three double quotes. -/
inductive Passing where
  | nothing
  /-- So many characters of an escape that was replaced. -/
  | escape (count : Nat)
  /-- Blanks and line breaks after a backslash at the end of a line. -/
  | blanks

/-- A text up to three double quotes.  Line breaks are part of it. -/
def longBasicText (passing : Passing) : List Char → Option (List Char × List Char)
  | [] => none
  | c :: rest =>
      match passing with
      | .escape (count + 1) => longBasicText (.escape count) rest
      | _ =>
          let skipsBlanks := match passing with
            | .blanks => true
            | _ => false
          if skipsBlanks && (isBlank c || c = '\n' || (c = '\r' && rest.head? = some '\n')) then
            longBasicText .blanks rest
          else
            match closing? '"' (c :: rest) with
            | some done => some done
            | none =>
                if c = '\\' then
                  if endsLine rest then longBasicText .blanks rest
                  else
                    match escape? rest with
                    | some (char, length) => followedBy char (longBasicText (.escape length) rest)
                    | none => none
                else if c = '\r' && rest.head? = some '\n' then longBasicText .nothing rest
                else if isTextChar c || c = '\n' then followedBy c (longBasicText .nothing rest)
                else none

/-- A text up to three single quotes.  Line breaks are part of it. -/
def longLiteralText : List Char → Option (List Char × List Char)
  | [] => none
  | c :: rest =>
      match closing? '\'' (c :: rest) with
      | some done => some done
      | none =>
          if c = '\r' && rest.head? = some '\n' then longLiteralText rest
          else if isTextChar c || c = '\n' then followedBy c (longLiteralText rest)
          else none

/-- A line break. -/
def acceptNewline : Scanner Bool := do
  if ← Scanner.accept "\r\n" then pure true else Scanner.accept "\n"

/-- A string on one line, if one begins here. -/
def shortString? : Scanner (Option String) := do
  if ← Scanner.accept "\"" then some <$> String.ofList <$> Scanner.reading (basicText 0)
  else if ← Scanner.accept "'" then some <$> String.ofList <$> Scanner.reading literalText
  else pure none

/-- A string, if one begins here.  A line break right after three opening quotes
is not part of it. -/
def string? : Scanner (Option String) := do
  if ← Scanner.accept "\"\"\"" then
    discard acceptNewline
    some <$> String.ofList <$> Scanner.reading (longBasicText .nothing)
  else if ← Scanner.accept "'''" then
    discard acceptNewline
    some <$> String.ofList <$> Scanner.reading longLiteralText
  else shortString?

/-! ## Numbers -/

/-- Digits without the single underscores between them. -/
def ungroup? (isDigit : Char → Bool) : List Char → Option (List Char)
  | [] => none
  | [c] => if isDigit c then some [c] else none
  | c :: '_' :: rest => if isDigit c then (c :: ·) <$> ungroup? isDigit rest else none
  | c :: rest => if isDigit c then (c :: ·) <$> ungroup? isDigit rest else none

/-- A number to a base, with single underscores between its digits. -/
def grouped? (base : Nat) (chars : List Char) : Option Nat := do
  number? base (← ungroup? (isDigitOf base) chars)

/-- A decimal number has no zeros at its front. -/
def decimal? (chars : List Char) : Option Nat :=
  match chars with
  | '0' :: _ :: _ => none
  | _ => grouped? 10 chars

/-- Sign and rest of a number. -/
def signed (chars : List Char) : Int × List Char :=
  match chars with
  | '-' :: rest => (-1, rest)
  | '+' :: rest => (1, rest)
  | _ => (1, chars)

/-- Integers are 64 bits wide. -/
def fits (value : Int) : Bool := Int64.minValue.toInt ≤ value && value ≤ Int64.maxValue.toInt

/-- An integer: with a base and no sign, or decimal. -/
def integer? (chars : List Char) : Option Int := do
  let value ← match chars with
    | '0' :: 'x' :: digits => Int.ofNat <$> grouped? 16 digits
    | '0' :: 'o' :: digits => Int.ofNat <$> grouped? 8 digits
    | '0' :: 'b' :: digits => Int.ofNat <$> grouped? 2 digits
    | _ =>
        let (sign, digits) := signed chars
        (sign * Int.ofNat ·) <$> decimal? digits
  if fits value then some value else none

/-- An exponent without its letter. -/
def isExponent (chars : List Char) : Bool := (grouped? 10 (signed chars).2).isSome

/-- What follows the whole part of a fraction: decimal places, an exponent, or
both. -/
def isFractionEnd (chars : List Char) : Bool :=
  let isLetter (c : Char) : Bool := c = 'e' || c = 'E'
  match chars with
  | '.' :: rest =>
      let places := rest.takeWhile (!isLetter ·)
      (grouped? 10 places).isSome &&
        match rest.drop places.length with
        | [] => true
        | _ :: exponent => isExponent exponent
  | c :: exponent => isLetter c && isExponent exponent
  | [] => false

/-- The number does not lie in the range of 64 bits. -/
def overflows (chars : List Char) : Bool :=
  (Fraction.read? (chars.filter (· ≠ '_'))).any (·.overflows)

/-- A number with decimal places or an exponent, an infinity, or no number.  A
number that is too large is an error, but one that is too small is taken for the
negative infinity. -/
def isFraction (chars : List Char) : Bool :=
  let (sign, chars) := signed chars
  let whole := chars.takeWhile fun c => isDigitOf 10 c || c = '_'
  chars = "inf".toList || chars = "nan".toList ||
    ((decimal? whole).isSome && isFractionEnd (chars.drop whole.length) &&
      !(sign = 1 && overflows chars))

/-! ## Dates and times -/

/-- A number of a fixed width between two limits. -/
def isBetween (least most width : Nat) (chars : List Char) : Bool :=
  match number? 10 chars with
  | some value => chars.length = width && least ≤ value && value ≤ most
  | none => false

/-- Number of days of a month. -/
def daysOf (year month : Nat) : Nat :=
  if month = 2 then
    if year % 4 = 0 && (year % 100 ≠ 0 || year % 400 = 0) then 29 else 28
  else if month ∈ [4, 6, 9, 11] then 30
  else 31

/-- Year, month and day. -/
def isDate (chars : List Char) : Bool :=
  match number? 10 (chars.take 4), number? 10 ((chars.drop 5).take 2) with
  | some year, some month =>
      chars[4]? = some '-' && chars[7]? = some '-' && 1 ≤ month && month ≤ 12 &&
        isBetween 1 (daysOf year month) 2 (chars.drop 8)
  | _, _ => false

/-- Hours and minutes. -/
def isClock (chars : List Char) : Bool :=
  isBetween 0 23 2 (chars.take 2) && chars[2]? = some ':' && isBetween 0 59 2 (chars.drop 3)

/-- Hours, minutes and seconds, and perhaps a part of a second. -/
def isTime (chars : List Char) : Bool :=
  isClock (chars.take 5) && chars[5]? = some ':' && isBetween 0 60 2 ((chars.drop 6).take 2) &&
    match chars.drop 8 with
    | [] => true
    | '.' :: digits => (number? 10 digits).isSome
    | _ => false

/-- A time, perhaps with its distance from universal time. -/
def isZonedTime (chars : List Char) : Bool :=
  let time := chars.takeWhile fun c => isDigitOf 10 c || c = ':' || c = '.'
  isTime time &&
    match chars.drop time.length with
    | [] => true
    | ['Z'] => true
    | ['z'] => true
    | sign :: zone => (sign = '+' || sign = '-') && isClock zone

/-- A date, a time, or both. -/
def isMoment (chars : List Char) : Bool :=
  isTime chars || isDate chars ||
    (isDate (chars.take 10) && (chars[10]? = some 'T' || chars[10]? = some 't') &&
      isZonedTime (chars.drop 11))

/-! ## Values and keys -/

/-- The characters that numbers, dates and names of values consist of. -/
def isWordChar (c : Char) : Bool := c.isAlphanum || c ∈ ['+', '-', '_', '.', ':']

/-- A word: a name of a value, a number, or a date or time.  A date and a time may
have a space between them. -/
def word : Scanner Document := do
  let chars ← Scanner.takeWhile isWordChar
  if chars = "true".toList then return .bool true
  if chars = "false".toList then return .bool false
  if let some value := integer? chars then return .int value
  if isDate chars then
    match ← Scanner.rest with
    | ' ' :: next :: _ =>
        if isDigitOf 10 next then
          Scanner.skip 1
          let time ← Scanner.takeWhile isWordChar
          if isZonedTime time then return .moment else failure
    | _ => pure ()
  if isMoment chars then return .moment
  if isFraction chars then return .fraction
  failure

/-- A value that is not put together from others. -/
def scalar : Scanner Document := do
  match ← string? with
  | some text => pure (.text text)
  | none => word

/-- Move past spaces and tabs. -/
def skipBlanks : Scanner Unit := discard (Scanner.takeWhile isBlank)

/-- One name of a key. -/
def simpleKey : Scanner String := do
  match ← shortString? with
  | some name => pure name
  | none =>
      let name ← Scanner.takeWhile fun c => c.isAlphanum || c = '_' || c = '-'
      if name.isEmpty then failure else pure (String.ofList name)

/-- Names with dots between them, at most so many. -/
def dottedKey : Nat → Scanner (List String)
  | 0 => failure
  | limit + 1 => do
      let name ← simpleKey
      skipBlanks
      if ← Scanner.accept "." then
        skipBlanks
        (name :: ·) <$> dottedKey limit
      else pure [name]

end RelationalSolver.Toml
