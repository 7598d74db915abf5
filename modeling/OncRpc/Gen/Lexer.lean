import OncRpc.Gen.Ast
import Mathlib.Algebra.Group.Int.Defs
import Mathlib.Algebra.Group.Nat.Defs
import Mathlib.Data.List.DropRight

/-!
# From source text to tokens

A source file is read in three passes.  The first drops the block comments.  It goes over the bytes
of the file and makes a character of each byte it keeps, so that everything beyond ASCII comes out
garbled.  The second drops the lines that start with a percent sign.  The third cuts what is left
into tokens.

The includes of a file are not read from what the passes leave: `extract_includes` goes over the
lines of the file as it stands.

Texts are lists of characters here.
-/

namespace OncRpc

/-! ## Characters -/

/-- The characters that count as white space. -/
def isWhitespace (c : Char) : Bool :=
  (0x9 ≤ c.toNat && c.toNat ≤ 0xD) || c.toNat = 0x20 || c.toNat = 0x85 || c.toNat = 0xA0 ||
    c.toNat = 0x1680 || (0x2000 ≤ c.toNat && c.toNat ≤ 0x200A) || c.toNat = 0x2028 ||
    c.toNat = 0x2029 || c.toNat = 0x202F || c.toNat = 0x205F || c.toNat = 0x3000

/-- The characters a word or a number goes on with. -/
def isWordChar (c : Char) : Bool := c.isAlphanum || c = '_'

/-- The characters a word starts with. -/
def startsWord (c : Char) : Bool := c.isAlpha || c = '_'

/-- The characters a number starts with. -/
def startsNumber (c : Char) : Bool := c.isDigit || c = '-'

/-- The characters that are tokens by themselves. -/
def symbols : List Char :=
  ['{', '}', '(', ')', '<', '>', '[', ']', ';', ',', '=', ':', '*']

/-! ## Lines -/

/-- The lines of a text.  A line ends with a line feed, or with a carriage return and a line feed;
the last line may lack its end. -/
def splitLines : List Char → List (List Char)
  | [] => []
  | '\n' :: rest => [] :: splitLines rest
  | '\r' :: '\n' :: rest => [] :: splitLines rest
  | c :: rest =>
    match splitLines rest with
    | [] => [[c]]
    | line :: lines => (c :: line) :: lines

/-- A text without the white space at its start. -/
def trimStart (text : List Char) : List Char := text.dropWhile isWhitespace

/-- A text without the white space at its start and at its end. -/
def trim (text : List Char) : List Char := (trimStart text).rdropWhile isWhitespace

/-! ## Dropping comments and percent lines -/

/-- The bytes of a text. -/
def asBytes (text : List Char) : List UInt8 := text.flatMap String.utf8EncodeChar

/-- Drop the block comments.  The flag says whether the bytes stand inside a comment. -/
def stripComments : Bool → List UInt8 → Except GeneratorError (List Char)
  | false, 0x2F :: 0x2A :: rest => stripComments true rest
  | false, byte :: rest => (stripComments false rest).map (Char.ofNat byte.toNat :: ·)
  | false, [] => .ok []
  | true, 0x2A :: 0x2F :: rest => stripComments false rest
  | true, _ :: rest => stripComments true rest
  | true, [] => .error (.parse "unterminated block comment in XDR source")

/-- The text without its block comments. -/
def stripBlockComments (input : List Char) : Except GeneratorError (List Char) :=
  stripComments false (asBytes input)

/-- The text without the lines that start with a percent sign. -/
def stripUnsupportedLines (input : List Char) : List Char :=
  ['\n'].intercalate ((splitLines input).filter fun line => (trimStart line).head? != some '%')

/-! ## Tokens -/

/-- The keywords of the language. -/
inductive Keyword where
  | bool
  | case
  | const
  | default
  | double
  | enum
  | float
  | hyper
  | int
  | opaqueData
  | program
  | quadruple
  | string
  | struct
  | switch
  | typedef
  | union
  | unsigned
  | version
  | void
  deriving DecidableEq

/-- A token. -/
inductive Token where
  | keyword (keyword : Keyword)
  | identifier (name : String)
  | number (value : Int)
  | symbol (char : Char)
  | eof
  deriving DecidableEq

/-- The keyword a word is. -/
def keyword (text : String) : Option Keyword :=
  match text with
  | "bool" => some .bool
  | "case" => some .case
  | "const" => some .const
  | "default" => some .default
  | "double" => some .double
  | "enum" => some .enum
  | "float" => some .float
  | "hyper" => some .hyper
  | "int" => some .int
  | "opaque" => some .opaqueData
  | "program" => some .program
  | "quadruple" => some .quadruple
  | "string" => some .string
  | "struct" => some .struct
  | "switch" => some .switch
  | "typedef" => some .typedef
  | "union" => some .union
  | "unsigned" => some .unsigned
  | "version" => some .version
  | "void" => some .void
  | _ => none

/-! ## Numbers -/

/-- The value of a digit. -/
def toDigit (radix : Nat) (c : Char) : Option Nat :=
  let value :=
    if c.isDigit then some (c.toNat - '0'.toNat)
    else if c.isLower then some (c.toNat - 'a'.toNat + 10)
    else if c.isUpper then some (c.toNat - 'A'.toNat + 10)
    else none
  value.filter (· < radix)

/-- The value of a run of digits. -/
def digitsValue (radix : Nat) (digits : List Char) : Option Nat :=
  digits.foldlM (fun value c => (toDigit radix c).map (value * radix + ·)) 0

/-- `i64::from_str_radix`. -/
def fromStrRadix (text : List Char) (radix : Nat) : Option Int :=
  match text with
  | [] => none
  | ['-'] | ['+'] => none
  | '-' :: digits => ((digitsValue radix digits).filter (· ≤ 2 ^ 63)).map fun v => -(v : Int)
  | '+' :: digits => ((digitsValue radix digits).filter (· < 2 ^ 63)).map fun v => (v : Int)
  | digits => ((digitsValue radix digits).filter (· < 2 ^ 63)).map fun v => (v : Int)

/-- The base and the digits of a literal without its sign. -/
def numberBase (digits : List Char) : Nat × List Char :=
  match digits with
  | '0' :: 'x' :: hex => (16, hex)
  | '0' :: 'X' :: hex => (16, hex)
  | '0' :: d :: rest => (8, d :: rest)
  | _ => (10, digits)

/-- Whether a literal has a minus sign, and the literal without it. -/
def splitSign (text : List Char) : Bool × List Char :=
  match text with
  | '-' :: rest => (true, rest)
  | _ => (false, text)

/-- The value of a number literal. -/
def parseNumber (text : List Char) : Except GeneratorError Int :=
  let (negative, digits) := splitSign text
  let (radix, body) := numberBase digits
  match fromStrRadix body radix with
  | none => .error (.parse ("invalid integer literal " ++ String.ofList text))
  | some value => .ok (if negative then -value else value)

/-! ## The tokenizer -/

/-- The token a word is. -/
def wordToken (word : List Char) : Token :=
  match keyword (String.ofList word) with
  | some keyword => .keyword keyword
  | none => .identifier (String.ofList word)

/-- The loop of the tokenizer.  Each round takes at least one character. -/
def tokenizeLoop : Nat → List Char → Except GeneratorError (List Token)
  | _, [] => .ok [.eof]
  | 0, _ :: _ => .ok [.eof]
  | fuel + 1, c :: rest =>
    if isWhitespace c then tokenizeLoop fuel rest
    else if startsWord c then do
      let tokens ← tokenizeLoop fuel (rest.dropWhile isWordChar)
      return wordToken (c :: rest.takeWhile isWordChar) :: tokens
    else if startsNumber c then do
      let value ← parseNumber (c :: rest.takeWhile isWordChar)
      let tokens ← tokenizeLoop fuel (rest.dropWhile isWordChar)
      return .number value :: tokens
    else if c ∈ symbols then do
      let tokens ← tokenizeLoop fuel rest
      return .symbol c :: tokens
    else .error (.parse ("unsupported character '" ++ c.toString ++ "' in XDR source"))

/-- The tokens of a text. -/
def tokenize (input : List Char) : Except GeneratorError (List Token) :=
  tokenizeLoop input.length input

/-- The tokens of a source file. -/
def sourceTokens (input : List Char) : Except GeneratorError (List Token) := do
  let cleaned ← stripBlockComments input
  tokenize (stripUnsupportedLines cleaned)

/-! ## Includes -/

/-- The file a line includes. -/
def includeOfLine (line : List Char) : Option String :=
  let line := trim line
  if "%#include".toList.isPrefixOf line then
    match line.dropWhile (· ≠ '"') with
    | [] => none
    | _ :: rest =>
      if '"' ∈ rest then some (String.ofList (rest.takeWhile (· ≠ '"'))) else none
  else none

/-- The files a source includes. -/
def extractIncludes (source : String) : List String :=
  (splitLines source.toList).filterMap includeOfLine

end OncRpc
