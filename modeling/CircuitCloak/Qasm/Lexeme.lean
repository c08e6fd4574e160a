import CircuitCloak.Qasm.Token
import CircuitCloak.Decimal.Numeral
import CircuitCloak.Word

/-! Cutting circuit text into tokens. Blanks and comments separate tokens; otherwise the longest
token at a place is taken. Each token remembers the line and the byte at which it starts. -/

namespace CircuitCloak.Qasm

/-- A place in a text: a line, counted from one, and a count of bytes. -/
structure Place where
  line : Nat
  offset : Nat
  deriving DecidableEq, Repr

def Place.advance (place : Place) (passed : List Char) : Place :=
  ⟨place.line + passed.count '\n',
    place.offset + passed.foldl (fun bytes c => bytes + c.utf8Size) 0⟩

/-- A token with the place of its first byte. -/
structure Lexeme where
  token : Token
  place : Place
  deriving BEq, Repr

structure InvalidToken where
  offset : Nat
  text : String
  deriving DecidableEq, Repr

def InvalidToken.message (fault : InvalidToken) : String := s!"Invalid token: '{fault.text}'"

def isBlank (c : Char) : Bool := c == ' ' || c == '\t' || c == '\r' || c == '\n'

def isNameStart (c : Char) : Bool := c.isAlpha || c == '_'

def isNamePart (c : Char) : Bool := c.isAlphanum || c == '_'

/-- The characters up to and with the first `*/`, and the rest. -/
def commentBody? : List Char → Option (List Char × List Char)
  | '*' :: '/' :: rest => some (['*', '/'], rest)
  | c :: rest => (commentBody? rest).map fun (body, rest) => (c :: body, rest)
  | [] => none

/-- An exponent with its mark, or nothing where digits are missing. -/
def exponentSpan (text : List Char) : List Char × List Char :=
  match text with
  | mark :: rest =>
    if mark == 'e' || mark == 'E' then
      let (sign, rest) := match rest with
        | '+' :: rest => (['+'], rest)
        | '-' :: rest => (['-'], rest)
        | rest => ([], rest)
      let (digits, rest) := Decimal.spanDigits rest
      if digits.isEmpty then ([], text) else (mark :: sign ++ digits, rest)
    else ([], text)
  | [] => ([], text)

def decimalValue (text : List Char) : Float :=
  match Decimal.numeral? text with
  | some (numeral, _) => numeral.toFloat
  | none => 0

/-- What stands at the head of a text. -/
inductive Piece where
  | token (token : Token) (text rest : List Char)
  | gap (text rest : List Char)
  | invalid (text : List Char)

/-- A number: digits with a point or an exponent make a decimal, digits alone an integer, which
must be a word of 64 bits. -/
def numberPiece (text : List Char) : Piece :=
  let (whole, rest) := Decimal.spanDigits text
  let (fraction, rest) := match rest with
    | '.' :: rest => let (digits, rest) := Decimal.spanDigits rest; ('.' :: digits, rest)
    | rest => ([], rest)
  let (exponent, rest) := exponentSpan rest
  let written := whole ++ fraction ++ exponent
  if fraction.isEmpty && exponent.isEmpty then
    let value := Decimal.digitsValue whole
    if value < longWordCount then .token (.integer value) whole rest else .invalid whole
  else .token (.decimal (decimalValue written)) written rest

/-- A name, or the reserved word of that spelling. -/
def namePiece (text : List Char) : Piece :=
  let (name, rest) := text.span isNamePart
  match Keyword.ofText? (String.ofList name) with
  | some word => .token (.keyword word) name rest
  | none => .token (.identifier (String.ofList name)) name rest

/-- Text between quotes; a missing closing quote spoils all that follows. -/
def quotedPiece (text : List Char) : Piece :=
  let (body, rest) := text.tail.span (· != '"')
  match rest with
  | quote :: rest => .token (.quoted (String.ofList body)) ('"' :: body ++ [quote]) rest
  | [] => .invalid text

/-- The mark at the head of a text, two characters before one. -/
def mark? : List Char → Option (Mark × List Char × List Char)
  | '*' :: '*' :: rest => some (.doubleStar, ['*', '*'], rest)
  | '=' :: '=' :: rest => some (.equalEqual, ['=', '='], rest)
  | '!' :: '=' :: rest => some (.notEqual, ['!', '='], rest)
  | '-' :: '>' :: rest => some (.arrow, ['-', '>'], rest)
  | '+' :: rest => some (.plus, ['+'], rest)
  | '-' :: rest => some (.minus, ['-'], rest)
  | '*' :: rest => some (.star, ['*'], rest)
  | '/' :: rest => some (.slash, ['/'], rest)
  | '^' :: rest => some (.caret, ['^'], rest)
  | '<' :: rest => some (.less, ['<'], rest)
  | '>' :: rest => some (.greater, ['>'], rest)
  | '=' :: rest => some (.equal, ['='], rest)
  | '@' :: rest => some (.atSign, ['@'], rest)
  | '(' :: rest => some (.leftParen, ['('], rest)
  | ')' :: rest => some (.rightParen, [')'], rest)
  | '[' :: rest => some (.leftBracket, ['['], rest)
  | ']' :: rest => some (.rightBracket, [']'], rest)
  | '{' :: rest => some (.leftBrace, ['{'], rest)
  | '}' :: rest => some (.rightBrace, ['}'], rest)
  | ';' :: rest => some (.semicolon, [';'], rest)
  | ':' :: rest => some (.colon, [':'], rest)
  | ',' :: rest => some (.comma, [','], rest)
  | _ => none

def startsNumber : List Char → Bool
  | '.' :: c :: _ => c.isDigit
  | c :: _ => c.isDigit
  | [] => false

def Piece.ofText (text : List Char) : Piece :=
  match text with
  | [] => .gap [] []
  | '/' :: '/' :: _ => let (comment, rest) := text.span (· != '\n'); .gap comment rest
  | '/' :: '*' :: body =>
    match commentBody? body with
    | some (comment, rest) => .gap ('/' :: '*' :: comment) rest
    | none => .invalid text
  | c :: rest =>
    if isBlank c then .gap [c] rest
    else if startsNumber text then numberPiece text
    else if isNameStart c then namePiece text
    else if c == '"' then quotedPiece text
    else match mark? text with
      | some (mark, written, rest) => .token (.mark mark) written rest
      | none => .invalid [c]

/-- Cuts a text into lexemes, of which those already found are given last first. The fuel is the
length of the text: every piece takes a character. -/
def lexemesFrom : Nat → Place → List Lexeme → List Char → Except InvalidToken (List Lexeme)
  | 0, _, found, _ => .ok found.reverse
  | _ + 1, _, found, [] => .ok found.reverse
  | fuel + 1, place, found, text =>
    match Piece.ofText text with
    | .gap passed rest => lexemesFrom fuel (place.advance passed) found rest
    | .token token written rest =>
      lexemesFrom fuel (place.advance written) (⟨token, place⟩ :: found) rest
    | .invalid spoilt => .error ⟨place.offset, String.ofList spoilt⟩

def lexemes (source : String) : Except InvalidToken (List Lexeme) :=
  let text := source.toList
  lexemesFrom text.length ⟨1, 0⟩ [] text

end CircuitCloak.Qasm
