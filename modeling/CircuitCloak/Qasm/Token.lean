import CircuitCloak.Decimal.Layout

/-! The tokens of circuit text and how each is written. -/

namespace CircuitCloak.Qasm

inductive Keyword where
  | header | includeFile | qreg | creg | qubit | bit | gate | opaqueGate
  | ifThen | otherwise | forLoop | whileLoop
  | measure | reset | barrier | inputValue | outputValue
  | upperU | upperCX | pi | tau | euler
  deriving DecidableEq, Repr

def Keyword.text : Keyword → String
  | header => "OPENQASM" | includeFile => "include"
  | qreg => "qreg" | creg => "creg" | qubit => "qubit" | bit => "bit"
  | gate => "gate" | opaqueGate => "opaque"
  | ifThen => "if" | otherwise => "else" | forLoop => "for" | whileLoop => "while"
  | measure => "measure" | reset => "reset" | barrier => "barrier"
  | inputValue => "input" | outputValue => "output"
  | upperU => "U" | upperCX => "CX" | pi => "pi" | tau => "tau" | euler => "euler"

def Keyword.all : List Keyword :=
  [header, includeFile, qreg, creg, qubit, bit, gate, opaqueGate, ifThen, otherwise, forLoop,
    whileLoop, measure, reset, barrier, inputValue, outputValue, upperU, upperCX, pi, tau, euler]

def Keyword.ofText? (text : String) : Option Keyword := all.find? (·.text == text)

inductive Mark where
  | plus | minus | star | slash | doubleStar | caret
  | equalEqual | notEqual | less | greater | equal | arrow | atSign
  | leftParen | rightParen | leftBracket | rightBracket | leftBrace | rightBrace
  | semicolon | colon | comma
  deriving DecidableEq, Repr

def Mark.text : Mark → String
  | plus => "+" | minus => "-" | star => "*" | slash => "/" | doubleStar => "**" | caret => "^"
  | equalEqual => "==" | notEqual => "!=" | less => "<" | greater => ">" | equal => "="
  | arrow => "->" | atSign => "@"
  | leftParen => "(" | rightParen => ")" | leftBracket => "[" | rightBracket => "]"
  | leftBrace => "\x7b" | rightBrace => "\x7d"
  | semicolon => ";" | colon => ":" | comma => ","

inductive Token where
  | keyword (word : Keyword)
  | mark (symbol : Mark)
  | integer (value : Nat)
  | decimal (value : Float)
  | quoted (text : String)
  | identifier (name : String)
  deriving BEq, Repr

def Token.text : Token → String
  | keyword word => word.text
  | mark symbol => symbol.text
  | integer value => toString value
  | decimal value => Decimal.plain.text value
  | quoted text => "\"" ++ text ++ "\""
  | identifier name => name

end CircuitCloak.Qasm
