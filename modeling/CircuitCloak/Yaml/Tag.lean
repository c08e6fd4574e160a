/-! Tags of values. A tag is a row of octets, which need not make up a text. -/

namespace CircuitCloak.Yaml

def octetsOf (characters : List Char) : List UInt8 := characters.flatMap String.utf8EncodeChar

def textOfOctets? (octets : List UInt8) : Option String := String.fromUTF8? octets.toByteArray

/-- A tag, by its octets. -/
structure Tag where
  octets : List UInt8
  deriving DecidableEq, Repr, Inhabited

namespace Tag

def ofText (text : String) : Tag := ⟨octetsOf text.toList⟩

/-- The octet of the exclamation mark, with which the tags begin that belong to the document
alone. -/
def localMark : UInt8 := 0x21

def isLocal (tag : Tag) : Bool := tag.octets.head? == some localMark

/-- The name in a local tag, if it is a text. The mark alone is its own name. -/
def localName? (tag : Tag) : Option String :=
  if !tag.isLocal then none
  else if tag.octets.length == 1 then textOfOctets? tag.octets
  else textOfOctets? tag.octets.tail

/-- The common beginning of the tags of the format itself. -/
def core : String := "tag:yaml.org,2002:"

def null : Tag := ofText (core ++ "null")

def boolean : Tag := ofText (core ++ "bool")

def integer : Tag := ofText (core ++ "int")

def float : Tag := ofText (core ++ "float")

end Tag

end CircuitCloak.Yaml
