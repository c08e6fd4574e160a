import CircuitCloak.Yaml.Node

/-! What a YAML text consists of. The begin and the end of a block collection, and the key of a
mapping, are tokens that indentation and colons stand for. -/

namespace CircuitCloak.Yaml

/-- A tag as it is written: a handle, which stands for the first octets of the tag, and the rest. -/
structure WrittenTag where
  handle : String
  suffix : List UInt8
  deriving DecidableEq, Repr, Inhabited

inductive Token where
  | versionDirective (major minor : Nat)
  | tagDirective (handle : String) (start : List UInt8)
  | documentStart
  | documentEnd
  | blockSequenceStart
  | blockMappingStart
  | blockEnd
  | flowSequenceStart
  | flowSequenceEnd
  | flowMappingStart
  | flowMappingEnd
  | blockEntry
  | flowEntry
  | key
  | value
  | alias (name : String)
  | anchor (name : String)
  | tag (tag : WrittenTag)
  | scalar (text : String) (form : ScalarForm)
  deriving DecidableEq, Repr, Inhabited

end CircuitCloak.Yaml
