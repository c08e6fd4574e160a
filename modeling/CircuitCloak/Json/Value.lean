import CircuitCloak.Decimal.Layout

/-! JSON values and their text. A number is kept as it is written. -/

namespace CircuitCloak.Json

/-- A value. A text whose escapes name no characters has no content. -/
inductive Value where
  | null
  | boolean (value : Bool)
  | number (written : String)
  | text (content : Option String)
  | array (items : List Value)
  | object (entries : List (Option String × Value))
  deriving Repr, Inhabited

namespace Value

def ofText (content : String) : Value := .text (some content)

def ofNat (value : Nat) : Value := .number (toString value)

/-- A finite number; what is not finite has no number. -/
def ofFloat (value : Float) : Value :=
  if value.isFinite then .number (Decimal.report.text value) else .null

def ofFields (fields : List (String × Value)) : Value :=
  .object (fields.map fun field => (some field.1, field.2))

end Value

inductive Layout where
  | compact
  | indented
  deriving DecidableEq, Repr

def hexDigit (value : Nat) : Char := (Nat.toDigits 16 value).headD '0'

def escapeChar (c : Char) : List Char :=
  match c with
  | '"' => ['\\', '"']
  | '\\' => ['\\', '\\']
  | '\n' => ['\\', 'n']
  | '\r' => ['\\', 'r']
  | '\t' => ['\\', 't']
  | '\x08' => ['\\', 'b']
  | '\x0c' => ['\\', 'f']
  | c =>
    if c.toNat < 0x20 then ['\\', 'u', '0', '0', hexDigit (c.toNat / 16), hexDigit (c.toNat % 16)]
    else [c]

def quote (content : String) : String :=
  "\"" ++ String.ofList (content.toList.flatMap escapeChar) ++ "\""

/-- What stands between the parts of a collection at some depth. -/
def Layout.gap : Layout → Nat → String
  | compact, _ => ""
  | indented, depth => "\n" ++ String.ofList (List.replicate (2 * depth) ' ')

def Layout.colon : Layout → String
  | compact => ":"
  | indented => ": "

def Layout.enclose (layout : Layout) (depth : Nat) (opening closing : String)
    (parts : List String) : String :=
  if parts.isEmpty then opening ++ closing
  else
    opening ++ layout.gap (depth + 1) ++ ("," ++ layout.gap (depth + 1)).intercalate parts ++
      layout.gap depth ++ closing

mutual

def Value.write (layout : Layout) (depth : Nat) : Value → String
  | .null => "null"
  | .boolean value => if value then "true" else "false"
  | .number written => written
  | .text content => quote (content.getD "")
  | .array items => layout.enclose depth "[" "]" (writeItems layout (depth + 1) items)
  | .object entries => layout.enclose depth "\x7b" "\x7d" (writeEntries layout (depth + 1) entries)

def writeItems (layout : Layout) (depth : Nat) : List Value → List String
  | [] => []
  | item :: rest => item.write layout depth :: writeItems layout depth rest

def writeEntries (layout : Layout) (depth : Nat) : List (Option String × Value) → List String
  | [] => []
  | (key, value) :: rest =>
    (quote (key.getD "") ++ layout.colon ++ value.write layout depth) ::
      writeEntries layout depth rest

end

end CircuitCloak.Json
