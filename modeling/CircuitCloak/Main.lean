import CircuitCloak.Command.Run
import Std.Time.DateTime.Timestamp

/-! The program on the system that runs it: its files, streams, clocks and environment. -/

namespace CircuitCloak.Command
open Files

/-- A fault with the system's number for it. -/
def numberedFault (code : UInt32) (details : String) : FileFault :=
  match code with
  | 2 => .notFound
  | 20 => .notDirectory
  | 21 => .isDirectory
  | 36 => .nameTooLong
  | code => .other s!"{details} (os error {code})"

def systemFault : IO.Error → FileFault
  | .noFileOrDirectory _ code details | .interrupted _ code details
  | .alreadyExists _ code details | .invalidArgument _ code details
  | .permissionDenied _ code details | .resourceExhausted _ code details
  | .inappropriateType _ code details | .noSuchThing _ code details
  | .otherError code details | .resourceBusy code details | .resourceVanished code details
  | .unsupportedOperation code details | .hardwareFault code details
  | .unsatisfiedConstraints code details | .illegalOperation code details
  | .protocolError code details | .timeExpired code details => numberedFault code details
  | .unexpectedEof => .other "unexpected end of file"
  | .userError details => .other details

/-- The outcome of an action on the file of a path. -/
def withFile {α : Type} (path : String) (action : String → IO α) :
    IO (Except FileFault α) := do
  match checkPath path with
  | .error fault => return .error fault
  | .ok () => try return .ok (← action path) catch error => return .error (systemFault error)

/-- Text of a file that is read to its end. -/
def systemText (path : String) : IO (Except FileFault String) := do
  match ← withFile path (IO.FS.readBinFile ·) with
  | .error fault => return .error fault
  | .ok bytes =>
    match String.fromUTF8? bytes with
    | some text => return .ok text
    | none => return .error (.other "stream did not contain valid UTF-8")

/-- A file is there if it can be opened, or if something other than its path forbids that. -/
def systemContains (path : String) : IO Bool := do
  match ← withFile path (IO.FS.Handle.mk · .read) with
  | .error .notFound | .error .notDirectory | .error .nameTooLong | .error .nulInName =>
    return false
  | _ => return true

/-- A source of randomness with a key of the system's making. -/
def systemEntropy : IO Random.ChaCha := do
  let bytes ← IO.getRandomBytes 32
  let word := fun (i : Fin 8) => (List.range 4).foldl
    (fun (word : UInt32) byte => word <<< 8 ||| (bytes.data.getD (4 * i + byte) 0).toUInt32) 0
  return ⟨Vector.ofFn word, 0, []⟩

instance : Host IO where
  contains := systemContains
  read := systemText
  write path text := withFile path (IO.FS.writeFile · text)
  print text := do (← IO.getStdout).putStr text
  notify text := do (← IO.getStderr).putStr text
  clock := return Float.ofNat (← IO.monoNanosNow) / 1000000
  now := do
    let nanoseconds := (← Std.Time.Timestamp.now).toNanosecondsSinceUnixEpoch.val
    return ⟨nanoseconds / 1000000000, (nanoseconds % 1000000000).toNat⟩
  entropy := systemEntropy

/-- The variables that a request reads. -/
def systemEnvironment : IO Environment := do
  ["HOME", configVariable, "OBFUSQ_STRATEGY", "OBFUSQ_SEED"].filterMapM fun name =>
    return (← IO.getEnv name).map fun value => (name, value)

end CircuitCloak.Command

open CircuitCloak.Command in
def main (words : List String) : IO UInt32 := do run words (← systemEnvironment)
