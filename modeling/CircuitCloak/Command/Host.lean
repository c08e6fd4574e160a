import CircuitCloak.Files.Store
import CircuitCloak.Random.Source
import CircuitCloak.Report.Timestamp

/-! What a command needs of the system on which it runs, and a system held in memory. -/

namespace CircuitCloak.Command
open Files

/-- A system: files, two streams of output, clocks and a source of randomness. -/
class Host (m : Type → Type) extends FileStore m where
  /-- Writes text to the output. -/
  print : String → m Unit
  /-- Writes text to the stream of messages. -/
  notify : String → m Unit
  /-- A clock in milliseconds. -/
  clock : m Float
  now : m Timestamp
  /-- A source of random words that differs from run to run. -/
  entropy : m Random.ChaCha

/-- A system held in memory, whose clocks stand still. -/
structure Desk where
  folder : Folder
  output : String := ""
  messages : String := ""

/-- A system's files are those of its folder. -/
def Desk.withFolder {α : Type} (action : StateT Folder Id α) : StateM Desk α := fun desk =>
  let (value, folder) := action desk.folder
  (value, { desk with folder })

instance : Host (StateM Desk) where
  contains path := Desk.withFolder (FileStore.contains path)
  read path := Desk.withFolder (FileStore.read path)
  write path text := Desk.withFolder (FileStore.write path text)
  print text := modify fun desk => { desk with output := desk.output ++ text }
  notify text := modify fun desk => { desk with messages := desk.messages ++ text }
  clock := pure 0
  now := pure ⟨0, 0⟩
  entropy := pure (.ofSeed 0)

end CircuitCloak.Command
