import CircuitCloak.Circuit.Basic
import Std.Data.HashMap

/-! The depth of a circuit: every instruction lies one layer above the highest wire it touches,
classical wires included. Barriers take no layer. -/

namespace CircuitCloak

/-- A place of one of the two registers. -/
inductive Wire where
  | qubit (index : Nat)
  | clbit (index : Nat)
  deriving DecidableEq, Hashable, Repr

def Instruction.wires (instruction : Instruction) : List Wire :=
  instruction.qubits.map .qubit ++ instruction.clbits.map .clbit

/-- The layer reached by each wire; zero for one not yet touched. -/
abbrev Levels := Std.HashMap Wire Nat

/-- The layer of an instruction on the given wires. -/
def Levels.next (levels : Levels) (wires : List Wire) : Nat :=
  wires.foldl (fun top wire => max top (levels.getD wire 0)) 0 + 1

def Levels.raise (levels : Levels) (wires : List Wire) (level : Nat) : Levels :=
  wires.foldl (fun levels wire => levels.insert wire level) levels

/-- Places one instruction; the second component is the highest layer so far. -/
def Levels.place (state : Levels × Nat) (instruction : Instruction) : Levels × Nat :=
  if instruction.isBarrier then state
  else
    let level := state.1.next instruction.wires
    (state.1.raise instruction.wires level, max state.2 level)

def Circuit.depth (circuit : Circuit) : Nat :=
  (circuit.instructions.toList.foldl Levels.place (∅, 0)).2

end CircuitCloak
