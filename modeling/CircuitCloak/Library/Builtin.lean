import CircuitCloak.Library.Basic

/-! The built-in tables. Every alternative realises its target, and every sequence the identity, up
to a global phase. -/

namespace CircuitCloak

/-- An alternative for a one-qubit gate. -/
def onTarget (gates : List Elementary) : List PlacedGate := gates.map fun gate => ⟨gate, [0]⟩

def standardRules : List EquivalenceRule :=
  [⟨.x, [onTarget [.h, .z, .h], onTarget [.sdg, .y, .s], onTarget [.y, .z], onTarget [.z, .y],
      onTarget [.sx, .sx], onTarget [.h, .s, .s, .h], onTarget [.z, .h, .z, .h, .z]]⟩,
    ⟨.z, [onTarget [.h, .x, .h], onTarget [.s, .s], onTarget [.t, .t, .t, .t],
      onTarget [.x, .h, .x, .h, .x], onTarget [.sdg, .sdg], onTarget [.x, .y]]⟩,
    ⟨.y, [onTarget [.x, .z], onTarget [.z, .x], onTarget [.s, .x, .sdg],
      onTarget [.sdg, .x, .s]]⟩,
    ⟨.s, [onTarget [.t, .t], onTarget [.z, .t, .z, .t], onTarget [.z, .sdg],
      onTarget [.sdg, .z]]⟩,
    ⟨.sdg, [onTarget [.tdg, .tdg], onTarget [.z, .s], onTarget [.s, .z]]⟩,
    ⟨.t, [onTarget [.s, .tdg], onTarget [.tdg, .s]]⟩,
    ⟨.tdg, [onTarget [.sdg, .t], onTarget [.t, .sdg]]⟩,
    ⟨.h, [onTarget [.s, .sx, .s], onTarget [.sdg, .sxdg, .sdg]]⟩,
    ⟨.sx, [onTarget [.h, .s, .h], onTarget [.sdg, .h, .sdg]]⟩,
    ⟨.sxdg, [onTarget [.h, .sdg, .h], onTarget [.s, .h, .s]]⟩,
    ⟨.cx, [[⟨.h, [1]⟩, ⟨.cz, [0, 1]⟩, ⟨.h, [1]⟩],
      [⟨.h, [0]⟩, ⟨.h, [1]⟩, ⟨.cx, [1, 0]⟩, ⟨.h, [0]⟩, ⟨.h, [1]⟩]]⟩,
    ⟨.cz, [[⟨.h, [1]⟩, ⟨.cx, [0, 1]⟩, ⟨.h, [1]⟩], [⟨.h, [0]⟩, ⟨.cx, [1, 0]⟩, ⟨.h, [0]⟩],
      [⟨.cz, [1, 0]⟩]]⟩,
    ⟨.cy, [[⟨.sdg, [1]⟩, ⟨.cx, [0, 1]⟩, ⟨.s, [1]⟩]]⟩,
    ⟨.swap, [[⟨.cx, [0, 1]⟩, ⟨.cx, [1, 0]⟩, ⟨.cx, [0, 1]⟩],
      [⟨.cx, [1, 0]⟩, ⟨.cx, [0, 1]⟩, ⟨.cx, [1, 0]⟩], [⟨.swap, [1, 0]⟩]]⟩]

def localSequence (name : String) (gates : List Elementary) : IdentitySequence :=
  ⟨name, gates.map .onQubit⟩

def standardIdentities : List IdentitySequence :=
  [localSequence "hh" [.h, .h],
    localSequence "xyz" [.x, .y, .z],
    localSequence "ssz" [.s, .s, .z],
    localSequence "ttsdg" [.t, .t, .sdg],
    localSequence "hzhx" [.h, .z, .h, .x],
    localSequence "shshsh" [.s, .h, .s, .h, .s, .h],
    localSequence "yxyx" [.y, .x, .y, .x],
    localSequence "tztdgz" [.t, .z, .tdg, .z],
    localSequence "sxsxx" [.sx, .sx, .x],
    localSequence "hsshx" [.h, .s, .s, .h, .x],
    localSequence "sdgysx" [.sdg, .y, .s, .x],
    localSequence "hxhz" [.h, .x, .h, .z],
    localSequence "ttttz" [.t, .t, .t, .t, .z],
    ⟨"cx-ladder", [.acrossPairs .cx, .acrossPairs .cx]⟩,
    ⟨"swap-ladder", [.acrossPairs .swap, .acrossPairs .swap]⟩,
    ⟨"cz-sandwich", [.acrossPairs .cz, .onQubit .h, .onQubit .h, .acrossPairs .cz]⟩]

def Library.builtin : Library where
  rules := standardRules
  identities := standardIdentities
  injections := [.h, .x, .z, .s, .t, .cx, .cz, .cy, .ccx]
  camouflage := [.h, .h, .z, .x, .z, .x]

end CircuitCloak
