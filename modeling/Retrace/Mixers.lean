import Mathlib.Algebra.Group.Nat.Defs

set_option autoImplicit false

namespace Retrace

/-- What the build fixes: the width shared by `size_t`, `uintptr_t` and `Py_hash_t`, and
whether the compiler has a 128-bit integer. Words are naturals below their modulus. -/
structure Platform where
  wide : Bool
  int128 : Bool
  deriving DecidableEq, Repr

def Platform.bits (p : Platform) : Nat := if p.wide then 64 else 32

def Platform.sizeMax (p : Platform) : Nat := 2 ^ p.bits - 1

/-- `sizeof(uintptr_t)`, which is also `sizeof(Py_hash_t)`. -/
def Platform.wordBytes (p : Platform) : Nat := if p.wide then 8 else 4

def mix64 (p : Platform) (state value : Nat) : Nat :=
  if p.int128 then
    let product := ((state ^^^ 0xa0761d6478bd642f) * (value ^^^ 0xe7037ed1a0b428db)) % 2 ^ 128
    product % 2 ^ 64 ^^^ product / 2 ^ 64
  else
    let state := state ^^^ 0xa0761d6478bd642f
    let value := value ^^^ 0xe7037ed1a0b428db
    let state := state ^^^ state / 2 ^ 32
    let value := value ^^^ value / 2 ^ 32
    let state := state * 0xe7037ed1a0b428db % 2 ^ 64
    let value := value * 0xa0761d6478bd642f % 2 ^ 64
    state ^^^ value ^^^ state / 2 ^ 32 ^^^ value / 2 ^ 32

def normalizeCoordinateHash (hash : Nat) : Nat :=
  if hash = 2 ^ 64 - 1 then 2 ^ 64 - 2 else hash

def initialRootCoordinateHash (p : Platform) : Nat :=
  normalizeCoordinateHash (mix64 p 0x243f6a8885a308d3 0x13198a2e03707344)

end Retrace
