import Retrace.Mixers

/-!
The identity hash table of one interpreter: open addressing with Robin Hood
displacement, the low three bits of a key slot holding the probe length.
-/

set_option autoImplicit false

namespace Retrace

def identityHashMinCapacity : Nat := 16
def identityHashPslMask : Nat := 7
def identityHashPslSaturated : Nat := 7

/-- `~_PY_RETRACE_IDENTITY_HASH_PSL_MASK` as a `uintptr_t`. -/
def identityHashPointerMask (p : Platform) : Nat := 2 ^ p.bits - 8

/-- `address` stands for the `_PyRetraceIdentityHashTable *` itself. -/
structure IdentityHashTable where
  address : Nat
  mask : Nat
  used : Nat
  resizeAt : Nat
  keys : List Nat
  values : List Int
  deriving DecidableEq, Repr

def identityHashCapacity (p : Platform) (table : IdentityHashTable) : Nat :=
  (table.mask + 1) % 2 ^ p.bits

def identityHashResizeAt (p : Platform) (capacity : Nat) : Nat :=
  capacity * 5 % 2 ^ p.bits / 8

def identityHashEntryKey (p : Platform) (entry : Nat) : Nat := entry &&& identityHashPointerMask p

def identityHashEntryPsl (entry : Nat) : Nat := entry &&& identityHashPslMask

def identityHashEntry (key psl : Nat) : Nat :=
  key ||| (if psl > identityHashPslSaturated then identityHashPslSaturated else psl)

def identityHashIndex (p : Platform) (key mask : Nat) : Nat :=
  mix64 p key 0x9e3779b97f4a7c15 % 2 ^ p.bits &&& mask

def identityHashExactPsl (p : Platform) (key index mask : Nat) : Nat :=
  (index + (2 ^ p.bits - identityHashIndex p key mask)) % 2 ^ p.bits &&& mask

def identityHashEntryMatches (entry key : Nat) : Bool := entry ^^^ key ≤ identityHashPslMask

/-- `PyMem_RawMalloc` as an oracle: which calls fail, and what a fresh block contains. -/
structure RawMalloc where
  fails : Nat → Bool
  garbage : Nat → Nat → Int
  calls : Nat

def rawMalloc (m : RawMalloc) : Option Nat × RawMalloc :=
  (if m.fails m.calls then none else some m.calls, { m with calls := m.calls + 1 })

/-- The doubling loop. Fuel counts its tests; the outer `none` means it ran out,
the inner one is `return NULL`. -/
def newCapacityLoop (p : Platform) (minCapacity : Nat) : Nat → Nat → Option (Option Nat)
  | 0, _ => none
  | fuel + 1, capacity =>
    if capacity < minCapacity then
      if capacity > p.sizeMax / 2 then some none
      else newCapacityLoop p minCapacity fuel (capacity * 2)
    else some (some capacity)

def newIdentityHashTable (p : Platform) (minCapacity : Nat) (m : RawMalloc) :
    Option (Option IdentityHashTable × RawMalloc) := do
  let some capacity ← newCapacityLoop p minCapacity p.bits identityHashMinCapacity
    | some (none, m)
  if capacity > p.sizeMax / p.wordBytes then some (none, m) else
  let (table, m) := rawMalloc m
  let some address := table | some (none, m)
  let (keys, m) := rawMalloc m
  let (values, m) := rawMalloc m
  let (some _, some valuesBlock) := (keys, values) | some (none, m)
  some (some {
    address := address
    mask := capacity - 1
    used := 0
    resizeAt := identityHashResizeAt p capacity
    keys := List.replicate capacity 0
    values := (List.range capacity).map (m.garbage valuesBlock) }, m)

def IdentityHashTable.key (table : IdentityHashTable) (index : Nat) : Nat :=
  table.keys.getD index 0

def IdentityHashTable.value (table : IdentityHashTable) (index : Nat) : Int :=
  table.values.getD index 0

def IdentityHashTable.store (table : IdentityHashTable) (index entry : Nat) (value : Int) :
    IdentityHashTable :=
  { table with keys := table.keys.set index entry, values := table.values.set index value }

/-- The stored probe length, recomputed when it is saturated. -/
def identityHashSlotPsl (p : Platform) (table : IdentityHashTable) (index : Nat) : Nat :=
  let psl := identityHashEntryPsl (table.key index)
  if psl = identityHashPslSaturated then
    identityHashExactPsl p (identityHashEntryKey p (table.key index)) index table.mask
  else psl

/-- The `for (;;)` of the insertion. Fuel counts iterations. -/
def insertKnownRoomLoop (p : Platform) :
    Nat → IdentityHashTable → Nat → Int → Nat → Nat → Option IdentityHashTable
  | 0, _, _, _, _, _ => none
  | fuel + 1, table, key, value, index, psl =>
    let entry := table.key index
    if entry = 0 then
      some { table.store index (identityHashEntry key psl) value with used := table.used + 1 }
    else if identityHashEntryMatches entry key then
      some { table with values := table.values.set index value }
    else
      let entryPsl := identityHashSlotPsl p table index
      if entryPsl < psl then
        insertKnownRoomLoop p fuel (table.store index (identityHashEntry key psl) value)
          (identityHashEntryKey p entry) (table.value index) ((index + 1) &&& table.mask)
          (entryPsl + 1)
      else
        insertKnownRoomLoop p fuel table key value ((index + 1) &&& table.mask) (psl + 1)

/-- `none`: the loop has not ended after as many iterations as the table has slots. -/
def identityHashTableInsertKnownRoom (p : Platform) (table : IdentityHashTable) (key : Nat)
    (value : Int) : Option IdentityHashTable :=
  insertKnownRoomLoop p (table.mask + 1) table key value (identityHashIndex p key table.mask) 0

/-- The search that lookup and delete both begin with: the index of the matching entry,
or inner `none` where they return 0. -/
def probeLoop (p : Platform) (table : IdentityHashTable) (key : Nat) :
    Nat → Nat → Nat → Option (Option Nat)
  | 0, _, _ => none
  | fuel + 1, index, psl =>
    let entry := table.key index
    if entry = 0 then some none
    else if identityHashEntryMatches entry key then some (some index)
    else
      let entryPsl := identityHashEntryPsl entry
      if entryPsl < psl then
        if entryPsl ≠ identityHashPslSaturated then some none
        else
          if identityHashExactPsl p (identityHashEntryKey p entry) index table.mask < psl then
            some none
          else probeLoop p table key fuel ((index + 1) &&& table.mask) (psl + 1)
      else probeLoop p table key fuel ((index + 1) &&& table.mask) (psl + 1)

def probe (p : Platform) (table : IdentityHashTable) (key : Nat) : Option (Option Nat) :=
  probeLoop p table key (table.mask + 1) (identityHashIndex p key table.mask) 0

/-- The backshift of the deletion; the entry after the hole moves into it. -/
def backshiftLoop (p : Platform) : Nat → IdentityHashTable → Nat → Option IdentityHashTable
  | 0, _, _ => none
  | fuel + 1, table, hole =>
    let scan := (hole + 1) &&& table.mask
    let entry := table.key scan
    if entry = 0 then some { table with keys := table.keys.set hole 0 }
    else
      let entryPsl := identityHashSlotPsl p table scan
      if entryPsl = 0 then some { table with keys := table.keys.set hole 0 }
      else
        backshiftLoop p fuel
          (table.store hole
            (identityHashEntry (identityHashEntryKey p entry) (entryPsl - 1)) (table.value scan))
          scan

/-- The part of the interpreter state the table lives in, with its allocator. -/
structure IdentityHashes where
  identityHashes : Option IdentityHashTable
  malloc : RawMalloc

def rehashLoop (p : Platform) (oldTable : IdentityHashTable) :
    List Nat → IdentityHashTable → Option IdentityHashTable
  | [], newTable => some newTable
  | i :: rest, newTable =>
    if oldTable.key i ≠ 0 then do
      let newTable ← identityHashTableInsertKnownRoom p newTable
        (identityHashEntryKey p (oldTable.key i)) (oldTable.value i)
      rehashLoop p oldTable rest newTable
    else rehashLoop p oldTable rest newTable

/-- Returns the status and the state; the freed old table is dropped. -/
def growIdentityHashTable (p : Platform) (interp : IdentityHashes) :
    Option (Int × IdentityHashes) := do
  match interp.identityHashes with
  | none =>
    let (newTable, malloc) ← newIdentityHashTable p identityHashMinCapacity interp.malloc
    match newTable with
    | none => some (-1, { interp with malloc := malloc })
    | some newTable => some (0, { identityHashes := some newTable, malloc := malloc })
  | some oldTable =>
    let newCapacity := identityHashCapacity p oldTable * 2 % 2 ^ p.bits
    if newCapacity ≤ identityHashCapacity p oldTable then some (-1, interp) else
    let (newTable, malloc) ← newIdentityHashTable p newCapacity interp.malloc
    match newTable with
    | none => some (-1, { interp with malloc := malloc })
    | some newTable =>
      let newTable ← rehashLoop p oldTable (List.range (identityHashCapacity p oldTable)) newTable
      some (0, { identityHashes := some newTable, malloc := malloc })

/-- `value` is what `*value` holds before the call. -/
def lookupIdentityHash (p : Platform) (interp : IdentityHashes) (obj : Nat) (value : Int) :
    Option (Int × Int) := do
  let some table := interp.identityHashes | some (0, value)
  if table.used = 0 then some (0, value) else
  match ← probe p table obj with
  | none => some (0, value)
  | some index => some (1, table.value index)

def mustGrow (p : Platform) (interp : IdentityHashes) : Bool :=
  match interp.identityHashes with
  | none => true
  | some table => decide ((table.used + 1) % 2 ^ p.bits > table.resizeAt)

def setIdentityHash (p : Platform) (interp : IdentityHashes) (obj : Nat) (value : Int) :
    Option (Int × IdentityHashes) := do
  let (status, interp) ←
    if mustGrow p interp then growIdentityHashTable p interp else some (0, interp)
  if status < 0 then some (-1, interp) else
  -- a grown or roomy interpreter has a table; the source would read through NULL otherwise
  let some table := interp.identityHashes | none
  let table ← identityHashTableInsertKnownRoom p table obj value
  some (0, { interp with identityHashes := some table })

def deleteIdentityHash (p : Platform) (interp : IdentityHashes) (obj : Nat) :
    Option (Int × IdentityHashes) := do
  let some table := interp.identityHashes | some (0, interp)
  if table.used = 0 then some (0, interp) else
  match ← probe p table obj with
  | none => some (0, interp)
  | some index =>
    let table ← backshiftLoop p (table.mask + 1) { table with used := table.used - 1 } index
    some (1, { interp with identityHashes := some table })

def clearIdentityHashTable (interp : IdentityHashes) : IdentityHashes :=
  { interp with identityHashes := none }

end Retrace
