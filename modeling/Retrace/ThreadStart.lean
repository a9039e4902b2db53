import Retrace.OrdinalCounts

/-! Thread ids, and the threads of an interpreter as they start, run and end. -/

set_option autoImplicit false

namespace Retrace

def threadIdSpaceMask : Nat := 0xffff
def threadIdHashMask : Nat := 0x0000ffffffffffff

def normalizeThreadId (threadId : Nat) : Nat :=
  if normalizeCoordinateHash threadId = 0 then 1 else normalizeCoordinateHash threadId

def threadIdSpaceBits (spaceId : Nat) : Nat := spaceId &&& threadIdSpaceMask

def composeThreadId (spaceId threadHash : Nat) : Nat :=
  let hashBits := normalizeCoordinateHash threadHash &&& threadIdHashMask
  let hashBits := if hashBits = 0 then 1 else hashBits
  normalizeThreadId (threadIdSpaceBits spaceId <<< 48 ||| hashBits)

/-- Up to eight bytes as a little-endian word. -/
def wordOfBytes (bytes : List Nat) : Nat := bytes.foldr (fun byte word => byte + 256 * word) 0

def mixWord (p : Platform) (hash : Nat) (bytes : List Nat) : Nat :=
  normalizeCoordinateHash (mix64 p hash (wordOfBytes bytes))

def mixBytesLoop (p : Platform) : List Nat → Nat → Nat
  | b₀ :: b₁ :: b₂ :: b₃ :: b₄ :: b₅ :: b₆ :: b₇ :: rest, hash =>
    mixBytesLoop p rest (mixWord p hash [b₀, b₁, b₂, b₃, b₄, b₅, b₆, b₇])
  | [], hash => hash
  | tail, hash => mixWord p hash tail

def mixBytes (p : Platform) (hash : Nat) (data : List Nat) : Nat :=
  mixBytesLoop p data (normalizeCoordinateHash (mix64 p hash data.length))

/-- The bytes of "retrace.root-seed.v2". -/
def rootSeedDomain : List Nat :=
  [114, 101, 116, 114, 97, 99, 101, 46, 114, 111, 111, 116, 45, 115, 101, 101, 100, 46, 118, 50]

/-- The bytes of "retrace.thread-id.v2". -/
def threadIdDomain : List Nat :=
  [114, 101, 116, 114, 97, 99, 101, 46, 116, 104, 114, 101, 97, 100, 45, 105, 100, 46, 118, 50]

/-- The bytes of "retrace", the seed if the environment has none. -/
def defaultRootSeed : List Nat := [114, 101, 116, 114, 97, 99, 101]

def rootThreadIdSeed (p : Platform) (seed : List Nat) : Nat :=
  composeThreadId spaceIdRoot
    (mixBytes p (mixBytes p (initialRootCoordinateHash p) rootSeedDomain) seed)

/-- The recursion from the leaf of the chain; without a space no frame counts. -/
def mixVisibleFrameCoordinates (p : Platform) (m : Machine) (space : Option SpacePtr) :
    List Nat → Nat → Nat
  | [], hash => hash
  | f :: rest, hash =>
    if frameIsVisible (m.frames f) ∧ (m.frames f).space = space then
      mixFrameCoordinateHash p (mixVisibleFrameCoordinates p m space rest hash)
        (frameCoordinate (m.frames f)) (m.frames f).currentCallOrdinal
    else mixVisibleFrameCoordinates p m space rest hash

/-- The seed mixed from the creator's id and frames, and the creator, whose current space the call
may set. `allocates` is for that space. -/
def threadIdSeed (p : Platform) (seed : List Nat) (parent : Option Machine) (allocates : Bool) :
    Nat × Option Machine :=
  let hash := mixBytes p (initialRootCoordinateHash p) threadIdDomain
  match parent with
  | none => (normalizeThreadId (mix64 p hash (rootThreadIdSeed p seed)), none)
  | some parent =>
    if parent.tstate.threadId = 0 then
      (normalizeThreadId (mix64 p hash (rootThreadIdSeed p seed)), some parent)
    else
      let hash := mix64 p hash parent.tstate.threadId
      let (space, tstate) := currentSpace p parent.tstate allocates
      let parent := parent.setTstate tstate
      (normalizeThreadId (mixVisibleFrameCoordinates p parent (space.map parent.spacePtr)
        (currentThreadFrame parent) hash), some parent)

/-- The thread states of an interpreter by their address; `live` is its list of threads. -/
structure Process where
  threads : Nat → Machine
  live : List Nat

namespace Process

def setThread (proc : Process) (i : Nat) (m : Machine) : Process :=
  { proc with threads := Function.update proc.threads i m }

end Process

def threadIdIsActive (proc : Process) (skip threadId : Nat) : Bool :=
  threadId = 0 ||
    proc.live.any (fun i => i ≠ skip && (proc.threads i).tstate.threadId = threadId)

/-- Fuel counts the candidates that are tried; `none` means it ran out. -/
def uniqueThreadIdLoop (p : Platform) (proc : Process) (skip spaceId : Nat) :
    Nat → Nat → Nat → Option Nat
  | 0, _, _ => none
  | fuel + 1, threadId, retry =>
    if threadIdIsActive proc skip threadId then
      uniqueThreadIdLoop p proc skip spaceId fuel
        (composeThreadId spaceId (mix64 p threadId retry)) ((retry + 0x9e3779b97f4a7c15) % 2 ^ 64)
    else some threadId

def uniqueThreadId (p : Platform) (proc : Process) (skip spaceId threadId fuel : Nat) :
    Option Nat :=
  uniqueThreadIdLoop p proc skip spaceId fuel (composeThreadId spaceId threadId) 0x9e3779b97f4a7c15

/-- The choices of one thread start: the fuel of the search for an id, and whether the creator's
and the new thread's current space can be allocated. -/
structure StartChoices where
  fuel : Nat
  parentAllocates : Bool
  childAllocates : Bool
  deriving DecidableEq, Repr

/-- The child gets its id, which is also the hash of its root, and the space it inherits. -/
def adoptThread (p : Platform) (proc : Process) (child inherited threadId : Nat)
    (allocates : Bool) : Process :=
  let m := proc.threads child
  let tstate := { m.tstate.updateSpace 0 (fun root =>
      { root with rootCoordinateHash := threadId }) with
    threadId := threadId
    inheritedSpaceId := inherited }
  proc.setThread child (m.setTstate (setCurrentSpaceById p tstate inherited allocates).2)

/-- The child is on the list of threads already. -/
def seedThreadState (p : Platform) (seed : List Nat) (proc : Process) (parent : Option Nat)
    (child : Nat) (choices : StartChoices) : Option Process :=
  let parent := if parent = some child then none else parent
  let inherited := match parent with
    | none => spaceIdRoot
    | some i => (proc.threads i).currentSpaceId
  let (hash, creator) := threadIdSeed p seed (parent.map proc.threads) choices.parentAllocates
  let proc := match parent, creator with
    | some i, some m => proc.setThread i m
    | _, _ => proc
  (uniqueThreadId p proc child inherited hash choices.fuel).map (fun threadId =>
    adoptThread p proc child inherited threadId choices.childAllocates)

/-- A new thread state is initialized, put on the list and seeded from the current thread, if
there is one. -/
def newThreadstate (p : Platform) (seed : List Nat) (proc : Process) (parent : Option Nat)
    (child : Nat) (choices : StartChoices) : Option Process :=
  seedThreadState p seed { (proc.setThread child (freshMachine p child)) with
    live := child :: proc.live } parent child choices

def clearThreadState (t : ThreadState) : ThreadState :=
  { t with
    spaces := (t.spaces.take 1).map (fun root => { root with next := 0 })
    lastSpace := 0
    currentSpace := 0
    callOrdinalPtr := some (.root 0) }

/-- `handOver` gives a suspended generator to another thread. -/
inductive ProcessEvent where
  | run (i : Nat) (event : ThreadEvent)
  | start (parent : Option Nat) (child : Nat) (choices : StartChoices)
  | clear (i : Nat)
  | delete (i : Nat)
  | handOver (i j g : Nat)
  deriving DecidableEq, Repr

/-- `none` for an event of a thread that is not on the list, or a start of one that is. -/
def processStep (p : Platform) (seed : List Nat) (proc : Process) : ProcessEvent → Option Process
  | .run i event =>
    if i ∈ proc.live then
      (threadStep p (proc.threads i) event).map (proc.setThread i)
    else none
  | .start parent child choices =>
    if child ∉ proc.live ∧ ∀ i, parent = some i → i ∈ proc.live then
      newThreadstate p seed proc parent child choices
    else none
  | .clear i =>
    if i ∈ proc.live then
      some (proc.setThread i ((proc.threads i).setTstate
        (clearThreadState (proc.threads i).tstate)))
    else none
  | .delete i => if i ∈ proc.live then some { proc with live := proc.live.erase i } else none
  | .handOver i j g =>
    if i ∈ proc.live ∧ j ∈ proc.live ∧ .frame g ∉ (proc.threads i).tstate.stack ∧
        .frame g ∉ (proc.threads j).tstate.stack then
      some (proc.setThread j ((proc.threads j).setFrame g ((proc.threads i).frames g)))
    else none

def processRun (p : Platform) (seed : List Nat) : List ProcessEvent → Process → Option Process
  | [], proc => some proc
  | event :: events, proc => do
    let proc ← processStep p seed proc event
    processRun p seed events proc

def emptyProcess (p : Platform) : Process where
  threads i := freshMachine p i
  live := []

end Retrace
