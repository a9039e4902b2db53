import Mathlib.Data.List.Find
import Mathlib.Logic.Function.Basic
import Mathlib.Tactic.Common

/-!
`ThreadHandoff`: its entries, the calls `to` and `close` cut at every access to shared data,
and all interleavings of the threads that make them. Threads are known by their Retrace ids.
-/

set_option autoImplicit false

namespace Retrace

/-- `gate` counts the releases of the gate lock that no acquire has taken: 0 while it is held,
more than 1 only if it was released while free. -/
structure HandoffEntry where
  threadId : Nat
  permit : Bool
  waiting : Bool
  gate : Nat
  deriving DecidableEq, Repr

/-- `lock` is the thread that holds the internal lock. -/
structure ThreadHandoff where
  lock : Option Nat
  closed : Bool
  hasTimeout : Bool
  entries : List HandoffEntry
  deriving DecidableEq, Repr

def ThreadHandoff.findEntry (self : ThreadHandoff) (threadId : Nat) : Option HandoffEntry :=
  self.entries.find? (fun entry => entry.threadId == threadId)

/-- A write through an entry pointer; the entry is found again by its thread. -/
def ThreadHandoff.updateEntry (self : ThreadHandoff) (threadId : Nat)
    (f : HandoffEntry → HandoffEntry) : ThreadHandoff :=
  { self with entries := self.entries.map (fun entry =>
      if entry.threadId = threadId then { f entry with threadId := entry.threadId } else entry) }

/-- `allocates`: the entry and its gate lock can be allocated. A new gate is held. -/
def ThreadHandoff.getEntry (self : ThreadHandoff) (threadId : Nat) (allocates : Bool) :
    Option ThreadHandoff :=
  match self.findEntry threadId with
  | some _ => some self
  | none =>
    if allocates then
      some { self with entries := ⟨threadId, false, false, 0⟩ :: self.entries }
    else none

def closeLocked (self : ThreadHandoff) : ThreadHandoff :=
  if self.closed then self else
  { self with
    closed := true
    entries := self.entries.map (fun entry =>
      if entry.waiting && !entry.permit then { entry with gate := entry.gate + 1 } else entry) }

def wakeEntryLocked (entry : HandoffEntry) : HandoffEntry :=
  if !entry.permit && entry.waiting then { entry with permit := true, gate := entry.gate + 1 }
  else { entry with permit := true }

inductive ToResult where
  | returned
  | zeroTarget
  | noThreadId
  | closed
  | noMemory
  | timedOut
  | waitFailed
  deriving DecidableEq, Repr

/-- Where a thread stands. Between `inTo` and `leave`, and in `inClose`, it holds the internal
lock, except in `gateWait` and `lockAgain`. -/
inductive Pc where
  | running
  | lockTo (target : Nat)
  | inTo (target : Nat)
  | clearStale (target : Nat)
  | wake (target : Nat)
  | startWait
  | loop
  | gateWait
  | lockAgain (acquired : Bool)
  | afterGate (acquired : Bool)
  | leave (result : ToResult)
  | lockClose
  | inClose
  | leaveClose
  deriving DecidableEq, Repr

structure HandoffState where
  handoff : ThreadHandoff
  pc : Nat → Pc
  result : Nat → Option ToResult

def HandoffState.goto (s : HandoffState) (t : Nat) (pc : Pc) : HandoffState :=
  { s with pc := Function.update s.pc t pc }

def HandoffState.finish (s : HandoffState) (t : Nat) (result : ToResult) : HandoffState :=
  { s with pc := Function.update s.pc t .running
           result := Function.update s.result t (some result) }

/-- The body of `to` up to the transfer, under the lock. -/
def enterTo (s : HandoffState) (t target : Nat) (allocTarget allocCurrent : Bool) :
    HandoffState :=
  if s.handoff.closed then s.goto t (.leave .closed)
  else if target = t then s.goto t (.leave .returned)
  else
    match s.handoff.getEntry target allocTarget with
    | none => s.goto t (.leave .noMemory)
    | some handoff =>
      match handoff.getEntry t allocCurrent with
      | none => { s with handoff := handoff }.goto t (.leave .noMemory)
      | some handoff => { s with handoff := handoff }.goto t (.clearStale target)

/-- `wait_entry_locked` after the status of the gate wait is known, `entry` being the caller's. -/
def afterGate (s : HandoffState) (t : Nat) (acquired : Bool) : HandoffState :=
  let s' := { s with
    handoff := s.handoff.updateEntry t (fun entry => { entry with waiting := false }) }
  if s.handoff.hasTimeout && !acquired then s'.goto t (.leave .timedOut)
  else if !acquired then s'.goto t (.leave .waitFailed)
  else s.goto t .loop

inductive HandoffEvent where
  | call (t target : Nat)
  | callClose (t : Nat)
  | advance (t : Nat) (allocTarget allocCurrent : Bool)
  | timeout (t : Nat)
  deriving DecidableEq, Repr

/-- The next step of a thread inside a call. `none` while it has to wait for a lock. -/
def advance (s : HandoffState) (t : Nat) (allocTarget allocCurrent : Bool) :
    Option HandoffState :=
  match s.pc t with
  | .running => none
  | .lockTo target =>
    if s.handoff.lock = none then
      some ({ s with handoff := { s.handoff with lock := some t } }.goto t (.inTo target))
    else none
  | .inTo target => some (enterTo s t target allocTarget allocCurrent)
  | .clearStale target =>
    some ({ s with handoff := s.handoff.updateEntry t (fun entry =>
      { entry with permit := false }) }.goto t (.wake target))
  | .wake target =>
    some ({ s with handoff := s.handoff.updateEntry target wakeEntryLocked }.goto t .startWait)
  | .startWait => do
    let entry ← s.handoff.findEntry t
    if entry.permit then
      some ({ s with handoff := s.handoff.updateEntry t (fun entry =>
        { entry with permit := false, waiting := false }) }.goto t (.leave .returned))
    else
      some ({ s with handoff := s.handoff.updateEntry t (fun entry =>
        { entry with waiting := true }) }.goto t .loop)
  | .loop => do
    let entry ← s.handoff.findEntry t
    if !s.handoff.closed && !entry.permit then
      some ({ s with handoff := { s.handoff with lock := none } }.goto t .gateWait)
    else
      some ({ s with handoff := s.handoff.updateEntry t (fun entry =>
        { entry with waiting := false, permit := false }) }.goto t (.leave .returned))
  | .gateWait => do
    let entry ← s.handoff.findEntry t
    if entry.gate = 0 then none
    else
      some ({ s with handoff := s.handoff.updateEntry t (fun entry =>
        { entry with gate := entry.gate - 1 }) }.goto t (.lockAgain true))
  | .lockAgain acquired =>
    if s.handoff.lock = none then
      some ({ s with handoff := { s.handoff with lock := some t } }.goto t (.afterGate acquired))
    else none
  | .afterGate acquired => some (afterGate s t acquired)
  | .leave result =>
    some ({ s with handoff := { s.handoff with lock := none } }.finish t result)
  | .lockClose =>
    if s.handoff.lock = none then
      some ({ s with handoff := { s.handoff with lock := some t } }.goto t .inClose)
    else none
  | .inClose => some ({ s with handoff := closeLocked s.handoff }.goto t .leaveClose)
  | .leaveClose => some ({ s with handoff := { s.handoff with lock := none } }.goto t .running)

/-- Zero stands for a thread without a Retrace id. -/
def callTo (s : HandoffState) (t target : Nat) : HandoffState :=
  if target = 0 then s.finish t .zeroTarget
  else if t = 0 then s.finish t .noThreadId
  else s.goto t (.lockTo target)

def handoffStep (s : HandoffState) : HandoffEvent → Option HandoffState
  | .call t target => if s.pc t = .running then some (callTo s t target) else none
  | .callClose t => if s.pc t = .running then some (s.goto t .lockClose) else none
  | .advance t allocTarget allocCurrent => advance s t allocTarget allocCurrent
  | .timeout t =>
    if s.pc t = .gateWait ∧ s.handoff.hasTimeout = true then some (s.goto t (.lockAgain false))
    else none

def handoffRun : List HandoffEvent → HandoffState → Option HandoffState
  | [], s => some s
  | event :: events, s => do
    let s ← handoffStep s event
    handoffRun events s

def HandoffEvent.thread : HandoffEvent → Nat
  | .call t _ => t
  | .callClose t => t
  | .advance t _ _ => t
  | .timeout t => t

def Pc.holdsLock : Pc → Bool
  | .running => false
  | .lockTo _ => false
  | .gateWait => false
  | .lockAgain _ => false
  | .lockClose => false
  | _ => true

def HandoffState.permit (s : HandoffState) (t : Nat) : Bool :=
  match s.handoff.findEntry t with
  | some entry => entry.permit
  | none => false

section entries
variable {self : ThreadHandoff}

theorem findEntry_updateEntry (t u : Nat) (f : HandoffEntry → HandoffEntry) :
    (self.updateEntry t f).findEntry u =
      (self.findEntry u).map (fun entry =>
        if u = t then { f entry with threadId := entry.threadId } else entry) := by
  unfold ThreadHandoff.updateEntry ThreadHandoff.findEntry
  simp only [List.find?_map]
  have hpred : ((fun entry : HandoffEntry => entry.threadId == u) ∘ fun entry =>
      if entry.threadId = t then { f entry with threadId := entry.threadId } else entry) =
      fun entry => entry.threadId == u := by
    funext entry
    simp only [Function.comp]
    split <;> rfl
  rw [hpred]
  cases hfind : self.entries.find? (fun entry => entry.threadId == u) with
  | none => rfl
  | some entry =>
    have hid := List.find?_some hfind
    simp only [beq_iff_eq] at hid
    simp [hid]

theorem findEntry_getEntry {t : Nat} {allocates : Bool} {self' : ThreadHandoff}
    (h : self.getEntry t allocates = some self') :
    (self'.findEntry t).isSome ∧ self'.lock = self.lock ∧ self'.closed = self.closed ∧
      ∀ u, self'.findEntry u = self.findEntry u ∨
        self.findEntry u = none ∧ self'.findEntry u = some ⟨u, false, false, 0⟩ := by
  unfold ThreadHandoff.getEntry at h
  cases hfind : self.findEntry t with
  | some entry =>
    simp only [hfind, Option.some.injEq] at h
    subst h
    exact ⟨by simp [hfind], rfl, rfl, fun _ => Or.inl rfl⟩
  | none =>
    simp only [hfind] at h
    split at h
    · simp only [Option.some.injEq] at h
      subst h
      refine ⟨by simp [ThreadHandoff.findEntry], rfl, rfl, ?_⟩
      intro u
      by_cases hu : t = u
      · subst hu
        exact Or.inr ⟨hfind, by simp [ThreadHandoff.findEntry]⟩
      · exact Or.inl (by simp [ThreadHandoff.findEntry, hu])
    · simp at h

end entries

end Retrace
