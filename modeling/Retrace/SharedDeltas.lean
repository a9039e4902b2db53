import Retrace.SharedFrames

/-!
The consumers of a space's deltas, one for each thread, when generators move between the threads:
the caches of a frame may speak of another thread, or of one that had the same address.
-/

set_option autoImplicit false

namespace Retrace

def decodeEach (spaceId : Nat) :
    List (Nat × Nat × DeltaResult) → (Nat → List Nat) → Option (Nat → List Nat)
  | [], consumers => some consumers
  | (t, id, delta) :: outs, consumers =>
    if id = spaceId then do
      let stack ← decode (consumers t) delta
      decodeEach spaceId outs (Function.update consumers t stack)
    else decodeEach spaceId outs consumers

def awaitingEach (s : SharedState) (pendings : Nat → List Nat) : SharedEvent → Nat → List Nat
  | .run t event => Function.update pendings t (awaiting (s.thread t) (pendings t) event)
  | _ => pendings

def sharedConsumableStep (s : SharedState) (spaceId : Nat) (pendings : Nat → List Nat) :
    SharedEvent → Bool
  | .run t event => consumableStep (s.thread t) spaceId (pendings t) event
  | _ => true

/-- Each thread takes the deltas of the space as one alone would. -/
def sharedConsumable (p : Platform) (spaceId : Nat) :
    List SharedEvent → SharedState → (Nat → List Nat) → Bool
  | [], _, _ => true
  | e :: events, s, pendings => sharedConsumableStep s spaceId pendings e &&
      match sharedStep p s e with
      | none => true
      | some (s', _) => sharedConsumable p spaceId events s' (awaitingEach s pendings e)

structure AllConsuming (s : SharedState) (spaceId : Nat) (pendings consumers : Nat → List Nat) :
    Prop where
  sound : s.Sound
  settled : ∀ f, Settled (s.frames f)
  each : ∀ t ∈ s.live, Consuming (s.view t) spaceId (pendings t) (consumers t)
  fresh : ∀ t, s.started ≤ t → pendings t = [] ∧ consumers t = []

section shared
variable {p : Platform} {s s' : SharedState} {m m' : Machine} {e : SharedEvent} {spaceId t u : Nat}
  {pending stack : List Nat} {pendings consumers : Nat → List Nat}
  {out : List (Nat × Nat × DeltaResult)} {own : Nat → Bool} {other : Nat → InterpreterFrame}

theorem patched_topComplete (h : ∀ f, .frame f ∈ m.tstate.stack → own f = true) :
    topComplete (m.patched own other) = topComplete m := by
  unfold topComplete
  rw [patched_tstate]
  split
  · rename_i f rest hstack
    rw [patched_frames (h f (hstack ▸ List.mem_cons_self))]
  · rfl

theorem patched_consumableStep (h : ∀ f, .frame f ∈ m.tstate.stack → own f = true)
    (event : ThreadEvent) : consumableStep (m.patched own other) spaceId pending event =
      consumableStep m spaceId pending event := by
  cases event with
  | «begin» jumps offset =>
    simp only [consumableStep, patched_tstate]
    split
    · rename_i f rest hstack
      rw [patched_frames (h f (hstack ▸ List.mem_cons_self))]
    · rfl
  | threadDelta id allocates tupleAllocates =>
    simp only [consumableStep, patched_tstate, patched_topComplete h]
  | _ => simp only [consumableStep, patched_topComplete h]

theorem settled_view (t f : Nat) : Settled ((s.view t).frames f) ↔ Settled (s.frames f) := by
  cases hf : s.elsewhere t f with
  | true =>
    rw [SharedState.view_frames_elsewhere hf]
    rfl
  | false => rw [SharedState.view_frames hf]

theorem Consuming.disturbed (h : Consuming m spaceId pending stack) (hother : Disturbed m m')
    (hsettled : ∀ f, Settled (m'.frames f)) : Consuming m' spaceId pending stack := by
  have htstate := hother.tstate
  obtain ⟨l, hstanding⟩ := h.standing
  refine ⟨⟨l, hstanding.disturbed hother⟩, ?_, hsettled, ?_⟩
  · intro item rest hstack f hf
    rw [htstate] at hstack
    rw [hother.frame f (hstack ▸ List.mem_cons_of_mem _ hf)]
    exact h.complete item rest hstack f hf
  · intro n hfind
    rw [htstate] at hfind
    obtain ⟨newer, kept, hsplit, hstarts, hstale⟩ := h.decodable n hfind
    have hptr : m'.spacePtr n = m.spacePtr n := hother.savedOn.spacePtr n
    have hon : ∀ f ∈ newer ++ kept, m'.frames f = m.frames f := by
      intro f hf
      rw [← hsplit] at hf
      exact hother.frame f (mem_spaceFrames.mp hf).1
    rw [hptr]
    refine ⟨newer, kept, ?_, ?_, ?_⟩
    · rw [htstate, hother.savedOn.spaceFrames, hsplit]
    · have hwords : rememberedWords m' kept = rememberedWords m kept :=
        rememberedWords_congr (fun f hf => by rw [hon f (List.mem_append_right _ hf)])
      rw [hwords]
      exact hstarts
    · intro f hf
      unfold Stale
      rw [hon f (List.mem_append_left _ hf)]
      exact hstale f hf

theorem decodeEach_deltasOf (event : ThreadEvent) :
    decodeEach spaceId ((deltasOf m event).map (fun delta => (t, delta))) consumers =
      (consume m spaceId (consumers t) event).map (Function.update consumers t) := by
  cases event with
  | threadDelta id allocates tupleAllocates =>
    simp only [deltasOf, consume, List.map_cons, List.map_nil, decodeEach]
    by_cases hid : id = spaceId
    · simp only [if_pos hid]
      cases decode (consumers t) (threadDeltaForTstate m id allocates tupleAllocates).1 <;> rfl
    · simp [hid]
  | _ => simp [deltasOf, consume, decodeEach]

/-- A step of one thread: its consumer follows, and the others' threads are where they were. -/
theorem AllConsuming.stepOf (h : AllConsuming s spaceId pendings consumers) {event : ThreadEvent}
    (ht : t ∈ s.live) (hnames : event.names.all (fun f => !s.elsewhere t f) = true)
    (hm : threadStep p (s.thread t) event = some m)
    (hothers : ∀ u ∈ s.live, u ≠ t → Disturbed (s.view u) ((s.put t m).view u))
    (hassumed : consumableStep (s.thread t) spaceId (pendings t) event = true) :
    ∃ stack', consume (s.thread t) spaceId (consumers t) event = some stack' ∧
      AllConsuming (s.put t m) spaceId
        (Function.update pendings t (awaiting (s.thread t) (pendings t) event))
        (Function.update consumers t stack') := by
  have hown : ∀ f, .frame f ∈ (s.thread t).tstate.stack → (!s.elsewhere t f) = true :=
    fun f hf => by simp [h.sound.not_elsewhere ht hf]
  have hconsumable : ConsumableStep (s.view t) spaceId (pendings t) event :=
    consumableStep_spec ((patched_consumableStep hown event).trans hassumed)
  have hsame : consume (s.view t) spaceId (consumers t) event =
      consume (s.thread t) spaceId (consumers t) event := by
    cases event with
    | threadDelta id allocates tupleAllocates =>
      simp only [consume, SharedState.view, patched_threadDelta hown]
    | _ => rfl
  obtain ⟨hstep, -⟩ := h.sound.own ht hnames hm
  obtain ⟨stack', hconsume, hconsuming⟩ := (h.each t ht).step hstep hconsumable
  rw [hsame] at hconsume
  have hawaiting : awaiting (s.view t) (pendings t) event =
      awaiting (s.thread t) (pendings t) event := by
    cases event <;> rfl
  rw [hawaiting] at hconsuming
  have hsettled : ∀ f, Settled ((s.put t m).frames f) :=
    fun f => (settled_view t f).mp (hconsuming.settled f)
  refine ⟨stack', hconsume, h.sound.run ht hnames hm, hsettled, ?_, ?_⟩
  · intro u hu
    by_cases hut : u = t
    · subst hut
      rw [Function.update_self, Function.update_self]
      exact hconsuming
    · rw [Function.update_of_ne hut, Function.update_of_ne hut]
      exact (h.each u hu).disturbed (hothers u hu hut)
        (fun f => (settled_view u f).mpr (hsettled f))
  · intro u hu
    have hut : u ≠ t := fun heq => Nat.not_lt.mpr hu (heq ▸ h.sound.known t ht)
    rw [Function.update_of_ne hut, Function.update_of_ne hut]
    exact h.fresh u hu

theorem AllConsuming.step (h : AllConsuming s spaceId pendings consumers)
    (hstep : sharedStep p s e = some (s', out))
    (hassumed : sharedConsumableStep s spaceId pendings e = true) :
    ∃ consumers', decodeEach spaceId out consumers = some consumers' ∧
      AllConsuming s' spaceId (awaitingEach s pendings e) consumers' := by
  have hsound := SharedState.sharedStep_sound h.sound hstep
  have hothers := fun (u : Nat) (hu : u ∈ s.live) (hnot : e.isOf u = false) =>
    SharedState.sharedStep_disturbed h.sound hstep hu hnot
  obtain ⟨address, inherited, threadId, rfl, -, rfl, rfl⟩ |
    ⟨t, event, m, rfl, ht, hnames, hm, rfl, rfl⟩ | ⟨t, rfl, hempty, rfl, rfl⟩ :=
    SharedState.sharedStep_cases hstep
  · refine ⟨consumers, rfl, hsound, h.settled, ?_, fun u hu => h.fresh u (Nat.le_of_succ_le hu)⟩
    intro u hu
    obtain rfl | hu := List.mem_cons.mp hu
    · obtain ⟨hpending, hconsumer⟩ := h.fresh s.started (Nat.le_refl _)
      have hidle := h.sound.add_idle (p := p) address inherited threadId
      change Consuming _ spaceId (pendings s.started) (consumers s.started)
      rw [hpending, hconsumer]
      exact hidle.consuming (fun f => (settled_view s.started f).mpr (h.settled f))
    · exact (h.each u hu).disturbed (hothers u hu rfl)
        (fun f => (settled_view u f).mpr (h.settled f))
  · obtain ⟨stack', hconsume, hnext⟩ := h.stepOf ht hnames hm (fun u hu hne => hothers u hu
      (by simpa [SharedEvent.isOf] using Ne.symm hne)) hassumed
    refine ⟨Function.update consumers t stack', ?_, hnext⟩
    rw [decodeEach_deltasOf, hconsume]
    rfl
  · refine ⟨consumers, rfl, hsound, h.settled, ?_, h.fresh⟩
    intro u hu
    have hne : u ≠ t := by simpa using (List.mem_filter.mp hu).2
    exact (h.each u (List.mem_of_mem_filter hu)).disturbed
      (hothers u (List.mem_of_mem_filter hu) (by simpa [SharedEvent.isOf] using Ne.symm hne))
      (fun f => (settled_view u f).mpr (h.settled f))

theorem decodeEach_append {first second : List (Nat × Nat × DeltaResult)}
    {consumers' : Nat → List Nat} (h : decodeEach spaceId first consumers = some consumers') :
    decodeEach spaceId (first ++ second) consumers = decodeEach spaceId second consumers' := by
  induction first generalizing consumers with
  | nil =>
    cases h
    rfl
  | cons out first ih =>
    obtain ⟨t, id, delta⟩ := out
    rw [List.cons_append, decodeEach]
    rw [decodeEach] at h
    by_cases hid : id = spaceId
    · rw [if_pos hid] at h ⊢
      cases hdecode : decode (consumers t) delta with
      | none =>
        rw [hdecode] at h
        cases h
      | some stack =>
        rw [hdecode] at h
        exact ih h
    · rw [if_neg hid] at h ⊢
      exact ih h

theorem AllConsuming.run {events : List SharedEvent} {outs : List (Nat × Nat × DeltaResult)}
    (h : AllConsuming s spaceId pendings consumers)
    (hrun : StepRun.run (sharedStep p) events s = some (s', outs)) (ht : t ∈ s'.live)
    (hassumed : sharedConsumable p spaceId
      (events ++ [.run t (.threadDelta spaceId true true)]) s pendings = true) :
    ∃ consumers', decodeEach spaceId outs consumers = some consumers' ∧
      Decodes (consumers' t) (coordinates (s'.thread t) spaceId 0)
        (threadDeltaForTstate (s'.thread t) spaceId true true).1 := by
  induction events generalizing s pendings consumers outs with
  | nil =>
    cases hrun
    refine ⟨consumers, rfl, ?_⟩
    have hown : ∀ f, .frame f ∈ (s'.thread t).tstate.stack → (!s'.elsewhere t f) = true :=
      fun f hf => by simp [h.sound.not_elsewhere ht hf]
    have hfirst : consumableStep (s'.thread t) spaceId (pendings t)
        (.threadDelta spaceId true true) = true := by
      simp only [List.nil_append, sharedConsumable, Bool.and_eq_true] at hassumed
      exact hassumed.1
    have hanswered := (h.each t ht).answered
      (consumableStep_spec ((patched_consumableStep hown _).trans hfirst))
    have hdecodes := hanswered.decodes
    unfold SharedState.view at hdecodes
    rw [patched_coordinates hown, patched_threadDelta hown] at hdecodes
    exact hdecodes
  | cons e events ih =>
    obtain ⟨mid, out, more, hstep, hrest, rfl⟩ := StepRun.run_cons.mp hrun
    rw [List.cons_append] at hassumed
    unfold sharedConsumable at hassumed
    rw [Bool.and_eq_true, hstep] at hassumed
    obtain ⟨mids, hmids, hconsuming⟩ := h.step hstep hassumed.1
    obtain ⟨last, hlast, hdecodes⟩ := ih hconsuming hrest hassumed.2
    exact ⟨last, (decodeEach_append hmids).trans hlast, hdecodes⟩

/-- Every delta of every thread decodes over the stack of the thread's own consumer, whatever
frames the threads hand to each other and whichever addresses are used again. -/
theorem sharedDeltas_decode {events : List SharedEvent} {outs : List (Nat × Nat × DeltaResult)}
    (hrun : StepRun.run (sharedStep p) events (SharedState.initial p) = some (s, outs))
    (ht : t ∈ s.live) (hassumed : sharedConsumable p spaceId
      (events ++ [.run t (.threadDelta spaceId true true)]) (SharedState.initial p)
      (fun _ => []) = true) :
    ∃ consumers, decodeEach spaceId outs (fun _ => []) = some consumers ∧
      Decodes (consumers t) (coordinates (s.thread t) spaceId 0)
        (threadDeltaForTstate (s.thread t) spaceId true true).1 := by
  have hstart : AllConsuming (SharedState.initial p) spaceId (fun _ => []) (fun _ => []) :=
    ⟨SharedState.sound_initial p, fun _ => Or.inl rfl,
      fun _ ht => absurd ht List.not_mem_nil, fun _ _ => ⟨rfl, rfl⟩⟩
  exact hstart.run hrun ht hassumed

/-- A generator whose caches name a space of a thread that has ended is resumed by a thread with
the address of that one. -/
def addressAgain : List SharedEvent := [
  .start 64 0 1, .run 0 (.call 0 0 true true), .run 0 (.begin [] 4), .run 0 (.newGenerator 5 1),
  .run 0 (.resume 5 false true), .run 0 (.begin [] 3), .run 0 (.threadDelta 0 true true),
  .run 0 (.leave 0), .run 0 (.leave 0), .finish 0, .start 64 0 2, .run 1 (.call 1 0 true true),
  .run 1 (.begin [] 2), .run 1 (.threadDelta 0 true true), .run 1 (.resume 5 false true),
  .run 1 (.begin [] 6)]

theorem sharedDeltas_decode_addressAgain : ∃ s outs consumers,
    StepRun.run (sharedStep ⟨true, true⟩) addressAgain (SharedState.initial ⟨true, true⟩) =
      some (s, outs) ∧
    outs = [(0, 0, .delta [0, 4, 0, 3, 0]), (1, 0, .delta [0, 2, 0])] ∧
    (s.frames 5).delta.lastDeltaSpace = (s.frames 1).space ∧
    (threadDeltaForTstate (s.thread 1) 0 true true).1 = .delta [2, 6, 0] ∧
    decodeEach 0 outs (fun _ => []) = some consumers ∧
    Decodes (consumers 1) (coordinates (s.thread 1) 0 0)
      (threadDeltaForTstate (s.thread 1) 0 true true).1 := by
  obtain ⟨s, outs, hrun⟩ : ∃ s outs, StepRun.run (sharedStep ⟨true, true⟩) addressAgain
      (SharedState.initial ⟨true, true⟩) = some (s, outs) := ⟨_, _, rfl⟩
  have hlive : 1 ∈ s.live := by
    cases hrun
    decide
  obtain ⟨consumers, hconsumers, hdecodes⟩ := @sharedDeltas_decode ⟨true, true⟩ s 0 1 addressAgain
    outs hrun hlive rfl
  refine ⟨s, outs, consumers, hrun, ?_, ?_, ?_, hconsumers, hdecodes⟩
  · cases hrun
    rfl
  · cases hrun
    rfl
  · cases hrun
    decide +kernel

end shared

end Retrace
