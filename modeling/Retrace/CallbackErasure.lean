import Retrace.ThreadTwins

/-! Whole runs with callbacks against the same runs without them: what is left when every
registration and every callback is taken out. -/

set_option autoImplicit false

namespace Retrace

/-- What a callback may run: frames that the program does not use, and no space but its own. -/
def ThreadEvent.keepsOff (own : Nat → Prop) : ThreadEvent → Prop
  | .call f _ _ _ => ¬own f
  | .resume f _ _ => ¬own f
  | .newGenerator g _ => ¬own g
  | .enterSpace _ spaceId _ => spaceId = spaceIdDisabled
  | _ => True

def ThreadEvent.moves (m : Machine) (f : Nat) : ThreadEvent → Prop
  | .call g _ _ _ => g = f
  | .newGenerator g _ => g = f
  | .begin _ _ => ∃ rest, m.tstate.stack = .frame f :: rest
  | _ => False

/-- The events around the program's own: callbacks start and end, deltas are taken. -/
def ThreadEvent.silent : ThreadEvent → Bool
  | .callbackBegin _ _ => true
  | .callbackEnd => true
  | .threadDelta _ _ _ => true
  | _ => false

def SamePlace (f : Nat) (m m' : Machine) : Prop :=
  (m'.frames f).lasti = (m.frames f).lasti ∧
    (m'.frames f).firstTraceable = (m.frames f).firstTraceable ∧
    (m'.frames f).coordinateBias = (m.frames f).coordinateBias

/-- The thread is in a callback that it began on `start`, and has only run what callbacks may. -/
structure InBody (own : Nat → Prop) (start : Machine) (k : Nat) (m : Machine) : Prop where
  idle : start.tstate.threadCallbackActive = false
  standing : ∃ l, Standing start l
  pinned : Pinned start.tstate
  within : ∀ spaceId, spaceId ≠ spaceIdDisabled → Within spaceId False start k m
  saved : SavedOn start.tstate.stack start m
  placed : ∀ f, own f → SamePlace f start m
  threadId : m.tstate.threadId = start.tstate.threadId
  above : ∃ items, m.tstate.stack = items ++ .callback k :: start.tstate.stack ∧
    ∀ f, .frame f ∈ items → ¬own f

/-- A thread with callbacks, and the same thread without: outside callbacks they are alike for every
space but the disabled one, and inside a callback the thread was so when it began. -/
def Shadows (own : Nat → Prop) (plain m : Machine) : Prop :=
  (m.tstate.threadCallbackActive = false ∧
    ∀ spaceId, spaceId ≠ spaceIdDisabled → Twin own spaceId plain m) ∨
  ∃ start k, (∀ spaceId, spaceId ≠ spaceIdDisabled → Twin own spaceId plain start) ∧
    InBody own start k m

section thread
variable {p : Platform} {own : Nat → Prop} {spaceId k : Nat} {plain start m m' : Machine}
  {base base' : Context} {event : ThreadEvent} {l l' : Ledger}

theorem SamePlace.trans {f : Nat} {m₂ : Machine} (h : SamePlace f m m') (h' : SamePlace f m' m₂) :
    SamePlace f m m₂ :=
  ⟨h'.1.trans h.1, h'.2.1.trans h.2.1, h'.2.2.trans h.2.2⟩

theorem Effect.samePlace (h : Effect m event m') (hcircle : Circle m.tstate) {f : Nat}
    (hmoves : ¬event.moves m f) : SamePlace f m m' := by
  have hother : ∀ (g : Nat) (frame : InterpreterFrame), g ≠ f →
      SamePlace f m (m.setFrame g frame) := by
    intro g frame hne
    have hsame : (m.setFrame g frame).frames f = m.frames f :=
      Function.update_of_ne (Ne.symm hne) ..
    unfold SamePlace
    rw [hsame]
    exact ⟨rfl, rfl, rfl⟩
  have hpush : ∀ (g : Nat) (frame : InterpreterFrame), (g = f → frame.lasti = (m.frames f).lasti ∧
      frame.firstTraceable = (m.frames f).firstTraceable ∧
      frame.coordinateBias = (m.frames f).coordinateBias) →
      SamePlace f m (m.pushFrame g frame) := by
    intro g frame hplace
    unfold SamePlace
    rw [pushFrame_frames]
    split
    · rename_i heq
      exact hplace heq.symm
    · exact ⟨rfl, rfl, rfl⟩
  cases h with
  | call off limit => exact hpush _ _ (fun heq => absurd heq hmoves)
  | resume off limit =>
    refine hpush _ _ (fun heq => ?_)
    rw [heq]
    split <;> exact ⟨rfl, rfl, rfl⟩
  | newGenerator off => exact hother _ _ hmoves
  | begin top =>
    rename_i jumps offset g rest
    exact hother _ _ (fun heq => hmoves ⟨rest, heq ▸ top⟩)
  | leave top current space node_eq previous ne =>
    rename_i again g node ptr rest
    unfold SamePlace
    rw [popFrame_frames m g node ptr rest ne]
    split
    · rename_i heq
      rw [heq]
      exact ⟨rfl, rfl, rfl⟩
    · split <;> exact ⟨rfl, rfl, rfl⟩
  | leaveInactive => exact ⟨rfl, rfl, rfl⟩
  | enterFails unused => exact ⟨rfl, rfl, rfl⟩
  | enterSpace unused enters => exact (enters.still hcircle).frames f
  | leaveSpace top => exact (leaveSpace_still hcircle _).frames f
  | callbackFails unused idle => exact ⟨rfl, rfl, rfl⟩
  | callbackBegin top unused idle enters =>
    exact (enters.still (hcircle.congr rfl rfl (fun _ _ => ⟨rfl, rfl⟩))).frames f
  | callbackEnd top => exact (leaveSpace_still hcircle _).frames f
  | threadDelta =>
    rename_i id allocates tupleAllocates
    obtain heq | ⟨node, -, heq⟩ := threadDelta_cases m id allocates tupleAllocates
    · rw [heq]
      exact ⟨rfl, rfl, rfl⟩
    · rw [heq]
      exact (rememberDelta_still hcircle node).frames f

theorem Effect.savedBelow (h : Effect m event m') (hcontext : ContextOk m m.context)
    (hnodup : m.tstate.stack.Nodup) {below : List StackItem} (hbelow : below <:+ m.tstate.stack)
    (hbelow' : below <:+ m'.tstate.stack) : SavedOn below m m' := by
  obtain ⟨kept, hsaved, ⟨hm, -⟩ | ⟨top, -, hm'⟩ | ⟨top, hm, -⟩⟩ := h.kept hcontext hnodup
  · exact hsaved.mono (fun item hitem => hm ▸ hbelow.subset hitem)
  · exact hsaved.mono (fun item hitem => hm' ▸ hbelow'.subset hitem)
  · exact hsaved.mono (fun item hitem => hm ▸ hbelow.subset hitem)

theorem InBody.begun (hstanding : Standing start l) (hpinned : Pinned start.tstate)
    {allocates : Bool} (hbegin : threadStep p start (.callbackBegin k allocates) = some m)
    (hactive : m.tstate.threadCallbackActive = true) : InBody own start k m := by
  obtain ⟨-, heffect⟩ := hstanding.step hbegin
  obtain ⟨base, -, hseg⟩ := hstanding.segment
  have hstack : m.tstate.stack = .callback k :: start.tstate.stack := by
    cases heffect with
    | callbackFails unused idle => cases hactive
    | callbackBegin top unused idle enters => exact congrArg _ enters.callbackState.1
  refine ⟨heffect.beginsIdle, ⟨l, hstanding⟩, hpinned,
    fun spaceId hne => Within.begun False hstanding hpinned hne hbegin hactive,
    heffect.savedBelow hseg.contextOk hseg.nodup (List.suffix_refl _)
      (hstack ▸ List.suffix_cons _ _), ?_, (threadStep_sameThread hbegin).threadId, [], hstack, ?_⟩
  · intro f _
    exact heffect.samePlace hseg.circle (fun hmoves => hmoves.elim)
  · intro f hf
    cases hf

theorem InBody.step (h : InBody own start k m) (hstanding : Standing m l)
    (hstep : threadStep p m event = some m') (hend : event ≠ .callbackEnd)
    (hkeeps : event.keepsOff own) : InBody own start k m' := by
  obtain ⟨hstanding', heffect⟩ := hstanding.step hstep
  obtain ⟨base, -, hseg⟩ := hstanding.segment
  obtain ⟨items, hitems, hforeign⟩ := h.above
  have hroot := h.within spaceIdRoot (by decide)
  have habove : .callback k :: start.tstate.stack <:+ m'.tstate.stack :=
    heffect.staysInCallback hend hroot.above
  have hbelow : start.tstate.stack <:+ m'.tstate.stack := (List.suffix_cons _ _).trans habove
  have hwithin : ∀ spaceId, spaceId ≠ spaceIdDisabled → Within spaceId False start k m' := by
    intro spaceId hne
    refine (h.within spaceId hne).step hstep hend ?_ (fun hquiet => hquiet.elim)
    intro henters
    cases event with
    | enterSpace j entered allocates =>
      exact hne (Option.some.inj henters ▸ hkeeps)
    | callbackBegin j allocates => exact hne (Option.some.inj henters).symm
    | _ => cases henters
  refine ⟨h.idle, h.standing, h.pinned, hwithin,
    h.saved.trans (heffect.savedBelow hseg.contextOk hseg.nodup
      ((List.suffix_cons _ _).trans hroot.above) hbelow), ?_,
    (threadStep_sameThread hstep).threadId.trans h.threadId, ?_⟩
  · intro f hown
    refine (h.placed f hown).trans (heffect.samePlace hseg.circle ?_)
    intro hmoves
    cases event with
    | call g first evalEntry allocates => exact hkeeps (hmoves ▸ hown)
    | newGenerator g lasti => exact hkeeps (hmoves ▸ hown)
    | «begin» jumps offset =>
      obtain ⟨rest, htop⟩ := hmoves
      rw [hitems] at htop
      cases items with
      | nil => cases htop
      | cons item items =>
        cases htop
        exact hforeign f List.mem_cons_self hown
    | _ => exact hmoves.elim
  · obtain ⟨items', hitems'⟩ := habove
    refine ⟨items', hitems'.symm, fun f hf => ?_⟩
    have hon : .frame f ∈ m'.tstate.stack := hitems' ▸ List.mem_append_left _ hf
    obtain hon | ⟨_, _, _, rfl⟩ | ⟨_, _, rfl⟩ := heffect.frameOn hon
    · rw [hitems, List.mem_append, List.mem_cons] at hon
      obtain hon | heq | hon := hon
      · exact hforeign f hon
      · cases heq
      · obtain ⟨base', -, hseg'⟩ := hstanding'.segment
        have hnodup := hseg'.nodup
        rw [← hitems', List.nodup_append] at hnodup
        exact absurd rfl (hnodup.2.2 _ hf _ (List.mem_cons_of_mem _ hon))
    · exact hkeeps
    · exact hkeeps

theorem knows_iff_coordinates : Knows m spaceId ↔ coordinates m spaceId 0 ≠ none := by
  constructor
  · rintro ⟨n, hfind, hseen⟩
    unfold coordinates
    rw [hfind]
    dsimp only
    rw [if_pos hseen]
    exact Option.some_ne_none _
  · intro hsome
    by_contra hnot
    exact hsome (coordinates_unknown hnot)

theorem InBody.ends (h : InBody own start k m) (hstanding : Standing m l)
    (howned : ∀ f, .frame f ∈ start.tstate.stack → own f)
    (hstep : threadStep p m .callbackEnd = some m') :
    m'.tstate.threadCallbackActive = false ∧
      ∀ spaceId, spaceId ≠ spaceIdDisabled → Twin own spaceId start m' := by
  obtain ⟨hstanding', heffect⟩ := hstanding.step hstep
  obtain ⟨base, -, hseg⟩ := hstanding.segment
  obtain ⟨l₀, hstart⟩ := h.standing
  obtain ⟨base₀, -, hseg₀⟩ := hstart.segment
  have hends : ∀ spaceId, spaceId ≠ spaceIdDisabled →
      m'.tstate.stack = start.tstate.stack ∧ m'.context = start.context ∧
        m'.tstate.threadCallbackActive = false ∧ Untouched p spaceId False start m' := by
    intro spaceId hne
    obtain ⟨hstack, hcontext, hidle, -, huntouched⟩ :=
      (h.within spaceId hne).ends h.pinned h.idle hstep
    exact ⟨hstack, hcontext, hidle, huntouched⟩
  obtain ⟨hstack, hcontext, hidle, -⟩ := hends spaceIdRoot (by decide)
  have hsaved : SavedOn start.tstate.stack start m' :=
    h.saved.trans (heffect.savedBelow hseg.contextOk hseg.nodup
      ((List.suffix_cons _ _).trans (h.within spaceIdRoot (by decide)).above)
      (hstack ▸ List.suffix_refl _))
  have hplaced : ∀ f, own f → SamePlace f start m' :=
    fun f hown => (h.placed f hown).trans (heffect.samePlace hseg.circle (fun hmoves => hmoves))
  refine ⟨hidle, fun spaceId hne => ?_⟩
  have hvisible : ∀ id, ignored spaceId id = false → id ≠ spaceIdDisabled := by
    intro id hopen heq
    simp [ignored, heq, hne] at hopen
  refine ⟨hstack, howned, (threadStep_sameThread hstep).threadId.trans h.threadId,
    hidle.trans h.idle.symm, ?_, congrArg Context.id hcontext,
    congrArg (fun context => framePtr context.ptr) hcontext, ?_, hplaced, ?_, ?_, ?_⟩
  · intro hactive
    rw [h.idle] at hactive
    cases hactive
  · intro id hopen
    obtain ⟨-, -, -, huntouched⟩ := hends id (hvisible id hopen)
    rw [knows_iff_coordinates, knows_iff_coordinates, huntouched.coordinates 0]
  · intro f hf
    exact ⟨fun id => hsaved.frameOf hseg₀ hf hf, congrArg framePtr (hsaved.frame f hf).2⟩
  · intro f hf hopen
    obtain ⟨n, hn, hspace⟩ := hseg₀.frame_space hf
    have hopen' := hvisible _ (hopen _ (by rw [frameOf_spacePtr hspace, beq_self_eq_true]))
    obtain ⟨-, -, -, huntouched⟩ := hends _ hopen'
    exact (huntouched.frame n (hseg₀.circle.find_eq hn) f hspace).fields.2.2.2
  · intro k hk
    obtain ⟨hid, hprevious⟩ := hsaved.scopeSaved hk
    exact ⟨hid, congrArg framePtr hprevious⟩

theorem Twin.uncalled (h : Twin own spaceId plain m)
    (hidle : m.tstate.threadCallbackActive = false) :
    Twin own spaceId plain (m.setCallback false none) := by
  refine ⟨h.stack, h.owned, h.threadId, ?_, ?_, h.inherited, h.ptr, ?_, h.placed, h.frame,
    h.ordinal, h.scope⟩
  · exact hidle.symm.trans h.active
  · intro hactive
    rw [← h.active, hidle] at hactive
    cases hactive
  · intro id hid
    have hsame : Knows (m.setCallback false none) id ↔ Knows m id := knows_spaces rfl rfl
    exact hsame.trans (h.knows id hid)

theorem threadDelta_noMemory (m : Machine) (id : Nat) (tupleAllocates : Bool) :
    (threadDeltaForTstate m id false tupleAllocates).2 = m := by
  unfold threadDeltaForTstate
  dsimp only
  split
  · rfl
  · split <;> rfl

theorem Twin.delta (h : Twin own spaceId plain m) (hseg : Segment [] base plain)
    (hseg' : Segment [] base' m) (id : Nat) (allocates tupleAllocates : Bool) :
    Twin own spaceId plain (threadDeltaForTstate m id allocates tupleAllocates).2 := by
  have hboth := h.threadDelta hseg hseg' id id false allocates false tupleAllocates
  rwa [threadDelta_noMemory] at hboth

theorem Shadows.silent (h : Shadows own plain m) (hstanding : Standing m l)
    (hplain : Standing plain l') (hpinned : Pinned m.tstate) (hsilent : event.silent = true)
    (hstep : threadStep p m event = some m') : Shadows own plain m' := by
  obtain ⟨-, heffect⟩ := hstanding.step hstep
  obtain ⟨hidle, htwin⟩ | ⟨start, k, htwin, hbody⟩ := h
  · cases heffect with
    | callbackFails unused idle =>
      exact Or.inl ⟨rfl, fun spaceId hne => (htwin spaceId hne).uncalled hidle⟩
    | callbackBegin top unused idle enters =>
      exact Or.inr ⟨m, _, htwin, InBody.begun hstanding hpinned hstep
        enters.callbackState.2.1⟩
    | callbackEnd top =>
      unfold Pinned at hpinned
      rw [if_neg (by simp [hidle]), top] at hpinned
      exact absurd List.mem_cons_self (hpinned _)
    | threadDelta =>
      obtain ⟨base, -, hseg⟩ := hstanding.segment
      obtain ⟨base', -, hseg'⟩ := hplain.segment
      refine Or.inl ⟨?_, fun spaceId hne => (htwin spaceId hne).delta hseg' hseg _ _ _⟩
      exact ((hstanding.step hstep).2.callbackState (by simp) (by simp)).1.trans hidle
    | _ => cases hsilent
  · have hactive := (hbody.within spaceIdRoot (by decide)).active
    have howned : ∀ f, .frame f ∈ start.tstate.stack → own f := by
      intro f hf
      have hroot := htwin spaceIdRoot (by decide)
      exact hroot.owned f (hroot.stack ▸ hf)
    cases event with
    | callbackBegin j allocates =>
      have hidle := heffect.beginsIdle
      rw [hactive] at hidle
      cases hidle
    | callbackEnd =>
      obtain ⟨hidle, hends⟩ := hbody.ends hstanding howned hstep
      exact Or.inl ⟨hidle, fun spaceId hne => (htwin spaceId hne).trans (hends spaceId hne)⟩
    | threadDelta id allocates tupleAllocates =>
      exact Or.inr ⟨start, k, htwin, hbody.step hstanding hstep (by simp) trivial⟩
    | _ => cases hsilent

theorem Shadows.body (h : Shadows own plain m) (hstanding : Standing m l)
    (hactive : m.tstate.threadCallbackActive = true) (hend : event ≠ .callbackEnd)
    (hkeeps : event.keepsOff own) (hstep : threadStep p m event = some m') :
    Shadows own plain m' := by
  obtain ⟨hidle, -⟩ | ⟨start, k, htwin, hbody⟩ := h
  · rw [hactive] at hidle
    cases hidle
  · exact Or.inr ⟨start, k, htwin, hbody.step hstanding hstep hend hkeeps⟩

theorem threadStep_isSome (hstack : m'.tstate.stack = m.tstate.stack)
    (hactive : m'.tstate.threadCallbackActive = m.tstate.threadCallbackActive) :
    (threadStep p m' event).isSome = (threadStep p m event).isSome := by
  have hchain : m'.chain = m.chain := congrArg frameChain hstack
  cases event with
  | call f first evalEntry allocates =>
    simp only [threadStep, hstack, hchain]
    split <;> rfl
  | resume f evalEntry allocates =>
    simp only [threadStep, hstack, hchain]
    split <;> rfl
  | newGenerator g lasti =>
    simp only [threadStep, hstack]
    split <;> rfl
  | «begin» jumps offset =>
    simp only [threadStep, hstack]
    split <;> rfl
  | leave again =>
    simp only [threadStep, hstack]
    split <;> rfl
  | leaveInactive f =>
    simp only [threadStep, hstack]
    split <;> rfl
  | enterSpace j id allocates =>
    simp only [threadStep, hstack]
    split
    · rfl
    · cases enterSpace p m' j id allocates <;> cases enterSpace p m j id allocates <;> rfl
  | leaveSpace =>
    simp only [threadStep, hstack]
    split <;> rfl
  | callbackBegin j allocates =>
    simp only [threadStep, hstack, hactive]
    split
    · split <;> rfl
    · rfl
  | callbackEnd =>
    simp only [threadStep, hstack]
    split <;> rfl
  | threadDelta id allocates tupleAllocates => rfl

theorem Shadows.answer (h : Shadows own plain m) (hstanding : Standing m l)
    (hplain : Standing plain l') (hidle : m.tstate.threadCallbackActive = false)
    (hbegin : ∀ k allocates, event ≠ .callbackBegin k allocates) (hend : event ≠ .callbackEnd)
    (hkeeps : event.keepsTo own) (hstep : threadStep p m event = some m') :
    ∃ plain', threadStep p plain event = some plain' ∧ Shadows own plain' m' := by
  obtain ⟨-, htwin⟩ | ⟨start, k, -, hbody⟩ := h
  · have hroot := htwin spaceIdRoot (by decide)
    have hsome : (threadStep p m event).isSome = (threadStep p plain event).isSome :=
      threadStep_isSome hroot.stack hroot.active
    rw [hstep] at hsome
    obtain ⟨plain', hanswer⟩ := Option.isSome_iff_exists.mp hsome.symm
    refine ⟨plain', hanswer, Or.inl ⟨?_, fun spaceId hne =>
      (htwin spaceId hne).step hplain hstanding hkeeps hanswer hstep⟩⟩
    exact ((hstanding.step hstep).2.callbackState hbegin hend).1.trans hidle
  · have hactive := (hbody.within spaceIdRoot (by decide)).active
    rw [hidle] at hactive
    cases hactive

theorem Shadows.coordinates (h : Shadows own plain m) (hstanding : Standing m l)
    (hplain : Standing plain l') (hne : spaceId ≠ spaceIdDisabled) (drop : Nat) :
    Retrace.coordinates m spaceId drop = Retrace.coordinates plain spaceId drop := by
  obtain ⟨base, -, hseg⟩ := hstanding.segment
  obtain ⟨base', -, hseg'⟩ := hplain.segment
  have hdropped : ∀ m : Machine, Retrace.coordinates m spaceId drop =
      (Retrace.coordinates m spaceId 0).map (fun words => words.drop drop) := by
    intro m
    unfold Retrace.coordinates
    cases findThreadSpace m.tstate spaceId with
    | none => rfl
    | some n =>
      dsimp only
      split
      · rw [List.drop_zero, Option.map_some]
      · rfl
  rw [hdropped, hdropped]
  obtain ⟨hidle, htwin⟩ | ⟨start, k, htwin, hbody⟩ := h
  · have h := htwin spaceId hne
    rw [h.coordinates hseg' hseg (h.active.symm.trans hidle)]
  · obtain ⟨l₀, hstart⟩ := hbody.standing
    obtain ⟨base₀, -, hseg₀⟩ := hstart.segment
    have h := htwin spaceId hne
    have huntouched := (hbody.within spaceId hne).untouched ⟨true, true⟩ hbody.pinned hbody.idle
    rw [huntouched.coordinates 0, h.coordinates hseg' hseg₀ (h.active.symm.trans hbody.idle)]

theorem Shadows.idle (h : Shadows own plain m) : plain.tstate.threadCallbackActive = false := by
  obtain ⟨hidle, htwin⟩ | ⟨start, k, htwin, hbody⟩ := h
  · exact (htwin spaceIdRoot (by decide)).active.symm.trans hidle
  · exact (htwin spaceIdRoot (by decide)).active.symm.trans hbody.idle

theorem Shadows.silentRun {events : List ThreadEvent} (h : Shadows own plain m)
    (hstanding : Standing m l) (hplain : Standing plain l') (hpinned : Pinned m.tstate)
    (hsilent : ∀ event ∈ events, event.silent = true)
    (hrun : threadRun p events m = some m') : Shadows own plain m' := by
  induction events generalizing m l with
  | nil =>
    cases hrun
    exact h
  | cons event events ih =>
    rw [threadRun_cons, Option.bind_eq_some_iff] at hrun
    obtain ⟨mid, hstep, hrun⟩ := hrun
    obtain ⟨hmid, heffect⟩ := hstanding.step hstep
    exact ih (h.silent hstanding hplain hpinned (hsilent event List.mem_cons_self) hstep) hmid
      (hpinned.step heffect) (fun e he => hsilent e (List.mem_cons_of_mem _ he)) hrun

end thread

/-- No callback is registered, and none runs. -/
structure Bare (interp : Interp) : Prop where
  callAt : interp.callAt = none
  callAtArmed : interp.callAtExtraArmed = false
  switchArmed : interp.threadSwitchArmed = false
  entries : interp.spaceCallbacks = []
  pending : ∀ i, interp.pending i = none

/-- The program's own events; what it runs inside a callback, what starts and ends one and what
registers one goes unanswered. -/
def withoutCallback (interp : Interp) : InterpEvent → List InterpEvent
  | .run i event =>
    if (interp.threads i).tstate.threadCallbackActive then [] else [.run i event]
  | .boundary i jumps offset choices =>
    if (interp.threads i).tstate.threadCallbackActive then []
    else [.boundary i jumps offset choices]
  | .clearThread i => [.clearThread i]
  | _ => []

def withoutCallbacks (p : Platform) : List InterpEvent → Interp → List InterpEvent :=
  StepRun.answers (interpStep p) withoutCallback

/-- Callbacks keep off what the program uses, and the program to what is its own. -/
def StaysOff (own : Nat → Prop) (interp : Interp) (event : InterpEvent) (_ : Interp)
    (_ : List Output) : Prop :=
  match event with
  | .run i event =>
    if (interp.threads i).tstate.threadCallbackActive then event.keepsOff own
    else event.keepsTo own
  | _ => True

/-- The interpreter without callbacks has come as far as the one with them. -/
structure Erases (own : Nat → Prop) (interp plain : Interp) : Prop where
  live : plain.live = interp.live
  bare : Bare plain
  sound : Sound interp
  plainSound : Sound plain
  threads : ∀ i ∈ interp.live, Shadows own (plain.threads i) (interp.threads i)

section interp
variable {p : Platform} {own : Nat → Prop} {interp interp' plain plain' : Interp} {i j : Nat}
  {choices : BoundaryChoices} {out rest : List Output}

theorem Bare.setThread (h : Bare plain) (i : Nat) (m : Machine) : Bare (plain.setThread i m) :=
  ⟨h.callAt, h.callAtArmed, h.switchArmed, h.entries, h.pending⟩

theorem Bare.clearThread (h : Bare plain) (i : Nat) :
    Bare (Retrace.clearThread clearThreadState plain i) := by
  refine ⟨h.callAt, h.callAtArmed, h.switchArmed, ?_, h.pending⟩
  unfold Retrace.clearThread
  dsimp only
  rw [h.entries]
  rfl

theorem Bare.boundary (h : Bare plain) (room : BoundaryChoices) {jumps : List (Int × Int)}
    {offset : Nat} {m : Machine}
    (hlive : i ∈ plain.live)
    (hstep : threadStep p (plain.threads i) (.begin jumps offset) = some m)
    (hidle : m.tstate.threadCallbackActive = false) :
    ∃ plain' out, interpStep p plain (.boundary i jumps offset room) = some (plain', out) ∧
      Bare plain' ∧ plain'.live = plain.live ∧ plain'.threads = (plain.setThread i m).threads := by
  have hcheck : ∃ plain', checkBoundary p (plain.setThread i m) i room = some (plain', []) ∧
      Bare plain' ∧ plain'.live = plain.live ∧
      plain'.threads = (plain.setThread i m).threads := by
    unfold checkBoundary checkThreadSwitch
    rw [if_neg (by simp [Interp.setThread, h.callAt, h.callAtArmed])]
    split
    · exact ⟨_, rfl, h.setThread i m, rfl, rfl⟩
    · have hquiet : (plain.setThread i m).threadSwitchArmed = false := h.switchArmed
      have hnone : (plain.setThread i m).idle i = true := by
        simp [Interp.idle, Interp.setThread, h.pending]
      refine ⟨(plain.setThread i m).setLast i, ?_,
        ⟨h.callAt, h.callAtArmed, h.switchArmed, h.entries, h.pending⟩, rfl, rfl⟩
      cases (plain.setThread i m).lastBytecodeThread with
      | none => simp [hnone]
      | some previous => simp [hquiet, hnone]
  obtain ⟨plain', hboundary, hbare, hlive', hthreads⟩ := hcheck
  refine ⟨plain', [.ran i (.begin jumps offset)], ?_, hbare, hlive', hthreads⟩
  unfold interpStep beginInstruction
  dsimp only
  rw [if_pos hlive, hstep]
  dsimp only
  rw [if_neg (by simp [hidle]), hboundary]
  rfl

theorem Switching.silent (h : Switching p interp i choices interp' out) {event : ThreadEvent}
    (hmem : .ran j event ∈ out) : event.silent = true := by
  cases h with
  | same last => cases hmem
  | quiet last none => cases hmem
  | first switches cursor => cases hmem
  | own switches cursor => cases hmem
  | error switches cursor other result =>
    simp only [deltaRan, List.mem_singleton, Output.ran.injEq] at hmem
    exact hmem.2 ▸ rfl
  | gone switches cursor other result =>
    simp only [deltaRan, List.mem_singleton, Output.ran.injEq] at hmem
    exact hmem.2 ▸ rfl
  | identFails switches cursor other result fails =>
    simp only [deltaRan, List.mem_singleton, Output.ran.injEq] at hmem
    exact hmem.2 ▸ rfl
  | enterFails switches cursor other result step inactive =>
    simp only [deltaRan, callbackRan, List.mem_cons, Output.ran.injEq, List.not_mem_nil,
      or_false] at hmem
    obtain ⟨-, rfl⟩ | ⟨-, rfl⟩ := hmem <;> rfl
  | called switches cursor other result step active =>
    simp only [deltaRan, callbackRan, List.mem_cons, Output.ran.injEq, List.not_mem_nil,
      or_false, reduceCtorEq] at hmem
    obtain ⟨-, rfl⟩ | ⟨-, rfl⟩ := hmem <;> rfl

theorem Checking.silent (h : Checking p interp i choices interp' out) {event : ThreadEvent}
    (hmem : .ran j event ∈ out) : event.silent = true := by
  cases h with
  | unchecked quiet switching => exact switching.silent hmem
  | passed polls check switching => exact switching.silent hmem
  | enterFails polls check step inactive =>
    simp only [callbackRan, List.mem_singleton, Output.ran.injEq] at hmem
    exact hmem.2 ▸ rfl
  | called polls check step active =>
    simp only [callbackRan, List.mem_cons, Output.ran.injEq, List.not_mem_nil, or_false,
      reduceCtorEq] at hmem
    exact hmem.2 ▸ rfl

theorem Returning.silent {raised : Bool} {pending : Pending}
    (h : Returning p interp i raised choices pending interp' out) {event : ThreadEvent}
    (hmem : .ran j event ∈ out) : event.silent = true := by
  cases h with
  | afterSwitch => cases hmem
  | raised failed => cases hmem
  | afterCallAt returned switching => exact switching.silent hmem

theorem Returning.live {raised : Bool} {pending : Pending}
    (h : Returning p interp i raised choices pending interp' out) : interp'.live = interp.live := by
  cases h with
  | afterSwitch => rfl
  | raised failed => rfl
  | afterCallAt returned switching => exact switching.live

theorem Shadows.around (hran : Ran p interp interp' rest)
    (h : ∀ j ∈ interp.live, Shadows own (plain.threads j) (interp.threads j))
    (hsound : Sound interp) (hplain : Sound plain) (hlive : plain.live = interp.live)
    (hsilent : ∀ j event, .ran j event ∈ rest → event.silent = true) :
    ∀ j ∈ interp.live, Shadows own (plain.threads j) (interp'.threads j) := by
  intro j hj
  obtain ⟨l, hstanding⟩ := hsound.standing j hj
  obtain ⟨l', hstanding'⟩ := hplain.standing j (hlive ▸ hj)
  exact (h j hj).silentRun hstanding hstanding' (hsound.pinned j hj)
    (fun event hevent => hsilent j event (mem_ranBy.mp hevent)) (hran j)

theorem Erases.setThread (h : Erases own interp plain) {m m' : Machine}
    (hfollows : Shadows own m' m) : ∀ j ∈ interp.live,
    Shadows own ((plain.setThread i m').threads j) ((interp.setThread i m).threads j) := by
  intro j hj
  by_cases hij : j = i
  · subst hij
    rw [setThread_self, setThread_self]
    exact hfollows
  · rw [setThread_of_ne _ _ hij, setThread_of_ne _ _ hij]
    exact h.threads j hj

theorem Erases.setUnanswered (h : Erases own interp plain) {m : Machine}
    (hfollows : Shadows own (plain.threads i) m) : ∀ j ∈ interp.live,
    Shadows own (plain.threads j) ((interp.setThread i m).threads j) := by
  intro j hj
  by_cases hij : j = i
  · subst hij
    rw [setThread_self]
    exact hfollows
  · rw [setThread_of_ne _ _ hij]
    exact h.threads j hj

def StepErased (p : Platform) (own : Nat → Prop) (interp plain : Interp) (event : InterpEvent)
    (interp' : Interp) : Prop :=
  ∃ plain' outs, StepRun.run (interpStep p) (withoutCallback interp event) plain =
    some (plain', outs) ∧ Erases own interp' plain'

theorem Erases.unanswered {event : InterpEvent} (h : Erases own interp plain)
    (hsound : Sound interp') (hnone : withoutCallback interp event = [])
    (hlive : interp'.live = interp.live)
    (hthreads : ∀ j ∈ interp.live, Shadows own (plain.threads j) (interp'.threads j)) :
    StepErased p own interp plain event interp' := by
  unfold StepErased
  rw [hnone]
  exact ⟨plain, [], rfl, h.live.trans hlive.symm, h.bare, hsound, h.plainSound,
    fun j hj => hthreads j (hlive ▸ hj)⟩

theorem Erases.registers {event : InterpEvent} (h : Erases own interp plain)
    (hsound : Sound interp') (hnone : withoutCallback interp event = [])
    (hthreads : SameThreads interp interp') : StepErased p own interp plain event interp' := by
  refine h.unanswered hsound hnone hthreads.live (fun j hj => ?_)
  rw [hthreads.threads]
  exact h.threads j hj

theorem Erases.ran {i : Nat} {event : ThreadEvent} {m : Machine} (h : Erases own interp plain)
    (hsound : Sound (interp.setThread i m)) (live : i ∈ interp.live)
    (program : event.ofProgram = true) (step : threadStep p (interp.threads i) event = some m)
    (hapart : StaysOff own interp (.run i event) (interp.setThread i m) [.ran i event]) :
    StepErased p own interp plain (.run i event) (interp.setThread i m) := by
  obtain ⟨l, hstanding⟩ := h.sound.standing i live
  obtain ⟨l', hstanding'⟩ := h.plainSound.standing i (h.live ▸ live)
  have hbegin : ∀ k allocates, event ≠ .callbackBegin k allocates := by
    intro k allocates heq
    rw [heq] at program
    cases program
  have hend : event ≠ .callbackEnd := by
    intro heq
    rw [heq] at program
    cases program
  unfold StaysOff at hapart
  dsimp only at hapart
  by_cases hactive : (interp.threads i).tstate.threadCallbackActive = true
  · rw [if_pos hactive] at hapart
    refine h.unanswered hsound (if_pos hactive) rfl (h.setUnanswered ?_)
    exact (h.threads i live).body hstanding hactive hend hapart step
  · rw [if_neg hactive] at hapart
    obtain ⟨m', hanswer, hfollows⟩ := (h.threads i live).answer hstanding hstanding'
      (Bool.not_eq_true _ ▸ hactive) hbegin hend hapart step
    have hone : interpStep p plain (.run i event) =
        some (plain.setThread i m', [.ran i event]) := by
      unfold interpStep
      dsimp only
      rw [if_pos ⟨h.live ▸ live, program⟩, hanswer]
      rfl
    have hanswers : withoutCallback interp (.run i event) = [.run i event] := if_neg hactive
    unfold StepErased
    rw [hanswers]
    exact ⟨_, _, StepRun.run_singleton.mpr hone, h.live, h.bare.setThread i m', hsound,
      (h.plainSound.stepping hone).sound h.plainSound, h.setThread hfollows⟩

/-- A boundary outside callbacks is answered by one that calls nothing. -/
theorem Erases.boundary {i offset : Nat} {jumps : List (Int × Int)} {choices : BoundaryChoices}
    {m : Machine} {rest : List Output} (h : Erases own interp plain) (hsound : Sound interp')
    (live : i ∈ interp.live)
    (step : threadStep p (interp.threads i) (.begin jumps offset) = some m)
    (inactive : m.tstate.threadCallbackActive = false)
    (checking : Checking p (interp.setThread i m) i choices interp' rest) :
    StepErased p own interp plain (.boundary i jumps offset choices) interp' := by
  obtain ⟨l, hstanding⟩ := h.sound.standing i live
  obtain ⟨l', hstanding'⟩ := h.plainSound.standing i (h.live ▸ live)
  have hidle := ((hstanding.step step).2.callbackState (by simp) (by simp)).1.symm.trans inactive
  have hkeeps : (ThreadEvent.begin jumps offset).keepsTo own := trivial
  obtain ⟨m', hanswer, hfollows⟩ := (h.threads i live).answer hstanding hstanding' hidle
    (by simp) (by simp) hkeeps step
  obtain ⟨plain', outs, hone, hbare, hlive, hthreads⟩ :=
    h.bare.boundary choices (h.live ▸ live) hanswer hfollows.idle
  have hplain := (h.plainSound.stepping hone).sound h.plainSound
  have hbegun := (h.sound.idleBoundary live step inactive).1
  have hstart : ∀ j ∈ (interp.setThread i m).live,
      Shadows own (plain'.threads j) ((interp.setThread i m).threads j) := by
    intro j hj
    rw [hthreads]
    exact h.setThread hfollows j hj
  have hend := Shadows.around checking.ran hstart hbegun hplain (hlive.trans h.live)
    (fun j event hmem => checking.silent hmem)
  have hsame : interp'.live = interp.live := checking.live
  have hanswers : withoutCallback interp (.boundary i jumps offset choices) =
      [.boundary i jumps offset choices] := if_neg (by simp [hidle])
  unfold StepErased
  rw [hanswers]
  exact ⟨plain', outs, StepRun.run_singleton.mpr hone, (hlive.trans h.live).trans hsame.symm,
    hbare, hsound, hplain, fun j hj => hend j (hsame ▸ hj)⟩

theorem Erases.clearThread (h : Erases own interp plain) {i : Nat} (live : i ∈ interp.live)
    (hsound : Sound (clearThread clearThreadState interp i)) :
    StepErased p own interp plain (.clearThread i)
      (Retrace.clearThread clearThreadState interp i) := by
  have hone : interpStep p plain (.clearThread i) =
      some (Retrace.clearThread clearThreadState plain i, []) := if_pos (h.live ▸ live)
  refine ⟨_, _, StepRun.run_singleton.mpr hone, congrArg (fun ids => ids.erase i) h.live,
    h.bare.clearThread i, hsound, h.plainSound.clearThread i, ?_⟩
  intro j hj
  obtain ⟨hne, hmem⟩ := h.sound.distinct.mem_erase_iff.mp hj
  have hother : ∀ interp : Interp, (Retrace.clearThread clearThreadState interp i).threads j =
      interp.threads j := fun interp => setThread_of_ne interp _ hne
  rw [hother, hother]
  exact h.threads j hmem

theorem Erases.step {event : InterpEvent} (h : Erases own interp plain)
    (hapart : StaysOff own interp event interp' out)
    (hstep : interpStep p interp event = some (interp', out)) :
    StepErased p own interp plain event interp' := by
  have hstepping := h.sound.stepping hstep
  have hsound := hstepping.sound h.sound
  cases hstepping with
  | run live program step => exact h.ran hsound live program step hapart
  | inside live step active =>
    rename_i i offset jumps choices m
    obtain ⟨l, hstanding⟩ := h.sound.standing i live
    have hactive := ((hstanding.step step).2.callbackState (by simp) (by simp)).1.symm.trans active
    have hkeeps : (ThreadEvent.begin jumps offset).keepsOff own := trivial
    refine h.unanswered hsound (if_pos hactive) rfl (h.setUnanswered ?_)
    exact (h.threads i live).body hstanding hactive (by simp) hkeeps step
  | boundary live step inactive checking => exact h.boundary hsound live step inactive checking
  | returns live pended step returning =>
    rename_i i raised choices pending m rest
    obtain ⟨l, hstanding⟩ := h.sound.standing i live
    obtain ⟨l', hstanding'⟩ := h.plainSound.standing i (h.live ▸ live)
    have hended := (h.sound.returned live step).1
    have hstart : ∀ j ∈ ((interp.setThread i m).setPending i none).live,
        Shadows own (plain.threads j) (((interp.setThread i m).setPending i none).threads j) :=
      h.setUnanswered ((h.threads i live).silent hstanding hstanding' (h.sound.pinned i live) rfl
        step)
    have hend := Shadows.around returning.ran hstart hended h.plainSound h.live
      (fun j event hmem => returning.silent hmem)
    exact h.unanswered hsound rfl returning.live hend
  | callAt => exact h.registers hsound rfl (callAt_threads h.sound.tidy _)
  | clearCallAt => exact h.registers hsound rfl (clearCallAt_threads interp _)
  | setThreadSwitchCallback live =>
    exact h.registers hsound rfl (setThreadSwitchCallback_threads h.sound.tidy _ _ _ _)
  | clearThread live => exact h.clearThread live hsound

theorem Unused.erases (h : Unused interp) : Erases own interp interp := by
  refine ⟨rfl, ⟨h.callAt, h.callAtArmed, h.switchArmed, h.entries, h.pending⟩, h.sound, h.sound, ?_⟩
  intro i hi
  have hidle := h.idle i hi
  refine Or.inl ⟨hidle.callback, fun spaceId _ => Twin.refl (fun f hf => ?_)⟩
  rw [hidle.stack] at hf
  cases hf

/-- Callbacks are transparent over whole runs. Whatever is registered, and whenever callbacks run,
the program's own events alone are a run without any callback, and the coordinates of every space
but the disabled one are the same: at the end of both, be it inside a callback or not, and so at
every point in between. Callbacks have to keep to frames of their own, and may enter no space but
the disabled one. -/
theorem callbacks_erased {events : List InterpEvent} (hunused : Unused interp)
    (hrun : StepRun.run (interpStep p) events interp = some (interp', out))
    (hapart : StepRun.Always (interpStep p) (StaysOff own) events interp) :
    ∃ plain outs, StepRun.run (interpStep p) (withoutCallbacks p events interp) interp =
        some (plain, outs) ∧ plain.live = interp'.live ∧
      ∀ i ∈ interp'.live, ∀ spaceId, spaceId ≠ spaceIdDisabled → ∀ drop,
        coordinates (interp'.threads i) spaceId drop =
          coordinates (plain.threads i) spaceId drop := by
  obtain ⟨plain, outs, hplain, herases⟩ := StepRun.Always.answered
    (fun _ _ _ _ _ h hapart hstep => h.step hapart hstep) hunused.erases hapart hrun
  refine ⟨plain, outs, hplain, herases.live, ?_⟩
  intro i hi spaceId hne drop
  obtain ⟨l, hstanding⟩ := herases.sound.standing i hi
  obtain ⟨l', hstanding'⟩ := herases.plainSound.standing i (herases.live ▸ hi)
  exact (herases.threads i hi).coordinates hstanding hstanding' hne drop

end interp

instance (own : Nat → Prop) [DecidablePred own] (event : ThreadEvent) :
    Decidable (event.keepsOff own) :=
  match event with
  | .call f _ _ _ => inferInstanceAs (Decidable (¬own f))
  | .resume f _ _ => inferInstanceAs (Decidable (¬own f))
  | .newGenerator g _ => inferInstanceAs (Decidable (¬own g))
  | .enterSpace _ spaceId _ => inferInstanceAs (Decidable (spaceId = spaceIdDisabled))
  | .begin _ _ | .leave _ | .leaveInactive _ | .leaveSpace | .callbackBegin _ _ | .callbackEnd
  | .threadDelta _ _ _ => isTrue trivial

instance (own : Nat → Prop) [DecidablePred own] (event : ThreadEvent) :
    Decidable (event.keepsTo own) :=
  match event with
  | .call f _ _ _ => inferInstanceAs (Decidable (own f))
  | .resume f _ _ => inferInstanceAs (Decidable (own f))
  | .enterSpace _ _ allocates => inferInstanceAs (Decidable (allocates = true))
  | .callbackBegin _ allocates => inferInstanceAs (Decidable (allocates = true))
  | .newGenerator _ _ | .begin _ _ | .leave _ | .leaveInactive _ | .leaveSpace | .callbackEnd
  | .threadDelta _ _ _ => isTrue trivial

instance (own : Nat → Prop) [DecidablePred own] (interp : Interp) (event : InterpEvent)
    (interp' : Interp) (out : List Output) : Decidable (StaysOff own interp event interp' out) :=
  match event with
  | .run i event => inferInstanceAs (Decidable
      (if (interp.threads i).tstate.threadCallbackActive then event.keepsOff own
        else event.keepsTo own))
  | .boundary _ _ _ _ | .callbackReturns _ _ _ | .callAt _ | .clearCallAt _
  | .setThreadSwitchCallback _ _ _ _ | .clearThread _ => isTrue trivial

/-- Two threads, a target and a switch callback. Both callbacks run frame 10. -/
def bothCallbacks : List InterpEvent := [
  .run 0 (.call 0 0 true true), .boundary 0 [] 4 (roomyChoices 9),
  .setThreadSwitchCallback 0 (some 5) 0 true, .callAt ⟨1, [6, 0], 1, none, 0, true, true⟩,
  .boundary 0 [] 6 (roomyChoices 9), .run 0 (.call 10 0 true true),
  .boundary 0 [] 2 (roomyChoices 8), .run 0 (.leave 0), .callbackReturns 0 false (roomyChoices 8),
  .run 1 (.call 1 0 true true), .boundary 1 [] 3 (roomyChoices 7), .run 1 (.call 10 0 true true),
  .boundary 1 [] 5 (roomyChoices 6), .boundary 0 [] 8 (roomyChoices 9)]

theorem callbacks_erased_both : ∃ interp out plain outs,
    StepRun.run (interpStep ⟨true, true⟩) bothCallbacks (freshInterp ⟨true, true⟩ [0, 1]) =
      some (interp, out) ∧
    StepRun.run (interpStep ⟨true, true⟩) [.run 0 (.call 0 0 true true),
        .boundary 0 [] 4 (roomyChoices 9), .boundary 0 [] 6 (roomyChoices 9),
        .run 1 (.call 1 0 true true), .boundary 1 [] 3 (roomyChoices 7),
        .boundary 0 [] 8 (roomyChoices 9)] (freshInterp ⟨true, true⟩ [0, 1]) =
      some (plain, outs) ∧
    ∀ i ∈ interp.live, coordinates (interp.threads i) 0 0 = coordinates (plain.threads i) 0 0 := by
  obtain ⟨interp, out, hrun⟩ : ∃ interp out, StepRun.run (interpStep ⟨true, true⟩) bothCallbacks
      (freshInterp ⟨true, true⟩ [0, 1]) = some (interp, out) := ⟨_, _, rfl⟩
  obtain ⟨plain, outs, hplain, -, hsame⟩ := @callbacks_erased _ (fun f => f < 10) _ _ _ _
    (freshInterp_unused ⟨true, true⟩ (by decide)) hrun (by decide +kernel)
  exact ⟨interp, out, plain, outs, hrun, hplain, fun i hi => hsame i hi 0 (by decide) 0⟩

end Retrace
