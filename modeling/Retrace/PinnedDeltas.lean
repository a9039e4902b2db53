import Retrace.DeltaDecodes
import Retrace.OtherSpaces

/-! Deltas that may be taken of a thread inside a callback, one in each callback. -/

set_option autoImplicit false

namespace Retrace

/-- An instruction comes after the one that its frame was at. -/
def climbs (frame : InterpreterFrame) (jumps : List (Int × Int)) (offset : Nat) : Bool :=
  decide (frame.lasti < 0 ∨ frameCoordinate frame < frameCoordinate (moveFrame frame jumps offset))

/-- Instructions move as told, only complete frames call, and a delta of the space finds all frames
at a boundary. -/
def promisedStep (moves : InterpreterFrame → List (Int × Int) → Nat → Bool) (m : Machine)
    (spaceId : Nat) (pending : List Nat) : ThreadEvent → Bool
  | .begin jumps offset =>
    match m.tstate.stack with
    | .frame f :: _ => moves (m.frames f) jumps offset
    | _ => true
  | .threadDelta id _ _ => id ≠ spaceId || (pending.isEmpty && topComplete m)
  | event => !event.pushes || topComplete m

def promised (p : Platform) (moves : InterpreterFrame → List (Int × Int) → Nat → Bool)
    (spaceId : Nat) : List ThreadEvent → Machine → List Nat → Bool
  | [], _, _ => true
  | event :: events, m, pending => promisedStep moves m spaceId pending event &&
      match threadStep p m event with
      | none => true
      | some m' => promised p moves spaceId events m' (awaiting m pending event)

/-- Whether no delta of the space has been taken since the last callback began. -/
def untaken (spaceId : Nat) (fresh : Bool) : ThreadEvent → Bool
  | .callbackBegin _ _ => true
  | .threadDelta id _ _ => fresh && id ≠ spaceId
  | _ => fresh

/-- A delta of the space finds room, and is the first one of the callback that it is taken in. -/
def firstInCallback (m : Machine) (spaceId : Nat) (fresh : Bool) : ThreadEvent → Bool
  | .threadDelta id allocates tupleAllocates =>
    id ≠ spaceId || (allocates && tupleAllocates && (!m.tstate.threadCallbackActive || fresh))
  | _ => true

def oncePerCallback (p : Platform) (spaceId : Nat) : List ThreadEvent → Machine → Bool → Bool
  | [], _, _ => true
  | event :: events, m, fresh => firstInCallback m spaceId fresh event &&
      match threadStep p m event with
      | none => true
      | some m' => oncePerCallback p spaceId events m' (untaken spaceId fresh event)

/-- What decoding rests on: until its first delta, a callback keeps the prefix below it. -/
structure Streaming (m : Machine) (spaceId : Nat) (pending stack : List Nat) (fresh : Bool) :
    Prop where
  standing : ∃ l, Standing m l
  pinned : Pinned m.tstate
  complete : ∀ item rest, m.tstate.stack = item :: rest → ∀ f, .frame f ∈ rest →
    isIncomplete (m.frames f) = false
  settled : ∀ f, Settled (m.frames f)
  decodable : ∀ n, findThreadSpace m.tstate spaceId = some n →
    DecodableOn (fun f => fresh = true → m.tstate.threadCallbackActive = true → f ∈ m.callbackChain)
      m (m.spacePtr n) pending stack

section steps
variable {p : Platform} {m m' : Machine} {base : Context} {event : ThreadEvent} {fresh : Bool}
variable {spaceId n : Nat} {space : SpacePtr} {pending stack : List Nat} {keeps keeps' : Nat → Prop}

theorem DecodableOn.mono (h : DecodableOn keeps m space pending stack)
    (hkeeps : ∀ f, .frame f ∈ m.tstate.stack → keeps f → keeps' f) :
    DecodableOn keeps' m space pending stack := by
  obtain ⟨newer, kept, hsplit, hstarts, hstale, hkept⟩ := h
  refine ⟨newer, kept, hsplit, hstarts, hstale, fun f hf => hkeeps f ?_ (hkept f hf)⟩
  have hmem : f ∈ spaceFrames m space m.tstate.stack := by
    rw [hsplit]
    exact List.mem_append_right _ hf
  exact (mem_spaceFrames.mp hmem).1

theorem promisedStep_spec (h : promisedStep climbs m spaceId pending event = true) :
    Promised m event := by
  refine ⟨?_, ?_⟩
  · intro hpush f rest htop
    have hcomplete : topComplete m = true := by
      cases event <;> simp_all [promisedStep, ThreadEvent.pushes]
    unfold topComplete at hcomplete
    rw [htop] at hcomplete
    simpa using hcomplete
  · intro jumps offset f rest hevent htop
    subst hevent
    unfold promisedStep at h
    simp only [htop] at h
    exact of_decide_eq_true h

theorem suffix_of_append {first second newer kept : List Nat} (h : first ++ second = newer ++ kept)
    (hapart : ∀ f ∈ kept, f ∉ first) :
    ∃ middle, newer = first ++ middle ∧ second = middle ++ kept := by
  obtain ⟨middle, hnewer, hsecond⟩ | ⟨middle, hfirst, hkept⟩ := List.append_eq_append_iff.mp h
  · exact ⟨middle, hnewer, hsecond⟩
  · cases middle with
    | nil =>
      refine ⟨[], ?_, ?_⟩
      · rw [hfirst, List.append_nil, List.append_nil]
      · rw [hkept]
        rfl
    | cons f middle =>
      refine absurd ?_ (hapart f ?_)
      · rw [hfirst]
        simp
      · rw [hkept]
        simp

theorem Streaming.split (h : Streaming m spaceId [] stack fresh)
    (hcomplete : ∀ f, .frame f ∈ m.tstate.stack → isIncomplete (m.frames f) = false)
    (hfresh : m.tstate.threadCallbackActive = true → fresh = true)
    (hfind : findThreadSpace m.tstate spaceId = some n) :
    ∃ above newer kept, DeltaParts m n stack above newer kept := by
  obtain ⟨l, hstanding⟩ := h.standing
  obtain ⟨base, -, hseg⟩ := hstanding.segment
  obtain ⟨newer, kept, hsplit, hstarts, hstale, hkept⟩ := h.decodable n hfind
  have hstale' : ∀ f ∈ newer, Stale m (m.spacePtr n) f :=
    fun f hf => (hstale f hf).resolve_left (by simp)
  by_cases hcallback : m.tstate.threadCallbackActive = true ∧
      m.currentSpaceId ≠ (m.tstate.space n).spaceId
  · have hchain : threadStateFrame m n = m.callbackChain := by
      unfold threadStateFrame
      rw [if_pos hcallback]
    obtain ⟨upper, k, f, rest, hstack, -, hpinned⟩ :=
      h.pinned.callbackChain hseg.nodup hcallback.1
    have hparts : spaceFrames m (m.spacePtr n) m.tstate.stack =
        spaceFrames m (m.spacePtr n) (upper ++ [.callback k]) ++
          spaceFrames m (m.spacePtr n) (.frame f :: rest) := by
      unfold spaceFrames
      rw [← List.filter_append, ← frameChain_append, hstack]
      simp
    have hvisible : (threadStateFrame m n).filter (m.visibleIn (m.spacePtr n)) =
        spaceFrames m (m.spacePtr n) (.frame f :: rest) := by
      rw [hchain, hpinned]
      unfold spaceFrames
      refine List.filter_congr (fun g hg => ?_)
      have hon : .frame g ∈ m.tstate.stack := by
        rw [hstack]
        exact List.mem_append_right _ (List.mem_cons_of_mem _ (mem_frameChain.mp hg))
      unfold Machine.visibleIn frameIsVisible
      rw [hcomplete g hon]
      cases (m.frames g).space with
      | none => rfl
      | some space' => simp
    have hapart : ∀ g, .frame g ∈ upper ++ [.callback k] → g ∉ m.callbackChain := by
      intro g hg hmem
      rw [hpinned] at hmem
      have hnodup := hseg.nodup
      have hwhole : m.tstate.stack = (upper ++ [.callback k]) ++ (.frame f :: rest) := by
        rw [hstack]
        simp
      rw [hwhole, List.nodup_append] at hnodup
      exact hnodup.2.2 _ hg _ (mem_frameChain.mp hmem) rfl
    rw [hparts] at hsplit
    obtain ⟨middle, hnewer, hsecond⟩ := suffix_of_append hsplit (by
      intro g hg hmem
      exact hapart g (mem_spaceFrames.mp hmem).1 (hkept g hg (hfresh hcallback.1) hcallback.1))
    refine ⟨_, middle, kept, by rw [hparts, hsecond], by rw [hvisible, hsecond], hstarts, ?_, ?_⟩
    · intro g hg
      exact hstale' g (by rw [hnewer]; exact List.mem_append_right _ hg)
    · intro g hg
      refine ⟨hstale' g (by rw [hnewer]; exact List.mem_append_left _ hg), ?_⟩
      rw [hchain]
      exact hapart g (mem_spaceFrames.mp hg).1
  · have hchain : threadStateFrame m n = m.chain := by
      unfold threadStateFrame
      rw [if_neg hcallback]
    refine ⟨[], newer, kept, hsplit, ?_, hstarts, hstale', by simp⟩
    rw [hchain]
    exact (spaceFrames_eq_filter hcomplete).trans hsplit

theorem Streaming.answered (h : Streaming m spaceId [] stack fresh) (htop : topComplete m = true)
    (hfresh : m.tstate.threadCallbackActive = true → fresh = true) : Answered m spaceId stack :=
  answered_of_parts (fun _ hfind =>
    h.split (fun _ hf => complete_of_top htop h.complete hf) hfresh hfind)

theorem Streaming.staysBelow (h : Streaming m spaceId pending stack fresh) (hseg : Segment [] base m)
    (heffect : Effect m event m') (hpinned' : Pinned m'.tstate) (hnodup' : m'.tstate.stack.Nodup)
    {f : Nat} (hon : .frame f ∈ m'.tstate.stack)
    (hkept : fresh = true → m.tstate.threadCallbackActive = true → f ∈ m.callbackChain)
    (hfresh' : untaken spaceId fresh event = true)
    (hactive' : m'.tstate.threadCallbackActive = true) : f ∈ m'.callbackChain := by
  by_cases hbegin : ∃ k allocates, event = .callbackBegin k allocates
  · obtain ⟨k, allocates, rfl⟩ := hbegin
    cases heffect with
    | callbackFails unused idle => cases hactive'
    | callbackBegin top unused idle enters =>
      rename_i g node rest entered t scope ptr
      have hstack : (entered.push (.callback k)).tstate.stack =
          [] ++ .callback k :: .frame g :: rest := by
        rw [← top]
        exact congrArg _ enters.callbackState.1
      rw [callbackChain_eq hnodup' hstack enters.callbackState.2.2]
      rw [hstack, List.nil_append, List.mem_cons] at hon
      exact mem_frameChain.mpr (hon.resolve_left (by simp))
  · by_cases hend : event = .callbackEnd
    · subst hend
      cases heffect
      cases hactive'
    · have hbegin' : ∀ k allocates, event ≠ .callbackBegin k allocates :=
        fun k allocates heq => hbegin ⟨k, allocates, heq⟩
      have hactive : m.tstate.threadCallbackActive = true :=
        (heffect.callbackState hbegin' hend).1.symm.trans hactive'
      have hfresh : fresh = true := by
        cases event with
        | callbackBegin k allocates => exact absurd rfl (hbegin' k allocates)
        | threadDelta id allocates tupleAllocates =>
          exact ((Bool.and_eq_true _ _).mp hfresh').1
        | _ => exact hfresh'
      rw [heffect.callbackChain h.pinned hseg.nodup hnodup' hactive hbegin' hend]
      exact hkept hfresh hactive

theorem Streaming.step (h : Streaming m spaceId pending stack fresh)
    (hrun : threadStep p m event = some m')
    (hpromised : promisedStep climbs m spaceId pending event = true)
    (honce : firstInCallback m spaceId fresh event = true) :
    ∃ stack', consume m spaceId stack event = some stack' ∧
      Streaming m' spaceId (awaiting m pending event) stack' (untaken spaceId fresh event) := by
  obtain ⟨l, hstanding⟩ := h.standing
  obtain ⟨hnext, heffect⟩ := hstanding.step hrun
  obtain ⟨base, -, hseg⟩ := hstanding.segment
  obtain ⟨base', -, hseg'⟩ := hnext.segment
  have hstep := promisedStep_spec hpromised
  have hcomplete : ∀ item rest, m'.tstate.stack = item :: rest → ∀ f, .frame f ∈ rest →
      isIncomplete (m'.frames f) = false := by
    intro item rest hstack f hf
    exact heffect.complete hseg.contextOk hseg.nodup hstep.complete h.complete hstack hf
  have hsettled := heffect.settled hstep h.settled
  have hpinned' := h.pinned.step heffect
  have hkeeps : (∀ allocates tupleAllocates, event ≠ .threadDelta spaceId allocates tupleAllocates) →
      ∀ n, findThreadSpace m'.tstate spaceId = some n →
      DecodableOn (fun f => untaken spaceId fresh event = true →
        m'.tstate.threadCallbackActive = true → f ∈ m'.callbackChain)
        m' (m'.spacePtr n) (awaiting m pending event) stack := by
    intro hevent n hfind
    have hcarried :=
      DecodableOn.others h.decodable hseg heffect hseg'.circle hstep h.settled hevent hfind
    exact hcarried.mono (fun f hon hkept hfresh' hactive' =>
      h.staysBelow hseg heffect hpinned' hseg'.nodup hon hkept hfresh' hactive')
  cases event with
  | threadDelta id allocates tupleAllocates =>
    by_cases hid : id = spaceId
    · subst hid
      simp only [promisedStep, ne_eq, not_true_eq_false, decide_false, Bool.false_or,
        Bool.and_eq_true, List.isEmpty_iff] at hpromised
      simp only [firstInCallback, ne_eq, not_true_eq_false, decide_false, Bool.false_or,
        Bool.and_eq_true, Bool.or_eq_true, Bool.not_eq_true'] at honce
      obtain ⟨hpending, htop⟩ := hpromised
      obtain ⟨⟨rfl, rfl⟩, hfirst⟩ := honce
      subst hpending
      have hfresh : m.tstate.threadCallbackActive = true → fresh = true := by
        intro hactive
        refine hfirst.resolve_left ?_
        rw [hactive]
        simp
      have hresult : m' = (threadDeltaForTstate m id true true).2 := (Option.some.inj hrun).symm
      have hconsume : consume m id stack (.threadDelta id true true) =
          decode stack (threadDeltaForTstate m id true true).1 := if_pos rfl
      have htaken : untaken id fresh (.threadDelta id true true) = false := by
        simp [untaken]
      rw [hconsume, htaken]
      obtain ⟨stack', hdecode, ⟨rfl, rfl⟩ | hdecodable⟩ :=
        (h.answered htop hfresh).consumed hseg.circle hresult
      · refine ⟨stack', hdecode, ⟨_, hstanding⟩, h.pinned, h.complete, h.settled, ?_⟩
        intro n hfind
        exact (h.decodable n hfind).mono (fun f _ _ hfalse => absurd hfalse (by simp))
      · refine ⟨stack', hdecode, ⟨_, hnext⟩, hpinned', hcomplete, hsettled, ?_⟩
        intro n hfind
        exact (decodable_iff.mp (hdecodable n hfind)).mono
          (fun f _ _ hfalse => absurd hfalse (by simp))
    · refine ⟨stack, if_neg hid, ⟨_, hnext⟩, hpinned', hcomplete, hsettled, hkeeps ?_⟩
      intro _ _ heq
      cases heq
      exact hid rfl
  | _ => exact ⟨stack, rfl, ⟨⟨_, hnext⟩, hpinned', hcomplete, hsettled, hkeeps (by simp)⟩⟩

theorem Idle.streaming (h : Idle m) (hsettled : ∀ f, Settled (m.frames f)) :
    Streaming m spaceId [] [] true := by
  refine ⟨⟨_, h.standing⟩, h.pinned, ?_, hsettled, ?_⟩
  · intro item rest hstack
    rw [h.stack] at hstack
    cases hstack
  · intro n _
    refine ⟨[], [], ?_, List.prefix_rfl, by simp, by simp⟩
    rw [h.stack]
    rfl

theorem Streaming.run {events more : List ThreadEvent} (h : Streaming m spaceId pending stack fresh)
    (hrun : threadRun p events m = some m')
    (hpromised : promised p climbs spaceId (events ++ more) m pending = true)
    (honce : oncePerCallback p spaceId events m fresh = true) :
    ∃ stack' pending', consumerStack p spaceId events m stack = some stack' ∧
      Streaming m' spaceId pending' stack' (events.foldl (untaken spaceId) fresh) ∧
      promised p climbs spaceId more m' pending' = true := by
  induction events generalizing m pending stack fresh with
  | nil =>
    cases hrun
    exact ⟨stack, pending, rfl, h, hpromised⟩
  | cons event events ih =>
    rw [threadRun_cons, Option.bind_eq_some_iff] at hrun
    obtain ⟨mid, hstep, hrun⟩ := hrun
    rw [List.cons_append] at hpromised
    unfold promised at hpromised
    unfold oncePerCallback at honce
    rw [hstep, Bool.and_eq_true] at hpromised honce
    obtain ⟨stack', hconsume, hnext⟩ := h.step hstep hpromised.1 honce.1
    obtain ⟨last, pending', hlast, hrest⟩ := ih hnext hrun hpromised.2 honce.2
    refine ⟨last, pending', ?_, hrest⟩
    unfold consumerStack
    rw [hconsume, hstep]
    exact hlast

/-- A delta that is the first of the callback it is taken in decodes over the consumer's stack, and
so do all before it. -/
theorem Idle.decodesPinned {origin : Machine} {events : List ThreadEvent} (h : Idle origin)
    (hsettled : ∀ f, Settled (origin.frames f)) (hrun : threadRun p events origin = some m)
    (hpromised : promised p climbs spaceId (events ++ [.threadDelta spaceId true true]) origin [] =
      true)
    (honce : oncePerCallback p spaceId events origin true = true)
    (hfirst : m.tstate.threadCallbackActive = true →
      events.foldl (untaken spaceId) true = true) :
    ∃ stack, consumerStack p spaceId events origin [] = some stack ∧
      Decodes stack (coordinates m spaceId 0) (threadDeltaForTstate m spaceId true true).1 := by
  obtain ⟨stack, pending, hstack, hstreaming, hlast⟩ :=
    (h.streaming hsettled).run hrun hpromised honce
  simp only [promised, promisedStep, ne_eq, not_true_eq_false, decide_false, Bool.false_or,
    Bool.and_eq_true, List.isEmpty_iff] at hlast
  obtain ⟨⟨hpending, htop⟩, -⟩ := hlast
  subst hpending
  exact ⟨stack, hstack, (hstreaming.answered htop hfirst).decodes⟩

end steps

section append
variable {p : Platform} {m m' : Machine} {spaceId : Nat} {fresh : Bool}
  {first second events : List ThreadEvent}

theorem oncePerCallback_append (hrun : threadRun p first m = some m') :
    oncePerCallback p spaceId (first ++ second) m fresh = true ↔
      oncePerCallback p spaceId first m fresh = true ∧
        oncePerCallback p spaceId second m' (first.foldl (untaken spaceId) fresh) = true := by
  induction first generalizing m fresh with
  | nil =>
    cases hrun
    simp [oncePerCallback]
  | cons event first ih =>
    rw [threadRun_cons, Option.bind_eq_some_iff] at hrun
    obtain ⟨mid, hstep, hrun⟩ := hrun
    rw [List.cons_append, oncePerCallback, oncePerCallback, hstep, Bool.and_eq_true,
      Bool.and_eq_true, ih hrun, and_assoc]
    rfl

theorem consumerStack_append {stack : List Nat} (hrun : threadRun p first m = some m') :
    consumerStack p spaceId (first ++ second) m stack =
      (consumerStack p spaceId first m stack).bind (consumerStack p spaceId second m') := by
  induction first generalizing m stack with
  | nil =>
    cases hrun
    rfl
  | cons event first ih =>
    rw [threadRun_cons, Option.bind_eq_some_iff] at hrun
    obtain ⟨mid, hstep, hrun⟩ := hrun
    rw [List.cons_append, consumerStack, consumerStack, hstep]
    cases hconsume : consume m spaceId stack event with
    | none => rfl
    | some next => exact ih hrun

theorem oncePerCallback_quiet (hquiet : ∀ event ∈ events, ¬event.takesDelta spaceId) :
    oncePerCallback p spaceId events m fresh = true := by
  induction events generalizing m fresh with
  | nil => rfl
  | cons event events ih =>
    have hfirst : firstInCallback m spaceId fresh event = true := by
      cases event with
      | threadDelta id allocates tupleAllocates =>
        have hne : id ≠ spaceId := hquiet _ List.mem_cons_self
        simp [firstInCallback, hne]
      | _ => rfl
    have hrest := fun m fresh => @ih m fresh (fun e he => hquiet e (List.mem_cons_of_mem _ he))
    rw [oncePerCallback, hfirst]
    cases hstep : threadStep p m event with
    | none => rfl
    | some mid => exact hrest mid _

theorem consumerStack_quiet {stack : List Nat} (hrun : threadRun p events m = some m')
    (hquiet : ∀ event ∈ events, ¬event.takesDelta spaceId) :
    consumerStack p spaceId events m stack = some stack := by
  induction events generalizing m with
  | nil => rfl
  | cons event events ih =>
    rw [threadRun_cons, Option.bind_eq_some_iff] at hrun
    obtain ⟨mid, hstep, hrun⟩ := hrun
    have hconsume : consume m spaceId stack event = some stack := by
      cases event with
      | threadDelta id allocates tupleAllocates => exact if_neg (hquiet _ List.mem_cons_self)
      | _ => rfl
    rw [consumerStack, hconsume, hstep]
    exact ih hrun (fun e he => hquiet e (List.mem_cons_of_mem _ he))

/-- Without a delta of the space, a callback that runs at the end is as fresh as it was, or has
begun since. -/
theorem untaken_quiet {l : Ledger} (hstanding : Standing m l) (hrun : threadRun p events m = some m')
    (hquiet : ∀ event ∈ events, ¬event.takesDelta spaceId)
    (hfresh : m.tstate.threadCallbackActive = true → fresh = true)
    (hactive : m'.tstate.threadCallbackActive = true) :
    events.foldl (untaken spaceId) fresh = true := by
  induction events generalizing m fresh l with
  | nil =>
    cases hrun
    exact hfresh hactive
  | cons event events ih =>
    rw [threadRun_cons, Option.bind_eq_some_iff] at hrun
    obtain ⟨mid, hstep, hrun⟩ := hrun
    obtain ⟨hnext, heffect⟩ := hstanding.step hstep
    rw [List.foldl_cons]
    refine ih hnext hrun (fun e he => hquiet e (List.mem_cons_of_mem _ he)) ?_
    intro hmid
    have hkept : (∀ k allocates, event ≠ .callbackBegin k allocates) → event ≠ .callbackEnd →
        fresh = true := by
      intro hbegin hend
      exact hfresh ((heffect.callbackState hbegin hend).1.symm.trans hmid)
    cases event with
    | callbackBegin k allocates => rfl
    | callbackEnd =>
      cases heffect
      cases hmid
    | threadDelta id allocates tupleAllocates =>
      have hne : id ≠ spaceId := hquiet _ List.mem_cons_self
      simp [untaken, hkept (by simp) (by simp), hne]
    | _ => exact hkept (by simp) (by simp)

end append

end Retrace
