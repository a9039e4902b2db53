import Retrace.StackDiscipline

/-! What the depths and ordinals of a thread count, over whole runs of the thread. -/

set_option autoImplicit false

namespace Retrace

def initializeThreadState (p : Platform) (address : Nat) : ThreadState where
  address := address
  threadId := 0
  spaces := [initializeSpaceState spaceIdRoot (initialRootCoordinateHash p) 0]
  currentSpace := 0
  lastSpace := 0
  callOrdinalPtr := some (.root 0)
  inheritedSpaceId := spaceIdRoot
  threadCallbackActive := false
  threadCallbackFrame := none
  stack := []

def freshMachine (p : Platform) (address : Nat) : Machine where
  tstate := initializeThreadState p address
  frames _ := newFrame (-1) 0
  scopes _ := {
    previousSpace := 0
    previousSpaceId := 0
    previousCallOrdinalPtr := none
    space := 0
    initialRootCallOrdinal := 0
    localRootCallOrdinal := 0
    useLocalRoot := false }

/-- Outside its frames, scopes and callbacks, with the root of the current space as slot. -/
structure Idle (m : Machine) : Prop where
  circle : Circle m.tstate
  stack : m.tstate.stack = []
  ptr : m.tstate.callOrdinalPtr = some (.root m.tstate.currentSpace)
  current : m.tstate.currentSpace < m.tstate.spaces.length
  id : (m.tstate.space m.tstate.currentSpace).spaceId = m.tstate.inheritedSpaceId
  inactive : ∀ f, (m.frames f).space = none
  depth : ∀ n < m.tstate.spaces.length, (m.tstate.space n).depth = 0
  ordinal : ∀ n < m.tstate.spaces.length, (m.tstate.space n).rootCallOrdinal < 2 ^ 64
  callback : m.tstate.threadCallbackActive = false

def activeFrames (m : Machine) (node : Nat) (chain : List Nat) : Nat :=
  chain.countP (fun f => (m.frames f).space == some (m.spacePtr node))

def DepthExact (m : Machine) : Prop :=
  ∀ n < m.tstate.spaces.length, (m.tstate.space n).depth = activeFrames m n m.chain

/-- A record of a run that the program does not keep: the slot on which each running activation
was started, and how many activations started on a slot have completed since its last reset. -/
structure Ledger where
  started : Nat → Option OrdinalPtr
  completed : OrdinalPtr → Nat

def Ledger.empty : Ledger := ⟨fun _ => none, fun _ => 0⟩

def Ledger.reset (l : Ledger) (slot : OrdinalPtr) : Ledger :=
  { l with completed := Function.update l.completed slot 0 }

def Ledger.start (l : Ledger) (f : Nat) (slot : Option OrdinalPtr) : Ledger :=
  { l with started := Function.update l.started f slot }

def Ledger.complete (l : Ledger) (f : Nat) : Ledger :=
  match l.started f with
  | none => l
  | some slot => { l with completed := Function.update l.completed slot (l.completed slot + 1) }

/-- A slot is reset when its frame is activated, at each visible boundary of the frame, and when
its scope is entered. -/
def Ledger.record (l : Ledger) (m : Machine) : ThreadEvent → Ledger
  | .call f _ _ _ => (l.start f m.tstate.callOrdinalPtr).reset (.frame f)
  | .resume f _ _ => (l.start f m.tstate.callOrdinalPtr).reset (.frame f)
  | .begin jumps offset =>
    match m.tstate.stack with
    | .frame f :: _ =>
      if frameIsVisible (moveFrame (m.frames f) jumps offset) then l.reset (.frame f) else l
    | _ => l
  | .leave _ =>
    match m.tstate.stack with
    | .frame f :: _ => l.complete f
    | _ => l
  | .enterSpace k _ _ => l.reset (.scope k)
  | .callbackBegin k _ => l.reset (.scope k)
  | _ => l

def ledgerOf (p : Platform) : List ThreadEvent → Machine → Ledger → Ledger
  | [], _, l => l
  | event :: events, m, l =>
    match threadStep p m event with
    | none => l
    | some m' => ledgerOf p events m' (l.record m event)

structure Counted (m : Machine) (l : Ledger) : Prop where
  started : ∀ f, .frame f ∈ m.tstate.stack → (m.frames f).previousCallOrdinalPtr = l.started f
  frame : ∀ f, .frame f ∈ m.tstate.stack →
    (m.frames f).currentCallOrdinal = l.completed (.frame f) % 2 ^ 64
  scope : ∀ k ∈ scopeIds m.tstate.stack, (m.scopes k).localRootCallOrdinal =
    ((m.scopes k).initialRootCallOrdinal + l.completed (.scope k)) % 2 ^ 64
  root : ∀ n < m.tstate.spaces.length, (m.tstate.space n).rootCallOrdinal < 2 ^ 64

section depth
variable {m m' : Machine} {base : Context}

theorem activeFrames_congr {chain : List Nat} (n : Nat)
    (haddress : m'.tstate.address = m.tstate.address)
    (h : ∀ f ∈ chain, (m'.frames f).space = (m.frames f).space) :
    activeFrames m' n chain = activeFrames m n chain := by
  unfold activeFrames
  apply List.countP_congr
  intro f hf
  unfold Machine.spacePtr
  rw [h f hf, haddress]

theorem SavedOn.activeFrames {items : List StackItem} (h : SavedOn items m m') (n : Nat) :
    activeFrames m' n (frameChain items) = activeFrames m n (frameChain items) :=
  activeFrames_congr n h.address (fun f hf => (h.frame f (mem_frameChain.mp hf)).1)

theorem Disciplined.frame_space {below items : List StackItem} {c : Context}
    (hd : Disciplined m below base items c) {f : Nat} (hf : .frame f ∈ items) :
    ∃ n < m.tstate.spaces.length, (m.frames f).space = some (m.spacePtr n) := by
  induction items generalizing c with
  | nil => cases hf
  | cons item rest ih =>
    cases item with
    | frame g =>
      obtain ⟨hok, -, hspace, hd⟩ := hd
      rw [List.mem_cons] at hf
      obtain heq | hf := hf
      · cases heq
        exact ⟨c.space, hok.space, hspace⟩
      · exact ih hd hf
    | scope k =>
      rw [List.mem_cons] at hf
      obtain heq | hf := hf
      · cases heq
      · exact ih hd.2.2 hf
    | callback k =>
      rw [List.mem_cons] at hf
      obtain heq | hf := hf
      · cases heq
      · exact ih hd.2.2 hf

theorem Disciplined.baseOk {below items : List StackItem} {c : Context}
    (hd : Disciplined m below base items c) : ContextOk m base := by
  induction items generalizing c with
  | nil => exact hd.2 ▸ hd.1
  | cons item rest ih =>
    cases item with
    | frame g => exact ih hd.2.2.2
    | scope k => exact ih hd.2.2
    | callback k => exact ih hd.2.2

theorem Segment.frame_space (h : Segment [] base m) {f : Nat} (hf : .frame f ∈ m.tstate.stack) :
    ∃ n < m.tstate.spaces.length, (m.frames f).space = some (m.spacePtr n) := by
  obtain ⟨items, hitems, hd⟩ := h.items
  rw [List.append_nil] at hitems
  exact hd.frame_space (hitems ▸ hf)

theorem Segment.activeFrames_fresh (h : Segment [] base m) {n : Nat}
    (hn : m.tstate.spaces.length ≤ n) : activeFrames m n m.chain = 0 := by
  unfold activeFrames
  rw [List.countP_eq_zero]
  intro f hf
  obtain ⟨node, hnode, hspace⟩ := h.frame_space (mem_frameChain.mp hf)
  rw [hspace]
  simp only [beq_iff_eq, Option.some.injEq, Machine.spacePtr, SpacePtr.mk.injEq, true_and]
  omega

theorem activeFrames_le (n : Nat) (chain : List Nat) : activeFrames m n chain ≤ chain.length :=
  List.countP_le_length

theorem DepthExact.quiet (h : DepthExact m) (hseg : Segment [] base m)
    (hsaved : SavedOn m.tstate.stack m m') (hchain : m'.chain = m.chain)
    (hold : ∀ n < m.tstate.spaces.length, (m'.tstate.space n).depth = (m.tstate.space n).depth)
    (hnew : ∀ n, m.tstate.spaces.length ≤ n → n < m'.tstate.spaces.length →
      (m'.tstate.space n).depth = 0) : DepthExact m' := by
  intro n hn
  have hactive : activeFrames m' n m.chain = activeFrames m n m.chain := hsaved.activeFrames n
  rw [hchain, hactive]
  by_cases hlt : n < m.tstate.spaces.length
  · rw [hold n hlt, h n hlt]
  · rw [hnew n (by omega) hn, hseg.activeFrames_fresh (by omega)]

theorem DepthExact.pushFrame (h : DepthExact m) {f : Nat} (frame : InterpreterFrame)
    (hoff : .frame f ∉ m.tstate.stack) (hlimit : m.chain.length < recursionLimit) :
    DepthExact (m.pushFrame f frame) := by
  intro n hn
  rw [pushFrame_length] at hn
  have hactive : activeFrames (m.pushFrame f frame) n m.chain = activeFrames m n m.chain :=
    (savedOn_pushFrame frame hoff).activeFrames n
  have hchain : (m.pushFrame f frame).chain = f :: m.chain := rfl
  have hcons : activeFrames (m.pushFrame f frame) n (f :: m.chain) =
      activeFrames m n m.chain + if n = m.tstate.currentSpace then 1 else 0 := by
    rw [← hactive]
    unfold activeFrames
    rw [List.countP_cons, pushFrame_frames, if_pos rfl]
    by_cases hcur : n = m.tstate.currentSpace
    · subst hcur
      simp [Machine.activatedFrame, Machine.spacePtr, Machine.pushFrame, ThreadState.updateSpace]
    · simp [Machine.activatedFrame, Machine.spacePtr, Machine.pushFrame, ThreadState.updateSpace,
        hcur, Ne.symm hcur]
  have hle : activeFrames m n m.chain ≤ m.chain.length := activeFrames_le n m.chain
  unfold recursionLimit at hlimit
  rw [hchain, hcons, pushFrame_space m f frame hn]
  by_cases hcur : n = m.tstate.currentSpace
  · rw [if_pos hcur, if_pos hcur]
    dsimp only
    rw [h n hn, if_pos (by omega)]
  · rw [if_neg hcur, if_neg hcur, h n hn, Nat.add_zero]

theorem DepthExact.popFrame (h : DepthExact m) (hseg : Segment [] base m) {f node : Nat}
    {ptr : OrdinalPtr} {rest : List StackItem} (htop : m.tstate.stack = .frame f :: rest)
    (hspace : (m.frames f).space = some (m.spacePtr node)) (hne : ptr ≠ .frame f) :
    DepthExact (m.popFrame f node ptr rest) := by
  intro n hn
  rw [popFrame_length] at hn
  have hnodup := hseg.nodup
  rw [htop, List.nodup_cons] at hnodup
  have hactive : activeFrames (m.popFrame f node ptr rest) n (frameChain rest) =
      activeFrames m n (frameChain rest) := (savedOn_popFrame rest hne hnodup.1).activeFrames n
  have hchain : (m.popFrame f node ptr rest).chain = frameChain rest := by
    unfold Machine.chain
    rw [popFrame_stack]
  have hcons : activeFrames m n m.chain =
      activeFrames m n (frameChain rest) + if n = node then 1 else 0 := by
    have hmchain : m.chain = f :: frameChain rest := by
      unfold Machine.chain
      rw [htop]
      rfl
    unfold activeFrames
    rw [hmchain, List.countP_cons, hspace]
    by_cases hnode : n = node
    · simp [hnode]
    · simp [Machine.spacePtr, hnode, Ne.symm hnode]
  rw [hchain, hactive, popFrame_space m f node ptr rest hn]
  have hexact := h n hn
  rw [hcons] at hexact
  dsimp only
  by_cases hnode : n = node
  · rw [if_pos hnode] at hexact
    rw [if_pos ⟨hnode, by omega⟩, hexact, Nat.add_sub_cancel]
  · rw [if_neg hnode] at hexact
    rw [if_neg (fun hand => hnode hand.1), hexact, Nat.add_zero]

theorem DepthExact.enterSpace (h : DepthExact m) (hseg : Segment [] base m)
    {k spaceId node : Nat} {t : ThreadState} {scope : SpaceScope} {ptr : OrdinalPtr}
    (henters : EntersSpace m k spaceId m' node t scope ptr) (hk : k ∉ scopeIds m.tstate.stack)
    {item : StackItem} (hitem : item = .scope k ∨ item = .callback k) :
    DepthExact (m'.push item) := by
  have hsame := henters.grown.same
  have hsaved := (savedOn_enterSpace henters hk).setStack (item :: m'.tstate.stack)
  have hresult := henters.result
  refine h.quiet hseg hsaved ?_ ?_ ?_
  · have hstack : (m'.push item).tstate.stack = item :: m.tstate.stack := by
      rw [hresult, hsame]
      rfl
    unfold Machine.chain
    rw [hstack]
    obtain rfl | rfl := hitem <;> rfl
  · intro n hn
    rw [hresult]
    change (t.space n).depth = _
    rw [henters.grown.space n hn]
  · intro n hle hlt
    rw [hresult] at hlt ⊢
    obtain ⟨hash, hfresh⟩ := henters.grown.fresh n hle hlt
    change (t.space n).depth = 0
    rw [hfresh]
    rfl

theorem DepthExact.leaveSpace (h : DepthExact m) (hseg : Segment [] base m) {k : Nat}
    {item : StackItem} {rest : List StackItem} (htop : m.tstate.stack = item :: rest)
    (hitem : item = .scope k ∨ item = .callback k) :
    DepthExact ((leaveSpace m k).setStack rest) := by
  refine h.quiet hseg ((savedOn_leaveSpace _ m k).setStack rest) ?_ ?_ ?_
  · unfold Machine.chain
    rw [htop]
    obtain rfl | rfl := hitem <;> rfl
  · intro n hn
    change ((Retrace.leaveSpace m k).tstate.space n).depth = _
    rw [leaveSpace_space m k hn]
  · intro n hle hlt
    change n < (Retrace.leaveSpace m k).tstate.spaces.length at hlt
    rw [leaveSpace_length] at hlt
    omega

theorem DepthExact.step (h : DepthExact m) (hseg : Segment [] base m) {event : ThreadEvent}
    (heffect : Effect m event m') : DepthExact m' := by
  cases heffect with
  | call off limit => exact h.pushFrame _ off limit
  | resume off limit => exact h.pushFrame _ off limit
  | newGenerator off =>
    exact h.quiet hseg
      (savedOn_setFrame _ m _ (fun hmem => absurd hmem off) (fun hmem => absurd hmem off))
      rfl (fun _ _ => rfl) (fun n hle hlt => by change n < m.tstate.spaces.length at hlt; omega)
  | begin top =>
    obtain ⟨hspace, hprev⟩ := begunFrame_saved (m.frames _) _ _
    exact h.quiet hseg (savedOn_setFrame _ m _ (fun _ => hspace) (fun _ => hprev))
      rfl (fun _ _ => rfl) (fun n hle hlt => by change n < m.tstate.spaces.length at hlt; omega)
  | leave top current space node_eq previous ne => exact h.popFrame hseg top space ne
  | leaveInactive => exact h
  | enterFails unused => exact h
  | enterSpace unused enters => exact h.enterSpace hseg enters unused (Or.inl rfl)
  | leaveSpace top => exact h.leaveSpace hseg top (Or.inl rfl)
  | callbackFails unused idle => exact h
  | callbackBegin top unused idle enters =>
    exact DepthExact.enterSpace (m := m.setCallback true (some _)) h (hseg.setCallback true _)
      enters unused (Or.inr rfl)
  | callbackEnd top => exact h.leaveSpace hseg top (Or.inr rfl)
  | threadDelta =>
    rename_i spaceId allocates tupleAllocates
    obtain heq | ⟨node, -, heq⟩ := threadDelta_cases m spaceId allocates tupleAllocates
    · rw [heq]
      exact h
    · rw [heq]
      refine h.quiet hseg (savedOn_rememberDelta m.tstate.stack m node) rfl ?_ ?_
      · intro n hn
        rw [rememberDelta_space m node hn]
        split <;> rfl
      · intro n hle hlt
        rw [rememberDelta_length] at hlt
        omega

end depth

section counts
variable {p : Platform} {m m' : Machine} {base : Context} {l : Ledger}

theorem reset_completed (slot other : OrdinalPtr) :
    (l.reset slot).completed other = if other = slot then 0 else l.completed other := by
  unfold Ledger.reset
  by_cases h : other = slot <;> simp [h]

theorem start_started (f : Nat) (slot : Option OrdinalPtr) (g : Nat) :
    (l.start f slot).started g = if g = f then slot else l.started g := by
  unfold Ledger.start
  by_cases h : g = f <;> simp [h]

theorem complete_completed {f : Nat} {slot : OrdinalPtr} (h : l.started f = some slot)
    (other : OrdinalPtr) : (l.complete f).completed other =
      if slot = other then l.completed other + 1 else l.completed other := by
  unfold Ledger.complete
  rw [h]
  by_cases heq : slot = other
  · subst heq
    simp
  · simp [heq, Ne.symm heq]

theorem complete_started {f : Nat} {slot : OrdinalPtr} (h : l.started f = some slot) :
    (l.complete f).started = l.started := by
  unfold Ledger.complete
  rw [h]

theorem Counted.pushFrame (h : Counted m l) (f : Nat) (frame : InterpreterFrame) :
    Counted (m.pushFrame f frame) ((l.start f m.tstate.callOrdinalPtr).reset (.frame f)) := by
  have hother : ∀ g, .frame g ∈ (m.pushFrame f frame).tstate.stack → g ≠ f →
      .frame g ∈ m.tstate.stack := by
    intro g hg hne
    change StackItem.frame g ∈ .frame f :: m.tstate.stack at hg
    rw [List.mem_cons] at hg
    exact hg.resolve_left (fun heq => hne (StackItem.frame.inj heq))
  refine ⟨?_, ?_, ?_, ?_⟩
  · intro g hg
    rw [pushFrame_frames]
    change _ = (l.start f m.tstate.callOrdinalPtr).started g
    rw [start_started]
    by_cases hgf : g = f
    · rw [if_pos hgf, if_pos hgf]
      rfl
    · rw [if_neg hgf, if_neg hgf]
      exact h.started g (hother g hg hgf)
  · intro g hg
    rw [pushFrame_frames, reset_completed]
    by_cases hgf : g = f
    · rw [if_pos hgf, if_pos (by rw [hgf])]
      rfl
    · rw [if_neg hgf, if_neg (fun heq => hgf (OrdinalPtr.frame.inj heq))]
      exact h.frame g (hother g hg hgf)
  · intro k hk
    rw [reset_completed, if_neg (by simp)]
    exact h.scope k hk
  · intro n hn
    rw [pushFrame_length] at hn
    rw [pushFrame_space m f frame hn]
    split
    · exact h.root n hn
    · exact h.root n hn

/-- A completed activation counts once on the slot it was started on, wherever that slot is. -/
theorem Counted.popFrame (h : Counted m l) (hseg : Segment [] base m) {f node : Nat}
    {ptr : OrdinalPtr} {rest : List StackItem} (htop : m.tstate.stack = .frame f :: rest)
    (hprevious : (m.frames f).previousCallOrdinalPtr = some ptr) (hne : ptr ≠ .frame f) :
    Counted (m.popFrame f node ptr rest) (l.complete f) := by
  have hnodup := hseg.nodup
  rw [htop, List.nodup_cons] at hnodup
  have hslot : l.started f = some ptr := by
    rw [← h.started f (htop ▸ List.mem_cons_self), hprevious]
  have hlower : ∀ g, .frame g ∈ rest → g ≠ f ∧ .frame g ∈ m.tstate.stack := by
    intro g hg
    refine ⟨fun heq => hnodup.1 (heq ▸ hg), ?_⟩
    rw [htop]
    exact List.mem_cons_of_mem _ hg
  refine ⟨?_, ?_, ?_, ?_⟩
  · intro g hg
    rw [popFrame_stack] at hg
    obtain ⟨hgf, hmem⟩ := hlower g hg
    rw [popFrame_frames m f node ptr rest hne, if_neg hgf, complete_started hslot,
      ← h.started g hmem]
    split <;> rfl
  · intro g hg
    rw [popFrame_stack] at hg
    obtain ⟨hgf, hmem⟩ := hlower g hg
    rw [popFrame_frames m f node ptr rest hne, if_neg hgf, complete_completed hslot]
    have hcount := h.frame g hmem
    split
    · dsimp only
      rw [hcount]
      omega
    · exact hcount
  · intro k hk
    rw [popFrame_stack] at hk
    have hmem : k ∈ scopeIds m.tstate.stack := by
      rw [htop, scopeIds_cons_frame]
      exact hk
    rw [popFrame_scopes, complete_completed hslot]
    have hcount := h.scope k hmem
    split
    · dsimp only
      rw [hcount]
      omega
    · exact hcount
  · intro n hn
    rw [popFrame_length] at hn
    rw [popFrame_space m f node ptr rest hn]
    dsimp only
    split
    · exact Nat.mod_lt _ (by decide)
    · exact h.root n hn

theorem Counted.enterSpace (h : Counted m l) {k spaceId node : Nat} {t : ThreadState}
    {scope : SpaceScope} {ptr : OrdinalPtr} (henters : EntersSpace m k spaceId m' node t scope ptr)
    {item : StackItem} (hitem : item = .scope k ∨ item = .callback k) :
    Counted (m'.push item) (l.reset (.scope k)) := by
  have hsame := henters.grown.same
  have hresult := henters.result
  have hslot := henters.slot
  have hstack : (m'.push item).tstate.stack = item :: m.tstate.stack := by
    rw [hresult, hsame]
    rfl
  have hids : scopeIds (m'.push item).tstate.stack = k :: scopeIds m.tstate.stack := by
    rw [hstack]
    obtain rfl | rfl := hitem <;> rfl
  have hframes : (m'.push item).frames = m.frames := by
    rw [hresult]
    rfl
  have hscopes : ∀ j, (m'.push item).scopes j = if j = k then scope else m.scopes j := by
    intro j
    rw [hresult]
    change Function.update m.scopes k scope j = _
    by_cases hj : j = k <;> simp [hj]
  have hlower : ∀ f, .frame f ∈ (m'.push item).tstate.stack → .frame f ∈ m.tstate.stack := by
    intro f hf
    rw [hstack, List.mem_cons] at hf
    obtain rfl | rfl := hitem
    · exact hf.resolve_left (by simp)
    · exact hf.resolve_left (by simp)
  have hroot : ∀ n < t.spaces.length, (t.space n).rootCallOrdinal < 2 ^ 64 := by
    intro n hn
    by_cases hlt : n < m.tstate.spaces.length
    · rw [henters.grown.space n hlt]
      exact h.root n hlt
    · obtain ⟨hash, hfresh⟩ := henters.grown.fresh n (by omega) hn
      rw [hfresh]
      exact Nat.two_pow_pos 64
  have hnode := (henters.grown.circle.find_some henters.found).1
  have hlocal : scope.localRootCallOrdinal < 2 ^ 64 := by
    split at hslot
    · rw [hslot.2.2]
      exact hroot node hnode
    · rw [hslot.2.2]
      exact Nat.two_pow_pos 64
  refine ⟨?_, ?_, ?_, ?_⟩
  · intro f hf
    rw [hframes]
    exact h.started f (hlower f hf)
  · intro f hf
    rw [hframes, reset_completed, if_neg (by simp)]
    exact h.frame f (hlower f hf)
  · intro j hj
    rw [hids, List.mem_cons] at hj
    rw [hscopes, reset_completed]
    by_cases hjk : j = k
    · rw [if_pos hjk, if_pos (by rw [hjk]), Nat.add_zero, ← henters.counted,
        Nat.mod_eq_of_lt hlocal]
    · rw [if_neg hjk, if_neg (fun heq => hjk (OrdinalPtr.scope.inj heq))]
      exact h.scope j (hj.resolve_left hjk)
  · intro n hn
    rw [hresult] at hn ⊢
    exact hroot n hn

theorem Counted.leaveSpace (h : Counted m l) (hseg : Segment [] base m) {k : Nat}
    {item : StackItem} {rest : List StackItem} (htop : m.tstate.stack = item :: rest)
    (hitem : item = .scope k ∨ item = .callback k) :
    Counted ((leaveSpace m k).setStack rest) l := by
  have hids : scopeIds m.tstate.stack = k :: scopeIds rest := by
    rw [htop]
    obtain rfl | rfl := hitem <;> rfl
  have hscopes := hseg.scopes
  rw [hids, List.nodup_cons] at hscopes
  have hlower : ∀ f, .frame f ∈ rest → .frame f ∈ m.tstate.stack := by
    intro f hf
    rw [htop]
    exact List.mem_cons_of_mem _ hf
  refine ⟨?_, ?_, ?_, ?_⟩
  · intro f hf
    change ((Retrace.leaveSpace m k).frames f).previousCallOrdinalPtr = _
    rw [leaveSpace_frames]
    exact h.started f (hlower f hf)
  · intro f hf
    change ((Retrace.leaveSpace m k).frames f).currentCallOrdinal = _
    rw [leaveSpace_frames]
    exact h.frame f (hlower f hf)
  · intro j hj
    change ((Retrace.leaveSpace m k).scopes j).localRootCallOrdinal =
      (((Retrace.leaveSpace m k).scopes j).initialRootCallOrdinal + _) % _
    have hjk : j ≠ k := fun heq => hscopes.1 (heq ▸ hj)
    rw [leaveSpace_scopes_of_ne m hjk]
    exact h.scope j (hids ▸ List.mem_cons_of_mem _ hj)
  · intro n hn
    change n < (Retrace.leaveSpace m k).tstate.spaces.length at hn
    rw [leaveSpace_length] at hn
    change ((Retrace.leaveSpace m k).tstate.space n).rootCallOrdinal < _
    rw [leaveSpace_space m k hn]
    dsimp only
    split
    · unfold SpaceScope.leftOrdinal
      split
      · exact Nat.mod_lt _ (by decide)
      · rw [h.scope k (hids ▸ List.mem_cons_self)]
        exact Nat.mod_lt _ (by decide)
    · exact h.root n hn

theorem Counted.begin (h : Counted m l) {f offset : Nat} {rest : List StackItem}
    (jumps : List (Int × Int)) (htop : m.tstate.stack = .frame f :: rest) :
    Counted (m.setFrame f (Machine.begunFrame (moveFrame (m.frames f) jumps offset)))
      (if frameIsVisible (moveFrame (m.frames f) jumps offset) then l.reset (.frame f) else l) := by
  obtain ⟨bias, hmove⟩ := moveFrame_eq (m.frames f) jumps offset
  have hmem : .frame f ∈ m.tstate.stack := htop ▸ List.mem_cons_self
  generalize hvisible : frameIsVisible (moveFrame (m.frames f) jumps offset) = visible
  unfold Machine.begunFrame
  rw [hvisible, hmove]
  cases visible with
  | true =>
    simp only [if_true]
    refine ⟨?_, ?_, ?_, h.root⟩
    · intro g hg
      rw [setFrame_frames]
      by_cases hgf : g = f
      · rw [if_pos hgf, hgf]
        exact h.started f hmem
      · rw [if_neg hgf]
        exact h.started g hg
    · intro g hg
      rw [setFrame_frames, reset_completed]
      by_cases hgf : g = f
      · simp only [hgf, if_true, Nat.zero_mod]
      · rw [if_neg hgf, if_neg (fun heq => hgf (OrdinalPtr.frame.inj heq))]
        exact h.frame g hg
    · intro k hk
      rw [reset_completed, if_neg (by simp)]
      exact h.scope k hk
  | false =>
    simp only [Bool.false_eq_true, if_false]
    refine ⟨?_, ?_, h.scope, h.root⟩
    · intro g hg
      rw [setFrame_frames]
      by_cases hgf : g = f
      · rw [if_pos hgf, hgf]
        exact h.started f hmem
      · rw [if_neg hgf]
        exact h.started g hg
    · intro g hg
      rw [setFrame_frames]
      by_cases hgf : g = f
      · rw [if_pos hgf, hgf]
        exact h.frame f hmem
      · rw [if_neg hgf]
        exact h.frame g hg

theorem Counted.resetScope (h : Counted m l) {k : Nat} (hk : k ∉ scopeIds m.tstate.stack) :
    Counted m (l.reset (.scope k)) := by
  refine ⟨h.started, ?_, ?_, h.root⟩
  · intro f hf
    rw [reset_completed, if_neg (by simp)]
    exact h.frame f hf
  · intro j hj
    have hjk : j ≠ k := fun heq => hk (heq ▸ hj)
    rw [reset_completed, if_neg (fun heq => hjk (OrdinalPtr.scope.inj heq))]
    exact h.scope j hj

theorem Counted.step (h : Counted m l) (hseg : Segment [] base m) {event : ThreadEvent}
    (heffect : Effect m event m') : Counted m' (l.record m event) := by
  cases heffect with
  | call off limit => exact h.pushFrame _ _
  | resume off limit => exact h.pushFrame _ _
  | newGenerator off =>
    rename_i g lasti
    have hne : ∀ f, .frame f ∈ m.tstate.stack → f ≠ g := by
      intro f hf heq
      exact off (heq ▸ hf)
    refine ⟨?_, ?_, h.scope, h.root⟩
    · intro f hf
      rw [setFrame_frames, if_neg (hne f hf)]
      exact h.started f hf
    · intro f hf
      rw [setFrame_frames, if_neg (hne f hf)]
      exact h.frame f hf
  | begin top =>
    simp only [Ledger.record, top]
    exact h.begin _ top
  | leave top current space node_eq previous ne =>
    simp only [Ledger.record, top]
    exact h.popFrame hseg top previous ne
  | leaveInactive => exact h
  | enterFails unused => exact h.resetScope unused
  | enterSpace unused enters => exact h.enterSpace enters (Or.inl rfl)
  | leaveSpace top => exact h.leaveSpace hseg top (Or.inl rfl)
  | callbackFails unused idle =>
    have hreset := h.resetScope unused
    exact ⟨hreset.started, hreset.frame, hreset.scope, hreset.root⟩
  | callbackBegin top unused idle enters =>
    exact Counted.enterSpace (m := m.setCallback true (some _))
      ⟨h.started, h.frame, h.scope, h.root⟩ enters (Or.inr rfl)
  | callbackEnd top =>
    have hleft := h.leaveSpace hseg top (Or.inr rfl)
    exact ⟨hleft.started, hleft.frame, hleft.scope, hleft.root⟩
  | threadDelta =>
    rename_i spaceId allocates tupleAllocates
    obtain heq | ⟨node, -, heq⟩ := threadDelta_cases m spaceId allocates tupleAllocates
    · rw [heq]
      exact h
    · rw [heq]
      refine ⟨?_, ?_, h.scope, ?_⟩
      · intro f hf
        rw [(rememberDelta_saved m node f).2.1]
        exact h.started f hf
      · intro f hf
        rw [(rememberDelta_saved m node f).2.2]
        exact h.frame f hf
      · intro n hn
        rw [rememberDelta_length] at hn
        rw [rememberDelta_space m node hn]
        split
        · exact h.root n hn
        · exact h.root n hn

end counts

/-- What every state of a run has, with the record of the run so far. -/
structure Standing (m : Machine) (l : Ledger) : Prop where
  segment : ∃ base : Context, base.ptr = some (.root base.space) ∧ Segment [] base m
  depth : DepthExact m
  counted : Counted m l

/-- The run leaves what is on the stack at its start alone, and ends with just that. -/
structure Balanced (p : Platform) (m : Machine) (segment : List ThreadEvent) (m' : Machine) :
    Prop where
  run : threadRun p segment m = some m'
  stays : ∀ events mid, events <+: segment → threadRun p events m = some mid →
    m.tstate.stack <:+ mid.tstate.stack
  ends : m'.tstate.stack = m.tstate.stack

/-- The slot of the next call: a space's root, an active frame or a running scope. -/
def LiveSlot (m : Machine) : Prop :=
  match m.tstate.callOrdinalPtr with
  | none => False
  | some (.root n) => n < m.tstate.spaces.length
  | some (.frame f) => (m.frames f).space ≠ none
  | some (.scope k) => k ∈ scopeIds m.tstate.stack

section runs
variable {p : Platform} {m m' : Machine} {l : Ledger}

theorem Idle.standing (h : Idle m) : Standing m Ledger.empty := by
  have hactive : ∀ f, .frame f ∉ m.tstate.stack := by
    intro f
    rw [h.stack]
    exact List.not_mem_nil
  refine ⟨⟨m.context, h.ptr, h.circle, ?_, ?_, ?_, [], ?_, ?_, rfl⟩, ?_, ?_, ?_, ?_, h.ordinal⟩
  · rw [h.stack]
    exact List.nodup_nil
  · rw [h.stack]
    exact List.nodup_nil
  · intro f
    simp [h.inactive f, hactive f]
  · rw [h.stack, List.append_nil]
  · exact ⟨by simp [Machine.context, h.ptr], h.current, h.id⟩
  · intro n hn
    rw [h.depth n hn]
    unfold Machine.chain
    rw [h.stack]
    rfl
  · exact fun f hf => absurd hf (hactive f)
  · exact fun f hf => absurd hf (hactive f)
  · intro k hk
    rw [h.stack] at hk
    cases hk

theorem freshMachine_idle (p : Platform) (address : Nat) : Idle (freshMachine p address) := by
  have hzero : ∀ n, n < (freshMachine p address).tstate.spaces.length → n = 0 := by
    intro n hn
    change n < 1 at hn
    omega
  refine ⟨⟨Nat.one_pos, rfl, ?_, ?_⟩, rfl, rfl, Nat.one_pos, rfl, fun _ => rfl, ?_, ?_, rfl⟩
  · intro n hn
    rw [hzero n hn]
    rfl
  · intro a ha b hb _
    rw [hzero a ha, hzero b hb]
  · intro n hn
    rw [hzero n hn]
    rfl
  · intro n hn
    rw [hzero n hn]
    exact Nat.two_pow_pos 64

theorem Idle.setCurrentSpaceById (h : Idle m) {spaceId : Nat} {allocates : Bool} {t : ThreadState}
    (hset : setCurrentSpaceById p m.tstate spaceId allocates = (0, t)) :
    Idle (m.setTstate t) := by
  unfold Retrace.setCurrentSpaceById at hset
  split at hset
  · cases hset
  · rename_i node t' hget
    obtain ⟨hgrown, hfound⟩ := getThreadSpace_grown h.circle hget
    have hnode := hgrown.circle.find_some hfound
    have hsame := hgrown.same
    have hfields : ∀ n < t'.spaces.length,
        (t'.space n).depth = 0 ∧ (t'.space n).rootCallOrdinal < 2 ^ 64 := by
      intro n hn
      by_cases hlt : n < m.tstate.spaces.length
      · rw [hgrown.space n hlt]
        exact ⟨h.depth n hlt, h.ordinal n hlt⟩
      · obtain ⟨hash, hfresh⟩ := hgrown.fresh n (by omega) hn
        rw [hfresh]
        exact ⟨rfl, Nat.two_pow_pos 64⟩
    rw [if_pos (hfields node hnode.1).1] at hset
    cases hset
    refine ⟨hgrown.circle.congr rfl rfl (fun _ _ => ⟨rfl, rfl⟩), ?_, rfl, hnode.1, hnode.2,
      h.inactive, fun n hn => (hfields n hn).1, fun n hn => (hfields n hn).2, ?_⟩
    · change t'.stack = []
      rw [hsame]
      exact h.stack
    · change t'.threadCallbackActive = false
      rw [hsame]
      exact h.callback

theorem Standing.step (h : Standing m l) {event : ThreadEvent}
    (hstep : threadStep p m event = some m') :
    Standing m' (l.record m event) ∧ Effect m event m' := by
  obtain ⟨base, hroot, hseg⟩ := h.segment
  have heffect := hseg.effect ⟨_, hroot⟩ hstep
  exact ⟨⟨⟨base, hroot, hseg.step heffect (List.nil_suffix)⟩, h.depth.step hseg heffect,
    h.counted.step hseg heffect⟩, heffect⟩

theorem threadRun_append {first second : List ThreadEvent}
    (hrun : threadRun p (first ++ second) m = some m') :
    ∃ mid, threadRun p first m = some mid ∧ threadRun p second mid = some m' := by
  induction first generalizing m with
  | nil => exact ⟨m, rfl, hrun⟩
  | cons event first ih =>
    rw [List.cons_append, threadRun_cons, Option.bind_eq_some_iff] at hrun
    obtain ⟨next, hstep, hrun⟩ := hrun
    obtain ⟨mid, hfirst, hsecond⟩ := ih hrun
    refine ⟨mid, ?_, hsecond⟩
    rw [threadRun_cons, hstep]
    exact hfirst

theorem threadRun_join {mid : Machine} {first : List ThreadEvent} (second : List ThreadEvent)
    (hfirst : threadRun p first m = some mid) :
    threadRun p (first ++ second) m = threadRun p second mid := by
  induction first generalizing m with
  | nil =>
    cases hfirst
    rfl
  | cons event first ih =>
    rw [threadRun_cons, Option.bind_eq_some_iff] at hfirst
    obtain ⟨next, hstep, hfirst⟩ := hfirst
    rw [List.cons_append, threadRun_cons, hstep]
    exact ih hfirst

theorem Standing.run {events : List ThreadEvent} (h : Standing m l)
    (hrun : threadRun p events m = some m') : Standing m' (ledgerOf p events m l) := by
  induction events generalizing m l with
  | nil =>
    cases hrun
    exact h
  | cons event events ih =>
    rw [threadRun_cons, Option.bind_eq_some_iff] at hrun
    obtain ⟨mid, hstep, hrun⟩ := hrun
    simp only [ledgerOf, hstep]
    exact ih (h.step hstep).1 hrun

theorem Segment.run {below : List StackItem} {base : Context} {events : List ThreadEvent}
    (hstanding : Standing m l) (h : Segment below base m)
    (hrun : threadRun p events m = some m')
    (hstays : ∀ start mid, start <+: events → threadRun p start m = some mid →
      below <:+ mid.tstate.stack) : Segment below base m' := by
  induction events generalizing m l with
  | nil =>
    cases hrun
    exact h
  | cons event events ih =>
    rw [threadRun_cons, Option.bind_eq_some_iff] at hrun
    obtain ⟨mid, hstep, hrun⟩ := hrun
    obtain ⟨hnext, heffect⟩ := hstanding.step hstep
    have hone : threadRun p [event] m = some mid := by
      rw [threadRun_cons, hstep]
      rfl
    have hbelow := hstays [event] mid (by simp) hone
    refine ih hnext (h.step heffect hbelow) hrun ?_
    intro start last hstart hlast
    refine hstays (event :: start) last (List.cons_prefix_cons.mpr ⟨rfl, hstart⟩) ?_
    rw [threadRun_cons, hstep]
    exact hlast

theorem Standing.balanced {segment : List ThreadEvent} (h : Standing m l)
    (hbalanced : Balanced p m segment m') : m'.context = m.context := by
  obtain ⟨base, -, hseg⟩ := h.segment
  have hstart : Segment m.tstate.stack m.context m :=
    ⟨hseg.circle, hseg.nodup, hseg.scopes, hseg.active, [], rfl, hseg.contextOk, rfl⟩
  obtain ⟨items, hitems, hd⟩ := (hstart.run h hbalanced.run hbalanced.stays).items
  rw [hbalanced.ends, List.self_eq_append_left] at hitems
  rw [hitems] at hd
  exact hd.2

theorem Standing.liveSlot (h : Standing m l) : LiveSlot m := by
  obtain ⟨base, hroot, hseg⟩ := h.segment
  obtain ⟨items, hitems, hd⟩ := hseg.items
  rw [List.append_nil] at hitems
  unfold LiveSlot
  obtain hptr | ⟨f, hptr, hmem⟩ | ⟨k, hptr, hmem⟩ := hd.ptr_live
  · change m.tstate.callOrdinalPtr = base.ptr at hptr
    rw [hptr, hroot]
    exact hd.baseOk.space
  · change m.tstate.callOrdinalPtr = _ at hptr
    rw [hptr]
    exact (hseg.active f).mpr (hitems ▸ hmem)
  · change m.tstate.callOrdinalPtr = _ at hptr
    rw [hptr]
    exact hitems ▸ hmem

/-- In every run of a thread: a balanced stretch restores the slot, the current space and the
inherited space id; the slot is live; depths count active frames; and ordinals count completed
activations. -/
theorem ordinalSlots_countExactly {m₀ : Machine} {history : List ThreadEvent} (hidle : Idle m₀)
    (hrun : threadRun p history m₀ = some m) :
    (∀ segment m', Balanced p m segment m' →
      m'.tstate.callOrdinalPtr = m.tstate.callOrdinalPtr ∧
      m'.tstate.currentSpace = m.tstate.currentSpace ∧
      m'.tstate.inheritedSpaceId = m.tstate.inheritedSpaceId) ∧
    LiveSlot m ∧
    (∀ n < m.tstate.spaces.length, (m.tstate.space n).depth = activeFrames m n m.chain) ∧
    (∀ f, (m.frames f).space ≠ none → (m.frames f).currentCallOrdinal =
      (ledgerOf p history m₀ .empty).completed (.frame f) % 2 ^ 64) ∧
    (∀ k ∈ scopeIds m.tstate.stack, (m.scopes k).localRootCallOrdinal =
      ((m.scopes k).initialRootCallOrdinal +
        (ledgerOf p history m₀ .empty).completed (.scope k)) % 2 ^ 64) := by
  have hstanding := hidle.standing.run hrun
  obtain ⟨base, -, hseg⟩ := hstanding.segment
  refine ⟨?_, hstanding.liveSlot, hstanding.depth, ?_, hstanding.counted.scope⟩
  · intro segment m' hbalanced
    have hcontext := hstanding.balanced hbalanced
    simp only [Machine.context, Context.mk.injEq] at hcontext
    exact hcontext
  · intro f hf
    exact hstanding.counted.frame f ((hseg.active f).mp hf)

/-- A caller with one completed call, in a scope with one completed call. -/
def nestedCalls : List ThreadEvent := [
  .call 0 0 true true, .begin [] 0, .call 1 0 false true, .begin [] 0, .leave 1,
  .enterSpace 0 7 true, .call 1 0 true true, .leave 0]

theorem ordinalSlots_countExactly_nested :
    ∃ m, threadRun ⟨true, true⟩ nestedCalls (freshMachine ⟨true, true⟩ 0) = some m ∧
      (m.frames 0).currentCallOrdinal = 1 ∧ (m.scopes 0).localRootCallOrdinal = 1 ∧
      (m.tstate.space 0).depth = 1 := by
  obtain ⟨m, hrun⟩ : ∃ m, threadRun ⟨true, true⟩ nestedCalls (freshMachine ⟨true, true⟩ 0) =
    some m := ⟨_, rfl⟩
  obtain ⟨-, -, hdepth, hframe, hscope⟩ :=
    ordinalSlots_countExactly (freshMachine_idle ⟨true, true⟩ 0) hrun
  cases hrun
  refine ⟨_, rfl, ?_, ?_, ?_⟩
  · rw [hframe 0 (by decide)]
    rfl
  · rw [hscope 0 (by decide)]
    rfl
  · rw [hdepth 0 (by decide)]
    rfl

end runs

end Retrace
