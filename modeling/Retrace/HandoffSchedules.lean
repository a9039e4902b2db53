import Retrace.HandoffGates

/-! Who runs when, while one thread has the baton: the calls and returns of all threads in order. -/

set_option autoImplicit false

namespace Retrace

/-- What the programs of the threads take part in. -/
def HandoffLog.isTurn : HandoffLog → Bool
  | .called _ _ => true
  | .returned _ _ => true
  | _ => false

/-- The thread that runs, and how many calls each thread has made. -/
structure Turn where
  thread : Nat
  made : Nat → Nat

/-- `script t k` is the target of the call that thread `t` makes after `k` others. -/
def Turn.target (script : Nat → Nat → Nat) (turn : Turn) : Nat :=
  script turn.thread (turn.made turn.thread)

def Turn.next (script : Nat → Nat → Nat) (turn : Turn) : Turn where
  thread := turn.target script
  made := Function.update turn.made turn.thread (turn.made turn.thread + 1)

/-- Each call ends the turn of its thread, and its target returns. -/
def turns (script : Nat → Nat → Nat) : Nat → Turn → List HandoffLog
  | 0, _ => []
  | n + 1, turn =>
    .called turn.thread (turn.target script) :: .returned (turn.target script) false ::
      turns script n (turn.next script)

def HandoffEvent.isCallOf (t : Nat) : HandoffEvent → Bool
  | .call u _ => u = t
  | _ => false

def callsOf (events : List HandoffEvent) (t : Nat) : Nat :=
  events.countP (fun event => event.isCallOf t)

/-- Each thread calls the targets of its script, in its own order. -/
def Scripted (script : Nat → Nat → Nat) (events : List HandoffEvent) : Prop :=
  ∀ before t target after, events = before ++ .call t target :: after →
    target = script t (callsOf before t)

def HandoffEvent.allocates : HandoffEvent → Bool
  | .advance _ allocTarget allocCurrent => allocTarget && allocCurrent
  | _ => true

def Pc.calls : Pc → Option Nat
  | .lockTo target => some target
  | .inTo target => some target
  | .clearStale target => some target
  | .wake target => some target
  | _ => none

/-- The thread goes on to the normal return of its call. -/
def HandoffState.Resumes (s : HandoffState) (t : Nat) : Prop :=
  s.pc t = .leave .returned ∨ ((s.pc t = .startWait ∨ (s.pc t).waits = true) ∧ s.permit t = true)

/-- The thread that has the baton, by what it does: its program, its call, or the return of the
target. -/
inductive AtTurn (participants : Finset Nat) (script : Nat → Nat → Nat) (s : HandoffState)
    (made : Nat → Nat) (log past : List HandoffLog) (turn : Turn) : Prop
  | runs (member : turn.thread ∈ participants) (at_ : s.pc turn.thread = .running)
      (counted : made = turn.made) (seen : log = past)
  | calls (member : turn.thread ∈ participants)
      (at_ : (s.pc turn.thread).calls = some (turn.target script))
      (counted : made = (turn.next script).made)
      (seen : log = past ++ [.called turn.thread (turn.target script)])
  | given (member : turn.target script ∈ participants) (at_ : s.Resumes (turn.target script))
      (counted : made = (turn.next script).made)
      (seen : log = past ++ [.called turn.thread (turn.target script)])

section turns
variable {script : Nat → Nat → Nat} {turn : Turn}

theorem turns_succ (n : Nat) (turn : Turn) : turns script (n + 1) turn = turns script n turn ++
    [.called ((Turn.next script)^[n] turn).thread (((Turn.next script)^[n] turn).target script),
      .returned (((Turn.next script)^[n] turn).target script) false] := by
  induction n generalizing turn with
  | zero => rfl
  | succ n ih =>
    rw [turns, ih (turn.next script)]
    rfl

theorem turns_initial {n m : Nat} (h : n ≤ m) (turn : Turn) :
    turns script n turn <+: turns script m turn := by
  induction m, h using Nat.le_induction with
  | base => exact List.prefix_refl _
  | succ m hm ih =>
    rw [turns_succ]
    exact ih.trans (List.prefix_append _ _)

theorem turns_length (n : Nat) (turn : Turn) : (turns script n turn).length = 2 * n := by
  induction n generalizing turn with
  | zero => rfl
  | succ n ih =>
    rw [turns, List.length_cons, List.length_cons, ih]
    omega

end turns

section schedule
variable {participants : Finset Nat} {script : Nat → Nat → Nat} {s s' : HandoffState} {t u : Nat}

theorem HandoffMove.permit_kept (h : HandoffMove s t s') (hu : u ≠ t)
    (hpermit : s.permit u = true) : s'.permit u = true := by
  cases h with
  | takeLock free next => exact hpermit
  | refused at_ grown why => exact (grown.permit u).trans hpermit
  | entered at_ opened other grown own found => exact (grown.permit u).trans hpermit
  | transfer at_ =>
    rename_i target
    by_cases htarget : u = target
    · rw [goto_permit, permit_update]
      obtain ⟨entry, hfind⟩ : ∃ entry, s.handoff.findEntry u = some entry := by
        unfold HandoffState.permit at hpermit
        cases hfind : s.handoff.findEntry u with
        | none =>
          rw [hfind] at hpermit
          cases hpermit
        | some entry => exact ⟨entry, rfl⟩
      rw [hfind]
      dsimp only
      rw [if_pos htarget]
      unfold wakeEntryLocked
      split <;> rfl
    · exact (permit_update_of_ne s _ htarget).trans hpermit
  | wait at_ found opened unpermitted => exact hpermit
  | again at_ => exact hpermit
  | left at_ => exact hpermit
  | close at_ => exact (permit_closeLocked s u).trans hpermit
  | closed at_ => exact hpermit
  | _ => exact (permit_update_of_ne s _ hu).trans hpermit

theorem waits_of_not_baton (h : s.Baton t ≠ true) :
    (s.pc t = .startWait ∨ (s.pc t).waits = true) ∧ s.permit t = false := by
  unfold HandoffState.Baton at h
  cases hpc : s.pc t <;> simp_all [Pc.waits]

theorem BatonInv.eq_holder (h : BatonInv participants s) {holder : Nat}
    (hholder : holder ∈ participants) (hbaton : s.Baton holder = true) (ht : t ∈ participants)
    (ht' : s.Baton t = true) : t = holder :=
  h.one.unique ⟨ht, ht'⟩ ⟨hholder, hbaton⟩

theorem baton_of_calls {target : Nat} (h : (s.pc t).calls = some target) : s.Baton t = true := by
  unfold HandoffState.Baton
  cases hpc : s.pc t <;> simp_all [Pc.calls]

theorem HandoffState.Resumes.baton (h : s.Resumes t) : s.Baton t = true := by
  unfold HandoffState.Baton
  obtain hpc | ⟨hpc | hpc, hpermit⟩ := h
  · rw [hpc]
  · rw [hpc]
    exact hpermit
  · cases hcase : s.pc t <;> rw [hcase] at hpc <;> exact hpermit

theorem HandoffState.Resumes.other (h : s.Resumes u) (hmove : HandoffMove s t s') (hu : u ≠ t) :
    s'.Resumes u := by
  unfold HandoffState.Resumes
  rw [hmove.pc_of_ne hu]
  exact h.imp_right (fun hwait => ⟨hwait.1, hmove.permit_kept hu hwait.2⟩)

variable {made : Nat → Nat} {log past : List HandoffLog} {turn : Turn}

theorem AtTurn.other (h : AtTurn participants script s made log past turn)
    (hmove : HandoffMove s t s') (hnot : s.Baton t ≠ true) :
    AtTurn participants script s' made log past turn := by
  have hne : ∀ holder, s.Baton holder = true → holder ≠ t := fun holder hb heq => hnot (heq ▸ hb)
  cases h with
  | runs member at_ counted seen =>
    refine .runs member ?_ counted seen
    rw [hmove.pc_of_ne (hne _ (by simp [HandoffState.Baton, at_]))]
    exact at_
  | calls member at_ counted seen =>
    refine .calls member ?_ counted seen
    rw [hmove.pc_of_ne (hne _ (baton_of_calls at_))]
    exact at_
  | given member at_ counted seen =>
    exact .given member (at_.other hmove (hne _ at_.baton)) counted seen

theorem isTurn_waits (h : s.pc t = .startWait ∨ (s.pc t).waits = true) :
    (pcShows s t (s.pc t)).filter HandoffLog.isTurn = [] := by
  obtain hpc | hpc := h
  · rw [hpc, pcShows]
    split <;> rfl
  · cases hcase : s.pc t <;> rw [hcase] at hpc <;> first | rfl | cases hpc
    rw [pcShows]
    split <;> rfl

theorem resumes_of_not_baton (h : s.Baton t ≠ true) (hpc : s'.pc t = s.pc t)
    (hpermit : s'.permit t = true) : s'.Resumes t := by
  unfold HandoffState.Resumes
  rw [hpc]
  exact Or.inr ⟨(waits_of_not_baton h).1, hpermit⟩

theorem getEntry_allocates (self : ThreadHandoff) (t : Nat) : ∃ self', self.getEntry t true =
    some self' := by
  unfold ThreadHandoff.getEntry
  cases self.findEntry t with
  | some entry => exact ⟨_, rfl⟩
  | none => exact ⟨_, rfl⟩

theorem enterTo_allocates (hopen : s.handoff.closed = false) (target : Nat) :
    (enterTo s t target true true).pc t =
      if target = t then .leave .returned else .clearStale target := by
  unfold enterTo
  rw [hopen, if_neg Bool.false_ne_true]
  split
  · exact goto_pc _ _ _
  · obtain ⟨self', hget⟩ := getEntry_allocates s.handoff target
    obtain ⟨self'', hget'⟩ := getEntry_allocates self' t
    simp only [hget, hget']
    exact goto_pc _ _ _

theorem BatonInv.ownCall (h : BatonInv participants s) (ht : t ∈ participants) {target : Nat}
    (hcalls : (s.pc t).calls = some target) (hadvance : Retrace.advance s t true true = some s') :
    (pcShows s t (s.pc t)).filter HandoffLog.isTurn = [] ∧ target ∈ participants ∧
      ((s'.pc t).calls = some target ∨ s'.Resumes target) := by
  have hinv := h.pcs t ht
  unfold Retrace.advance at hadvance
  cases hpc : s.pc t <;> rw [hpc] at hcalls <;> cases hcalls <;>
    simp only [PcInv, hpc] at hinv hadvance
  case lockTo =>
    split at hadvance
    · cases hadvance
      exact ⟨rfl, hinv, Or.inl (by rw [goto_pc]; rfl)⟩
    · cases hadvance
  case inTo =>
    cases hadvance
    have henter := @enterTo_allocates s t h.notClosed target
    refine ⟨rfl, hinv, ?_⟩
    by_cases hself : target = t
    · rw [if_pos hself] at henter
      exact Or.inr (Or.inl (hself ▸ henter))
    · rw [if_neg hself] at henter
      rw [henter]
      exact Or.inl rfl
  case clearStale =>
    cases hadvance
    exact ⟨rfl, hinv.1, Or.inl (by rw [goto_pc]; rfl)⟩
  case wake =>
    cases hadvance
    obtain ⟨htarget, hne, -, hentry, -⟩ := hinv
    obtain ⟨entry, hfind⟩ := (hasEntry_iff target).mp hentry
    have hnot : s.Baton target ≠ true := fun hb =>
      hne (h.eq_holder ht (baton_of_calls (by rw [hpc]; rfl)) htarget hb)
    refine ⟨rfl, htarget, Or.inr (resumes_of_not_baton hnot (goto_pc_of_ne _ _ hne) ?_)⟩
    rw [goto_permit, permit_update_self _ hfind]
    unfold wakeEntryLocked
    split <;> rfl

theorem BatonInv.ownWait (h : BatonInv participants s) (ht : t ∈ participants)
    (hpc : s.pc t = .startWait ∨ (s.pc t).waits = true) (hpermit : s.permit t = true)
    (hmove : HandoffMove s t s') : s'.Resumes t := by
  have hinv := h.pcs t ht
  have hentry : ∀ {entry}, s.handoff.findEntry t = some entry → entry.permit = true :=
    fun hfind => (permit_of_entry hfind).symm.trans hpermit
  cases hmove with
  | takeLock free next =>
    rename_i pc
    refine Or.inr ⟨Or.inr ?_, hpermit⟩
    rw [goto_pc]
    cases hcase : s.pc t <;> rw [hcase] at next hpc <;> cases next
    · simp [Pc.waits] at hpc
    · rfl
    · simp [Pc.waits] at hpc
  | ready at_ found permitted => exact Or.inl (goto_pc _ _ _)
  | exit at_ found why => exact Or.inl (goto_pc _ _ _)
  | park at_ found unpermitted =>
    rw [hentry found] at unpermitted
    cases unpermitted
  | wait at_ found opened unpermitted =>
    rw [hentry found] at unpermitted
    cases unpermitted
  | pass at_ found free =>
    refine Or.inr ⟨Or.inr (by rw [goto_pc]; rfl), ?_⟩
    have hgiven := hentry found
    rw [goto_permit, permit_update_self _ found]
    exact hgiven
  | again at_ => exact Or.inr ⟨Or.inr (by rw [goto_pc]; rfl), hpermit⟩
  | fail at_ why =>
    simp only [PcInv, at_] at hinv
    exact absurd hinv.1 Bool.false_ne_true
  | refused at_ grown why => simp [at_, Pc.waits] at hpc
  | entered at_ opened other grown own found => simp [at_, Pc.waits] at hpc
  | clear at_ => simp [at_, Pc.waits] at hpc
  | transfer at_ => simp [at_, Pc.waits] at hpc
  | left at_ => simp [at_, Pc.waits] at hpc
  | close at_ => simp [at_, Pc.waits] at hpc
  | closed at_ => simp [at_, Pc.waits] at hpc

theorem BatonInv.ownReturn (h : BatonInv participants s) (ht : t ∈ participants)
    (hresumes : s.Resumes t) (hadvance : Retrace.advance s t true true = some s') :
    ((pcShows s t (s.pc t)).filter HandoffLog.isTurn = [] ∧ s'.Resumes t) ∨
      ((pcShows s t (s.pc t)).filter HandoffLog.isTurn = [.returned t false] ∧
        s'.pc t = .running) := by
  obtain hpc | ⟨hpc, hpermit⟩ := hresumes
  · simp only [Retrace.advance, hpc, Option.some.injEq] at hadvance
    subst hadvance
    refine Or.inr ⟨?_, finish_pc _ _⟩
    rw [hpc, pcShows, h.notClosed]
    rfl
  · exact Or.inl ⟨isTurn_waits hpc, h.ownWait ht hpc hpermit (advance_moves hadvance)⟩

theorem AtTurn.call (h : AtTurn participants script s made log past turn)
    (hinv : BatonInv participants s) (hzero : 0 ∉ participants) {t target : Nat}
    (hmember : t ∈ participants) (htarget : target ∈ participants)
    (hscript : target = script t (made t)) (hpc : s.pc t = .running) :
    AtTurn participants script (callTo s t target)
      (fun u => made u + if (HandoffEvent.call t target).isCallOf u then 1 else 0)
      (log ++ [.called t target]) past turn := by
  have hmine : s.Baton t = true := by simp [HandoffState.Baton, hpc]
  have hsame : ∀ holder ∈ participants, s.Baton holder = true → t = holder :=
    fun holder hmem hb => hinv.eq_holder hmem hb hmember hmine
  cases h with
  | runs member at_ counted seen =>
    have ht := hsame _ member (by simp [HandoffState.Baton, at_])
    subst ht counted seen hscript
    have hvalid : turn.target script ≠ 0 ∧ turn.thread ≠ 0 :=
      ⟨fun heq => hzero (heq ▸ htarget), fun heq => hzero (heq ▸ hmember)⟩
    refine .calls member ?_ ?_ rfl
    · change ((callTo s turn.thread (turn.target script)).pc turn.thread).calls = _
      unfold callTo
      rw [if_neg hvalid.1, if_neg hvalid.2, goto_pc]
      rfl
    · funext u
      by_cases hu : u = turn.thread
      · simp [HandoffEvent.isCallOf, Turn.next, hu]
      · simp [HandoffEvent.isCallOf, Turn.next, Function.update_of_ne hu, Ne.symm hu]
  | calls member at_ counted seen =>
    rw [← hsame _ member (baton_of_calls at_), hpc] at at_
    cases at_
  | given member at_ counted seen =>
    rw [← hsame _ member at_.baton] at at_
    unfold HandoffState.Resumes at at_
    simp [hpc, Pc.waits] at at_

/-- A move of the thread that has the baton. -/
theorem AtTurn.own (h : AtTurn participants script s made log past turn)
    (hinv : BatonInv participants s) (ht : t ∈ participants) (hmine : s.Baton t = true)
    (hadvance : advance s t true true = some s') :
    ∃ past' turn', (past' = past ∧ turn' = turn ∨
        past' = past ++ [.called turn.thread (turn.target script),
          .returned (turn.target script) false] ∧ turn' = turn.next script) ∧
      AtTurn participants script s' made
        (log ++ (pcShows s t (s.pc t)).filter HandoffLog.isTurn) past' turn' := by
  have hsame : ∀ holder ∈ participants, s.Baton holder = true → t = holder :=
    fun holder hmem hb => hinv.eq_holder hmem hb ht hmine
  cases h with
  | runs member at_ counted seen =>
    rw [← hsame _ member (by simp [HandoffState.Baton, at_])] at at_
    simp [advance, at_] at hadvance
  | calls member at_ counted seen =>
    have heq := hsame _ member (baton_of_calls at_)
    rw [← heq] at at_
    obtain ⟨hquiet, htarget, hnext⟩ := hinv.ownCall ht at_ hadvance
    rw [hquiet, List.append_nil]
    refine ⟨past, turn, Or.inl ⟨rfl, rfl⟩, ?_⟩
    obtain hcalls | hresumes := hnext
    · exact .calls member (heq ▸ hcalls) counted seen
    · exact .given htarget hresumes counted seen
  | given member at_ counted seen =>
    have heq := hsame _ member at_.baton
    rw [← heq] at at_
    obtain ⟨hquiet, hresumes⟩ | ⟨hshown, hrunning⟩ := hinv.ownReturn ht at_ hadvance
    · rw [hquiet, List.append_nil]
      exact ⟨past, turn, Or.inl ⟨rfl, rfl⟩, .given member (heq ▸ hresumes) counted seen⟩
    · have hnext : s'.pc (turn.next script).thread = .running := by
        change s'.pc (turn.target script) = .running
        rw [← heq]
        exact hrunning
      refine ⟨_, _, Or.inr ⟨rfl, rfl⟩, .runs member hnext counted ?_⟩
      rw [hshown, seen, heq, List.append_assoc]
      rfl

theorem AtTurn.step (h : AtTurn participants script s made log past turn)
    (hinv : BatonInv participants s) (hzero : 0 ∉ participants) {event : HandoffEvent}
    (hevent : BatonEvent participants event) (hallocates : event.allocates = true)
    (hscript : ∀ t target, event = .call t target → target = script t (made t))
    (hstep : handoffStep s event = some s') :
    ∃ past' turn', (past' = past ∧ turn' = turn ∨
        past' = past ++ [.called turn.thread (turn.target script),
          .returned (turn.target script) false] ∧ turn' = turn.next script) ∧
      AtTurn participants script s' (fun t => made t + if event.isCallOf t then 1 else 0)
        (log ++ (handoffShows s event).filter HandoffLog.isTurn) past' turn' := by
  cases event with
  | callClose t => exact hevent.elim
  | timeout t => exact hevent.elim
  | call t target =>
    simp only [handoffStep] at hstep
    split at hstep
    · rename_i hpc
      cases hstep
      exact ⟨past, turn, Or.inl ⟨rfl, rfl⟩,
        h.call hinv hzero hevent.1 hevent.2 (hscript t target rfl) hpc⟩
    · cases hstep
  | advance t allocTarget allocCurrent =>
    obtain ⟨rfl, rfl⟩ : allocTarget = true ∧ allocCurrent = true := by
      simpa [HandoffEvent.allocates] using hallocates
    have hadvance : advance s t true true = some s' := hstep
    have hmade : (fun u => made u + if (HandoffEvent.advance t true true).isCallOf u then 1 else 0) =
        made := by
      funext u
      simp [HandoffEvent.isCallOf]
    rw [hmade]
    by_cases hmine : s.Baton t = true
    · exact h.own hinv hevent hmine hadvance
    · change ∃ past' turn', _ ∧ AtTurn participants script s' made
        (log ++ (pcShows s t (s.pc t)).filter HandoffLog.isTurn) past' turn'
      rw [isTurn_waits (waits_of_not_baton hmine).1, List.append_nil]
      exact ⟨past, turn, Or.inl ⟨rfl, rfl⟩, h.other (advance_moves hadvance) hmine⟩

theorem callsOf_append (events : List HandoffEvent) (event : HandoffEvent) (t : Nat) :
    callsOf (events ++ [event]) t = callsOf events t + if event.isCallOf t then 1 else 0 := by
  unfold callsOf
  rw [List.countP_append, List.countP_singleton]

theorem handoffShows_short (s : HandoffState) (event : HandoffEvent) :
    (handoffShows s event).length ≤ 1 := by
  cases event with
  | call t target => exact Nat.le_refl _
  | callClose t => exact Nat.zero_le _
  | timeout t => exact Nat.zero_le _
  | advance t allocTarget allocCurrent =>
    change (pcShows s t (s.pc t)).length ≤ 1
    unfold pcShows
    split <;> first | exact Nat.le_refl _ | exact Nat.zero_le _ | (split <;> simp)

theorem Scripted.front {events more : List HandoffEvent} (h : Scripted script (events ++ more)) :
    Scripted script events := by
  rintro before t target after rfl
  exact h before t target (after ++ more) (by simp)

theorem loggedStep_shows {event : HandoffEvent} {out : List HandoffLog}
    (h : loggedStep s event = some (s', out)) : out = handoffShows s event := by
  obtain ⟨next, -, heq⟩ := Option.map_eq_some_iff.mp h
  cases heq
  rfl

/-- The events that the threads take part in by their scripts, with memory for all entries. -/
def Relayed (participants : Finset Nat) (script : Nat → Nat → Nat) (events : List HandoffEvent) :
    Prop :=
  (∀ event ∈ events, BatonEvent participants event ∧ event.allocates = true) ∧
    Scripted script events

def OnSchedule (participants : Finset Nat) (script : Nat → Nat → Nat) (first : Turn)
    (events : List HandoffEvent) (s : HandoffState) (log : List HandoffLog) : Prop :=
  Relayed participants script events → BatonInv participants s ∧
    (log.filter HandoffLog.isTurn).length ≤ events.length ∧
    ∃ n, AtTurn participants script s (callsOf events) (log.filter HandoffLog.isTurn)
      (turns script n first) ((Turn.next script)^[n] first)

theorem onSchedule_run {events : List HandoffEvent} {runner : Nat}
    (hstart : BatonStart participants s) (hzero : 0 ∉ participants)
    (hrunner : runner ∈ participants) (hruns : s.pc runner = .running)
    (hrun : StepRun.run loggedStep events s = some (s', log)) :
    OnSchedule participants script ⟨runner, fun _ => 0⟩ events s' log := by
  refine @StepRun.run_induction _ _ _ loggedStep
    (OnSchedule participants script ⟨runner, fun _ => 0⟩) s ?_ ?_ _ _ _ hrun
  · intro _
    exact ⟨hstart.inv, Nat.le_refl _, 0, .runs hrunner hruns rfl rfl⟩
  · rintro events s log event s' out - ih hstep ⟨hevents, hscript⟩
    obtain ⟨hbaton, hallocates⟩ := hevents event (by simp)
    obtain ⟨hinv, hlength, n, hturn⟩ :=
      ih ⟨fun e he => hevents e (List.mem_append_left _ he), hscript.front⟩
    have hone := loggedStep_some hstep
    obtain rfl := loggedStep_shows hstep
    obtain ⟨past', turn', hcase, hturn'⟩ := hturn.step hinv hzero hbaton hallocates
      (fun t target heq => hscript events t target [] (by rw [heq])) hone
    refine ⟨hinv.step hbaton hone, ?_, ?_⟩
    · rw [List.filter_append, List.length_append, List.length_append]
      have hshort := (List.length_filter_le HandoffLog.isTurn _).trans (handoffShows_short s event)
      exact Nat.add_le_add hlength hshort
    · have hcounts : callsOf (events ++ [event]) = fun t =>
          callsOf events t + if event.isCallOf t then 1 else 0 := by
        funext t
        exact callsOf_append events event t
      rw [List.filter_append, hcounts]
      obtain ⟨rfl, rfl⟩ | ⟨rfl, rfl⟩ := hcase
      · exact ⟨n, hturn'⟩
      · refine ⟨n + 1, ?_⟩
        rw [turns_succ, Function.iterate_succ_apply']
        exact hturn'

/-- From a state in which one thread runs and the others are parked, and with scripts for the calls
of all threads, every interleaving gives the calls and returns in the same order: the target of each
call returns, and makes the next. -/
theorem threadHandoff_schedule (participants : Finset Nat) (script : Nat → Nat → Nat)
    {events : List HandoffEvent} {runner : Nat} {log : List HandoffLog}
    (hstart : BatonStart participants s) (hzero : 0 ∉ participants)
    (hrunner : runner ∈ participants) (hruns : s.pc runner = .running)
    (hevents : Relayed participants script events)
    (hrun : StepRun.run loggedStep events s = some (s', log)) :
    log.filter HandoffLog.isTurn <+: turns script events.length ⟨runner, fun _ => 0⟩ := by
  obtain ⟨-, hlength, n, hturn⟩ := onSchedule_run hstart hzero hrunner hruns hrun hevents
  have hturns : log.filter HandoffLog.isTurn <+:
      turns script (n + 1) ⟨runner, fun _ => 0⟩ := by
    rw [turns_succ]
    cases hturn with
    | runs member at_ counted seen =>
      rw [seen]
      exact List.prefix_append _ _
    | calls member at_ counted seen =>
      rw [seen, List.prefix_append_right_inj]
      exact ⟨[_], rfl⟩
    | given member at_ counted seen =>
      rw [seen, List.prefix_append_right_inj]
      exact ⟨[_], rfl⟩
  refine List.prefix_of_prefix_length_le
    (hturns.trans (turns_initial (Nat.le_add_right (n + 1) events.length) _))
    (turns_initial (Nat.le_add_left events.length (n + 1)) _) ?_
  rw [turns_length]
  omega

end schedule

/-- Threads 1 and 2 hand the turn over and back; thread 2 calls before thread 1 has parked. -/
def overAndBack : List HandoffEvent :=
  .call 1 2 :: List.replicate 5 (.advance 1 true true) ++ [.advance 2 true true] ++
    [.advance 1 true true] ++ List.replicate 4 (.advance 2 true true) ++ .call 2 1 ::
    List.replicate 6 (.advance 2 true true) ++ List.replicate 5 (.advance 1 true true)

theorem overAndBack_relayed : Relayed {1, 2} (fun t _ => 3 - t) overAndBack := by
  constructor
  · intro event hevent
    have hcases : event = .call 1 2 ∨ event = .advance 1 true true ∨
        event = .advance 2 true true ∨ event = .call 2 1 := by
      simpa [overAndBack, or_assoc, or_comm, or_left_comm] using hevent
    obtain rfl | rfl | rfl | rfl := hcases <;> exact ⟨by simp [BatonEvent], rfl⟩
  · intro before t target after heq
    have hmem : .call t target ∈ overAndBack := by
      rw [heq]
      simp
    simp only [overAndBack, List.mem_append, List.mem_cons, List.mem_replicate] at hmem
    grind

theorem threadHandoff_schedule_overAndBack : ∃ s log,
    StepRun.run loggedStep overAndBack pingStart = some (s, log) ∧
      log.filter HandoffLog.isTurn =
        [.called 1 2, .returned 2 false, .called 2 1, .returned 1 false] ∧
      log.filter HandoffLog.isTurn <+: turns (fun t _ => 3 - t) 24 ⟨1, fun _ => 0⟩ := by
  obtain ⟨s, log, hrun, hlog⟩ : ∃ s log,
      StepRun.run loggedStep overAndBack pingStart = some (s, log) ∧
      log.filter HandoffLog.isTurn =
        [.called 1 2, .returned 2 false, .called 2 1, .returned 1 false] := ⟨_, _, rfl, rfl⟩
  have hstart : BatonStart {1, 2} pingStart := by
    refine ⟨rfl, rfl, 1, by decide, rfl, fun t ht hne => ?_⟩
    obtain rfl : t = 2 := by
      simp only [Finset.mem_insert, Finset.mem_singleton] at ht
      omega
    exact ⟨Or.inl rfl, rfl, rfl⟩
  exact ⟨s, log, hrun, hlog, threadHandoff_schedule {1, 2} (fun t _ => 3 - t) hstart (by decide)
    (by decide) rfl overAndBack_relayed hrun⟩

end Retrace
