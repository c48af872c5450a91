import StCache.Pool.Progress

namespace StCache

open Sync

/-- The goroutine that executes `done <- command.Wait()`. -/
inductive Waiter where
  | waiting
  | sending
  | finished
  deriving DecidableEq

/-- Where a call is. It ends through done, or it interrupts the script, sleeps and kills it. -/
inductive CallPhase where
  | starting
  | selecting
  | interrupted (since : Nat)
  | ended
  | killed (since instant : Nat)
  deriving DecidableEq

def CallPhase.timedOut : CallPhase → Bool
  | .killed _ _ => true
  | _ => false

/-- Times are in seconds. The script is started if command.Process is not nil. -/
structure ShellCall where
  timeout : Nat
  phase : CallPhase := .starting
  begun : Nat := 0
  started : Bool := false
  running : Bool := false
  waiter : Waiter := .waiting
  deriving DecidableEq

inductive CallEvent where
  | start (ok : Bool)
  | exit
  | wait
  | done
  | after
  | kill
  deriving DecidableEq

namespace ShellCall

/-- A step at the given time. A timer that runs out before the Wait of a script that was not
started has returned is a nil dereference. -/
def step (now : Nat) (c : ShellCall) : CallEvent → Option ShellCall
  | .start ok =>
    if c.phase=.starting then
      some {c with phase := .selecting,begun := now,started := ok,running := ok}
    else none
  | .exit => if c.running=true then some {c with running := false} else none
  | .wait =>
    if c.phase≠.starting ∧ c.running=false ∧ c.waiter=.waiting then
      some {c with waiter := .sending}
    else none
  | .done =>
    if c.phase=.selecting ∧ c.waiter=.sending then
      some {c with phase := .ended,waiter := .finished}
    else none
  | .after =>
    if c.phase=.selecting ∧ c.begun+c.timeout≤now ∧ c.started=true then
      some {c with phase := .interrupted now}
    else none
  | .kill =>
    match c.phase with
    | .interrupted since =>
      if since+1≤now then some {c with phase := .killed since now,running := false} else none
    | _ => none

/-- Everything a step can do. -/
inductive Steps (now : Nat) (c : ShellCall) : CallEvent → ShellCall → Prop where
  | start (ok : Bool) (phase : c.phase=.starting) :
      Steps now c (.start ok) {c with phase := .selecting,begun := now,started := ok,running := ok}
  | exit : Steps now c .exit {c with running := false}
  | wait (waiting : c.waiter=.waiting) : Steps now c .wait {c with waiter := .sending}
  | done (phase : c.phase=.selecting) :
      Steps now c .done {c with phase := .ended,waiter := .finished}
  | after (phase : c.phase=.selecting) (late : c.begun+c.timeout≤now) :
      Steps now c .after {c with phase := .interrupted now}
  | kill (since : Nat) (phase : c.phase=.interrupted since) (later : since+1≤now) :
      Steps now c .kill {c with phase := .killed since now,running := false}

theorem step_steps {c d : ShellCall} {now : Nat} {e : CallEvent} (h : c.step now e=some d) :
    c.Steps now e d := by
  cases e with
  | start ok =>
    rw [step] at h
    split_ifs at h with phase
    cases h
    exact .start ok phase
  | exit =>
    rw [step] at h
    split_ifs at h
    cases h
    exact .exit
  | wait =>
    rw [step] at h
    split_ifs at h with free
    cases h
    exact .wait free.2.2
  | done =>
    rw [step] at h
    split_ifs at h with both
    cases h
    exact .done both.1
  | after =>
    rw [step] at h
    split_ifs at h with late
    cases h
    exact .after late.1 late.2.1
  | kill =>
    rw [step] at h
    split at h
    · rename_i since phase
      split_ifs at h with later
      cases h
      exact .kill since phase later
    · cases h

def returned (c : ShellCall) : Bool :=
  match c.phase with
  | .ended => true
  | .killed _ _ => true
  | _ => false

/-- The goroutine that waits for the script has not ended. -/
def waits (c : ShellCall) : Bool := c.waiter≠.finished

/-- Only the select receives from done, and only a script that was started runs. -/
structure Sound (c : ShellCall) : Prop where
  waiter : c.waiter=.finished ↔ c.phase=.ended
  running : c.started=false → c.running=false

theorem sound_new (timeout : Nat) : Sound {timeout := timeout} :=
  ⟨iff_of_false nofun nofun,fun _ => rfl⟩

theorem Sound.step {c d : ShellCall} {now : Nat} {e : CallEvent} (h : c.Sound)
    (hs : c.Steps now e d) : d.Sound := by
  have waiter := h.waiter
  cases hs with
  | start ok phase =>
    rw [phase] at waiter
    exact ⟨waiter.trans (iff_of_false nofun nofun),id⟩
  | exit => exact ⟨waiter,fun _ => rfl⟩
  | wait waiting =>
    rw [waiting] at waiter
    exact ⟨Iff.trans (iff_of_false nofun nofun) waiter,h.running⟩
  | done phase => exact ⟨iff_of_true rfl rfl,h.running⟩
  | after phase late =>
    rw [phase] at waiter
    exact ⟨waiter.trans (iff_of_false nofun nofun),h.running⟩
  | kill since phase later =>
    rw [phase] at waiter
    exact ⟨waiter.trans (iff_of_false nofun nofun),fun _ => rfl⟩

theorem Sound.waits_eq {c : ShellCall} (h : c.Sound) (hr : c.returned=true) :
    c.waits=c.phase.timedOut := by
  have waiter := h.waiter
  rw [returned] at hr
  rw [waits]
  cases phase : c.phase with
  | ended =>
    rw [waiter.mpr phase]
    rfl
  | killed since instant =>
    have unsent : c.waiter≠.finished := by
      intro sent
      rw [waiter.mp sent] at phase
      cases phase
    rw [decide_eq_true unsent]
    rfl
  | starting | selecting | interrupted =>
    rw [phase] at hr
    cases hr

/-- Nothing happens to a call that has returned but to its other goroutine. -/
theorem returned_step {c d : ShellCall} {now : Nat} {e : CallEvent} (hr : c.returned=true)
    (hs : c.Steps now e d) : d.phase=c.phase := by
  rw [returned] at hr
  cases hs with
  | exit => rfl
  | wait waiting => rfl
  | start ok phase | done phase | after phase late | kill since phase later =>
    rw [phase] at hr
    cases hr

/-- The call can only wait: for the timer, for the script, or for its sleep to end. Wait returns at
once for a script that was not started. -/
def Idle (now : Nat) (c : ShellCall) : Prop :=
  c.step now .done=none ∧ c.step now .after=none ∧ c.step now .kill=none ∧
    (c.started=false → c.step now .wait=none)

instance (now : Nat) : DecidablePred (Idle now) := fun _ => inferInstanceAs (Decidable (_ ∧ _))

/-- The call has kept its times. -/
def OnTime (now : Nat) (c : ShellCall) : CallPhase → Prop
  | .selecting => now ≤ c.begun+c.timeout
  | .interrupted since => since=c.begun+c.timeout ∧ now ≤ since+1
  | .killed since instant => since=c.begun+c.timeout ∧ instant=since+1
  | _ => True

theorem OnTime.step {c d : ShellCall} {now : Nat} {e : CallEvent} (h : c.OnTime now c.phase)
    (hs : c.Steps now e d) : d.OnTime now d.phase := by
  cases hs with
  | start ok phase => exact Nat.le_add_right now c.timeout
  | exit => exact h
  | wait waiting => exact h
  | done phase => exact trivial
  | after phase late =>
    rw [phase] at h
    exact ⟨Nat.le_antisymm h late,Nat.le_succ now⟩
  | kill since phase later =>
    rw [phase] at h
    exact ⟨h.1,Nat.le_antisymm h.2 later⟩

/-- A second passes only while the call can only wait. -/
theorem OnTime.tick {c : ShellCall} {now : Nat} (h : c.OnTime now c.phase) (sound : c.Sound)
    (idle : c.Idle now) : c.OnTime (now+1) c.phase := by
  obtain ⟨done,after,kill,wait⟩ := idle
  cases phase : c.phase with
  | starting => trivial
  | ended => trivial
  | killed since instant =>
    rw [phase] at h
    exact h
  | interrupted since =>
    rw [phase] at h
    have early : ¬since+1≤now := by simpa [ShellCall.step,phase] using kill
    exact ⟨h.1,by omega⟩
  | selecting =>
    cases started : c.started with
    | true =>
      have early : ¬c.begun+c.timeout≤now := by simpa [ShellCall.step,phase,started] using after
      exact Nat.lt_of_not_le early
    | false =>
      -- such a call leaves its select before a second has passed
      have waiting : c.waiter≠.waiting := by
        simpa [ShellCall.step,phase,sound.running started] using wait started
      have sending : c.waiter≠.sending := by simpa [ShellCall.step,phase] using done
      have unsent : c.waiter≠.finished := by
        intro sent
        have ended := sound.waiter.mp sent
        rw [phase] at ended
        cases ended
      cases waiter : c.waiter with
      | waiting => exact absurd waiter waiting
      | sending => exact absurd waiter sending
      | finished => exact absurd waiter unsent

end ShellCall

/-- The calls of a pool, and those that have returned. -/
structure Shells where
  clock : Nat := 0
  workers : Workers ShellCall
  past : List ShellCall := []

/-- `call` is a step of a call in the pool, `waiter` one of a call that has returned. -/
inductive ShellsEvent where
  | receive (timeout : Nat)
  | dispatch
  | cancel
  | call (i : Nat) (e : CallEvent)
  | finish (i : Nat)
  | release (i : Nat)
  | waiter (i : Nat) (e : CallEvent)
  | tick

namespace Shells

def new (size : Int) (exit : List Op) : Shells := {workers := .new size exit}

def pool (s : Shells) (e : PoolEvent ShellCall) : Option Shells :=
  (s.workers.step e).map (fun w => {s with workers := w})

def keep (s : Shells) (c : ShellCall) : Shells := {s with past := s.past++[c]}

def step (s : Shells) : ShellsEvent → Option Shells
  | .receive timeout => s.pool (.receive {timeout := timeout})
  | .dispatch => s.pool .dispatch
  | .cancel => s.pool .cancel
  | .call i e =>
    (s.workers.busy[i]?).bind (fun c => (c.step s.clock e).bind (fun d => s.pool (.work i d)))
  | .finish i =>
    (s.workers.busy[i]?).bind (fun c =>
      if c.returned=true then (s.pool (.finish i)).map (fun t => t.keep c) else none)
  | .release i => s.pool (.release i)
  | .waiter i e =>
    (s.past[i]?).bind (fun c => (c.step s.clock e).map (fun d => {s with past := s.past.set i d}))
  | .tick => some {s with clock := s.clock+1}

/-- Everything a step can do. -/
inductive Steps (s : Shells) : ShellsEvent → Shells → Prop where
  | receive (timeout : Nat) (w : Workers ShellCall)
      (hw : s.workers.step (.receive {timeout := timeout})=some w) :
      Steps s (.receive timeout) {s with workers := w}
  | dispatch (w : Workers ShellCall) (hw : s.workers.step .dispatch=some w) :
      Steps s .dispatch {s with workers := w}
  | cancel (w : Workers ShellCall) (hw : s.workers.step .cancel=some w) :
      Steps s .cancel {s with workers := w}
  | call (i : Nat) (e : CallEvent) (c d : ShellCall) (w : Workers ShellCall)
      (hc : s.workers.busy[i]?=some c) (hd : c.Steps s.clock e d)
      (hw : s.workers.step (.work i d)=some w) : Steps s (.call i e) {s with workers := w}
  | finish (i : Nat) (c : ShellCall) (w : Workers ShellCall) (hc : s.workers.busy[i]?=some c)
      (hr : c.returned=true) (hw : s.workers.step (.finish i)=some w) :
      Steps s (.finish i) (keep {s with workers := w} c)
  | release (i : Nat) (w : Workers ShellCall) (hw : s.workers.step (.release i)=some w) :
      Steps s (.release i) {s with workers := w}
  | waiter (i : Nat) (e : CallEvent) (c d : ShellCall) (hc : s.past[i]?=some c)
      (hd : c.Steps s.clock e d) : Steps s (.waiter i e) {s with past := s.past.set i d}
  | tick : Steps s .tick {s with clock := s.clock+1}

theorem pool_some {s t : Shells} {e : PoolEvent ShellCall} (h : s.pool e=some t) :
    ∃ w,s.workers.step e=some w ∧ t={s with workers := w} := by
  obtain ⟨w,hw,same⟩ := Option.map_eq_some_iff.mp h
  exact ⟨w,hw,same.symm⟩

theorem step_steps {s t : Shells} {e : ShellsEvent} (h : s.step e=some t) : s.Steps e t := by
  cases e with
  | receive timeout =>
    obtain ⟨w,hw,rfl⟩ := pool_some h
    exact .receive timeout w hw
  | dispatch =>
    obtain ⟨w,hw,rfl⟩ := pool_some h
    exact .dispatch w hw
  | cancel =>
    obtain ⟨w,hw,rfl⟩ := pool_some h
    exact .cancel w hw
  | call i e =>
    obtain ⟨c,hc,h⟩ := Option.bind_eq_some_iff.mp h
    obtain ⟨d,hd,h⟩ := Option.bind_eq_some_iff.mp h
    obtain ⟨w,hw,rfl⟩ := pool_some h
    exact .call i e c d w hc (ShellCall.step_steps hd) hw
  | finish i =>
    obtain ⟨c,hc,h⟩ := Option.bind_eq_some_iff.mp h
    split_ifs at h with hr
    obtain ⟨u,hu,rfl⟩ := Option.map_eq_some_iff.mp h
    obtain ⟨w,hw,rfl⟩ := pool_some hu
    exact .finish i c w hc hr hw
  | release i =>
    obtain ⟨w,hw,rfl⟩ := pool_some h
    exact .release i w hw
  | waiter i e =>
    obtain ⟨c,hc,h⟩ := Option.bind_eq_some_iff.mp h
    obtain ⟨d,hd,rfl⟩ := Option.map_eq_some_iff.mp h
    exact .waiter i e c d hc (ShellCall.step_steps hd)
  | tick =>
    cases h
    exact .tick

structure Sound (s : Shells) : Prop where
  calls : ∀ c∈s.workers.inputs,c.Sound
  past : ∀ c∈s.past,c.Sound ∧ c.returned=true

theorem Sound.step {s t : Shells} {e : ShellsEvent} (h : s.Sound) (hs : s.Steps e t) : t.Sound := by
  cases hs with
  | receive timeout w hw =>
    refine ⟨?_,h.past⟩
    rw [Workers.inputs_receive hw]
    exact Multiset.forall_mem_cons.mpr ⟨ShellCall.sound_new timeout,h.calls⟩
  | dispatch w hw =>
    refine ⟨?_,h.past⟩
    rw [Workers.inputs_dispatch hw]
    exact h.calls
  | cancel w hw =>
    refine ⟨?_,h.past⟩
    rw [Workers.inputs_cancel hw]
    exact h.calls
  | release i w hw =>
    refine ⟨?_,h.past⟩
    rw [Workers.inputs_release hw]
    exact h.calls
  | call i e c d w hc hd hw =>
    have old : c∈s.workers.inputs := Multiset.mem_add.mpr (.inr (List.mem_of_getElem? hc))
    have swapped := Workers.inputs_work hc hw
    have all : ∀ x∈d::ₘs.workers.inputs,x.Sound :=
      Multiset.forall_mem_cons.mpr ⟨(h.calls c old).step hd,h.calls⟩
    refine ⟨fun x hx => all x ?_,h.past⟩
    rw [←swapped]
    exact Multiset.mem_cons_of_mem hx
  | finish i c w hc hr hw =>
    have old : c∈s.workers.inputs := Multiset.mem_add.mpr (.inr (List.mem_of_getElem? hc))
    have taken := Workers.inputs_finish hc hw
    have calls : ∀ x∈w.inputs,x.Sound := by
      intro x hx
      refine h.calls x ?_
      rw [←taken]
      exact Multiset.mem_cons_of_mem hx
    refine ⟨calls,?_⟩
    intro x hx
    rcases List.mem_append.mp hx with before|new
    · exact h.past x before
    · cases List.mem_singleton.mp new
      exact ⟨h.calls c old,hr⟩
  | waiter i e c d hc hd =>
    obtain ⟨sound,hr⟩ := h.past c (List.mem_of_getElem? hc)
    have still : d.returned=true := by
      rw [ShellCall.returned,ShellCall.returned_step hr hd]
      exact hr
    refine ⟨h.calls,?_⟩
    intro x hx
    rcases List.mem_or_eq_of_mem_set hx with before|rfl
    · exact h.past x before
    · exact ⟨sound.step hd,still⟩
  | tick => exact ⟨h.calls,h.past⟩

theorem sound_new (size : Int) (exit : List Op) : Sound (new size exit) :=
  ⟨fun c hc => absurd hc (Multiset.notMem_zero c),fun _ hc => absurd hc List.not_mem_nil⟩

theorem sound_run {s t : Shells} (h : s.Sound) {es : List ShellsEvent}
    (hr : run step s es=some t) : t.Sound :=
  run_invariant step (fun _ _ => True) Sound (fun _ _ _ h _ hs => h.step (step_steps hs)) es s t h
    (along_of_forall step _ _ es (fun _ _ => trivial)) hr

/-- Time passes only while every call can only wait. -/
def Prompt (s : Shells) : ShellsEvent → Prop
  | .tick => ∀ c∈s.workers.inputs,c.Idle s.clock
  | _ => True

instance (s : Shells) : DecidablePred s.Prompt
  | .tick => inferInstanceAs (Decidable (∀ c∈s.workers.inputs,c.Idle s.clock))
  | .receive _ | .dispatch | .cancel | .call _ _ | .finish _ | .release _ | .waiter _ _ =>
    isTrue trivial

/-- Every call has kept its times. -/
structure OnTime (s : Shells) : Prop where
  sound : s.Sound
  calls : ∀ c∈s.workers.inputs,c.OnTime s.clock c.phase
  past : ∀ c∈s.past,c.OnTime s.clock c.phase

theorem OnTime.step {s t : Shells} {e : ShellsEvent} (h : s.OnTime) (prompt : s.Prompt e)
    (hs : s.Steps e t) : t.OnTime := by
  have sound := h.sound.step hs
  cases hs with
  | receive timeout w hw =>
    refine ⟨sound,?_,h.past⟩
    rw [Workers.inputs_receive hw]
    exact Multiset.forall_mem_cons.mpr ⟨trivial,h.calls⟩
  | dispatch w hw =>
    refine ⟨sound,?_,h.past⟩
    rw [Workers.inputs_dispatch hw]
    exact h.calls
  | cancel w hw =>
    refine ⟨sound,?_,h.past⟩
    rw [Workers.inputs_cancel hw]
    exact h.calls
  | release i w hw =>
    refine ⟨sound,?_,h.past⟩
    rw [Workers.inputs_release hw]
    exact h.calls
  | call i e c d w hc hd hw =>
    have old : c∈s.workers.inputs := Multiset.mem_add.mpr (.inr (List.mem_of_getElem? hc))
    refine ⟨sound,fun x hx => ?_,h.past⟩
    have mem : x∈d::ₘs.workers.inputs := by
      rw [←Workers.inputs_work hc hw]
      exact Multiset.mem_cons_of_mem hx
    rcases Multiset.mem_cons.mp mem with rfl|before
    · exact (h.calls c old).step hd
    · exact h.calls x before
  | finish i c w hc hr hw =>
    have old : c∈s.workers.inputs := Multiset.mem_add.mpr (.inr (List.mem_of_getElem? hc))
    refine ⟨sound,fun x hx => h.calls x ?_,?_⟩
    · rw [←Workers.inputs_finish hc hw]
      exact Multiset.mem_cons_of_mem hx
    · intro x hx
      rcases List.mem_append.mp hx with before|new
      · exact h.past x before
      · cases List.mem_singleton.mp new
        exact h.calls c old
  | waiter i e c d hc hd =>
    refine ⟨sound,h.calls,?_⟩
    intro x hx
    rcases List.mem_or_eq_of_mem_set hx with before|rfl
    · exact h.past x before
    · exact (h.past c (List.mem_of_getElem? hc)).step hd
  | tick =>
    refine ⟨sound,fun c hc => (h.calls c hc).tick (h.sound.calls c hc) (prompt c hc),?_⟩
    intro c hc
    -- the times of a call that has returned are over
    have now := h.past c hc
    have back := (h.sound.past c hc).2
    rw [ShellCall.returned] at back
    cases phase : c.phase with
    | ended => trivial
    | killed since instant =>
      rw [phase] at now
      exact now
    | starting | selecting | interrupted =>
      rw [phase] at back
      cases back

theorem onTime_new (size : Int) (exit : List Op) : OnTime (new size exit) :=
  ⟨sound_new size exit,fun c hc => absurd hc (Multiset.notMem_zero c),
    fun _ hc => absurd hc List.not_mem_nil⟩

end Shells

/-- A script with a timeout of two seconds is interrupted after two and killed after three. -/
def slowScript : List ShellsEvent :=
  [.receive 2,.dispatch,.dispatch,.dispatch,.call 0 (.start true),.tick,.tick,.call 0 .after,.tick,
    .call 0 .kill,.finish 0]

/-- However the calls of a pool interleave, as long as none of them is kept waiting when it can go
on: no call takes longer than its timeout and one second, a script is interrupted exactly at its
timeout, and it is killed exactly one second later. -/
theorem shell_calls_on_time (size : Int) (exit : List Op) (es : List ShellsEvent)
    (prompt : Along Shells.step Shells.Prompt (.new size exit) es) (s : Shells)
    (hr : run Shells.step (.new size exit) es=some s) :
    ∀ c∈s.workers.busy++s.past,
      (c.phase≠.starting → c.returned=false → s.clock ≤ c.begun+c.timeout+1) ∧
      (∀ since,c.phase=.interrupted since → since=c.begun+c.timeout) ∧
      ∀ since instant,c.phase=.killed since instant →
        since=c.begun+c.timeout ∧ instant=since+1 := by
  have onTime := run_invariant Shells.step Shells.Prompt Shells.OnTime
    (fun _ _ _ h ok hs => h.step ok (Shells.step_steps hs)) es (.new size exit) s
    (Shells.onTime_new size exit) prompt hr
  intro c hc
  have kept : c.OnTime s.clock c.phase := by
    rcases List.mem_append.mp hc with busy|past
    · exact onTime.calls c (Multiset.mem_add.mpr (.inr busy))
    · exact onTime.past c past
  refine ⟨?_,?_,?_⟩
  · intro begun going
    rw [ShellCall.returned] at going
    cases phase : c.phase with
    | starting => exact absurd phase begun
    | selecting =>
      rw [phase] at kept
      exact Nat.le_succ_of_le kept
    | interrupted since =>
      rw [phase] at kept
      obtain ⟨rfl,late⟩ := kept
      exact late
    | ended | killed =>
      rw [phase] at going
      cases going
  · intro since phase
    rw [phase] at kept
    exact kept.1
  · intro since instant phase
    rw [phase] at kept
    exact kept

theorem shell_calls_on_time_slow :
    ∃ s,run Shells.step (.new 1 []) slowScript=some s ∧
      s.past=[{timeout := 2,phase := .killed 2 3,started := true}] ∧
      ∀ c∈s.workers.busy++s.past,∀ since instant,c.phase=.killed since instant →
        since=c.begun+c.timeout ∧ instant=since+1 := by
  have reached : run Shells.step (.new 1 []) slowScript=some _ := rfl
  have times := shell_calls_on_time 1 [] slowScript (by decide +kernel) _ reached
  exact ⟨_,reached,rfl,fun c hc => (times c hc).2.2⟩

namespace Shells

/-- A call that has returned stays as it returned, and so does its other goroutine. -/
def Remains (i : Nat) (c : ShellCall) (s : Shells) : Prop :=
  ∃ d,s.past[i]?=some d ∧ d.phase=c.phase ∧ d.waits=c.waits

theorem Remains.step {s t : Shells} {e : ShellsEvent} {i : Nat} {c : ShellCall} (sound : s.Sound)
    (h : Remains i c s) (hs : s.Steps e t) : Remains i c t := by
  obtain ⟨d,hd,phase,waits⟩ := h
  cases hs with
  | finish j x w hx hr hw =>
    refine ⟨d,?_,phase,waits⟩
    obtain ⟨inside,-⟩ := List.getElem?_eq_some_iff.mp hd
    exact (List.getElem?_append_left inside).trans hd
  | waiter j e x y hx hy =>
    by_cases same : j=i
    · subst j
      obtain rfl : x=d := Option.some.inj (hx.symm.trans hd)
      obtain ⟨before,back⟩ := sound.past x (List.mem_of_getElem? hx)
      have still := ShellCall.returned_step back hy
      have back' : y.returned=true := by
        rw [ShellCall.returned,still]
        exact back
      obtain ⟨inside,-⟩ := List.getElem?_eq_some_iff.mp hx
      refine ⟨y,List.getElem?_set_self inside,still.trans phase,?_⟩
      rw [(before.step hy).waits_eq back',still,←before.waits_eq back,waits]
    · exact ⟨d,(List.getElem?_set_ne same).trans hd,phase,waits⟩
  | receive | dispatch | cancel | call | release | tick => exact ⟨d,hd,phase,waits⟩

end Shells

/-- A call that has returned has left its other goroutine behind exactly if it killed its script,
and in every later state that goroutine is still there, or still gone. -/
theorem shell_calls_leak (size : Int) (exit : List Op) (es : List ShellsEvent) (s : Shells)
    (hr : run Shells.step (.new size exit) es=some s) :
    (∀ c∈s.workers.busy++s.past,c.returned=true → c.waits=c.phase.timedOut) ∧
    ∀ (i : Nat) (c : ShellCall),s.past[i]?=some c → ∀ fs t,run Shells.step s fs=some t →
      ∃ d,t.past[i]?=some d ∧ d.phase=c.phase ∧ d.waits=c.phase.timedOut := by
  have sound := Shells.sound_run (Shells.sound_new size exit) hr
  have each : ∀ c∈s.workers.busy++s.past,c.returned=true → c.waits=c.phase.timedOut := by
    intro c hc back
    rcases List.mem_append.mp hc with busy|past
    · exact (sound.calls c (Multiset.mem_add.mpr (.inr busy))).waits_eq back
    · exact (sound.past c past).1.waits_eq back
  refine ⟨each,?_⟩
  intro i c hc fs t later
  have inv := run_invariant Shells.step (fun _ _ => True)
    (fun u => u.Sound ∧ Shells.Remains i c u)
    (fun _ _ _ h _ hs => ⟨h.1.step (Shells.step_steps hs),h.2.step h.1 (Shells.step_steps hs)⟩)
    fs s t ⟨sound,c,hc,rfl,rfl⟩ (along_of_forall Shells.step _ _ fs (fun _ _ => trivial)) later
  obtain ⟨d,hd,phase,waits⟩ := inv.2
  have mem := List.mem_of_getElem? hc
  refine ⟨d,hd,phase,waits.trans ?_⟩
  exact each c (List.mem_append_right _ mem) (sound.past c mem).2

/-- The other goroutine of the slow script comes to its send, and stays there for ever; that of a
script that has ended by itself is gone. -/
theorem shell_calls_leak_slow :
    (∃ s,run Shells.step (.new 1 []) slowScript=some s ∧
      ∀ fs t,run Shells.step s (.waiter 0 .wait::fs)=some t →
        ∃ d,t.past[0]?=some d ∧ d.waits=true) ∧
    ∃ s,run Shells.step (.new 1 []) [.receive 2,.dispatch,.dispatch,.dispatch,.call 0 (.start true),
        .call 0 .exit,.call 0 .wait,.call 0 .done,.finish 0]=some s ∧
      ∀ fs t,run Shells.step s fs=some t → ∃ d,t.past[0]?=some d ∧ d.waits=false := by
  constructor
  · have reached : run Shells.step (.new 1 []) slowScript=some _ := rfl
    refine ⟨_,reached,?_⟩
    intro fs t later
    obtain ⟨d,hd,-,waits⟩ := (shell_calls_leak 1 [] slowScript _ reached).2 0
      {timeout := 2,phase := .killed 2 3,started := true} rfl (.waiter 0 .wait::fs) t later
    exact ⟨d,hd,waits⟩
  · have reached : run Shells.step (.new 1 []) [.receive 2,.dispatch,.dispatch,.dispatch,
        .call 0 (.start true),.call 0 .exit,.call 0 .wait,.call 0 .done,.finish 0]=some _ := rfl
    refine ⟨_,reached,?_⟩
    intro fs t later
    obtain ⟨d,hd,-,waits⟩ := (shell_calls_leak 1 [] _ _ reached).2 0
      {timeout := 2,phase := .ended,started := true,waiter := .finished} rfl fs t later
    exact ⟨d,hd,waits⟩

end StCache
