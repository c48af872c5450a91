import StCache.Framework.Traces
import StCache.Leader.SilentFlip
import StCache.Pool.Progress

namespace StCache

open Sync

/-- Where the goroutine of a command is: before its permission test, in ShellCmdTimeout, or at
resultCh. -/
inductive Job where
  | test (x : Sent)
  | script (x : Sent)
  | offer (r : Finished)

namespace Job

def cmd : Job → Option Sent
  | .test x => some x
  | _ => none

def running : Job → Option Sent
  | .script x => some x
  | _ => none

def result : Job → Option Finished
  | .offer r => some r
  | _ => none

/-- How many steps are left before the last one of the body, the handover of the result. -/
def weight : Job → Nat
  | .test _ => 2
  | .script _ => 1
  | .offer _ => 0

end Job

/-- quorumCheck2 waits in its select, works on a result it has received, or has returned. -/
inductive Recorder where
  | select
  | record (r : Finished)
  | returned

def Recorder.held : Recorder → List Finished
  | .record r => [r]
  | _ => []

def Recorder.runs : Recorder → Bool
  | .returned => false
  | _ => true

/-- The rest of the current pass of quorumCheck1, doTimeoutShellCmd, and quorumCheck2. cmdCh and
resultCh have no buffer. -/
structure Notifier where
  tick : List Stmt := []
  workers : Workers Job := .new 100 []
  recorder : Recorder := .select

/-- `dispatch` and `cancel` are the loop of doTimeoutShellCmd, `test`, `script` and `release` a
goroutine of it, `receive`, `record` and `leave` quorumCheck2. `cancel` and `leave` receive from
context.Done(). -/
inductive NotifierAction where
  | enter
  | tick (input : TickInput)
  | dispatch
  | cancel
  | test (i : Nat)
  | script (i : Nat) (o : ShellOutcome)
  | receive (i : Nat)
  | record
  | leave
  | release (i : Nat)

/-- The action is a step of the pipeline itself. -/
def NotifierAction.Internal : NotifierAction → Prop
  | .enter => False
  | .tick _ => False
  | .cancel => False
  | .leave => False
  | _ => True

/-- What a step finds: the replicated state, and whether the node may write. -/
structure Setting where
  fsm : Fsm
  writable : Bool

namespace Notifier

/-- What the checks and notifyFollower read of the node. -/
def permission (env : Setting) : Checker := {writable := env.writable}

/-- A statement that sends on cmdCh waits until the loop receives. -/
def accept (s : Notifier) (xs : List Sent) : Option (Workers Job) :=
  run Workers.step s.workers (xs.map (fun x => .receive (.test x)))

/-- The pool takes a step, and the action does nothing to quorumCheck2. -/
def work (s : Notifier) (e : PoolEvent Job) (eff : Effect) : Option (Notifier × Effect) :=
  (s.workers.step e).map (fun w => ({s with workers := w},eff))

def step (cfg : QuorumConfig) (s : Notifier) (env : Setting) :
    NotifierAction → Option (Notifier × Effect)
  | .enter =>
    match s.tick,env.writable with
    | [],true => some ({s with tick := [.barrier]},.silent)
    | _,_ => none
  | .tick input =>
    match s.tick with
    | [] => none
    | st::rest => ((permission env).exec cfg env.fsm st input).bind (fun r =>
        (s.accept r.2.received).map (fun w => ({s with tick := r.1++rest,workers := w},r.2)))
  | .dispatch => s.work .dispatch .silent
  | .cancel => s.work .cancel .silent
  | .test i =>
    match s.workers.busy[i]? with
    | some (.test x) =>
      if env.writable then s.work (.work i (.script x)) .silent else s.work (.finish i) .silent
    | _ => none
  | .script i o =>
    match s.workers.busy[i]? with
    | some (.script x) => s.work (.work i (.offer ⟨x,o,x.command.run o⟩)) (x.effect o)
    | _ => none
  -- the handover of a result ends the body of its goroutine
  | .receive i =>
    match s.workers.busy[i]?,s.recorder with
    | some (.offer r),.select => {s with recorder := .record r}.work (.finish i) .silent
    | _,_ => none
  | .record =>
    match s.recorder with
    | .record r => some ({s with recorder := .select},
        (permission env).notifyFollower (resultEntry r.result) (some r))
    | _ => none
  | .leave =>
    match s.recorder with
    | .select => some ({s with recorder := .returned},.silent)
    | _ => none
  | .release i => s.work (.release i) .silent

/-- Everything the pipeline can do. -/
inductive Steps (cfg : QuorumConfig) (s : Notifier) (env : Setting) :
    NotifierAction → Notifier → Effect → Prop where
  | enter (ht : s.tick=[]) (hw : env.writable=true) :
      Steps cfg s env .enter {s with tick := [.barrier]} .silent
  | tick (st : Stmt) (rest : List Stmt) (input : TickInput) (sts : List Stmt) (eff : Effect)
      (w : Workers Job) (ht : s.tick=st::rest)
      (hx : (permission env).exec cfg env.fsm st input=some (sts,eff))
      (ha : s.accept eff.received=some w) :
      Steps cfg s env (.tick input) {s with tick := sts++rest,workers := w} eff
  | dispatch (w : Workers Job) (hw : s.workers.step .dispatch=some w) :
      Steps cfg s env .dispatch {s with workers := w} .silent
  | cancel (w : Workers Job) (hw : s.workers.step .cancel=some w) :
      Steps cfg s env .cancel {s with workers := w} .silent
  | start (i : Nat) (x : Sent) (w : Workers Job) (hi : s.workers.busy[i]?=some (.test x))
      (permitted : env.writable=true) (hw : s.workers.step (.work i (.script x))=some w) :
      Steps cfg s env (.test i) {s with workers := w} .silent
  | drop (i : Nat) (x : Sent) (w : Workers Job) (hi : s.workers.busy[i]?=some (.test x))
      (denied : env.writable=false) (hw : s.workers.step (.finish i)=some w) :
      Steps cfg s env (.test i) {s with workers := w} .silent
  | script (i : Nat) (x : Sent) (o : ShellOutcome) (w : Workers Job)
      (hi : s.workers.busy[i]?=some (.script x))
      (hw : s.workers.step (.work i (.offer ⟨x,o,x.command.run o⟩))=some w) :
      Steps cfg s env (.script i o) {s with workers := w} (x.effect o)
  | receive (i : Nat) (r : Finished) (w : Workers Job) (hi : s.workers.busy[i]?=some (.offer r))
      (free : s.recorder=.select) (hw : s.workers.step (.finish i)=some w) :
      Steps cfg s env (.receive i) {s with workers := w,recorder := .record r} .silent
  | record (r : Finished) (held : s.recorder=.record r) :
      Steps cfg s env .record {s with recorder := .select}
        ((permission env).notifyFollower (resultEntry r.result) (some r))
  | leave (free : s.recorder=.select) : Steps cfg s env .leave {s with recorder := .returned} .silent
  | release (i : Nat) (w : Workers Job) (hw : s.workers.step (.release i)=some w) :
      Steps cfg s env (.release i) {s with workers := w} .silent

theorem work_some {s t : Notifier} {e : PoolEvent Job} {shown eff : Effect}
    (h : s.work e shown=some (t,eff)) :
    ∃ w,s.workers.step e=some w ∧ t={s with workers := w} ∧ eff=shown := by
  obtain ⟨w,hw,same⟩ := Option.map_eq_some_iff.mp h
  cases same
  exact ⟨w,hw,rfl,rfl⟩

theorem step_steps {cfg : QuorumConfig} {s t : Notifier} {env : Setting} {a : NotifierAction}
    {eff : Effect} (hs : s.step cfg env a=some (t,eff)) : s.Steps cfg env a t eff := by
  cases a with
  | enter =>
    cases ht : s.tick with
    | cons st rest => simp [step,ht] at hs
    | nil =>
      cases hw : env.writable with
      | false => simp [step,ht,hw] at hs
      | true =>
        simp only [step,ht,hw,Option.some.injEq,Prod.mk.injEq] at hs
        obtain ⟨rfl,rfl⟩ := hs
        exact .enter ht hw
  | tick input =>
    cases ht : s.tick with
    | nil => simp [step,ht] at hs
    | cons st rest =>
      simp only [step,ht,Option.bind_eq_some_iff,Option.map_eq_some_iff,Prod.mk.injEq] at hs
      obtain ⟨⟨sts,eff⟩,hx,w,ha,rfl,rfl⟩ := hs
      exact .tick st rest input sts eff w ht hx ha
  | dispatch =>
    obtain ⟨w,hw,rfl,rfl⟩ := work_some hs
    exact .dispatch w hw
  | cancel =>
    obtain ⟨w,hw,rfl,rfl⟩ := work_some hs
    exact .cancel w hw
  | test i =>
    simp only [step] at hs
    split at hs
    · next x hi =>
      cases permitted : env.writable with
      | true =>
        rw [permitted,if_pos rfl] at hs
        obtain ⟨w,hw,rfl,rfl⟩ := work_some hs
        exact .start i x w hi permitted hw
      | false =>
        rw [permitted,if_neg (by decide)] at hs
        obtain ⟨w,hw,rfl,rfl⟩ := work_some hs
        exact .drop i x w hi permitted hw
    · cases hs
  | script i o =>
    simp only [step] at hs
    split at hs
    · next x hi =>
      obtain ⟨w,hw,rfl,rfl⟩ := work_some hs
      exact .script i x o w hi hw
    · cases hs
  | receive i =>
    simp only [step] at hs
    split at hs
    · next r hi free =>
      obtain ⟨w,hw,rfl,rfl⟩ := work_some hs
      exact .receive i r w hi free hw
    · cases hs
  | record =>
    simp only [step] at hs
    split at hs
    · next r held =>
      cases hs
      exact .record r held
    · cases hs
  | leave =>
    simp only [step] at hs
    split at hs
    · next free =>
      cases hs
      exact .leave free
    · cases hs
  | release i =>
    obtain ⟨w,hw,rfl,rfl⟩ := work_some hs
    exact .release i w hw

/-- Up to their order the commands, scripts and results of the pool are those of the checker. -/
structure Agrees (s : Notifier) (c : Checker) : Prop where
  tick : c.tick=s.tick
  cmds : (c.cmds : Multiset Sent)=s.workers.inputs.filterMap Job.cmd
  running : (c.running : Multiset Sent)=s.workers.inputs.filterMap Job.running
  results : (c.results : Multiset Finished)=
    s.workers.inputs.filterMap Job.result+s.recorder.held

end Notifier

/-- A step of the checker in this setting. -/
def Checker.stepIn (cfg : QuorumConfig) (c : Checker) (env : Setting) (a : Action) :
    Option (Checker × Effect) :=
  Checker.step cfg env.fsm {c with writable := env.writable} a

theorem Checker.exec_permission (cfg : QuorumConfig) (c : Checker) (env : Setting)
    (hw : c.writable=env.writable) (st : Stmt) (input : TickInput) :
    c.exec cfg env.fsm st input=(Notifier.permission env).exec cfg env.fsm st input := by
  cases st <;> cases input <;> simp only [Checker.exec,Checker.notifyFollower,hw] <;> rfl

section Jobs
variable {a b : Multiset Job} {x : Sent} {r : Finished}

theorem job_test : (Job.test x::ₘa).filterMap Job.cmd=x::ₘa.filterMap Job.cmd ∧
    (Job.test x::ₘa).filterMap Job.running=a.filterMap Job.running ∧
    (Job.test x::ₘa).filterMap Job.result=a.filterMap Job.result :=
  ⟨Multiset.filterMap_cons_some _ _ _ rfl,Multiset.filterMap_cons_none _ _ rfl,
    Multiset.filterMap_cons_none _ _ rfl⟩

theorem job_script : (Job.script x::ₘa).filterMap Job.cmd=a.filterMap Job.cmd ∧
    (Job.script x::ₘa).filterMap Job.running=x::ₘa.filterMap Job.running ∧
    (Job.script x::ₘa).filterMap Job.result=a.filterMap Job.result :=
  ⟨Multiset.filterMap_cons_none _ _ rfl,Multiset.filterMap_cons_some _ _ _ rfl,
    Multiset.filterMap_cons_none _ _ rfl⟩

theorem job_offer : (Job.offer r::ₘa).filterMap Job.cmd=a.filterMap Job.cmd ∧
    (Job.offer r::ₘa).filterMap Job.running=a.filterMap Job.running ∧
    (Job.offer r::ₘa).filterMap Job.result=r::ₘa.filterMap Job.result :=
  ⟨Multiset.filterMap_cons_none _ _ rfl,Multiset.filterMap_cons_none _ _ rfl,
    Multiset.filterMap_cons_some _ _ _ rfl⟩

end Jobs

namespace Notifier

variable {cfg : QuorumConfig} {s : Notifier} {env : Setting} {c : Checker}

theorem Agrees.starts {i : Nat} {x : Sent} {w : Workers Job} (h : s.Agrees c)
    (hi : s.workers.busy[i]?=some (.test x)) (hw : env.writable=true)
    (hstep : s.workers.step (.work i (.script x))=some w) :
    ∃ a d,c.stepIn cfg env a=some (d,.silent) ∧ Agrees {s with workers := w} d := by
  have moved := Workers.inputs_work hi hstep
  have cmds := congrArg (Multiset.filterMap Job.cmd) moved
  have running := congrArg (Multiset.filterMap Job.running) moved
  have results := congrArg (Multiset.filterMap Job.result) moved
  rw [job_test.1,job_script.1,←h.cmds] at cmds
  rw [job_test.2.1,job_script.2.1,←h.running] at running
  rw [job_test.2.2,job_script.2.2] at results
  obtain ⟨j,hj,rest⟩ := exists_place cmds.symm
  refine ⟨.start j,{c with
    writable := env.writable,cmds := c.cmds.eraseIdx j,running := c.running++[x]},?_,?_⟩
  · simp [Checker.stepIn,Checker.step,hj,hw]
  · refine ⟨h.tick,rest,?_,by rw [results]; exact h.results⟩
    rw [running,←Multiset.coe_add,add_comm,Multiset.coe_singleton,Multiset.singleton_add]

theorem Agrees.drops {i : Nat} {x : Sent} {w : Workers Job} (h : s.Agrees c)
    (hi : s.workers.busy[i]?=some (.test x)) (hw : env.writable=false)
    (hstep : s.workers.step (.finish i)=some w) :
    ∃ a d,c.stepIn cfg env a=some (d,.silent) ∧ Agrees {s with workers := w} d := by
  have moved := Workers.inputs_finish hi hstep
  have cmds := congrArg (Multiset.filterMap Job.cmd) moved
  have running := congrArg (Multiset.filterMap Job.running) moved
  have results := congrArg (Multiset.filterMap Job.result) moved
  rw [job_test.1,←h.cmds] at cmds
  rw [job_test.2.1,←h.running] at running
  rw [job_test.2.2] at results
  obtain ⟨j,hj,rest⟩ := exists_place cmds.symm
  refine ⟨.start j,{c with writable := env.writable,cmds := c.cmds.eraseIdx j},?_,?_⟩
  · simp [Checker.stepIn,Checker.step,hj,hw]
  · exact ⟨h.tick,rest,running.symm,by rw [results]; exact h.results⟩

theorem Agrees.ends {i : Nat} {x : Sent} {o : ShellOutcome} {w : Workers Job} (h : s.Agrees c)
    (hi : s.workers.busy[i]?=some (.script x))
    (hstep : s.workers.step (.work i (.offer ⟨x,o,x.command.run o⟩))=some w) :
    ∃ a d,c.stepIn cfg env a=some (d,x.effect o) ∧ Agrees {s with workers := w} d := by
  have moved := Workers.inputs_work hi hstep
  have cmds := congrArg (Multiset.filterMap Job.cmd) moved
  have running := congrArg (Multiset.filterMap Job.running) moved
  have results := congrArg (Multiset.filterMap Job.result) moved
  rw [job_script.1,job_offer.1,←h.cmds] at cmds
  rw [job_script.2.1,job_offer.2.1,←h.running] at running
  rw [job_script.2.2,job_offer.2.2] at results
  obtain ⟨j,hj,rest⟩ := exists_place running.symm
  refine ⟨.finish j o,{c with
    writable := env.writable,running := c.running.eraseIdx j
    results := c.results++[⟨x,o,x.command.run o⟩]},?_,?_⟩
  · simp [Checker.stepIn,Checker.step,hj]
  · refine ⟨h.tick,cmds.symm,rest,?_⟩
    rw [results,Multiset.cons_add,←h.results,←Multiset.coe_add,add_comm,Multiset.coe_singleton,
      Multiset.singleton_add]

/-- The handover of a result is no step of the checker. -/
theorem Agrees.receives {i : Nat} {r : Finished} {w : Workers Job} (h : s.Agrees c)
    (hi : s.workers.busy[i]?=some (.offer r)) (free : s.recorder=.select)
    (hstep : s.workers.step (.finish i)=some w) :
    Agrees {s with workers := w,recorder := .record r} c := by
  have moved := Workers.inputs_finish hi hstep
  have cmds := congrArg (Multiset.filterMap Job.cmd) moved
  have running := congrArg (Multiset.filterMap Job.running) moved
  have results := congrArg (Multiset.filterMap Job.result) moved
  rw [job_offer.1,←h.cmds] at cmds
  rw [job_offer.2.1,←h.running] at running
  rw [job_offer.2.2] at results
  refine ⟨h.tick,cmds.symm,running.symm,?_⟩
  rw [h.results,←results,free]
  show r::ₘ(w.inputs.filterMap Job.result)+0=w.inputs.filterMap Job.result+([r] : List Finished)
  rw [add_zero,Multiset.coe_singleton,add_comm,Multiset.singleton_add]

theorem Agrees.records {r : Finished} (h : s.Agrees c) (held : s.recorder=.record r) :
    ∃ a d,c.stepIn cfg env a=
      some (d,(permission env).notifyFollower (resultEntry r.result) (some r)) ∧
        Agrees {s with recorder := .select} d := by
  have results : (c.results : Multiset Finished)=r::ₘs.workers.inputs.filterMap Job.result := by
    rw [h.results,held]
    show s.workers.inputs.filterMap Job.result+([r] : List Finished)=_
    rw [Multiset.coe_singleton,add_comm,Multiset.singleton_add]
  obtain ⟨j,hj,rest⟩ := exists_place results
  refine ⟨.record j,{c with writable := env.writable,results := c.results.eraseIdx j},?_,?_⟩
  · simp only [Checker.stepIn,Checker.step,hj]
    rfl
  · exact ⟨h.tick,h.cmds,h.running,rest.trans (add_zero _).symm⟩

theorem accept_one (s : Notifier) (x : Sent) :
    s.accept [x]=s.workers.step (.receive (.test x)) := by
  simp [accept,run_cons]

theorem Agrees.ticks {st : Stmt} {rest sts : List Stmt} {input : TickInput} {eff : Effect}
    {w : Workers Job} (h : s.Agrees c) (ht : s.tick=st::rest)
    (hx : (permission env).exec cfg env.fsm st input=some (sts,eff))
    (ha : s.accept eff.received=some w) :
    ∃ a d,c.stepIn cfg env a=some (d,eff) ∧
      Agrees {s with tick := sts++rest,workers := w} d := by
  have tick : c.tick=st::rest := h.tick.trans ht
  have same := Checker.exec_permission cfg {c with writable := env.writable} env rfl st input
  refine ⟨.tick input,{c with
    writable := env.writable,tick := sts++rest,cmds := c.cmds++eff.received},?_,?_⟩
  · rw [tick] at same
    simp only [Checker.stepIn,Checker.step,tick,same,hx,Option.map_some]
  · cases eff with
    | silent | submit | ran =>
      cases ha
      exact ⟨rfl,(congrArg _ (List.append_nil _)).trans h.cmds,h.running,h.results⟩
    | sent x =>
      have more := Workers.inputs_receive ((s.accept_one x).symm.trans ha)
      refine ⟨rfl,?_,?_,?_⟩
      · rw [more,job_test.1,←h.cmds,←Multiset.coe_add,add_comm]
        rfl
      · rw [more,job_test.2.1]
        exact h.running
      · rw [more,job_test.2.2]
        exact h.results

/-- The statements of the pool move no command. -/
theorem Agrees.stays {w : Workers Job} (h : s.Agrees c) (same : w.inputs=s.workers.inputs) :
    Agrees {s with workers := w} c := by
  refine ⟨h.tick,?_,?_,?_⟩ <;> rw [same]
  · exact h.cmds
  · exact h.running
  · exact h.results

/-- Each step of the pipeline is a step of the checker in the same setting, or no step of it. -/
theorem Agrees.step {a : NotifierAction} {t : Notifier} {eff : Effect} (h : s.Agrees c)
    (hs : s.Steps cfg env a t eff) :
    (eff=.silent ∧ t.Agrees c) ∨ ∃ x d,c.stepIn cfg env x=some (d,eff) ∧ t.Agrees d := by
  cases hs with
  | enter ht hw =>
    have tick : c.tick=[] := h.tick.trans ht
    refine .inr ⟨.enter,{c with writable := env.writable,tick := [.barrier]},?_,?_⟩
    · simp [Checker.stepIn,Checker.step,tick,hw]
    · exact ⟨rfl,h.cmds,h.running,h.results⟩
  | tick st rest input sts eff w ht hx ha => exact .inr (h.ticks ht hx ha)
  | dispatch w hw => exact .inl ⟨rfl,h.stays (Workers.inputs_dispatch hw)⟩
  | cancel w hw => exact .inl ⟨rfl,h.stays (Workers.inputs_cancel hw)⟩
  | start i x w hi permitted hw => exact .inr (h.starts hi permitted hw)
  | drop i x w hi denied hw => exact .inr (h.drops hi denied hw)
  | script i x o w hi hw => exact .inr (h.ends hi hw)
  | receive i r w hi free hw => exact .inl ⟨rfl,h.receives hi free hw⟩
  | record r held => exact .inr (h.records held)
  | leave free => exact .inl ⟨rfl,h.tick,h.cmds,h.running,by rw [h.results,free]; rfl⟩
  | release i w hw => exact .inl ⟨rfl,h.stays (Workers.inputs_release hw)⟩

/-- What an action does to the pool; the loop receives only commands to be tested. -/
theorem Steps.workers {a : NotifierAction} {t : Notifier} {eff : Effect}
    (hs : s.Steps cfg env a t eff) :
    t.workers=s.workers ∨
      ∃ e,s.workers.step e=some t.workers ∧ ∀ w∈e.received,∃ x,w=.test x := by
  cases hs with
  | enter | record | leave => exact .inl rfl
  | tick st rest input sts eff w ht hx ha =>
    cases eff with
    | silent | submit | ran => exact .inl (Option.some.inj ha).symm
    | sent x =>
      refine .inr ⟨_,(s.accept_one x).symm.trans ha,?_⟩
      intro w hw
      exact ⟨x,List.mem_singleton.mp hw⟩
  | dispatch w hw => exact .inr ⟨_,hw,fun _ none => (List.not_mem_nil none).elim⟩
  | cancel w hw => exact .inr ⟨_,hw,fun _ none => (List.not_mem_nil none).elim⟩
  | start i x w hi permitted hw => exact .inr ⟨_,hw,fun _ none => (List.not_mem_nil none).elim⟩
  | drop i x w hi denied hw => exact .inr ⟨_,hw,fun _ none => (List.not_mem_nil none).elim⟩
  | script i x o w hi hw => exact .inr ⟨_,hw,fun _ none => (List.not_mem_nil none).elim⟩
  | receive i r w hi free hw => exact .inr ⟨_,hw,fun _ none => (List.not_mem_nil none).elim⟩
  | release i w hw => exact .inr ⟨_,hw,fun _ none => (List.not_mem_nil none).elim⟩

end Notifier

/-- What others see of a step. -/
def Effect.visible : Effect → List Effect
  | .silent => []
  | e => [e]

namespace Notifier

/-- The invariants of the pool along a run of the pipeline. -/
structure Reached (s : Notifier) : Prop where
  sound : s.workers.Sound
  capacity : s.workers.pool.capacity=100
  received : ∀ w∈s.workers.dispatcher.input,∃ x,w=.test x

theorem Reached.step {cfg : QuorumConfig} {s t : Notifier} {env : Setting} {a : NotifierAction}
    {eff : Effect} (h : s.Reached) (hs : s.Steps cfg env a t eff) : t.Reached := by
  rcases hs.workers with same|⟨e,he,tests⟩
  · exact ⟨same ▸ h.sound,same ▸ h.capacity,same ▸ h.received⟩
  · have steps := Workers.step_steps he
    refine ⟨h.sound.step steps,(Workers.capacity_step steps).trans h.capacity,?_⟩
    intro w hw
    rcases steps.input hw with old|new
    · exact h.received w old
    · exact tests w new

theorem reached_init : Reached {} := by
  refine ⟨Workers.sound_new 100 List.nil_suffix,?_,?_⟩
  · show (if (100 : Int)≤0 then 1 else (100 : Int).toNat)=100
    decide
  · intro w hw
    cases hw

theorem Reached.run {cfg : QuorumConfig} {es : List (Setting × NotifierAction)} {s t : Notifier}
    {before after : List Effect} (h : s.Reached)
    (hr : StCache.run (traced Effect.visible (Notifier.step cfg)) (s,before) es=some (t,after)) :
    t.Reached :=
  traced_invariant Effect.visible (Notifier.step cfg) (fun _ _ => True) (fun s _ => s.Reached)
    (fun _ _ _ _ _ _ h _ hs => h.step (step_steps hs)) es s t before after h (fun _ _ => trivial) hr

theorem reached_run {cfg : QuorumConfig} {es : List (Setting × NotifierAction)} {s : Notifier}
    {effects : List Effect}
    (hr : run (traced Effect.visible (step cfg)) ({},[]) es=some (s,effects)) : s.Reached :=
  reached_init.run hr

/-- Only goroutines of the pool run scripts or wait with results. -/
theorem Reached.few {s : Notifier} (h : s.Reached) :
    (s.workers.inputs.filterMap Job.running).card+(s.workers.inputs.filterMap Job.result).card≤
      100 := by
  have received : (s.workers.dispatcher.input.filterMap Job.running)=[] ∧
      (s.workers.dispatcher.input.filterMap Job.result)=[] := by
    constructor <;> rw [List.filterMap_eq_nil_iff] <;> intro w hw
    · obtain ⟨x,rfl⟩ := h.received w hw
      rfl
    · obtain ⟨x,rfl⟩ := h.received w hw
      rfl
  have each (l : List Job) :
      (l.filterMap Job.running).length+(l.filterMap Job.result).length≤l.length := by
    induction l with
    | nil => exact Nat.le_refl 0
    | cons job l ih =>
      cases job <;> simp only [List.filterMap_cons,Job.running,Job.result,List.length_cons] <;> omega
  have body := each s.workers.busy
  have tokens := h.sound.tokens
  have room := h.sound.balanced.room
  have capacity := h.capacity
  rw [Workers.inputs,Multiset.filterMap_add,Multiset.filterMap_add,Multiset.filterMap_coe,
    Multiset.filterMap_coe,Multiset.filterMap_coe,Multiset.filterMap_coe,received.1,received.2]
  simp only [Multiset.card_add,Multiset.coe_card,List.length_nil]
  omega

end Notifier

/-- doTimeoutShellCmd with its pool of 100, quorumCheck2 and their unbuffered channels do what the
checker does: every run is one of the checker in the same settings, with the same entries
submitted, commands sent and scripts run in the same order. Never more than 100 scripts run or
wait for quorumCheck2, and it has at most one more result in its hands. -/
theorem notifier_refines_checker (cfg : QuorumConfig) (es : List (Setting × NotifierAction))
    (s : Notifier) (effects : List Effect)
    (hr : run (traced Effect.visible (Notifier.step cfg)) ({},[]) es=some (s,effects)) :
    (s.workers.inputs.filterMap Job.running).card+
      (s.workers.inputs.filterMap Job.result).card≤100 ∧
    ∃ fs c,run (traced Effect.visible (Checker.stepIn cfg)) ({},[]) fs=some (c,effects) ∧ s.Agrees c ∧
      (fs.map Prod.fst).Sublist (es.map Prod.fst) ∧ c.running.length+c.results.length≤101 := by
  have few := (Notifier.reached_run hr).few
  obtain ⟨fs,c,hf,agrees,sub⟩ := traced_simulates Effect.visible (Notifier.step cfg)
    (Checker.stepIn cfg) Notifier.Agrees (by
      intro u c env a v eff agrees hs
      rcases agrees.step (Notifier.step_steps hs) with ⟨rfl,stays⟩|matched
      · exact .inl ⟨rfl,stays⟩
      · exact .inr matched)
    es {} s {} [] effects ⟨rfl,rfl,rfl,rfl⟩ hr
  refine ⟨few,fs,c,hf,agrees,sub,?_⟩
  have running := congrArg Multiset.card agrees.running
  have results := congrArg Multiset.card agrees.results
  have held : s.recorder.held.length≤1 := by
    cases s.recorder with
    | record r => exact Nat.le_refl 1
    | select | returned => exact Nat.zero_le 1
  rw [Multiset.coe_card] at running
  rw [Multiset.coe_card,Multiset.card_add,Multiset.coe_card] at results
  omega

/-- The fsm of a node whose only key k was reported down at 62 s after it was up. -/
def downFsm : Fsm :=
  {Fsm.new with gcm := ⟨(∅ : Finmap _).insert (goStr "k")
    (soloEntry (.ofNano 2000000000) gossipUp 62 gossipDown)⟩}

/-- A pass that sends one command, and the command's way to quorumCheck2; the node has lost its
permission when the result is recorded. -/
def oneNotification : List (Setting × NotifierAction) :=
  ([.enter,.tick (.barrier true),
    .tick (.order [(goStr "k",soloEntry (.ofNano 2000000000) gossipUp 62 gossipDown)]),
    .tick (.check 63000000000 (soloScan 62 63 gossipDown)),.tick (.clock 63000000000),.tick .go,
    .tick .go,.tick .go,.dispatch,.dispatch,.dispatch,.test 0,.script 0 (.exited 0 [] []),
    .receive 0].map (fun a => (⟨downFsm,true⟩,a)))++
  [(⟨downFsm,false⟩,.record),(⟨downFsm,false⟩,.release 0)]

theorem notifier_refines_checker_one :
    ∃ s effects fs c,run (traced Effect.visible (Notifier.step soloConfig)) ({},[]) oneNotification=
        some (s,effects) ∧ effects.length=3 ∧
      run (traced Effect.visible (Checker.stepIn soloConfig)) ({},[]) fs=some (c,effects) ∧ s.Agrees c ∧
        (fs.map Prod.fst).Sublist (oneNotification.map Prod.fst) := by
  have done : (run (traced Effect.visible (Notifier.step soloConfig)) ({},[]) oneNotification).map
      (fun p => p.2.length)=some 3 := by
    decide +kernel
  obtain ⟨⟨s,effects⟩,hr,three⟩ := Option.map_eq_some_iff.mp done
  obtain ⟨-,fs,c,hf,agrees,sub,-⟩ :=
    notifier_refines_checker soloConfig oneNotification s effects hr
  exact ⟨s,effects,fs,c,hr,three,hf,agrees,sub⟩

namespace Notifier

variable {cfg : QuorumConfig} {s t : Notifier} {env : Setting} {a : NotifierAction} {eff : Effect}

/-- What is left to do, for the pool and for quorumCheck2. -/
def left (s : Notifier) : Nat := 2*s.workers.left Job.weight+s.recorder.held.length

/-- Each step of the pipeline itself takes something from what is left to do. -/
theorem Steps.left (hs : s.Steps cfg env a t eff) (internal : a.Internal) : t.left < s.left := by
  have pool {w : Workers Job} (less : w.left Job.weight<s.workers.left Job.weight) :
      Notifier.left {s with workers := w}<s.left := by
    simp only [Notifier.left]
    omega
  cases hs with
  | enter | tick | cancel | leave => exact internal.elim
  | dispatch w hw => exact pool (Workers.left_dispatch hw)
  | start i x w hi permitted hw => exact pool (Workers.left_work hi hw (Nat.lt_succ_self 1))
  | drop i x w hi denied hw => exact pool (Workers.left_finish hw)
  | script i x o w hi hw => exact pool (Workers.left_work hi hw (Nat.lt_succ_self 0))
  | release i w hw => exact pool (Workers.left_release hw)
  | receive i r w hi free hw =>
    have less : w.left Job.weight<s.workers.left Job.weight := Workers.left_finish hw
    simp only [Notifier.left,free,Recorder.held,List.length_cons,List.length_nil]
    omega
  | record r held => simp [Notifier.left,held,Recorder.held]

/-- A goroutine in its body can go on, or quorumCheck2 can. -/
theorem busy_next (cfg : QuorumConfig) (s : Notifier) (env : Setting) (some : s.workers.busy≠[])
    (runs : s.recorder.runs=true) :
    ∃ a : NotifierAction,a.Internal ∧ (s.step cfg env a).isSome := by
  obtain ⟨job,rest,hb⟩ := List.exists_cons_of_ne_nil some
  have first : s.workers.busy[0]?=.some job := by rw [hb,List.getElem?_cons_zero]
  cases job with
  | test x =>
    refine ⟨.test 0,trivial,?_⟩
    cases permitted : env.writable <;> simp [step,work,first,permitted,Workers.step]
  | script x => exact ⟨.script 0 .notStarted,trivial,by simp [step,work,first,Workers.step]⟩
  | offer r =>
    cases hr : s.recorder with
    | select => exact ⟨.receive 0,trivial,by simp [step,work,first,hr,Workers.step]⟩
    | record q => exact ⟨.record,trivial,by simp [step,hr]⟩
    | returned => simp [hr,Recorder.runs] at runs

/-- While something is left to do and quorumCheck2 runs, some step of the pipeline is possible. -/
theorem Reached.next (h : s.Reached) (cfg : QuorumConfig) (env : Setting)
    (runs : s.recorder.runs=true) (todo : s.left≠0) :
    ∃ a : NotifierAction,a.Internal ∧ (s.step cfg env a).isSome := by
  by_cases released : s.workers.releasing=[]
  · by_cases idle : s.workers.busy=[]
    · by_cases still : s.workers.dispatcher=.select ∨ s.workers.dispatcher=.returned
      · have none : s.workers.left Job.weight=0 := by
          rcases still with hd|hd <;> simp [Workers.left,hd,idle,released]
        cases hr : s.recorder with
        | record q => exact ⟨.record,trivial,by simp [Notifier.step,hr]⟩
        | select => exact absurd (by simp [left,none,hr,Recorder.held]) todo
        | returned => simp [hr,Recorder.runs] at runs
      · obtain ⟨away,inside⟩ := not_or.mp still
        have moves := h.sound.dispatch_next (by rw [h.capacity]; decide) idle released away inside
        obtain ⟨w,hw⟩ := Option.isSome_iff_exists.mp moves
        exact ⟨.dispatch,trivial,by simp [Notifier.step,work,hw]⟩
    · exact busy_next cfg s env idle runs
  · obtain ⟨w,hw⟩ := Option.isSome_iff_exists.mp (h.sound.release_next released)
    exact ⟨.release 0,trivial,by simp [Notifier.step,work,hw]⟩

/-- Without quorumCheck2 a goroutine stays at resultCh. -/
theorem Steps.stuck (hs : s.Steps cfg env a t eff) (gone : s.recorder.runs=false) :
    t.recorder.runs=false ∧
      s.workers.inputs.filterMap Job.result≤t.workers.inputs.filterMap Job.result := by
  have same {w : Workers Job} (inputs : w.inputs=s.workers.inputs) :
      s.workers.inputs.filterMap Job.result≤w.inputs.filterMap Job.result := by
    rw [inputs]
  cases hs with
  | enter => exact ⟨gone,le_refl _⟩
  | tick st rest input sts eff w ht hx ha =>
    refine ⟨gone,?_⟩
    cases eff with
    | silent | submit | ran => exact same (congrArg Workers.inputs (Option.some.inj ha).symm)
    | sent x =>
      have more := Workers.inputs_receive ((s.accept_one x).symm.trans ha)
      simp only [more,job_test.2.2]
      exact le_refl _
  | dispatch w hw => exact ⟨gone,same (Workers.inputs_dispatch hw)⟩
  | cancel w hw => exact ⟨gone,same (Workers.inputs_cancel hw)⟩
  | release i w hw => exact ⟨gone,same (Workers.inputs_release hw)⟩
  | start i x w hi permitted hw =>
    have results := congrArg (Multiset.filterMap Job.result) (Workers.inputs_work hi hw)
    rw [job_test.2.2,job_script.2.2] at results
    exact ⟨gone,by simp only [results]; exact le_refl _⟩
  | drop i x w hi denied hw =>
    have results := congrArg (Multiset.filterMap Job.result) (Workers.inputs_finish hi hw)
    rw [job_test.2.2] at results
    exact ⟨gone,by simp only [results]; exact le_refl _⟩
  | script i x o w hi hw =>
    have results := congrArg (Multiset.filterMap Job.result) (Workers.inputs_work hi hw)
    rw [job_script.2.2,job_offer.2.2] at results
    exact ⟨gone,by simp only [results]; exact Multiset.le_cons_self _ _⟩
  | receive i r w hi free hw => simp [free,Recorder.runs] at gone
  | record r held => simp [held,Recorder.runs] at gone
  | leave free => simp [free,Recorder.runs] at gone

end Notifier

/-- While quorumCheck2 runs, the notification pipeline never deadlocks and loses no token: with a
command on its way a step of it is possible in every setting, each such step brings it closer to
its end, and at the end all tokens are back and the counter of the WaitGroup is zero. Once
quorumCheck2 has returned, every goroutine at resultCh stays there. -/
theorem notifier_drains (cfg : QuorumConfig) (es : List (Setting × NotifierAction)) (s : Notifier)
    (effects : List Effect) (hr : run (traced Effect.visible (Notifier.step cfg)) ({},[]) es=some (s,effects)) :
    (s.recorder.runs=true → ∀ env,s.left≠0 →
      ∃ a : NotifierAction,a.Internal ∧ (s.step cfg env a).isSome) ∧
    (∀ fs t seen,(∀ e∈fs,e.2.Internal) →
      run (traced Effect.visible (Notifier.step cfg)) (s,effects) fs=some (t,seen) →
      fs.length+t.left ≤ s.left) ∧
    (s.left=0 → s.workers.inputs=0 ∧ s.recorder.held=[] ∧ s.workers.pool.queue=0 ∧
      s.workers.pool.wg=0) ∧
    (s.recorder.runs=false → ∀ fs t seen,
      run (traced Effect.visible (Notifier.step cfg)) (s,effects) fs=some (t,seen) →
      s.workers.inputs.filterMap Job.result≤t.workers.inputs.filterMap Job.result) := by
  have reached := Notifier.reached_run hr
  refine ⟨fun runs env => reached.next cfg env runs,?_,?_,?_⟩
  · intro fs t seen internal hf
    exact traced_measure Effect.visible (Notifier.step cfg) NotifierAction.Internal Notifier.left
      (fun _ _ _ _ _ inside hs => (Notifier.step_steps hs).left inside) fs s t effects seen internal
      hf
  · intro zero
    have parts : s.workers.left Job.weight=0 ∧ s.recorder.held=[] := by
      rw [Notifier.left] at zero
      exact ⟨by omega,List.length_eq_zero_iff.mp (by omega)⟩
    obtain ⟨idle,released,still⟩ := Workers.left_eq_zero parts.1
    obtain ⟨inputs,queue,wg⟩ := reached.sound.at_rest idle released still
    exact ⟨inputs,parts.2,queue,wg⟩
  · intro gone fs t seen hf
    have inv := traced_invariant Effect.visible (Notifier.step cfg) (fun _ _ => True)
      (fun u _ => u.recorder.runs=false ∧
        s.workers.inputs.filterMap Job.result≤u.workers.inputs.filterMap Job.result)
      (by
        intro u _ env a v eff inside _ hs
        have next := (Notifier.step_steps hs).stuck inside.1
        exact ⟨next.1,inside.2.trans next.2⟩)
      fs s t effects seen ⟨gone,le_refl _⟩ (fun _ _ => trivial) hf
    exact inv.2

/-- The loop has just received a command, and eighteen units are left to do. In another run
quorumCheck2 returns when the script has ended, and its goroutine stays for ever. -/
theorem notifier_drains_one :
    (∃ s effects,run (traced Effect.visible (Notifier.step soloConfig)) ({},[])
        (oneNotification.take 8)=some (s,effects) ∧ s.left=18 ∧
      ∃ a : NotifierAction,a.Internal ∧ (s.step soloConfig ⟨downFsm,false⟩ a).isSome) ∧
    ∃ s effects,run (traced Effect.visible (Notifier.step soloConfig)) ({},[])
        (oneNotification.take 13++[(⟨downFsm,true⟩,.leave)])=some (s,effects) ∧
      ∀ fs t seen,run (traced Effect.visible (Notifier.step soloConfig)) (s,effects) fs=
        some (t,seen) → 1≤(t.workers.inputs.filterMap Job.result).card := by
  constructor
  · have done : (run (traced Effect.visible (Notifier.step soloConfig)) ({},[])
        (oneNotification.take 8)).map (fun p => (p.1.left,p.1.recorder.runs))=some (18,true) := by
      decide +kernel
    obtain ⟨⟨s,effects⟩,hr,facts⟩ := Option.map_eq_some_iff.mp done
    obtain ⟨left,runs⟩ := Prod.mk.inj facts
    have drains := notifier_drains soloConfig (oneNotification.take 8) s effects hr
    refine ⟨s,effects,hr,left,drains.1 runs ⟨downFsm,false⟩ ?_⟩
    intro zero
    exact absurd (left.symm.trans zero) (by decide)
  · have done : (run (traced Effect.visible (Notifier.step soloConfig)) ({},[])
        (oneNotification.take 13++[(⟨downFsm,true⟩,.leave)])).map (fun p => (p.1.recorder.runs,
          (p.1.workers.inputs.filterMap Job.result).card))=some (false,1) := by
      decide +kernel
    obtain ⟨⟨s,effects⟩,hr,facts⟩ := Option.map_eq_some_iff.mp done
    obtain ⟨gone,one⟩ := Prod.mk.inj facts
    have drains := notifier_drains soloConfig _ s effects hr
    refine ⟨s,effects,hr,?_⟩
    intro fs t seen hf
    have stays := Multiset.card_le_card (drains.2.2.2 gone fs t seen hf)
    exact one ▸ stays

end StCache
