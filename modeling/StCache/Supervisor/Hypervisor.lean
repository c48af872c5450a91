import StCache.Framework.Backoff
import StCache.Framework.Runs

namespace StCache

/-- A live process of the service; child is the one that fork returned, holds says whether it has
the write end of its pipe open. -/
structure Proc where
  generation : Nat
  child : Bool
  holds : Bool
  deriving DecidableEq

/-- Why the supervisor exits. -/
inductive Stop where
  | pipe
  | nonblock
  | fork
  | early
  | read
  | output
  deriving DecidableEq

/-- The next statement of the loop: before pipe, before waitpid, before read, or after sleep. -/
inductive Point where
  | top
  | waitpid
  | read
  | restart
  | stopped (why : Stop)
  deriving DecidableEq

/-- The variables of main, and the processes of the service. Statements run once wake is reached;
unread counts the writes to the pipe that nobody has read. -/
structure Hypervisor where
  now : Nat
  last : Nat
  wake : Nat
  ssec : Nat := 5
  firstStart : Bool := true
  point : Point := .top
  generation : Nat := 0
  procs : List Proc := []
  unread : Nat := 0
  deriving DecidableEq

inductive HypervisorEvent where
  | tick (n : Nat)
  | start
  | startFails (why : Stop)
  | interrupted
  | waited
  | read
  | readFails
  | restart
  | forks (i : Nat)
  | exits (i : Nat)
  | closes (i : Nat)
  | writes (i : Nat)
  deriving DecidableEq

namespace Hypervisor

def interval : Nat := 5

def maxInterval : Nat := 180

def init (now : Nat) : Hypervisor := {now := now,last := now,wake := now}

/-- The loop is at this statement and has slept enough. -/
def At (s : Hypervisor) (p : Point) : Prop := s.point=p ∧ s.wake ≤ s.now

instance (s : Hypervisor) (p : Point) : Decidable (s.At p) := inferInstanceAs (Decidable (_ ∧ _))

/-- The process of the current generation that waitpid waits for. -/
def childAlive (s : Hypervisor) : Bool :=
  s.procs.any (fun p => p.child && decide (p.generation=s.generation))

/-- Somebody has the write end of the current pipe open. -/
def held (s : Hypervisor) : Bool :=
  s.procs.any (fun p => p.holds && decide (p.generation=s.generation))

/-- pipe, set_nonblock and fork succeed. -/
def started (s : Hypervisor) : Hypervisor :=
  {s with
    point := .waitpid,generation := s.generation+1
    procs := ⟨s.generation+1,true,true⟩::s.procs,unread := 0}

/-- waitpid has returned the child. -/
def reaped (s : Hypervisor) : Hypervisor :=
  if s.firstStart ∧ s.now-s.last≤5 then {s with point := .stopped .early}
  else {s with point := .read,firstStart := false}

/-- The outcomes of read on the non-blocking end of the pipe, apart from errors. -/
def readPipe (s : Hypervisor) : Hypervisor :=
  if 0<s.unread then {s with point := .stopped .output}
  else if s.held then {s with wake := s.now+interval}
  else {s with point := .restart,wake := s.now+s.ssec}

/-- `(ssec << 1) < MAXINTERVAL ? (ssec << 1) : MAXINTERVAL` -/
def doubled (ssec : Nat) : Nat := if 2*ssec < maxInterval then 2*ssec else maxInterval

/-- After sleep(ssec). -/
def slept (s : Hypervisor) : Hypervisor :=
  if 3600<s.now-s.last then {s with point := .top,ssec := interval,last := s.now}
  else {s with point := .top,ssec := doubled s.ssec}

/-- None is a step that is not possible. -/
def step (s : Hypervisor) : HypervisorEvent → Option Hypervisor
  | .tick n => some {s with now := s.now+n}
  | .start => if s.At .top then some s.started else none
  | .startFails why =>
    if s.At .top ∧ why∈[Stop.pipe,.nonblock,.fork] then some {s with point := .stopped why} else none
  | .interrupted => if s.At .waitpid then some {s with wake := s.now+interval} else none
  | .waited => if s.At .waitpid ∧ s.childAlive=false then some s.reaped else none
  | .read => if s.At .read then some s.readPipe else none
  | .readFails => if s.At .read then some {s with point := .stopped .read} else none
  | .restart => if s.At .restart then some s.slept else none
  | .forks i => s.procs[i]?.map (fun p => {s with procs := s.procs++[{p with child := false}]})
  | .exits i =>
    if i<s.procs.length then some {s with procs := s.procs.eraseIdx i} else none
  | .closes i =>
    s.procs[i]?.map (fun p => {s with procs := s.procs.set i {p with holds := false}})
  | .writes i =>
    s.procs[i]?.bind (fun p =>
      if p.holds ∧ p.generation=s.generation then some {s with unread := s.unread+1} else none)

/-- Everything that can happen, with the branches of the loop. -/
inductive Steps (s : Hypervisor) : HypervisorEvent → Hypervisor → Prop where
  | tick (n : Nat) : Steps s (.tick n) {s with now := s.now+n}
  | start (h : s.At .top) : Steps s .start s.started
  | startFails (why : Stop) (h : s.At .top) (hw : why≠.early) :
      Steps s (.startFails why) {s with point := .stopped why}
  | interrupted (h : s.At .waitpid) : Steps s .interrupted {s with wake := s.now+interval}
  | early (h : s.At .waitpid) (first : s.firstStart=true) (soon : s.now-s.last≤5) :
      Steps s .waited {s with point := .stopped .early}
  | waited (h : s.At .waitpid) : Steps s .waited {s with point := .read,firstStart := false}
  | output (h : s.At .read) : Steps s .read {s with point := .stopped .output}
  | again (h : s.At .read) (held : s.held=true) :
      Steps s .read {s with wake := s.now+interval}
  | eof (h : s.At .read) (free : s.held=false) :
      Steps s .read {s with point := .restart,wake := s.now+s.ssec}
  | readFails (h : s.At .read) : Steps s .readFails {s with point := .stopped .read}
  | reset (h : s.At .restart) (long : 3600<s.now-s.last) :
      Steps s .restart {s with point := .top,ssec := interval,last := s.now}
  | double (h : s.At .restart) (soon : s.now-s.last≤3600) :
      Steps s .restart {s with point := .top,ssec := doubled s.ssec}
  | forks (i : Nat) (p : Proc) (hi : s.procs[i]?=some p) :
      Steps s (.forks i) {s with procs := s.procs++[{p with child := false}]}
  | exits (i : Nat) (hi : i<s.procs.length) :
      Steps s (.exits i) {s with procs := s.procs.eraseIdx i}
  | closes (i : Nat) (p : Proc) (hi : s.procs[i]?=some p) :
      Steps s (.closes i) {s with procs := s.procs.set i {p with holds := false}}
  | writes (i : Nat) (p : Proc) (hi : s.procs[i]?=some p) :
      Steps s (.writes i) {s with unread := s.unread+1}

theorem step_steps {s t : Hypervisor} {e : HypervisorEvent} (hs : s.step e=some t) :
    s.Steps e t := by
  cases e with
  | tick n =>
    cases hs
    exact .tick n
  | start =>
    simp only [step] at hs
    split_ifs at hs with h
    cases hs
    exact .start h
  | startFails why =>
    simp only [step] at hs
    split_ifs at hs with h
    cases hs
    exact .startFails why h.1 (fun early => absurd (early ▸ h.2) (by decide))
  | interrupted =>
    simp only [step] at hs
    split_ifs at hs with h
    cases hs
    exact .interrupted h
  | waited =>
    simp only [step,reaped] at hs
    split_ifs at hs with h first
    · cases hs
      exact .early h.1 first.1 first.2
    · cases hs
      exact .waited h.1
  | read =>
    simp only [step,readPipe] at hs
    split_ifs at hs with h unread held
    · cases hs
      exact .output h
    · cases hs
      exact .again h held
    · cases hs
      exact .eof h (Bool.not_eq_true _ ▸ held)
  | readFails =>
    simp only [step] at hs
    split_ifs at hs with h
    cases hs
    exact .readFails h
  | restart =>
    simp only [step,slept] at hs
    split_ifs at hs with h long
    · cases hs
      exact .reset h long
    · cases hs
      exact .double h (Nat.le_of_not_lt long)
  | forks i =>
    obtain ⟨p,hi,rfl⟩ := Option.map_eq_some_iff.mp hs
    exact .forks i p hi
  | exits i =>
    simp only [step] at hs
    split_ifs at hs with h
    cases hs
    exact .exits i h
  | closes i =>
    obtain ⟨p,hi,rfl⟩ := Option.map_eq_some_iff.mp hs
    exact .closes i p hi
  | writes i =>
    obtain ⟨p,hi,hs⟩ := Option.bind_eq_some_iff.mp hs
    split_ifs at hs
    cases hs
    exact .writes i p hi

variable {s t : Hypervisor} {e : HypervisorEvent}

/-- All live processes belong to the current generation and hold its pipe, and none is left when
the loop is past end of file. -/
structure OneGeneration (s : Hypervisor) : Prop where
  current : ∀ p∈s.procs,p.generation=s.generation ∧ p.holds=true
  gone : s.point=.top ∨ s.point=.restart → s.procs=[]

theorem oneGeneration_init (now : Nat) : (init now).OneGeneration := ⟨nofun,fun _ => rfl⟩

/-- A process that holds the pipe keeps read from end of file. -/
theorem OneGeneration.none_left (h : s.OneGeneration) (free : s.held=false) : s.procs=[] := by
  rw [List.eq_nil_iff_forall_not_mem]
  intro p hp
  have facts := h.current p hp
  have apart := List.any_eq_false.mp free p hp
  simp [facts.1,facts.2] at apart

theorem OneGeneration.step (h : s.OneGeneration) (open_ends : ∀ i,e≠.closes i) (hs : s.Steps e t) :
    t.OneGeneration := by
  cases hs with
  | tick | interrupted => exact ⟨h.current,h.gone⟩
  | start here =>
    have none := h.gone (.inl here.1)
    refine ⟨?_,nofun⟩
    intro p hp
    rw [started,none] at hp
    rw [List.mem_singleton.mp hp]
    exact ⟨rfl,rfl⟩
  | startFails | early | output | readFails => exact ⟨h.current,nofun⟩
  | waited => exact ⟨h.current,nofun⟩
  | again here held => exact ⟨h.current,h.gone⟩
  | eof here free => exact ⟨h.current,fun _ => h.none_left free⟩
  | reset here long => exact ⟨h.current,fun _ => h.gone (.inr here.1)⟩
  | double here soon => exact ⟨h.current,fun _ => h.gone (.inr here.1)⟩
  | forks i p hi =>
    constructor
    · intro q hq
      rcases List.mem_append.mp hq with old|new
      · exact h.current q old
      · rw [List.mem_singleton.mp new]
        exact h.current p (List.mem_of_getElem? hi)
    · intro past
      rw [h.gone past] at hi
      cases hi
  | exits i hi =>
    constructor
    · intro q hq
      exact h.current q (List.mem_of_mem_eraseIdx hq)
    · intro past
      rw [h.gone past] at hi
      cases hi
  | closes i => exact absurd rfl (open_ends i)
  | writes i p hi => exact ⟨h.current,h.gone⟩

/-- Before the first child has been waited for nothing was restarted. -/
structure FirstStart (s : Hypervisor) : Prop where
  fresh : s.firstStart=true →
    s.generation≤1 ∧ (s.point=.top → s.generation=0) ∧ s.point≠.read ∧ s.point≠.restart
  early : s.point=.stopped .early → s.firstStart=true

theorem firstStart_init (now : Nat) : (init now).FirstStart :=
  ⟨fun _ => ⟨Nat.zero_le 1,fun _ => rfl,nofun,nofun⟩,nofun⟩

theorem FirstStart.step (h : s.FirstStart) (hs : s.Steps e t) : t.FirstStart := by
  cases hs with
  | tick | interrupted | again | forks | exits | closes | writes => exact ⟨h.fresh,h.early⟩
  | start here =>
    refine ⟨fun first => ?_,nofun⟩
    have none := (h.fresh first).2.1 here.1
    exact ⟨by show s.generation+1≤1; omega,nofun,nofun,nofun⟩
  | startFails why here other =>
    exact ⟨fun first => ⟨(h.fresh first).1,nofun,nofun,nofun⟩,
      fun same => absurd (Point.stopped.inj same) other⟩
  | early here first soon => exact ⟨fun _ => ⟨(h.fresh first).1,nofun,nofun,nofun⟩,fun _ => first⟩
  | waited here => exact ⟨nofun,nofun⟩
  | output | readFails => exact ⟨fun first => ⟨(h.fresh first).1,nofun,nofun,nofun⟩,nofun⟩
  | eof here free => exact ⟨fun first => absurd here.1 (h.fresh first).2.2.1,nofun⟩
  | reset here long => exact ⟨fun first => absurd here.1 (h.fresh first).2.2.2,nofun⟩
  | double here soon => exact ⟨fun first => absurd here.1 (h.fresh first).2.2.2,nofun⟩

/-- After k restarts since last was set, each of them after its sleep. No more than 24 sleeps fit
into an hour, so each hour pays for 25 starts. -/
structure Throttled (start : Nat) (k : Nat) (s : Hypervisor) : Prop where
  ssec : s.ssec=backoff interval maxInterval k
  hour : backoffs interval maxInterval k≤3600
  slept : s.last+backoffs interval maxInterval k ≤ s.now
  sleeping : s.point=.restart → s.last+backoffs interval maxInterval (k+1) ≤ s.wake
  begun : start ≤ s.last
  paid : 3601*s.generation≤25*(s.last-start)+3601*(k+1)
  due : s.point=.top → 3601*s.generation≤25*(s.last-start)+3601*k
  wakes : s.wake ≤ s.now+maxInterval
  naps : s.point≠.restart → s.wake ≤ s.now+interval

theorem throttled_init (now : Nat) : Throttled now 0 (init now) :=
  ⟨rfl,Nat.zero_le _,Nat.le_refl _,nofun,Nat.le_refl _,Nat.zero_le _,fun _ => Nat.zero_le _,
    Nat.le_add_right _ _,fun _ => Nat.le_add_right _ _⟩

theorem Throttled.few {start k : Nat} (h : Throttled start k s) : k<25 := by
  have long : 3600<backoffs interval maxInterval 25 := by decide
  exact waits_lt (by decide) (by decide) h.hour long

/-- The processes of the service do not touch the variables of the loop. -/
theorem Throttled.frame {start k : Nat} (h : Throttled start k s) (procs : List Proc) (unread : Nat) :
    Throttled start k {s with procs := procs,unread := unread} :=
  ⟨h.ssec,h.hour,h.slept,h.sleeping,h.begun,h.paid,h.due,h.wakes,h.naps⟩

theorem Throttled.step {start k : Nat} (h : Throttled start k s) (hs : s.Steps e t) :
    ∃ k,Throttled start k t := by
  have short : interval ≤ maxInterval := by decide
  have few := h.few
  cases hs with
  | tick n =>
    refine ⟨k,h.ssec,h.hour,Nat.le_add_right_of_le h.slept,h.sleeping,h.begun,h.paid,h.due,?_,?_⟩
    · have wakes := h.wakes
      show s.wake ≤ s.now+n+maxInterval
      omega
    · intro awake
      have naps := h.naps awake
      show s.wake ≤ s.now+n+interval
      omega
  | start here =>
    refine ⟨k,h.ssec,h.hour,h.slept,nofun,h.begun,?_,nofun,h.wakes,fun _ => ?_⟩
    · have due := h.due here.1
      dsimp only [started]
      omega
    · exact h.naps (by rw [here.1]; exact nofun)
  | startFails why here | early here | output here | readFails here | waited here =>
    exact ⟨k,h.ssec,h.hour,h.slept,nofun,h.begun,h.paid,nofun,h.wakes,
      fun _ => h.naps (by rw [here.1]; exact nofun)⟩
  | interrupted here =>
    refine ⟨k,h.ssec,h.hour,h.slept,fun past => ?_,h.begun,h.paid,h.due,?_,fun _ => Nat.le_refl _⟩
    · exact absurd (here.1.symm.trans past) nofun
    · exact Nat.add_le_add_left short _
  | again here =>
    refine ⟨k,h.ssec,h.hour,h.slept,fun past => ?_,h.begun,h.paid,h.due,?_,fun _ => Nat.le_refl _⟩
    · exact absurd (here.1.symm.trans past) nofun
    · exact Nat.add_le_add_left short _
  | eof here free =>
    have slept := h.slept
    have ssec := h.ssec
    have capped := backoff_le interval maxInterval k
    refine ⟨k,h.ssec,h.hour,h.slept,fun _ => ?_,h.begun,h.paid,nofun,?_,fun past => absurd rfl past⟩
    · show s.last+(backoffs interval maxInterval k+backoff interval maxInterval k) ≤ s.now+s.ssec
      omega
    · show s.now+s.ssec ≤ s.now+maxInterval
      omega
  | reset here long =>
    have begun := h.begun
    have paid := h.paid
    have due : 3601*s.generation≤25*(s.now-start)+3601*0 := by omega
    refine ⟨0,(backoff_zero short).symm,Nat.zero_le _,Nat.le_refl _,nofun,?_,?_,fun _ => due,h.wakes,
      fun _ => Nat.le_add_right_of_le here.2⟩
    · show start ≤ s.now
      omega
    · exact Nat.le_add_right_of_le due
  | double here soon =>
    have asleep := h.sleeping here.1
    have awake := here.2
    refine ⟨k+1,?_,?_,?_,nofun,h.begun,?_,fun _ => h.paid,h.wakes,
      fun _ => Nat.le_add_right_of_le here.2⟩
    · rw [backoff_succ,←h.ssec]
      rfl
    · omega
    · show s.last+backoffs interval maxInterval (k+1) ≤ s.now
      omega
    · exact Nat.le_trans h.paid
        (Nat.add_le_add_left (Nat.mul_le_mul_left 3601 (Nat.le_succ (k+1))) _)
  | forks i p hi => exact ⟨k,h.frame _ s.unread⟩
  | exits i hi => exact ⟨k,h.frame _ s.unread⟩
  | closes i p hi => exact ⟨k,h.frame _ s.unread⟩
  | writes i p hi => exact ⟨k,h.frame s.procs _⟩

theorem throttled_run {now : Nat} {es : List HypervisorEvent} (hr : run step (init now) es=some s) :
    ∃ k,Throttled now k s :=
  run_invariant step (fun _ _ => True) (fun s => ∃ k,Throttled now k s)
    (fun _ _ _ ⟨_,h⟩ _ hs => h.step (step_steps hs)) es _ s ⟨0,throttled_init now⟩
    (along_of_forall _ _ _ es (fun _ _ => trivial)) hr

end Hypervisor

/-- The supervisor never runs two generations of the service at once: as long as the processes of
the service keep the pipe they inherit, all of them belong to the child started last, and a child is
started only when all are gone. An early death stops it in the first generation only. -/
theorem hypervisor_one_generation (now : Nat) (es : List HypervisorEvent)
    (open_ends : ∀ i,.closes i∉es) (s : Hypervisor)
    (hr : run Hypervisor.step (.init now) es=some s) :
    (∀ p∈s.procs,p.generation=s.generation) ∧
    (∀ t,s.step .start=some t → s.procs=[]) ∧
    (s.point=.stopped .early → s.generation≤1) := by
  have one := run_invariant Hypervisor.step (fun _ e => ∀ i,e≠.closes i) Hypervisor.OneGeneration
    (fun _ _ _ h apart hs => h.step apart (Hypervisor.step_steps hs)) es _ s
    (Hypervisor.oneGeneration_init now)
    (along_of_forall _ _ _ es (fun e he i same => open_ends i (same ▸ he))) hr
  have first := run_invariant Hypervisor.step (fun _ _ => True) Hypervisor.FirstStart
    (fun _ _ _ h _ hs => h.step (Hypervisor.step_steps hs)) es _ s (Hypervisor.firstStart_init now)
    (along_of_forall _ _ _ es (fun _ _ => trivial)) hr
  refine ⟨fun p hp => (one.current p hp).1,?_,fun early => (first.fresh (first.early early)).1⟩
  intro t ht
  cases Hypervisor.step_steps ht with
  | start here => exact one.gone (.inl here.1)

/-- The first child leaves a daemon behind, and the second one is started when both are gone. -/
def daemonRun : List HypervisorEvent :=
  [.start,.forks 0,.tick 6,.exits 0,.waited,.read,.tick 5,.exits 0,.read,.tick 5,.restart,.start]

theorem hypervisor_one_generation_daemon :
    ∃ s,run Hypervisor.step (.init 0) daemonRun=some s ∧ s.procs=[⟨2,true,true⟩] ∧
      (∀ p∈s.procs,p.generation=s.generation) ∧ (s.point=.stopped .early → s.generation≤1) := by
  have done : (run Hypervisor.step (.init 0) daemonRun).map Hypervisor.procs=
      some [⟨2,true,true⟩] := by
    decide +kernel
  obtain ⟨s,hr,procs⟩ := Option.map_eq_some_iff.mp done
  obtain ⟨one,-,first⟩ := hypervisor_one_generation 0 daemonRun (by simp [daemonRun]) s hr
  exact ⟨s,hr,procs,one,first⟩

/-- A service that crashes again and again is started at most 25 times an hour, apart from the
first 25 starts, and no sleep is longer than three minutes. -/
theorem hypervisor_throttles (now : Nat) (es : List HypervisorEvent) (s : Hypervisor)
    (hr : run Hypervisor.step (.init now) es=some s) :
    3601*s.generation≤25*(s.now-now)+3601*25 ∧ s.wake ≤ s.now+180 := by
  obtain ⟨k,throttled⟩ := Hypervisor.throttled_run hr
  have slept := throttled.slept
  have elapsed : 25*(s.last-now)≤25*(s.now-now) := by omega
  exact ⟨Nat.le_trans throttled.paid
    (Nat.add_le_add elapsed (Nat.mul_le_mul_left 3601 throttled.few)),throttled.wakes⟩

theorem hypervisor_throttles_daemon :
    ∃ s,run Hypervisor.step (.init 0) daemonRun=some s ∧ s.generation=2 ∧
      3601*s.generation≤25*(s.now-0)+3601*25 ∧ s.wake ≤ s.now+180 := by
  have done : (run Hypervisor.step (.init 0) daemonRun).map Hypervisor.generation=some 2 := by
    decide +kernel
  obtain ⟨s,hr,two⟩ := Option.map_eq_some_iff.mp done
  exact ⟨s,hr,two,hypervisor_throttles 0 daemonRun s hr⟩

namespace Hypervisor

/-- What the loop does without idle time: it sleeps at most until wake, and then executes its next
statement, which does not fail. -/
def Undelayed (s : Hypervisor) : HypervisorEvent → Prop
  | .tick n => 0<n ∧ s.now+n ≤ s.wake
  | .start => True
  | .waited => True
  | .read => True
  | .restart => True
  | _ => False

/-- Whatever the loop does without idle time, it starts the next generation by this time. -/
def Recovers (s : Hypervisor) (deadline : Nat) : Prop :=
  Inevitable step Undelayed (fun t => t.generation=s.generation+1 ∧ t.now≤deadline) s

/-- The statement the loop is at. -/
def Point.statement : Point → Option HypervisorEvent
  | .top => some .start
  | .waitpid => some .waited
  | .read => some .read
  | .restart => some .restart
  | .stopped _ => none

/-- Once awake, the loop can only execute the statement it is at. -/
theorem statement_of_awake {s t : Hypervisor} {e : HypervisorEvent} (awake : s.wake ≤ s.now)
    (ok : s.Undelayed e) (hs : s.step e=some t) : Point.statement s.point=some e := by
  cases step_steps hs with
  | tick n =>
    have little : 0<n ∧ s.now+n ≤ s.wake := ok
    omega
  | start h => rw [h.1,Point.statement]
  | early h => rw [h.1,Point.statement]
  | waited h => rw [h.1,Point.statement]
  | output h => rw [h.1,Point.statement]
  | again h => rw [h.1,Point.statement]
  | eof h => rw [h.1,Point.statement]
  | reset h => rw [h.1,Point.statement]
  | double h => rw [h.1,Point.statement]
  | _ => exact absurd ok id

section Recovery
variable {s t : Hypervisor} {e : HypervisorEvent} {P : Hypervisor → Prop}

theorem inevitable_of_statement (awake : s.wake ≤ s.now) (here : Point.statement s.point=some e)
    (ok : s.Undelayed e) (hs : s.step e=some t) (h : Inevitable step Undelayed P t) :
    Inevitable step Undelayed P s := by
  refine .next ⟨e,t,ok,hs⟩ (fun e' t' ok' hs' => ?_)
  obtain rfl : e=e' := Option.some.inj (here.symm.trans (statement_of_awake awake ok' hs'))
  obtain rfl : t=t' := Option.some.inj (hs.symm.trans hs')
  exact h

/-- The sleep goes on until wake. -/
def woken (s : Hypervisor) : Hypervisor := {s with now := max s.now s.wake}

theorem woken_at {p : Point} (here : s.point=p) : s.woken.At p := ⟨here,Nat.le_max_right _ _⟩

/-- While it sleeps, nothing but time can pass. -/
theorem inevitable_asleep (h : Inevitable step Undelayed P s.woken) :
    Inevitable step Undelayed P s := by
  induction left : s.wake-s.now using Nat.strongRecOn generalizing s with
  | ind n ih =>
    subst left
    by_cases awake : s.wake ≤ s.now
    · have same : s.woken=s := by rw [woken,Nat.max_eq_left awake]
      exact same ▸ h
    · refine .next ⟨.tick (s.wake-s.now),_,⟨by omega,by omega⟩,rfl⟩ (fun e t ok hs => ?_)
      cases step_steps hs with
      | tick n =>
        have little : 0<n ∧ s.now+n ≤ s.wake := ok
        have later : (max (s.now+n) s.wake)=max s.now s.wake := by omega
        refine ih (s.wake-(s.now+n)) (by omega) ?_ rfl
        rw [woken,later]
        exact h
      | start h => exact absurd h.2 awake
      | early h => exact absurd h.2 awake
      | waited h => exact absurd h.2 awake
      | output h => exact absurd h.2 awake
      | again h => exact absurd h.2 awake
      | eof h => exact absurd h.2 awake
      | reset h => exact absurd h.2 awake
      | double h => exact absurd h.2 awake
      | _ => exact absurd ok id

/-- The sleep, and one statement that stays in the generation. -/
theorem Recovers.before {deadline : Nat} (h : t.Recovers deadline)
    (here : Point.statement s.point=some e) (ok : s.woken.Undelayed e)
    (hs : s.woken.step e=some t) (same : t.generation=s.generation) : s.Recovers deadline := by
  refine inevitable_asleep (inevitable_of_statement (Nat.le_max_right _ _) here ok hs ?_)
  rw [Recovers,same] at h
  exact h

theorem recovers_top (here : s.point=.top) : s.Recovers (max s.now s.wake) := by
  have ready := woken_at here
  have starts : s.woken.step .start=some s.woken.started := if_pos ready
  exact inevitable_asleep (inevitable_of_statement (e := .start) ready.2 (by rw [ready.1]; rfl)
    trivial starts (.here ⟨rfl,Nat.le_refl _⟩))

theorem recovers_restart (here : s.point=.restart) : s.Recovers (max s.now s.wake) := by
  have ready := woken_at here
  have top : s.woken.slept.point=.top ∧ s.woken.slept.generation=s.generation ∧
      max s.woken.slept.now s.woken.slept.wake=max s.now s.wake := by
    unfold slept
    split_ifs <;> exact ⟨rfl,rfl,Nat.max_eq_left ready.2⟩
  have next := recovers_top top.1
  rw [top.2.2] at next
  exact next.before (e := .restart) (by rw [here]; rfl) trivial (if_pos ready) top.2.1

theorem recovers_read (here : s.point=.read) (gone : s.procs=[]) (silent : s.unread=0) :
    s.Recovers (max s.now s.wake+s.ssec) := by
  have ready := woken_at here
  have eof : s.woken.readPipe=
      {s.woken with point := .restart,wake := s.woken.now+s.ssec} := by
    simp [readPipe,held,woken,gone,silent]
  have next : Recovers {s.woken with point := .restart,wake := s.woken.now+s.ssec}
      (max s.woken.now (s.woken.now+s.ssec)) := recovers_restart rfl
  rw [Nat.max_eq_right (Nat.le_add_right _ _),←eof] at next
  exact next.before (e := .read) (by rw [here]; rfl) trivial (if_pos ready) (by rw [eof]; rfl)

theorem recovers_waitpid (here : s.point=.waitpid) (gone : s.procs=[]) (silent : s.unread=0)
    (late : s.firstStart=true → 5<s.now-s.last) : s.Recovers (max s.now s.wake+s.ssec) := by
  have ready := woken_at here
  have reads : s.woken.reaped={s.woken with point := .read,firstStart := false} := by
    refine if_neg ?_
    rintro ⟨first,soon⟩
    have long := late first
    have later : s.woken.now-s.woken.last=max s.now s.wake-s.last := rfl
    omega
  have childless : s.woken.childAlive=false := by simp [childAlive,woken,gone]
  have next : Recovers {s.woken with point := .read,firstStart := false}
      (max s.woken.now s.wake+s.ssec) := recovers_read rfl gone silent
  rw [show max s.woken.now s.wake=max s.now s.wake from Nat.max_eq_left ready.2,←reads] at next
  exact next.before (e := .waited) (by rw [here]; rfl) trivial (if_pos ⟨ready,childless⟩)
    (by rw [reads]; rfl)

theorem Recovers.mono {deadline later : Nat} (h : s.Recovers deadline) (le : deadline≤later) :
    s.Recovers later :=
  Inevitable.mono h (fun _ done => ⟨done.1,Nat.le_trans done.2 le⟩)

end Recovery

end Hypervisor

/-- The supervisor brings the service back: once all its processes are gone without having written
to the pipe, every schedule of the loop without idle time starts the next generation within 185
seconds, unless the loop has stopped, a system call fails or the first child died within five
seconds. -/
theorem hypervisor_restarts (now : Nat) (es : List HypervisorEvent) (s : Hypervisor)
    (hr : run Hypervisor.step (.init now) es=some s) (runs : ∀ why,s.point≠.stopped why)
    (gone : s.procs=[]) (silent : s.unread=0) (late : s.firstStart=true → 5<s.now-s.last) :
    s.Recovers (s.now+185) := by
  obtain ⟨k,throttled⟩ := Hypervisor.throttled_run hr
  have capped := backoff_le Hypervisor.interval Hypervisor.maxInterval k
  rw [←throttled.ssec] at capped
  have wakes : s.wake ≤ s.now+180 := throttled.wakes
  have sleeps : s.ssec≤180 := capped
  have naps (awake : s.point≠.restart) : s.wake ≤ s.now+5 := throttled.naps awake
  cases here : s.point with
  | stopped why => exact absurd here (runs why)
  | top => exact (Hypervisor.recovers_top here).mono (by omega)
  | restart => exact (Hypervisor.recovers_restart here).mono (by omega)
  | waitpid =>
    have soon := naps (by rw [here]; exact nofun)
    exact (Hypervisor.recovers_waitpid here gone silent late).mono (by omega)
  | read =>
    have soon := naps (by rw [here]; exact nofun)
    exact (Hypervisor.recovers_read here gone silent).mono (by omega)

theorem hypervisor_restarts_daemon :
    ∃ s,run Hypervisor.step (.init 0) (daemonRun.take 8)=some s ∧ s.procs=[] ∧
      s.Recovers (s.now+185) := by
  have done : (run Hypervisor.step (.init 0) (daemonRun.take 8)).map
      (fun s => (s.point,s.procs,s.unread,s.firstStart))=some (.read,[],0,false) := by
    decide +kernel
  obtain ⟨s,hr,facts⟩ := Option.map_eq_some_iff.mp done
  simp only [Prod.mk.injEq] at facts
  obtain ⟨point,procs,unread,first⟩ := facts
  refine ⟨s,hr,procs,hypervisor_restarts 0 _ s hr ?_ procs unread ?_⟩
  · intro why
    rw [point]
    exact nofun
  · rw [first]
    exact nofun

end StCache
