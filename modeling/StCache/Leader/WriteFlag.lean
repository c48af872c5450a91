import Mathlib.Data.List.Chain
import StCache.Framework.Runs

namespace StCache

/-- Where the main goroutine of raft is: outside runLeader, at the first send of it, in its loop, at
the send of its deferred function, or ended by a shutdown. -/
inductive RaftPhase where
  | other
  | entering
  | leading
  | leaving
  | stopped
  deriving DecidableEq

namespace RaftPhase

def leads : RaftPhase → Bool
  | .entering => true
  | .leading => true
  | _ => false

/-- What runLeader is about to send. -/
def unsent : RaftPhase → List Bool
  | .entering => [true]
  | .leaving => [false]
  | _ => []

end RaftPhase

/-- `monitor` is the value monitorLeadrship has received. Kept for reference: the changes of the
leadership, the calls of setWriteFlag, and the values that were never sent. -/
structure Leadership where
  phase : RaftPhase := .other
  shutdown : Bool := false
  leaderNotifyCh : List Bool := []
  monitor : Option Bool := none
  enableWrite : Bool := false
  changes : List Bool := []
  flags : List Bool := []
  dropped : List Bool := []
  deriving DecidableEq

inductive LeadershipEvent where
  | elected
  | stepDown
  | shutdown
  | notify
  | giveUp
  | receive
  | setWriteFlag
  deriving DecidableEq

/-- The event passes a notification on. -/
def LeadershipEvent.Passes : LeadershipEvent → Prop
  | .notify => True
  | .receive => True
  | .setWriteFlag => True
  | _ => False

namespace Leadership

/-- `notify` is the send of runLeader, `giveUp` the shutdown case of the select around it: on the
way in nothing is sent, on the way out what fits into the channel. -/
def step (s : Leadership) : LeadershipEvent → Option Leadership
  | .elected =>
    match s.phase,s.shutdown with
    | .other,false => some {s with phase := .entering,changes := s.changes++[true]}
    | _,_ => none
  | .stepDown =>
    match s.phase with
    | .leading => some {s with phase := .leaving,changes := s.changes++[false]}
    | _ => none
  | .shutdown => some {s with shutdown := true}
  | .notify =>
    match s.phase,s.leaderNotifyCh with
    | .entering,[] => some {s with phase := .leading,leaderNotifyCh := [true]}
    | .leaving,[] => some {s with phase := .other,leaderNotifyCh := [false]}
    | _,_ => none
  | .giveUp =>
    match s.phase,s.shutdown,s.leaderNotifyCh with
    | .entering,true,_ => some {s with phase := .leading,dropped := s.dropped++[true]}
    | .leaving,true,[] => some {s with phase := .stopped,leaderNotifyCh := [false]}
    | .leaving,true,_::_ => some {s with phase := .stopped,dropped := s.dropped++[false]}
    | _,_,_ => none
  | .receive =>
    match s.monitor,s.leaderNotifyCh with
    | none,b::rest => some {s with monitor := some b,leaderNotifyCh := rest}
    | _,_ => none
  | .setWriteFlag =>
    match s.monitor with
    | some b => some {s with monitor := none,enableWrite := b,flags := s.flags++[b]}
    | none => none

/-- Everything that can happen. -/
inductive Steps (s : Leadership) : LeadershipEvent → Leadership → Prop where
  | elected (hp : s.phase=.other) (hs : s.shutdown=false) :
      Steps s .elected {s with phase := .entering,changes := s.changes++[true]}
  | stepDown (hp : s.phase=.leading) :
      Steps s .stepDown {s with phase := .leaving,changes := s.changes++[false]}
  | shutdown : Steps s .shutdown {s with shutdown := true}
  | enter (hp : s.phase=.entering) (hc : s.leaderNotifyCh=[]) :
      Steps s .notify {s with phase := .leading,leaderNotifyCh := [true]}
  | leave (hp : s.phase=.leaving) (hc : s.leaderNotifyCh=[]) :
      Steps s .notify {s with phase := .other,leaderNotifyCh := [false]}
  | skip (hp : s.phase=.entering) (hs : s.shutdown=true) :
      Steps s .giveUp {s with phase := .leading,dropped := s.dropped++[true]}
  | last (hp : s.phase=.leaving) (hs : s.shutdown=true) (hc : s.leaderNotifyCh=[]) :
      Steps s .giveUp {s with phase := .stopped,leaderNotifyCh := [false]}
  | lose (hp : s.phase=.leaving) (hs : s.shutdown=true) (hc : s.leaderNotifyCh≠[]) :
      Steps s .giveUp {s with phase := .stopped,dropped := s.dropped++[false]}
  | receive (b : Bool) (rest : List Bool) (hm : s.monitor=none) (hc : s.leaderNotifyCh=b::rest) :
      Steps s .receive {s with monitor := some b,leaderNotifyCh := rest}
  | setWriteFlag (b : Bool) (hm : s.monitor=some b) :
      Steps s .setWriteFlag {s with monitor := none,enableWrite := b,flags := s.flags++[b]}

theorem step_steps {s t : Leadership} {e : LeadershipEvent} (h : s.step e=some t) : s.Steps e t := by
  cases e with
  | elected =>
    simp only [step] at h
    split at h
    · next hp hs =>
      cases h
      exact .elected hp hs
    · cases h
  | stepDown =>
    simp only [step] at h
    split at h
    · next hp =>
      cases h
      exact .stepDown hp
    · cases h
  | shutdown =>
    cases h
    exact .shutdown
  | notify =>
    simp only [step] at h
    split at h
    · next hp hc =>
      cases h
      exact .enter hp hc
    · next hp hc =>
      cases h
      exact .leave hp hc
    · cases h
  | giveUp =>
    simp only [step] at h
    split at h
    · next hp hs =>
      cases h
      exact .skip hp hs
    · next hp hs hc =>
      cases h
      exact .last hp hs hc
    · next hp hs hc =>
      cases h
      exact .lose hp hs (by rw [hc]; nofun)
    · cases h
  | receive =>
    simp only [step] at h
    split at h
    · next b rest hm hc =>
      cases h
      exact .receive b rest hm hc
    · cases h
  | setWriteFlag =>
    simp only [step] at h
    split at h
    · next b hm =>
      cases h
      exact .setWriteFlag b hm
    · cases h

/-- The values told so far and those on their way, the oldest first. -/
def told (s : Leadership) : List Bool :=
  s.flags++(s.monitor.toList++(s.leaderNotifyCh++s.phase.unsent))

/-- The last value of a list of notifications; before the first one the flag is not set. -/
def latest (l : List Bool) : Bool := l.getLast?.getD false

theorem latest_append (l : List Bool) (b : Bool) : latest (l++[b])=b := by
  simp [latest]

/-- No value overtakes another or is lost before a shutdown, and the last value told says whether
the node leads, unless a false was lost. -/
structure Follows (s : Leadership) : Prop where
  flag : s.enableWrite=latest s.flags
  room : s.leaderNotifyCh.length≤1
  last : latest s.changes=s.phase.leads
  alternate : s.changes.IsChain (· ≠ ·)
  kept : s.dropped=[] → s.changes=s.told
  lost : s.dropped≠[] → s.shutdown=true
  honest : false∉s.dropped → latest s.told=true → s.phase.leads=true

theorem follows_init : Follows {} :=
  ⟨rfl,Nat.zero_le 1,rfl,List.IsChain.nil,fun _ => rfl,fun h => absurd rfl h,nofun⟩

theorem isChain_snoc {l : List Bool} {b : Bool} (h : l.IsChain (· ≠ ·)) (hb : latest l≠b) :
    (l++[b]).IsChain (· ≠ ·) := by
  refine h.append (List.isChain_singleton b) ?_
  intro x hx y hy
  obtain rfl : b=y := by simpa using hy
  rw [latest,Option.mem_def.mp hx] at hb
  exact hb

theorem Follows.step {s t : Leadership} {e : LeadershipEvent} (h : s.Follows) (hs : s.Steps e t) :
    t.Follows := by
  have last := h.last
  have kept := h.kept
  have honest := h.honest
  cases hs with
  | elected hp hs =>
    rw [hp] at last
    refine ⟨h.flag,h.room,latest_append _ _,isChain_snoc h.alternate (by rw [last]; nofun),?_,
      h.lost,fun _ _ => rfl⟩
    intro none
    have before := kept none
    rw [told,hp] at before
    simp [told,before,RaftPhase.unsent]
  | stepDown hp =>
    rw [hp] at last
    refine ⟨h.flag,h.room,latest_append _ _,isChain_snoc h.alternate (by rw [last]; nofun),?_,
      h.lost,?_⟩
    · intro none
      have before := kept none
      rw [told,hp] at before
      simp [told,before,RaftPhase.unsent]
    · intro _ set
      simp [told,latest,RaftPhase.unsent] at set
  | shutdown => exact ⟨h.flag,h.room,last,h.alternate,kept,fun _ => rfl,honest⟩
  | enter hp hc =>
    rw [hp] at last
    refine ⟨h.flag,Nat.le_refl 1,last,h.alternate,?_,h.lost,fun _ _ => rfl⟩
    intro none
    simpa [told,hp,hc,RaftPhase.unsent] using kept none
  | leave hp hc =>
    rw [hp] at last
    refine ⟨h.flag,Nat.le_refl 1,last,h.alternate,?_,h.lost,?_⟩
    · intro none
      simpa [told,hp,hc,RaftPhase.unsent] using kept none
    · intro _ set
      simp [told,latest,RaftPhase.unsent] at set
  | skip hp hs =>
    rw [hp] at last
    refine ⟨h.flag,h.room,last,h.alternate,?_,fun _ => hs,fun _ _ => rfl⟩
    intro none
    exact absurd none (List.append_ne_nil_of_right_ne_nil _ (List.cons_ne_nil _ _))
  | last hp hs hc =>
    rw [hp] at last
    refine ⟨h.flag,Nat.le_refl 1,last,h.alternate,?_,h.lost,?_⟩
    · intro none
      simpa [told,hp,hc,RaftPhase.unsent] using kept none
    · intro _ set
      simp [told,latest,RaftPhase.unsent] at set
  | lose hp hs hc =>
    rw [hp] at last
    refine ⟨h.flag,h.room,last,h.alternate,?_,fun _ => hs,?_⟩
    · intro none
      exact absurd none (List.append_ne_nil_of_right_ne_nil _ (List.cons_ne_nil _ _))
    · intro present
      exact absurd (List.mem_append_right _ List.mem_cons_self) present
  | receive b rest hm hc =>
    have room := h.room
    rw [hc,List.length_cons] at room
    have fewer : rest.length≤1 := by omega
    have same : {s with monitor := some b,leaderNotifyCh := rest}.told=s.told := by
      simp [told,hm,hc]
    exact ⟨h.flag,fewer,last,h.alternate,fun none => same ▸ kept none,h.lost,same ▸ honest⟩
  | setWriteFlag b hm =>
    have same : {s with monitor := none,enableWrite := b,flags := s.flags++[b]}.told=s.told := by
      simp [told,hm]
    exact ⟨(latest_append _ _).symm,h.room,last,h.alternate,fun none => same ▸ kept none,h.lost,
      same ▸ honest⟩

theorem follows_run {es : List LeadershipEvent} {s : Leadership} (hr : run step {} es=some s) :
    s.Follows :=
  run_invariant step (fun _ _ => True) Follows (fun _ _ _ h _ hs => h.step (step_steps hs)) es {} s
    follows_init (along_of_forall step _ _ es (fun _ _ => trivial)) hr

/-- Nothing is on its way to the flag. -/
def AtRest (s : Leadership) : Prop :=
  s.monitor=none ∧ s.leaderNotifyCh=[] ∧ s.phase.unsent=[]

/-- What is left to do for the values on their way. -/
def left (s : Leadership) : Nat :=
  s.monitor.toList.length+2*s.leaderNotifyCh.length+3*s.phase.unsent.length

theorem Steps.left {s t : Leadership} {e : LeadershipEvent} (hs : s.Steps e t) (passes : e.Passes) :
    t.left < s.left := by
  cases hs with
  | elected | stepDown | shutdown | skip | last | lose => exact passes.elim
  | enter hp hc => simp [Leadership.left,hp,hc,RaftPhase.unsent]
  | leave hp hc => simp [Leadership.left,hp,hc,RaftPhase.unsent]
  | receive b rest hm hc =>
    simp only [Leadership.left,hm,hc,Option.toList,List.length_cons,List.length_nil]
    omega
  | setWriteFlag b hm => simp [Leadership.left,hm]

/-- While a value is on its way, it can be passed on. -/
theorem passes_next (s : Leadership) (away : ¬s.AtRest) :
    ∃ e : LeadershipEvent,e.Passes ∧ (s.step e).isSome := by
  cases hm : s.monitor with
  | some b => exact ⟨.setWriteFlag,trivial,by simp [step,hm]⟩
  | none =>
    cases hc : s.leaderNotifyCh with
    | cons b rest => exact ⟨.receive,trivial,by simp [step,hm,hc]⟩
    | nil =>
      cases hp : s.phase with
      | entering | leaving => exact ⟨.notify,trivial,by simp [step,hp,hc]⟩
      | other | leading | stopped =>
        exact absurd ⟨hm,hc,by rw [hp]; rfl⟩ away

/-- At rest the flag is the last value told. -/
theorem Follows.flag_at_rest {s : Leadership} (h : s.Follows) (rest : s.AtRest) :
    s.enableWrite=latest s.told := by
  obtain ⟨hm,hc,hp⟩ := rest
  rw [h.flag,told,hm,hc,hp,Option.toList,List.append_nil,List.append_nil,List.append_nil]

end Leadership

/-- The write flag follows the leadership: without a shutdown of raft setWriteFlag is called for
every change, in order, at most three changes behind and alternately with true and false; while a
value is on its way it can be passed on, in at most six steps, and then the flag says whether the
node leads. With a shutdown a flag can stay set only if runLeader found the channel full when it
gave up on its last value. -/
theorem write_flag_follows (es : List LeadershipEvent) (s : Leadership)
    (hr : run Leadership.step {} es=some s) :
    (s.shutdown=false → s.flags<+:s.changes ∧ s.changes.length ≤ s.flags.length+3 ∧
      s.changes.IsChain (· ≠ ·) ∧ (s.AtRest → s.enableWrite=s.phase.leads)) ∧
    (¬s.AtRest → ∃ e : LeadershipEvent,e.Passes ∧ (s.step e).isSome) ∧
    (∀ fs t,(∀ e∈fs,e.Passes) → run Leadership.step s fs=some t → fs.length≤6) ∧
    (s.AtRest → s.enableWrite=true → s.phase.leads=true ∨ false∈s.dropped) := by
  have follows := Leadership.follows_run hr
  have room := follows.room
  have hand : s.monitor.toList.length≤1 := by cases s.monitor <;> simp
  have unsent : s.phase.unsent.length≤1 := by cases s.phase <;> decide
  refine ⟨?_,s.passes_next,?_,?_⟩
  · intro up
    have none : s.dropped=[] := by
      by_contra some
      rw [follows.lost some] at up
      cases up
    have whole := follows.kept none
    refine ⟨⟨_,whole.symm⟩,?_,follows.alternate,?_⟩
    · rw [whole,Leadership.told]
      simp only [List.length_append]
      omega
    · intro rest
      rw [follows.flag_at_rest rest,←whole,follows.last]
  · intro fs t passes hf
    have left := run_measure Leadership.step LeadershipEvent.Passes Leadership.left
      (fun _ _ _ ok hs => (Leadership.step_steps hs).left ok) fs s t passes hf
    simp only [Leadership.left] at left
    omega
  · intro rest set
    by_cases lost : false∈s.dropped
    · exact .inr lost
    · rw [follows.flag_at_rest rest] at set
      exact .inl (follows.honest lost set)

/-- A node that is removed while monitorLeadrship has not yet received its first value: the false
is lost, and the flag is set when all is at rest. -/
theorem write_flag_follows_removed :
    (∃ s,run Leadership.step {} [.elected,.notify,.stepDown,.receive,.notify,.setWriteFlag,.receive,
        .setWriteFlag]=some s ∧ s.enableWrite=s.phase.leads) ∧
    ∃ s,run Leadership.step {} [.elected,.notify,.shutdown,.stepDown,.giveUp,.receive,
        .setWriteFlag]=some s ∧ s.enableWrite=true ∧ (s.phase.leads=true ∨ false∈s.dropped) := by
  constructor
  · have done : run Leadership.step {} [.elected,.notify,.stepDown,.receive,.notify,.setWriteFlag,
        .receive,.setWriteFlag]=some {changes := [true,false],flags := [true,false]} := by
      decide
    exact ⟨_,done,((write_flag_follows _ _ done).1 rfl).2.2.2 ⟨rfl,rfl,rfl⟩⟩
  · have done : run Leadership.step {} [.elected,.notify,.shutdown,.stepDown,.giveUp,.receive,
        .setWriteFlag]=some {phase := .stopped,shutdown := true,enableWrite := true
                             changes := [true,false],flags := [true],dropped := [false]} := by
      decide
    exact ⟨_,done,rfl,(write_flag_follows _ _ done).2.2.2 ⟨rfl,rfl,rfl⟩ rfl⟩

end StCache
