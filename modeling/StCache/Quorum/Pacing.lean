import StCache.Quorum.Steps

namespace StCache

/-- The command that logs the time of a check. -/
def CheckKind.timeCommand : CheckKind → Command
  | .event => .notifyTime
  | .empty => .notifyEmptyTime

/-- The logged time that delays the next decision of a check. -/
def CheckKind.time : CheckKind → Replicated → GoTime
  | .event,r => r.prevEventTime
  | .empty,r => r.emptyTime

/-- The instant that an entry logs for this check of this key. -/
def LogEntryData.stampOf (kind : CheckKind) (key : GoString) (e : LogEntryData) : Option Int64 :=
  if e.cmd=kind.timeCommand ∧ e.key=key then parseInt e.value else none

/-- The instants that a log has for this check of this key, in order. -/
def stamps (kind : CheckKind) (key : GoString) (log : List LogEntryData) : List Int64 :=
  log.filterMap (LogEntryData.stampOf kind key)

/-- The time that a replica of a log with these instants has. -/
def lastTime (l : List Int64) : GoTime :=
  match l.getLast? with
  | none => .zero
  | some ts => .ofNano ts

@[simp] theorem lastTime_snoc (l : List Int64) (ts : Int64) : lastTime (l++[ts])=.ofNano ts := by
  simp [lastTime]

theorem stamps_append (kind : CheckKind) (key : GoString) (l l' : List LogEntryData) :
    stamps kind key (l++l')=stamps kind key l++stamps kind key l' := List.filterMap_append

theorem stamps_snoc_none (kind : CheckKind) (key : GoString) (l : List LogEntryData)
    (e : LogEntryData) (h : e.stampOf kind key=none) :
    stamps kind key (l++[e])=stamps kind key l := by
  rw [stamps_append]
  simp [stamps,h]

theorem stamps_snoc_some (kind : CheckKind) (key : GoString) (l : List LogEntryData)
    (e : LogEntryData) (ts : Int64) (h : e.stampOf kind key=some ts) :
    stamps kind key (l++[e])=stamps kind key l++[ts] := by
  rw [stamps_append]
  simp [stamps,h]

theorem stampOf_timeEntry (kind : CheckKind) (key : GoString) (d : Decision) (ts : Int64) :
    (d.timeEntry ts).stampOf kind key=if d.about kind key then some ts else none := by
  have entry : d.timeEntry ts=⟨d.kind.timeCommand,d.key,formatInt ts⟩ := by
    unfold Decision.timeEntry
    cases d.kind <;> rfl
  have same : d.kind.timeCommand=kind.timeCommand ↔ d.kind=kind := by
    cases d.kind <;> cases kind <;> decide
  simp [entry,LogEntryData.stampOf,Decision.about,same,parseInt_formatInt]

theorem stampOf_notifyStatus (kind : CheckKind) (key k v : GoString) :
    LogEntryData.stampOf kind key ⟨.notifyStatus,k,v⟩=none := by
  cases kind <;> simp [LogEntryData.stampOf,CheckKind.timeCommand]

theorem stampOf_resultEntry (kind : CheckKind) (key : GoString) (r : ShellCmdResult) :
    (resultEntry r).stampOf kind key=none := by
  unfold resultEntry
  split_ifs <;> cases kind <;> simp [LogEntryData.stampOf,CheckKind.timeCommand]

/-- A replica's time moves with the instants of the log. -/
theorem time_replay (c : GossipCacheManager) (e : LogEntryData) (kind : CheckKind)
    (key : GoString) :
    kind.time ((c.replay e).replicated key)=match e.stampOf kind key with
      | none => kind.time (c.replicated key)
      | some ts => .ofNano ts := by
  rw [c.replicated_replay]
  unfold LogEntryData.updateOf LogEntryData.update LogEntryData.stampOf
  by_cases hk : e.key=key
  · cases hc : e.cmd <;> cases kind <;> simp only [hk,CheckKind.timeCommand,reduceCtorEq,if_true,
      false_and,if_false,and_self] <;> first
      | rfl
      | cases parseInt e.value <;> rfl
      | cases parseBool e.value <;> rfl
  · simp [hk]

/-- The statement comes before the time entry of this check of this key. -/
def Stmt.early (kind : CheckKind) (key : GoString) : Stmt → Bool
  | .clone => true
  | .checkEvent k _ => decide (CheckKind.event=kind) && decide (k=key)
  | .checkEmpty k _ => decide (CheckKind.empty=kind) && decide (k=key)
  | .stamp d => d.about kind key
  | .submitTime d _ => d.about kind key
  | _ => false

def Sent.stampFor (kind : CheckKind) (key : GoString) (x : Sent) : Option Int64 :=
  if x.decision.about kind key then some x.stamp else none

/-- The instant of a decision that is past its time entry and goes on to notify. -/
def Stmt.late (kind : CheckKind) (key : GoString) : Stmt → Option Int64
  | .build d ts => if d.about kind key then some ts else none
  | .send x => x.stampFor kind key
  | _ => none

/-- The clock readings a step of the pass makes, apart from those at the reports. -/
def TickInput.readings : TickInput → List Int64
  | .check now _ => [now]
  | .clock now => [now]
  | _ => []

def Action.readings : Action → List Int64
  | .tick input => input.readings
  | _ => []

/-- The statement has the last logged time, or has waited long enough for it. -/
def Stmt.Ready (cfg : QuorumConfig) (kind : CheckKind) (key : GoString) (last : GoTime)
    (readings : List Int64) : Stmt → Prop
  | .checkEvent k v => CheckKind.event=kind → k=key → v.prevEventTime=last
  | .checkEmpty k v => CheckKind.empty=kind → k=key → v.emptyTime=last
  | .stamp d => d.about kind key=true →
      ∃ now∈readings,¬since now last<seconds cfg.eventInterval
  | .submitTime d ts => d.about kind key=true → ¬since ts last<seconds cfg.eventInterval
  | _ => True

theorem Stmt.Ready.more {cfg : QuorumConfig} {kind : CheckKind} {key : GoString} {last : GoTime}
    {readings : List Int64} {st : Stmt} (h : st.Ready cfg kind key last readings)
    (more : List Int64) : st.Ready cfg kind key last (readings++more) := by
  cases st with
  | stamp d =>
    intro ha
    obtain ⟨now,hn,waited⟩ := h ha
    exact ⟨now,List.mem_append_left _ hn,waited⟩
  | _ => exact h

/-- A statement that is not early is ready whatever the log says. -/
theorem Stmt.ready_of_not_early {kind : CheckKind} {key : GoString} {st : Stmt}
    (h : st.early kind key=false) (cfg : QuorumConfig) (last : GoTime) (readings : List Int64) :
    st.Ready cfg kind key last readings := by
  cases st with
  | checkEvent k v => exact fun hk hkey => absurd h (by simp [Stmt.early,hk,hkey])
  | checkEmpty k v => exact fun hk hkey => absurd h (by simp [Stmt.early,hk,hkey])
  | stamp d => exact fun ha => absurd (ha.symm.trans h) (by decide)
  | submitTime d ts => exact fun ha => absurd (ha.symm.trans h) (by decide)
  | barrier | clone | submitStatus | build | send => trivial

theorem since_mono (now now' : Int64) (t : GoTime) (h : now≤now') : since now t ≤ since now' t := by
  have le := Int64.le_iff_toInt_le.mp h
  unfold since
  omega

/-- A step of the pass keeps its statements ready, given the clock does not go back. -/
theorem Executes.ready {cfg : QuorumConfig} {f : Fsm} {c : Checker} {st : Stmt}
    {input : TickInput} {sts : List Stmt} {eff : Effect} (h : Executes cfg f c st input sts eff)
    (kind : CheckKind) (key : GoString) (last : GoTime) (readings : List Int64)
    (old : st.Ready cfg kind key last readings)
    (caught : st=.clone → kind.time (f.gcm.replicated key)=last)
    (latest : ∀ r∈readings,∀ now∈input.readings,r≤now) :
    ∀ s∈sts,s.Ready cfg kind key last (readings++input.readings) := by
  intro s hs
  cases h with
  | barrier =>
    rw [List.mem_singleton.mp hs]
    trivial
  | failed => simp at hs
  | clone o ho =>
    obtain ⟨⟨k,v⟩,hp,hs⟩ := List.mem_flatMap.mp hs
    have here (hk : k=key) : v.replicated=f.gcm.replicated key := by
      have lookup := (ho.mem_iff k v).mp hp
      rw [hk] at lookup
      simp [GossipCacheManager.replicated,GossipCacheManager.entry,lookup]
    simp only [List.mem_cons,List.not_mem_nil,or_false] at hs
    rcases hs with rfl|rfl
    · intro hkind hk
      rw [←caught rfl,←here hk,←hkind]
      rfl
    · intro hkind hk
      rw [←caught rfl,←here hk,←hkind]
      rfl
  | checkEvent k v now sc hv =>
    obtain ⟨d,rfl,hkind,hkey,-,-,waited⟩ := checkEvent_sound cfg k v now sc hv s hs
    intro ha
    simp only [Decision.about,hkind,hkey,Bool.and_eq_true,decide_eq_true_eq] at ha
    exact ⟨now,by simp [TickInput.readings],by rwa [←old ha.1 ha.2]⟩
  | checkEmpty k v now sc hv =>
    obtain ⟨d,rfl,hkind,hkey,-,-,waited⟩ := checkEmpty_sound cfg k v now sc hv s hs
    intro ha
    simp only [Decision.about,hkind,hkey,Bool.and_eq_true,decide_eq_true_eq] at ha
    exact ⟨now,by simp [TickInput.readings],by rwa [←old ha.1 ha.2]⟩
  | stamp d now =>
    rw [List.mem_singleton.mp hs]
    intro ha
    obtain ⟨r,hr,waited⟩ := old ha
    have later := since_mono r now last (latest r hr now (by simp [TickInput.readings]))
    omega
  | submitPending d ts hp =>
    rw [List.mem_singleton.mp hs]
    trivial
  | submitTime d ts hp =>
    rw [List.mem_singleton.mp hs]
    trivial
  | build d ts =>
    rw [List.mem_singleton.mp hs]
    trivial
  | submitStatus d => simp at hs
  | send x => simp at hs

/-- A check only ever gives rise to decisions that have yet to read the clock. -/
theorem late_of_decisions (kind : CheckKind) (key : GoString) (sts : List Stmt)
    (h : ∀ s∈sts,∃ d,s=.stamp d) : sts.filterMap (Stmt.late kind key)=[] := by
  rw [List.filterMap_eq_nil_iff]
  intro s hs
  obtain ⟨d,rfl⟩ := h s hs
  rfl

/-- What a step of the pass does to a decision of this check of this key: it brings
it further, or submits its time entry, or sends its command. -/
theorem Executes.paced {cfg : QuorumConfig} {f : Fsm} {c : Checker} {st : Stmt}
    {input : TickInput} {sts : List Stmt} {eff : Effect} (h : Executes cfg f c st input sts eff)
    (kind : CheckKind) (key : GoString) :
    (sts.filterMap (Stmt.late kind key)=[st].filterMap (Stmt.late kind key) ∧
      eff.received.filterMap (Sent.stampFor kind key)=[] ∧
      (∀ e source,eff=.submit e source → e.stampOf kind key=none) ∧
      ∀ s∈sts,s.early kind key=true → st.early kind key=true ∨ input=.barrier true) ∨
    (∃ d ts,st=.submitTime d ts ∧ d.about kind key=true ∧
      eff=c.notifyFollower (d.timeEntry ts) none ∧
      sts.filterMap (Stmt.late kind key)=(if d.pending then [] else [ts]) ∧
      ∀ s∈sts,s.early kind key=false) ∨
    (∃ x,st=.send x ∧ x.decision.about kind key=true ∧ sts=[] ∧ eff=.sent x) := by
  cases h with
  | barrier => exact .inl ⟨rfl,rfl,by simp,fun _ _ _ => .inr rfl⟩
  | failed => exact .inl ⟨rfl,rfl,by simp,by simp⟩
  | clone o ho =>
    refine .inl ⟨?_,rfl,by simp,fun _ _ _ => .inl rfl⟩
    rw [show [Stmt.clone].filterMap (Stmt.late kind key)=[] from rfl,List.filterMap_eq_nil_iff]
    intro s hs
    obtain ⟨p,-,hs⟩ := List.mem_flatMap.mp hs
    simp only [List.mem_cons,List.not_mem_nil,or_false] at hs
    rcases hs with rfl|rfl <;> rfl
  | checkEvent k v now sc hv =>
    refine .inl ⟨late_of_decisions kind key _ ?_,rfl,by simp,?_⟩
    · intro s hs
      obtain ⟨d,hd,-⟩ := checkEvent_sound cfg k v now sc hv s hs
      exact ⟨d,hd⟩
    · intro s hs
      obtain ⟨d,rfl,hkind,hkey,-⟩ := checkEvent_sound cfg k v now sc hv s hs
      simp [Stmt.early,Decision.about,hkind,hkey]
  | checkEmpty k v now sc hv =>
    refine .inl ⟨late_of_decisions kind key _ ?_,rfl,by simp,?_⟩
    · intro s hs
      obtain ⟨d,hd,-⟩ := checkEmpty_sound cfg k v now sc hv s hs
      exact ⟨d,hd⟩
    · intro s hs
      obtain ⟨d,rfl,hkind,hkey,-⟩ := checkEmpty_sound cfg k v now sc hv s hs
      simp [Stmt.early,Decision.about,hkind,hkey]
  | stamp d now => exact .inl ⟨rfl,rfl,by simp,by simp [Stmt.early]⟩
  | submitPending d ts hp =>
    by_cases ha : d.about kind key=true
    · exact .inr (.inl ⟨d,ts,rfl,ha,rfl,by simp [Stmt.late,hp],by simp [Stmt.early]⟩)
    · refine .inl ⟨rfl,by simp,?_,by simp [Stmt.early]⟩
      intro e source he
      rw [(c.notifyFollower_submit _ _ _ _ he).1,stampOf_timeEntry,if_neg ha]
  | submitTime d ts hp =>
    by_cases ha : d.about kind key=true
    · exact .inr (.inl ⟨d,ts,rfl,ha,rfl,by simp [Stmt.late,hp,ha],by simp [Stmt.early]⟩)
    · refine .inl ⟨by simp [Stmt.late,ha],by simp,?_,by simp [Stmt.early]⟩
      intro e source he
      rw [(c.notifyFollower_submit _ _ _ _ he).1,stampOf_timeEntry,if_neg ha]
  | submitStatus d =>
    refine .inl ⟨rfl,by simp,?_,by simp⟩
    intro e source he
    rw [(c.notifyFollower_submit _ _ _ _ he).1,stampOf_notifyStatus]
  | build d ts => exact .inl ⟨rfl,rfl,by simp,by simp [Stmt.early]⟩
  | send x =>
    by_cases ha : x.decision.about kind key=true
    · exact .inr (.inr ⟨x,rfl,ha,rfl,rfl⟩)
    · refine .inl ⟨?_,?_,by simp,by simp⟩
      · simp [Stmt.late,Sent.stampFor,ha]
      · simp [Effect.received,Sent.stampFor,ha]

theorem Stmt.about_of_late {kind : CheckKind} {key : GoString} {st : Stmt} {ts : Int64}
    (h : st.late kind key=some ts) : st.about kind key=true := by
  cases st with
  | build d ts' =>
    simp only [Stmt.late,Option.ite_none_right_eq_some] at h
    exact h.1
  | send x =>
    simp only [Stmt.late,Sent.stampFor,Option.ite_none_right_eq_some] at h
    exact h.1
  | _ => simp [Stmt.late] at h

theorem Stmt.about_of_early {kind : CheckKind} {key : GoString} {st : Stmt}
    (h : st.early kind key=true) (hn : st≠.clone) : st.about kind key=true := by
  cases st with
  | clone => exact absurd rfl hn
  | checkEvent | checkEmpty | stamp | submitTime => exact h
  | barrier | submitStatus | build | send => simp [Stmt.early] at h

namespace Checker

/-- The pass may still submit a time entry for this check of this key. -/
def active (kind : CheckKind) (key : GoString) (c : Checker) : Bool :=
  c.tick.any (Stmt.early kind key)

def lateStamps (kind : CheckKind) (key : GoString) (c : Checker) : List Int64 :=
  c.tick.filterMap (Stmt.late kind key)

/-- With a statement about the check in front, the rest of the pass has none. -/
theorem rest_quiet (cfg : QuorumConfig) (c : Checker) (kind : CheckKind) (key : GoString)
    (sound : c.Sound cfg) (one : (c.focus kind key).length≤1) (st : Stmt) (rest : List Stmt)
    (ht : c.tick=st::rest) (ha : st.about kind key=true) :
    rest.filterMap (Stmt.late kind key)=[] ∧ ∀ s∈rest,s.early kind key=false := by
  have none : ∀ s∈rest,¬s.about kind key=true := by
    rw [Checker.focus,ht,List.filter_cons_of_pos ha,List.length_cons] at one
    exact List.filter_eq_nil_iff.mp (List.length_eq_zero_iff.mp (by omega))
  have noClone : .clone∉rest := by
    intro hc
    have alone := sound.alone _ (by rw [ht]; exact List.mem_cons_of_mem st hc) (.inr rfl)
    rw [ht,List.cons.injEq] at alone
    simp [alone.2] at hc
  constructor
  · rw [List.filterMap_eq_nil_iff]
    intro s hs
    cases hl : s.late kind key with
    | none => rfl
    | some ts => exact absurd (Stmt.about_of_late hl) (none s hs)
  · intro s hs
    by_contra he
    have early : s.early kind key=true := by simpa using he
    exact none s hs (Stmt.about_of_early early (fun hc => noClone (hc ▸ hs)))

/-- What a step of the checker does to the decisions of this check of this key. -/
theorem Steps.paced {cfg : QuorumConfig} {f : Fsm} {c d : Checker} {a : Action} {eff : Effect}
    (hs : c.Steps cfg f a d eff) (kind : CheckKind) (key : GoString) (sound : c.Sound cfg)
    (one : (c.focus kind key).length≤1) :
    (d.lateStamps kind key=c.lateStamps kind key ∧
      eff.received.filterMap (Sent.stampFor kind key)=[] ∧
      (∀ e source,eff=.submit e source → e.stampOf kind key=none) ∧
      (d.active kind key=true → c.active kind key=true ∨ a=.tick (.barrier true))) ∨
    (∃ input p ts rest,a=.tick input ∧ c.tick=.submitTime p ts::rest ∧ p.about kind key=true ∧
      eff=c.notifyFollower (p.timeEntry ts) none ∧
      d.lateStamps kind key=(if p.pending then [] else [ts]) ∧ d.active kind key=false) ∨
    (∃ x rest,c.tick=.send x::rest ∧ x.decision.about kind key=true ∧ eff=.sent x ∧
      c.lateStamps kind key=[x.stamp] ∧ d.lateStamps kind key=[] ∧ d.active kind key=false) := by
  cases hs with
  | enter ht hw =>
    exact .inl ⟨by simp [lateStamps,ht,Stmt.late],rfl,by simp,by simp [active,Stmt.early]⟩
  | start i x hi hw => exact .inl ⟨rfl,rfl,by simp,.inl⟩
  | drop i x hi hw => exact .inl ⟨rfl,rfl,by simp,.inl⟩
  | finish i o x hi =>
    exact .inl ⟨rfl,by simp,fun e source he => absurd he (x.effect_ne_submit o e source),.inl⟩
  | record i r hi =>
    refine .inl ⟨rfl,by simp,?_,.inl⟩
    intro e source he
    rw [(c.notifyFollower_submit _ _ _ _ he).1,stampOf_resultEntry]
  | tick st rest input sts eff ht hx =>
    rcases hx.paced kind key with ⟨late,sent,time,early⟩|⟨p,ts,rfl,ha,he,late,early⟩|⟨x,rfl,ha,rfl,rfl⟩
    · refine .inl ⟨?_,sent,time,?_⟩
      · simp only [lateStamps,ht,List.filterMap_append,late]
        rw [←List.filterMap_append]
        rfl
      · intro h
        simp only [active,List.any_eq_true,List.mem_append] at h ⊢
        obtain ⟨s,hs|hs,hse⟩ := h
        · rcases early s hs hse with old|rfl
          · exact .inl ⟨st,by simp [ht],old⟩
          · exact .inr rfl
        · exact .inl ⟨s,by simp [ht,hs],hse⟩
    · have quiet := c.rest_quiet cfg kind key sound one _ rest ht ha
      refine .inr (.inl ⟨input,p,ts,rest,rfl,ht,ha,he,?_,?_⟩)
      · simp only [lateStamps,List.filterMap_append,quiet.1,List.append_nil,late]
      · simp only [active,List.any_eq_false,List.mem_append]
        rintro s (hs|hs)
        · simp [early s hs]
        · simp [quiet.2 s hs]
    · have quiet := c.rest_quiet cfg kind key sound one _ rest ht ha
      refine .inr (.inr ⟨x,rest,ht,ha,rfl,?_,quiet.1,?_⟩)
      · rw [lateStamps,ht,List.filterMap_cons]
        simp [Stmt.late,Sent.stampFor,ha,quiet.1]
      · simp only [active,List.nil_append,List.any_eq_false]
        intro s hs
        simp [quiet.2 s hs]

theorem Steps.ready {cfg : QuorumConfig} {f : Fsm} {c d : Checker} {a : Action} {eff : Effect}
    (hs : c.Steps cfg f a d eff) (kind : CheckKind) (key : GoString) (last : GoTime)
    (readings : List Int64) (old : ∀ st∈c.tick,st.Ready cfg kind key last readings)
    (caught : .clone∈c.tick → kind.time (f.gcm.replicated key)=last)
    (latest : ∀ r∈readings,∀ now∈a.readings,r≤now) :
    ∀ st∈d.tick,st.Ready cfg kind key last (readings++a.readings) := by
  intro st hst
  cases hs with
  | enter ht hw =>
    rw [List.mem_singleton.mp hst]
    trivial
  | tick st' rest input sts eff ht hx =>
    cases List.mem_append.mp hst with
    | inl hst =>
      refine hx.ready kind key last readings (old st' (by simp [ht])) ?_ latest st hst
      intro hc
      exact caught (by simp [ht,hc])
    | inr hst => exact (old st (by simp [ht,hst])).more _
  | start | drop | finish | record => exact (old st hst).more _

theorem Steps.active_of {cfg : QuorumConfig} {f : Fsm} {c d : Checker} {a : Action} {eff : Effect}
    (hs : c.Steps cfg f a d eff) (kind : CheckKind) (key : GoString) (sound : c.Sound cfg)
    (one : (c.focus kind key).length≤1) (h : d.active kind key=true) :
    c.active kind key=true ∨ a=.tick (.barrier true) := by
  rcases hs.paced kind key sound one with ⟨-,-,-,early⟩|⟨_,_,_,_,-,-,-,-,-,quiet⟩|
    ⟨_,_,-,-,-,-,-,quiet⟩
  · exact early h
  · exact absurd (h.symm.trans quiet) (by decide)
  · exact absurd (h.symm.trans quiet) (by decide)

theorem Steps.clone_of {cfg : QuorumConfig} {f : Fsm} {c d : Checker} {a : Action} {eff : Effect}
    (hs : c.Steps cfg f a d eff) (h : .clone∈d.tick) :
    .clone∈c.tick ∨ a=.tick (.barrier true) := by
  cases hs with
  | enter ht hw => simp at h
  | tick st rest input sts eff ht hx =>
    cases List.mem_append.mp h with
    | inl new => exact .inr (by rw [hx.opens_barrier new])
    | inr old => exact .inl (by simp [ht,old])
  | start | drop | finish | record => exact .inl h

theorem active_of_mem {kind : CheckKind} {key : GoString} {c : Checker} {st : Stmt}
    (hm : st∈c.tick) (he : st.early kind key=true) : c.active kind key=true :=
  List.any_eq_true.mpr ⟨st,hm,he⟩

end Checker

end StCache
