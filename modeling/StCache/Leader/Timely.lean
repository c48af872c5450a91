import StCache.Leader.Alternation
import StCache.Quorum.Pacing

namespace StCache

/-- The time that delays the next decision of a check, as the leader's store has it. -/
def Leader.time (l : Leader) (kind : CheckKind) (key : GoString) : GoTime :=
  kind.time (l.fsm.gcm.replicated key)

/-- A leader, and the commands whose result was not recorded when the current pass cloned. -/
structure Cloned where
  leader : Leader
  unrecorded : List Sent := []

/-- The pass calls Clone. -/
def LeaderEvent.clones : LeaderEvent → Bool
  | .act (.tick (.order _)) _ => true
  | _ => false

/-- What a check reads from the clock for its comparison with eventInterval. -/
def LeaderEvent.gate : LeaderEvent → Option Int64
  | .act (.tick (.check now _)) _ => some now
  | _ => none

namespace Cloned

def step (cfg : QuorumConfig) (w : Cloned) (e : LeaderEvent) : Option Cloned :=
  (w.leader.step cfg e).map (fun l =>
    ⟨l,if e.clones then w.leader.checker.inflight else w.unrecorded⟩)

/-- When the check of the key reads the clock, less than eventInterval has passed since the
decision of each of its commands that was not recorded when its pass cloned. -/
def InTime (cfg : QuorumConfig) (kind : CheckKind) (key : GoString) (w : Cloned)
    (e : LeaderEvent) : Prop :=
  ∀ st∈w.leader.checker.tick.head?,st.about kind key=true → ∀ now∈e.gate,∀ x∈w.unrecorded,
    x.decision.about kind key=true → since now (.ofNano x.stamp)<seconds cfg.eventInterval

/-- Over the option itself, not over all clock values. -/
instance (cfg : QuorumConfig) (kind : CheckKind) (key : GoString) (w : Cloned) (e : LeaderEvent) :
    Decidable (InTime cfg kind key w e) :=
  have : Decidable (∀ now∈e.gate,∀ x∈w.unrecorded,x.decision.about kind key=true →
      since now (.ofNano x.stamp)<seconds cfg.eventInterval) := Option.decidableForallMem _
  inferInstanceAs (Decidable (∀ st∈w.leader.checker.tick.head?,st.about kind key=true → _))

/-- What the clone is compared with does not change what the leader does. -/
theorem run_leader (cfg : QuorumConfig) (es : List LeaderEvent) (w : Cloned) (l : Leader)
    (hr : run (Leader.step cfg) w.leader es=some l) :
    ∃ v,run (step cfg) w es=some v ∧ v.leader=l := by
  induction es generalizing w with
  | nil => exact ⟨w,rfl,Option.some.inj hr⟩
  | cons e es ih =>
    rw [run_cons,Option.bind_eq_some_iff] at hr
    obtain ⟨m,hm,hr⟩ := hr
    rw [run_cons,step,hm]
    exact ih ⟨m,_⟩ hr

end Cloned

/-- The statement has not compared the clock with the time of its check. -/
def Stmt.ungated : Stmt → Bool
  | .checkEvent _ _ => true
  | .checkEmpty _ _ => true
  | _ => false

/-- The statement is about to read the clock for a notification. -/
def Stmt.notifying : Stmt → Bool
  | .stamp d => !d.pending
  | _ => false

/-- Nothing of the check is in flight and the statement's entry has the recorded status. -/
def Leader.Current (l : Leader) (kind : CheckKind) (key : GoString) (st : Stmt) : Prop :=
  l.checker.flying kind key=[] ∧
    recordedStatus kind st.entry.replicated=l.fsm.recorded kind key

/-- The statement's entry has the time of a command that was in flight when it was cloned. -/
def Cloned.Blocked (w : Cloned) (kind : CheckKind) (key : GoString) (st : Stmt) : Prop :=
  ∃ x∈w.unrecorded,x.decision.about kind key=true ∧
    kind.time st.entry.replicated=.ofNano x.stamp

/-- A check that has yet to read the clock works on a current entry, or on one whose time keeps
it from notifying as long as results are recorded in time. -/
def Cloned.Placed (w : Cloned) (kind : CheckKind) (key : GoString) (st : Stmt) : Prop :=
  (st.ungated=true → w.leader.Current kind key st ∨ w.Blocked kind key st) ∧
    (st.notifying=true → w.leader.Current kind key st)

structure Cloned.Guarded (cfg : QuorumConfig) (kind : CheckKind) (key : GoString)
    (w : Cloned) : Prop where
  alternates : w.leader.Alternates cfg kind key
  flying : ∀ x∈w.leader.checker.flying kind key,w.leader.time kind key=.ofNano x.stamp
  late : ∀ ts∈w.leader.checker.lateStamps kind key,w.leader.time kind key=.ofNano ts
  placed : ∀ st∈w.leader.checker.focus kind key,w.Placed kind key st

theorem Leader.Current.untouched {l m : Leader} {kind : CheckKind} {key : GoString} {st : Stmt}
    (h : l.Current kind key st) (same : l.Untouched kind key m) : m.Current kind key st := by
  refine ⟨?_,h.2.trans same.recorded.symm⟩
  have moved := same.flying
  rw [h.1] at moved
  exact List.perm_nil.mp moved

section Times
variable {cfg : QuorumConfig} {kind : CheckKind} {key : GoString} {l m : Leader}

/-- Steps other than those of the checker keep the time of a check of a key that is not
deleted. -/
theorem Leader.time_other (e : LeaderEvent) (he : ∀ a ok,e≠.act a ok) (keep : e≠.delKey key)
    (hs : l.step cfg e=some m) : m.time kind key=l.time kind key := by
  cases e with
  | act a ok => exact absurd rfl (he a ok)
  | client e =>
    simp only [Leader.step] at hs
    split_ifs at hs with hc
    obtain ⟨f,hf,rfl⟩ := Option.map_eq_some_iff.mp hs
    have none' : e.stampOf kind key=none := by
      rcases hc with hc|hc <;> cases kind <;> simp [LogEntryData.stampOf,CheckKind.timeCommand,hc]
    rw [Leader.time,((Fsm.applyEntry_some _ _ _).mp hf).2,time_replay,none']
    rfl
  | report msg =>
    obtain ⟨⟨c,bs⟩,hc,rfl⟩ := Option.map_eq_some_iff.mp hs
    rw [Leader.time,GossipCacheManager.replicated_set _ _ _ _ hc]
    rfl
  | delKey k =>
    cases hs
    have other : key≠k := fun same => keep (by rw [same])
    rw [Leader.time,GossipCacheManager.replicated_delKey,if_neg other]
    rfl
  | delNodeAddr k n =>
    cases hs
    rw [Leader.time,GossipCacheManager.replicated_delNodeAddr]
    rfl
  | writeFlag b =>
    cases hs
    rfl

/-- The time changes with an entry that logs one, and only with it. -/
theorem Leader.Absorbed.time {c : Checker} {eff : Effect} (ha : l.Absorbed c eff true m)
    (unlogged : ∀ e source,eff=.submit e source → e.stampOf kind key=none) :
    m.time kind key=l.time kind key := by
  rcases ha.store with ⟨same,-⟩|⟨e,source,rfl,-,happly⟩
  · rw [Leader.time,same]
    rfl
  · rw [Leader.time,((Fsm.applyEntry_some _ _ _).mp happly).2,time_replay,unlogged e source rfl]
    rfl

/-- A notification that has read the clock is under way, so nothing is in flight. -/
theorem Leader.Alternates.flying_of_unsent (h : l.Alternates cfg kind key) (d : Decision)
    (hd : d∈l.checker.unsent kind key) : l.checker.flying kind key=[] := by
  rcases h.phase with ⟨h1,-⟩|⟨p,-,h2,-⟩|⟨x,h1,-⟩
  · rw [h1] at hd
    cases hd
  · exact h2
  · rw [h1] at hd
    cases hd

/-- While a time entry of the check is about to be submitted, nothing of it is in flight. -/
theorem Leader.Alternates.flying_of_submitTime (h : l.Alternates cfg kind key) (p : Decision)
    (ts : Int64) (rest : List Stmt) (ht : l.checker.tick=.submitTime p ts::rest)
    (about : p.about kind key=true) : l.checker.flying kind key=[] := by
  have here : .submitTime p ts∈l.checker.focus kind key :=
    List.mem_filter.mpr ⟨by rw [ht]; exact List.mem_cons_self,about⟩
  cases hp : p.pending with
  | false =>
    apply h.flying_of_unsent p
    exact List.mem_filterMap.mpr ⟨_,here,by simp [Stmt.stamped,hp]⟩
  | true =>
    have sound : p.Sound cfg := h.consistent.sound.tick _ (List.mem_filter.mp here).1
    have unset : ¬kind.Notifies (l.fsm.recorded kind key) := by
      rw [←h.consistent.entry _ here]
      obtain ⟨rfl,-⟩ := (p.about_iff kind key).mp about
      exact (sound.pending hp).2
    have rest' := h.consistent.focus_head _ rest ht about
    refine (h.silent_unset unset ?_).1
    rw [Checker.unsent,Checker.focus,ht,List.filter_cons_of_pos (by exact about),rest']
    simp [Stmt.stamped,hp]

end Times

namespace Cloned
section Step
variable {cfg : QuorumConfig} {kind : CheckKind} {key : GoString} {w v : Cloned}

/-- A decision to notify is made on a current entry. -/
theorem Guarded.decides (h : w.Guarded cfg kind key) (e : LeaderEvent) :
    DecidesOnCurrent kind key w.leader e := by
  intro d hd
  unfold deciding at hd
  split at hd
  · split at hd
    · next d' rest ht =>
      rw [Option.mem_def,Option.ite_none_right_eq_some,Bool.and_eq_true] at hd
      obtain ⟨⟨about,active⟩,same⟩ := hd
      cases same
      have here : .stamp d∈w.leader.checker.focus kind key :=
        List.mem_filter.mpr ⟨by rw [ht]; exact List.mem_cons_self,about⟩
      exact (h.placed _ here).2 active
    · cases hd
  · cases hd

section Act
variable {a : Action} {c : Checker} {eff : Effect}

/-- The commands in flight and the decisions on their way to one have the logged time. -/
theorem Guarded.times_act (h : w.Guarded cfg kind key)
    (hc : w.leader.checker.Steps cfg w.leader.fsm a c eff) {m : Leader}
    (ha : w.leader.Absorbed c eff true m) :
    (∀ x∈c.flying kind key,m.time kind key=.ofNano x.stamp) ∧
      ∀ ts∈c.lateStamps kind key,m.time kind key=.ofNano ts := by
  have consistent := h.alternates.consistent
  have flown (x : Sent) (hx : x∈c.flying kind key) :
      x∈w.leader.checker.flying kind key ∨ ∃ rest,w.leader.checker.tick=.send x::rest := by
    obtain ⟨mem,about⟩ := List.mem_filter.mp hx
    rcases hc.mem_inflight x mem with old|sent
    · exact .inl (List.mem_filter.mpr ⟨old,about⟩)
    · exact .inr sent
  rcases hc.paced kind key consistent.sound consistent.focus with
    ⟨late,received,unlogged,-⟩|⟨input,p,ts,rest,-,ht,about,heff,late,-⟩|⟨x,rest,ht,about,rfl,late,gone,-⟩
  · have time := ha.time unlogged
    rw [time,late]
    refine ⟨?_,h.late⟩
    intro x hx
    rcases flown x hx with old|⟨rest,ht⟩
    · exact h.flying x old
    · -- the command is only now sent, by a statement that has its instant
      apply h.late
      have about := (List.mem_filter.mp hx).2
      rw [Checker.lateStamps,ht]
      simp [Stmt.late,Sent.stampFor,about]
  · have idle := h.alternates.flying_of_submitTime p ts rest ht about
    rw [Checker.notifyFollower,if_pos h.alternates.writable] at heff
    have time : m.time kind key=.ofNano ts := by
      rcases ha.store with ⟨-,failed⟩|⟨e,source,he,-,happly⟩
      · exact absurd (failed _ _ heff) (by simp)
      · rw [heff] at he
        cases he
        rw [Leader.time,((Fsm.applyEntry_some _ _ _).mp happly).2,time_replay,stampOf_timeEntry,
          if_pos about]
    constructor
    · intro x hx
      rcases flown x hx with old|⟨rest',ht'⟩
      · rw [idle] at old
        cases old
      · rw [ht] at ht'
        cases ht'
    · intro t ht'
      rw [late] at ht'
      split_ifs at ht'
      · cases ht'
      · rw [List.mem_singleton.mp ht']
        exact time
  · have time : m.time kind key=w.leader.time kind key := ha.time (by simp)
    rw [time,gone]
    refine ⟨?_,by simp⟩
    intro y hy
    rcases flown y hy with old|⟨rest',ht'⟩
    · have unsent : x.decision∈w.leader.checker.unsent kind key := by
        refine List.mem_filterMap.mpr ⟨.send x,List.mem_filter.mpr ⟨?_,about⟩,rfl⟩
        rw [ht]
        exact List.mem_cons_self
      rw [h.alternates.flying_of_unsent _ unsent] at old
      cases old
    · rw [ht] at ht'
      cases ht'
      exact h.late _ (by rw [late]; exact List.mem_singleton_self _)

/-- A check passes its gate on a current entry only. -/
theorem Guarded.passes (h : w.Guarded cfg kind key) {st : Stmt} {rest : List Stmt}
    (ht : w.leader.checker.tick=st::rest) (about : st.about kind key=true)
    (ungated : st.ungated=true) {e : LeaderEvent} {now : Int64} (gate : e.gate=some now)
    (intime : w.InTime cfg kind key e)
    (passed : ¬since now (kind.time st.entry.replicated)<seconds cfg.eventInterval) :
    w.leader.Current kind key st := by
  have here : st∈w.leader.checker.focus kind key :=
    List.mem_filter.mpr ⟨by rw [ht]; exact List.mem_cons_self,about⟩
  rcases (h.placed st here).1 ungated with current|⟨x,hx,mine,time⟩
  · exact current
  · rw [time] at passed
    exact absurd (intime st (by rw [ht]; rfl) about now (by rw [gate]; rfl) x hx mine) passed

/-- A step that is not about the check keeps what is left of it, unless the pass clones. -/
theorem focus_untouched (hc : w.leader.checker.Steps cfg w.leader.fsm a c eff)
    (quiet : ∀ st rest input,a=.tick input → w.leader.checker.tick=st::rest →
      st.about kind key=false)
    (kept : (LeaderEvent.act a true).clones=false) (st : Stmt) (hst : st∈c.focus kind key) :
    st∈w.leader.checker.focus kind key := by
  cases hc with
  | enter ht hw => simp [Checker.focus,Stmt.about] at hst
  | tick st' rest input sts eff ht hx =>
    obtain ⟨mem,about⟩ := List.mem_filter.mp hst
    refine List.mem_filter.mpr ⟨?_,about⟩
    rw [ht]
    cases List.mem_append.mp mem with
    | inr old => exact List.mem_cons_of_mem _ old
    | inl new =>
      have other : st'≠.clone := by
        rintro rfl
        cases hx
        cases kept
      have same := ((hx.successor other).2 st new).1 kind key
      rw [about,quiet st' rest input rfl ht] at same
      cases same
  | start | drop | finish | record => exact hst

/-- The statements that a clone leaves are current, or have the time of what is in flight. -/
theorem Guarded.clone (h : w.Guarded cfg kind key) {o : List (GoString × GossipConsensus)}
    (hc : w.leader.checker.Steps cfg w.leader.fsm (.tick (.order o)) c eff) {st : Stmt}
    (hst : st∈c.focus kind key) :
    st.notifying=false ∧ (w.leader.Current kind key st ∨
      Blocked ⟨w.leader,w.leader.checker.inflight⟩ kind key st) := by
  have alone := h.alternates.consistent.sound.alone
  cases hc with
  | tick st' rest input sts eff ht hx =>
    cases hx with
    | clone o ho =>
      have single := alone .clone (by rw [ht]; exact List.mem_cons_self) (.inr rfl)
      obtain rfl : rest=[] := by
        rw [ht] at single
        exact (List.cons.inj single).2
      obtain ⟨mem,about⟩ := List.mem_filter.mp hst
      rw [List.append_nil] at mem
      obtain ⟨v,hv,entry⟩ := mem_cloneChecks o kind key st mem about
      have stored : st.entry.replicated=w.leader.fsm.gcm.replicated key := by
        rw [entry,GossipConsensus.copy_replicated,GossipCacheManager.replicated,
          GossipCacheManager.entry,(ho.mem_iff key v).mp hv]
        rfl
      refine ⟨?_,?_⟩
      · obtain ⟨p,-,hp⟩ := List.mem_flatMap.mp mem
        simp only [List.mem_cons,List.not_mem_nil,or_false] at hp
        rcases hp with rfl|rfl <;> rfl
      · cases hf : w.leader.checker.flying kind key with
        | nil => exact .inl ⟨hf,by rw [stored]; rfl⟩
        | cons x xs =>
          have here : x∈w.leader.checker.flying kind key := by
            rw [hf]
            exact List.mem_cons_self
          obtain ⟨mem,about⟩ := List.mem_filter.mp here
          exact .inr ⟨x,mem,about,by rw [stored]; exact h.flying x here⟩

/-- A statement about the check leaves a notification only on a current entry. -/
theorem Guarded.executes (h : w.Guarded cfg kind key) {st : Stmt} {rest : List Stmt}
    {input : TickInput} {sts : List Stmt} (ht : w.leader.checker.tick=st::rest)
    (about : st.about kind key=true)
    (hx : Executes cfg w.leader.fsm w.leader.checker st input sts eff)
    (intime : w.InTime cfg kind key (.act (.tick input) true)) {s : Stmt} (hs : s∈sts) :
    s.ungated=false ∧ (s.notifying=true →
      eff=.silent ∧ w.leader.Current kind key st ∧ s.entry=st.entry) := by
  have other : st≠.clone := by
    rintro rfl
    simp [Stmt.about] at about
  have entry := ((hx.successor other).2 s hs).2
  cases hx with
  | barrier | failed | clone => simp [Stmt.about] at about
  | checkEvent k v now sc hv =>
    obtain ⟨d,rfl,-,-,-,-,passed⟩ := checkEvent_sound cfg k v now sc hv s hs
    obtain ⟨rfl,-⟩ : CheckKind.event=kind ∧ k=key := by simpa [Stmt.about] using about
    exact ⟨rfl,fun _ => ⟨rfl,h.passes ht about rfl rfl intime passed,entry⟩⟩
  | checkEmpty k v now sc hv =>
    obtain ⟨d,rfl,-,-,-,-,passed⟩ := checkEmpty_sound cfg k v now sc hv s hs
    obtain ⟨rfl,-⟩ : CheckKind.empty=kind ∧ k=key := by simpa [Stmt.about] using about
    exact ⟨rfl,fun _ => ⟨rfl,h.passes ht about rfl rfl intime passed,entry⟩⟩
  | stamp d now =>
    rw [List.mem_singleton.mp hs]
    exact ⟨rfl,by simp [Stmt.notifying]⟩
  | submitPending d ts hp =>
    rw [List.mem_singleton.mp hs]
    exact ⟨rfl,by simp [Stmt.notifying]⟩
  | submitTime d ts hp =>
    rw [List.mem_singleton.mp hs]
    exact ⟨rfl,by simp [Stmt.notifying]⟩
  | build d ts =>
    rw [List.mem_singleton.mp hs]
    exact ⟨rfl,by simp [Stmt.notifying]⟩
  | submitStatus | send => cases hs

theorem Guarded.placed_act (h : w.Guarded cfg kind key)
    (hc : w.leader.checker.Steps cfg w.leader.fsm a c eff) {m : Leader}
    (ha : w.leader.Absorbed c eff true m) (intime : w.InTime cfg kind key (.act a true)) (st : Stmt)
    (hst : st∈c.focus kind key) :
    Placed ⟨m,if (LeaderEvent.act a true).clones then w.leader.checker.inflight else w.unrecorded⟩
      kind key st := by
  rcases h.alternates.touches a c eff hc ha with
    ⟨same,quiet⟩|⟨st',rest,input,sts,rfl,ht,about,hx,htick⟩|⟨i,r,rfl,hr,about⟩
  · cases kept : (LeaderEvent.act a true).clones with
    | false =>
      obtain ⟨gate,notify⟩ := h.placed st (focus_untouched hc quiet kept st hst)
      exact ⟨fun hg => (gate hg).imp_left (fun current => current.untouched same),
        fun hn => (notify hn).untouched same⟩
    | true =>
      obtain ⟨o,rfl⟩ : ∃ o,a=.tick (.order o) := by
        unfold LeaderEvent.clones at kept
        split at kept
        · next o ok he =>
          cases he
          exact ⟨o,rfl⟩
        · cases kept
      obtain ⟨quiet,placed⟩ := h.clone hc hst
      refine ⟨fun _ => placed.imp_left (fun current => current.untouched same),?_⟩
      intro hn
      rw [quiet] at hn
      cases hn
  · have single := h.alternates.consistent.focus_head st' rest ht about
    have mem : st∈sts := by
      rw [Checker.focus,htick,List.filter_append,single,List.append_nil] at hst
      exact (List.mem_filter.mp hst).1
    obtain ⟨gated,notify⟩ := h.executes ht about hx intime mem
    refine ⟨fun hg => absurd (hg.symm.trans gated) (by simp),?_⟩
    intro hn
    obtain ⟨rfl,current,entry⟩ := notify hn
    have flown := (hc.inflight_tick).filter (fun x => x.decision.about kind key)
    have idle : w.leader.checker.inflight.filter (fun x => x.decision.about kind key)=[] := current.1
    rw [show Effect.silent.received=[] from rfl,List.nil_append,idle] at flown
    refine ⟨by rw [ha.checker]; exact List.perm_nil.mp flown,?_⟩
    rw [entry,current.2]
    rcases ha.store with ⟨store,-⟩|⟨_,_,he,-⟩
    · rw [store]
    · cases he
  · -- the result that is taken was in flight, so no check of this pass has a current entry
    have tick := (hc.inflight_record hr).2
    have flew : r.sent∈w.leader.checker.flying kind key := by
      refine List.mem_filter.mpr ⟨?_,about⟩
      exact List.mem_append_right _ (List.mem_append_right _
        (List.mem_map.mpr ⟨r,List.mem_of_getElem? hr,rfl⟩))
    have stale (s : Stmt) : ¬w.leader.Current kind key s := by
      intro current
      rw [current.1] at flew
      cases flew
    rw [Checker.focus,tick] at hst
    obtain ⟨gate,notify⟩ := h.placed st hst
    exact ⟨fun hg => .inr ((gate hg).resolve_left (stale st)),fun hn => absurd (notify hn) (stale st)⟩

end Act

theorem Guarded.step (h : w.Guarded cfg kind key) (e : LeaderEvent) (stable : StableEvent key e)
    (intime : w.InTime cfg kind key e) (hs : w.step cfg e=some v) : v.Guarded cfg kind key := by
  obtain ⟨m,hm,rfl⟩ := Option.map_eq_some_iff.mp hs
  have alternates := h.alternates.step e stable (h.decides e) hm
  by_cases he : ∃ a ok,e=.act a ok
  · obtain ⟨a,ok,rfl⟩ := he
    obtain rfl : ok=true := stable
    obtain ⟨c,eff,hc,ha⟩ := Leader.step_act cfg w.leader m a true hm
    obtain ⟨flying,late⟩ := h.times_act hc ha
    have placed := h.placed_act hc ha intime
    rw [←ha.checker] at flying late placed
    exact ⟨alternates,flying,late,placed⟩
  · have other : ∀ a ok,e≠.act a ok := fun a ok same => he ⟨a,ok,same⟩
    have time : m.time kind key=w.leader.time kind key :=
      Leader.time_other e other stable.keeps hm
    have same : w.leader.Untouched kind key m := Leader.untouched_other other stable.keeps hm
    obtain ⟨b,checker⟩ := (Leader.step_other cfg w.leader m e other hm).1
    have kept : e.clones=false := by
      unfold LeaderEvent.clones
      split
      · exact absurd rfl (other _ _)
      · rfl
    rw [kept]
    refine ⟨alternates,?_,?_,?_⟩
    · intro x hx
      rw [time]
      exact h.flying x (same.flying.subset hx)
    · rw [time,checker]
      exact h.late
    · rw [checker]
      intro st hst
      obtain ⟨gate,notify⟩ := h.placed st hst
      exact ⟨fun hg => (gate hg).imp_left (fun current => current.untouched same),
        fun hn => (notify hn).untouched same⟩

theorem guarded_start (f : Fsm) : Guarded cfg kind key ⟨.start f true,[]⟩ :=
  ⟨Leader.alternates_start f,by simp [Leader.start,Checker.flying,Checker.inflight],
    by simp [Leader.start,Checker.lateStamps],by simp [Leader.start,Checker.focus]⟩

end Step
end Cloned

/-- In every run of one stable leader in which results are recorded in time, two consecutive
commands of a check for a key carry different statuses, both among the two the check notifies
about. In time is: whenever a check reads the clock eventInterval or more after the decision of
an earlier command, its pass cloned after the result of that command was recorded. -/
theorem notifications_alternate (cfg : QuorumConfig) (kind : CheckKind) (key : GoString) (f : Fsm)
    (es : List LeaderEvent) (l : Leader) (stable : ∀ e∈es,StableEvent key e)
    (intime : Along (Cloned.step cfg) (Cloned.InTime cfg kind key) ⟨.start f true,[]⟩ es)
    (hr : run (Leader.step cfg) (.start f true) es=some l) :
    (l.sentStatuses kind key).IsChain (· ≠ ·) ∧ ∀ s∈l.sentStatuses kind key,kind.Notifies s := by
  obtain ⟨w,hw,rfl⟩ := Cloned.run_leader cfg es ⟨.start f true,[]⟩ l hr
  have ok := along_and _ _ _ _ es
    (along_of_forall (Cloned.step cfg) (StableEvent key) ⟨.start f true,[]⟩ es stable) intime
  have inv := run_invariant (Cloned.step cfg)
    (fun w e => StableEvent key e ∧ w.InTime cfg kind key e)
    (Cloned.Guarded cfg kind key) (fun _ e _ h ok hs => h.step e ok.1 ok.2 hs) es _ w
    (Cloned.guarded_start f) ok hw
  exact ⟨inv.alternates.chain,inv.alternates.notifies⟩

/-- The script for DOWN ends two seconds after its decision. In the meantime a pass has cloned,
and its check is kept back by the interval. Half a minute later the key is UP again. -/
def thenUp : List LeaderEvent :=
  [.act (.start 0) true,.act .enter true,.tick (.barrier true),
    .tick (.order [(goStr "k",soloEntry (.ofNano 63000000000) gossipUp 62 gossipDown)]),
    .act (.finish 0 (.exited 0 [] [])) true,.act (.record 0) true,
    .tick (.check 65000000000 {soloScan 62 65 gossipDown with counts := []}),
    .tick (.check 65000000000 (soloScan 62 65 gossipDown)),
    .report (soloReport 93 gossipUp),.act .enter true,.tick (.barrier true),
    .tick (.order [(goStr "k",soloEntry (.ofNano 63000000000) gossipDown 93 gossipUp)]),
    .tick (.check 94000000000 (soloScan 93 94 gossipUp)),.tick (.clock 94000000000),
    .tick .go,.tick .go,.tick .go]

/-- The interval of the next examples, shorter than a script may take. -/
def halfMinute : QuorumConfig := {soloConfig with eventInterval := 30}

theorem notifications_alternate_down_up :
    ∃ l,run (Leader.step halfMinute) (.start .new true) (firstUp++thenDown++thenUp)=some l ∧
      l.sentStatuses .event (goStr "k")=[gossipDown,gossipUp] ∧
      (l.sentStatuses .event (goStr "k")).IsChain (· ≠ ·) := by
  have done : (run (Leader.step halfMinute) (.start .new true) (firstUp++thenDown++thenUp)).map
      (fun l => l.sentStatuses .event (goStr "k"))=some [gossipDown,gossipUp] := by
    decide +kernel
  obtain ⟨l,hl,sent⟩ := Option.map_eq_some_iff.mp done
  exact ⟨l,hl,sent,(notifications_alternate halfMinute .event (goStr "k") .new
    (firstUp++thenDown++thenUp) l (by decide +kernel) (by decide +kernel) hl).1⟩

/-- With an interval of 30 seconds the script for DOWN, which may take 60, is still
running when the next pass, 31 seconds after the first decision, finds DOWN reported
and UP recorded: DOWN is sent again. -/
theorem down_sent_twice :
    (run (Leader.step halfMinute) (.start .new true)
      (firstUp++thenDown++[.act (.start 0) true,.report (soloReport 93 gossipDown),
        .act .enter true,.tick (.barrier true),
        .tick (.order [(goStr "k",soloEntry (.ofNano 63000000000) gossipUp 93 gossipDown)]),
        .tick (.check 94000000000 (soloScan 93 94 gossipDown)),.tick (.clock 94000000000),
        .tick .go,.tick .go,.tick .go])).map
      (fun l => (l.sentStatuses .event (goStr "k"),l.checker.running.length))=
      some ([gossipDown,gossipDown],1) := by
  decide +kernel

/-- It is not enough that the result is recorded within the interval: the pass cloned before
that, and its check reads the clock after the interval has passed. -/
example :
    (run (Leader.step halfMinute) (.start .new true)
      (firstUp++thenDown++[.report (soloReport 64 gossipDown),.act (.start 0) true,.act .enter true,
        .tick (.barrier true),
        .tick (.order [(goStr "k",soloEntry (.ofNano 63000000000) gossipUp 64 gossipDown)]),
        .act (.finish 0 (.exited 0 [] [])) true,.act (.record 0) true,
        .tick (.check 94000000000 (soloScan 64 94 gossipDown)),.tick (.clock 94000000000),
        .tick .go,.tick .go,.tick .go])).map
      (fun l => (l.sentStatuses .event (goStr "k"),l.prevConsensus (goStr "k")))=
      some ([gossipDown,gossipDown],gossipDown) := by
  decide +kernel

end StCache
