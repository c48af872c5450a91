import StCache.Leader.Leader

namespace StCache

theorem Decision.about_iff (d : Decision) (kind : CheckKind) (key : GoString) :
    d.about kind key=true ↔ d.kind=kind ∧ d.key=key := by
  simp [Decision.about]

/-- The recorded status of a check changes only when its pending branch records
one or quorumCheck2 takes the result of one of its scripts. -/
theorem Leader.recorded_act (cfg : QuorumConfig) (l m : Leader) (a : Action) (ok : Bool)
    (c : Checker) (eff : Effect) (sound : l.checker.Sound cfg)
    (hs : l.checker.Steps cfg l.fsm a c eff) (ha : l.Absorbed c eff ok m)
    (kind : CheckKind) (key : GoString) :
    m.fsm.recorded kind key=l.fsm.recorded kind key ∨
      (∃ d rest,l.checker.tick=.submitStatus d::rest ∧ c.tick=rest ∧ d.about kind key=true ∧
        m.fsm.recorded kind key=d.status) ∨
      (∃ i r,a=.record i ∧ l.checker.results[i]?=some r ∧ c.tick=l.checker.tick ∧
        r.sent.decision.about kind key=true ∧
        m.fsm.recorded kind key=r.sent.decision.status) := by
  rcases ha.store with ⟨same,-⟩|⟨e,source,rfl,-,happly⟩
  · exact .inl (by rw [same])
  · rcases hs.submits with ⟨p,ts,rest,-,rfl,-⟩|⟨p,rest,ht,hrest,rfl,-⟩|⟨i,r,hi,hr,ht,rfl,-⟩
    · exact .inl (Fsm.recorded_timeEntry _ _ p ts happly kind key)
    · have hp : p.kind=.event :=
        ((sound.tick _ (by rw [ht]; simp : Stmt.submitStatus p∈_)).1.pending
          (sound.tick _ (by rw [ht]; simp : Stmt.submitStatus p∈_)).2).1
      rw [Fsm.recorded_statusEntry _ _ _ _ happly]
      by_cases hk : kind=.event ∧ p.key=key
      · rw [if_pos hk]
        exact .inr (.inl ⟨p,rest,ht,hrest,(p.about_iff kind key).mpr ⟨hp.trans hk.1.symm,hk.2⟩,rfl⟩)
      · rw [if_neg hk]
        exact .inl rfl
    · have hr' := sound.results r (List.mem_of_getElem? hr)
      have notifies : r.sent.decision.kind.Notifies r.result.status := by
        rw [hr'.2.2]
        exact hr'.1.1.notifies
      rw [Fsm.recorded_resultEntry _ _ _ _ notifies happly,hr'.2.1,hr'.2.2]
      by_cases hk : kind=r.sent.decision.kind ∧ r.sent.decision.key=key
      · rw [if_pos hk]
        exact .inr (.inr ⟨i,r,hi,hr,ht,(Decision.about_iff _ kind key).mpr ⟨hk.1.symm,hk.2⟩,rfl⟩)
      · rw [if_neg hk]
        exact .inl rfl

/-- How the clone, the commands in flight and the store hang together for one
check of one key. The cloned entry records a status the check notifies about
exactly when the store still does. -/
structure Leader.Consistent (cfg : QuorumConfig) (kind : CheckKind) (key : GoString)
    (l : Leader) : Prop where
  sound : l.checker.Sound cfg
  focus : (l.checker.focus kind key).length≤1
  entry : ∀ st∈l.checker.focus kind key,
    (kind.Notifies (recordedStatus kind st.entry.replicated) ↔
      kind.Notifies (l.fsm.recorded kind key))
  inflight : ∀ x∈l.checker.inflight,x.decision.about kind key=true →
    kind.Notifies (l.fsm.recorded kind key)
  results : ∀ r∈l.checker.results,r.outcome.started=true → r.sent∈l.ran

theorem Leader.consistent_start (cfg : QuorumConfig) (kind : CheckKind) (key : GoString)
    (f : Fsm) (w : Bool) : (Leader.start f w).Consistent cfg kind key := by
  refine ⟨Checker.sound_idle cfg w,?_,?_,?_,?_⟩ <;>
    simp [Leader.start,Checker.focus,Checker.inflight]

section Act
variable {cfg : QuorumConfig} {kind : CheckKind} {key : GoString} {l m : Leader}
  {a : Action} {ok : Bool} {c : Checker} {eff : Effect}

theorem Leader.Consistent.pending (h : l.Consistent cfg kind key) (d : Decision)
    (rest : List Stmt) (ht : l.checker.tick=.submitStatus d::rest)
    (hd : d.about kind key=true) : ¬kind.Notifies (l.fsm.recorded kind key) := by
  have sound := h.sound.tick (.submitStatus d) (by rw [ht]; simp)
  have here : .submitStatus d∈l.checker.focus kind key :=
    List.mem_filter.mpr ⟨by rw [ht]; simp,hd⟩
  obtain ⟨rfl,-⟩ := (d.about_iff kind key).mp hd
  rw [←h.entry _ here]
  exact (sound.1.pending sound.2).2

/-- After any step the recorded status is one the check notifies about, unless
nothing was recorded anew. -/
theorem Leader.Consistent.notifies_act (h : l.Consistent cfg kind key)
    (hs : l.checker.Steps cfg l.fsm a c eff) (ha : l.Absorbed c eff ok m) :
    m.fsm.recorded kind key=l.fsm.recorded kind key ∨
      kind.Notifies (m.fsm.recorded kind key) := by
  rcases Leader.recorded_act cfg l m a ok c eff h.sound hs ha kind key with
    same|⟨d,rest,ht,-,hd,he⟩|⟨i,r,-,hr,-,hd,he⟩
  · exact .inl same
  · have sound := h.sound.tick (.submitStatus d) (by rw [ht]; simp)
    obtain ⟨rfl,-⟩ := (d.about_iff kind key).mp hd
    exact .inr (he ▸ sound.1.notifies)
  · have sound := h.sound.results r (List.mem_of_getElem? hr)
    obtain ⟨rfl,-⟩ := (r.sent.decision.about_iff kind key).mp hd
    exact .inr (he ▸ sound.1.1.notifies)

theorem Leader.Consistent.entry_act (h : l.Consistent cfg kind key)
    (hs : l.checker.Steps cfg l.fsm a c eff) (ha : l.Absorbed c eff ok m) :
    ∀ st∈c.focus kind key,(kind.Notifies (recordedStatus kind st.entry.replicated) ↔
      kind.Notifies (m.fsm.recorded kind key)) := by
  intro st hst
  have old : kind.Notifies (recordedStatus kind st.entry.replicated) ↔
      kind.Notifies (l.fsm.recorded kind key) := by
    rcases hs.focus_entry kind key st hst with ⟨t,ht,he⟩|⟨v,hv,he⟩
    · rw [←he]
      exact h.entry t ht
    · have copied : recordedStatus kind st.entry.replicated=l.fsm.recorded kind key := by
        rw [he,GossipConsensus.copy_replicated,Fsm.recorded,GossipCacheManager.replicated,
          GossipCacheManager.entry,hv]
        rfl
      rw [copied]
  rcases Leader.recorded_act cfg l m a ok c eff h.sound hs ha kind key with
    same|⟨d,rest,ht,hrest,hd,-⟩|⟨i,r,-,hr,-,hd,-⟩
  · rw [same]
    exact old
  · have alone := h.focus
    rw [Checker.focus,ht,List.filter_cons_of_pos (by exact hd),List.length_cons] at alone
    have gone : c.focus kind key=[] := by
      rw [Checker.focus,hrest]
      exact List.length_eq_zero_iff.mp (by omega)
    rw [gone] at hst
    cases hst
  · have flying : r.sent∈l.checker.inflight := by
      simp only [Checker.inflight,List.mem_append,List.mem_map]
      exact .inr (.inr ⟨r,List.mem_of_getElem? hr,rfl⟩)
    have before := h.inflight r.sent flying hd
    have after : kind.Notifies (m.fsm.recorded kind key) := by
      cases h.notifies_act hs ha with
      | inl same =>
        rw [same]
        exact before
      | inr notifies => exact notifies
    exact old.trans (iff_of_true before after)

theorem Leader.Consistent.inflight_act (h : l.Consistent cfg kind key)
    (hs : l.checker.Steps cfg l.fsm a c eff) (ha : l.Absorbed c eff ok m) :
    ∀ x∈c.inflight,x.decision.about kind key=true →
      kind.Notifies (m.fsm.recorded kind key) := by
  intro x hx hd
  have before : kind.Notifies (l.fsm.recorded kind key) := by
    rcases hs.mem_inflight x hx with hx|⟨rest,ht⟩
    · exact h.inflight x hx hd
    · have sound := h.sound.tick (.send x) (by rw [ht]; simp)
      have here : .send x∈l.checker.focus kind key :=
        List.mem_filter.mpr ⟨by rw [ht]; simp,hd⟩
      rw [←h.entry _ here]
      obtain ⟨rfl,-⟩ := (x.decision.about_iff kind key).mp hd
      exact (sound.1.change sound.2.1).1
  cases h.notifies_act hs ha with
  | inl same =>
    rw [same]
    exact before
  | inr notifies => exact notifies

theorem Leader.Consistent.ran_act (h : l.Consistent cfg kind key)
    (hs : l.checker.Steps cfg l.fsm a c eff) (ha : l.Absorbed c eff ok m) :
    ∀ r∈c.results,r.outcome.started=true → r.sent∈m.ran := by
  have keep (x : Sent) (hx : x∈l.ran) : x∈m.ran := by
    rw [ha.ran]
    exact List.mem_append_left _ hx
  intro r hr started
  cases hs with
  | finish i o x hi =>
    cases List.mem_append.mp hr with
    | inl hr => exact keep _ (h.results r hr started)
    | inr hr =>
      obtain rfl := List.mem_singleton.mp hr
      rw [ha.ran,Sent.effect,if_pos started]
      exact List.mem_append_right _ (List.mem_singleton_self x)
  | record i q hi => exact keep _ (h.results r (List.mem_of_mem_eraseIdx hr) started)
  | enter | tick | start | drop => exact keep _ (h.results r hr started)

end Act

/-- Every step that does not delete the entry of the key keeps the picture
together. -/
theorem Leader.Consistent.step {cfg : QuorumConfig} {kind : CheckKind} {key : GoString}
    {l m : Leader} (h : l.Consistent cfg kind key) (e : LeaderEvent) (keep : e≠.delKey key)
    (hs : l.step cfg e=some m) : m.Consistent cfg kind key := by
  by_cases he : ∃ a ok,e=.act a ok
  · obtain ⟨a,ok,rfl⟩ := he
    obtain ⟨c,eff,hc,ha⟩ := Leader.step_act cfg l m a ok hs
    have results := h.ran_act hc ha
    have entry := h.entry_act hc ha
    have inflight := h.inflight_act hc ha
    rw [←ha.checker] at results entry inflight
    exact ⟨ha.checker ▸ h.sound.step hc,ha.checker ▸ hc.focus_le h.sound kind key h.focus,
      entry,inflight,results⟩
  · obtain ⟨⟨b,hb⟩,-,hran,-,hrec⟩ :=
      Leader.step_other cfg l m e (fun a ok hx => he ⟨a,ok,hx⟩) hs
    have same := hrec kind key keep
    refine ⟨?_,?_,?_,?_,?_⟩
    · rw [hb]
      exact ⟨h.sound.tick,h.sound.alone,h.sound.cmds,h.sound.running,h.sound.results⟩
    · rw [hb]
      exact h.focus
    · rw [hb,same]
      exact h.entry
    · rw [hb,same]
      exact h.inflight
    · rw [hb,hran]
      exact h.results

/-- The recorded UP or DOWN status of a key. -/
def Leader.prevConsensus (l : Leader) (key : GoString) : GossipStatus :=
  (l.fsm.gcm.replicated key).prevConsensus

/-- A key's status is unset, UP or DOWN. -/
def ThreeValued (s : GossipStatus) : Prop := s=[] ∨ s=gossipUp ∨ s=gossipDown

/-- A script for the key and the status has run. -/
def Leader.HasRun (l : Leader) (key : GoString) (status : GossipStatus) : Prop :=
  ∃ x∈l.ran,x.command.key=key ∧ x.command.status=status

/-- quorumCheck2 takes the result of a script about UP or DOWN of this key that could not be
started, and its Apply call succeeds. -/
def TakesUnstarted (key : GoString) (l : Leader) (e : LeaderEvent) (r : Finished) : Prop :=
  ∃ i,e=.act (.record i) true ∧ l.checker.results[i]?=some r ∧ r.outcome.started=false ∧
    r.sent.decision.about .event key=true

/-- What one step does to the recorded status: it keeps it, or it changes an
unset one, or a script with the new status has run or could not be started. -/
theorem Leader.Consistent.flip {cfg : QuorumConfig} {key : GoString} {l m : Leader}
    (h : l.Consistent cfg .event key) (e : LeaderEvent) (keep : e≠.delKey key)
    (hs : l.step cfg e=some m) :
    m.prevConsensus key=l.prevConsensus key ∨
      (CheckKind.event.Notifies (m.prevConsensus key) ∧
        (CheckKind.event.Notifies (l.prevConsensus key) →
          l.HasRun key (m.prevConsensus key) ∨
            (l.checker.writable=true ∧
              ∃ r,TakesUnstarted key l e r ∧ r.sent.command.status=m.prevConsensus key))) := by
  by_cases he : ∃ a ok,e=.act a ok
  · obtain ⟨a,ok,rfl⟩ := he
    obtain ⟨c,eff,hc,ha⟩ := Leader.step_act cfg l m a ok hs
    cases h.notifies_act hc ha with
    | inl same => exact .inl same
    | inr notifies =>
      rcases Leader.recorded_act cfg l m a ok c eff h.sound hc ha .event key with
        same|⟨d,rest,ht,-,hd,-⟩|⟨i,r,rfl,hr,-,hd,hstatus⟩
      · exact .inl same
      · exact .inr ⟨notifies,fun before => absurd before (h.pending d rest ht hd)⟩
      · have mem := List.mem_of_getElem? hr
        have sound := (h.sound.results r mem).1
        have command : r.sent.command.key=key ∧ r.sent.command.status=m.prevConsensus key := by
          rw [sound.2.2]
          exact ⟨((Decision.about_iff _ _ _).mp hd).2,hstatus.symm⟩
        by_cases same : m.prevConsensus key=l.prevConsensus key
        · exact .inl same
        refine .inr ⟨notifies,fun _ => ?_⟩
        cases started : r.outcome.started with
        | true => exact .inl ⟨r.sent,h.results r mem started,command⟩
        | false =>
          -- the status has changed, so the entry was submitted and its Apply succeeded
          rcases ha.store with ⟨store,-⟩|⟨entry,source,submitted,rfl,-⟩
          · exact absurd (by rw [Leader.prevConsensus,store]; rfl) same
          · cases hc with
            | record i q hq =>
              have writable := (l.checker.notifyFollower_submit _ _ _ _ submitted).2.2
              exact .inr ⟨writable,r,⟨i,rfl,hr,started,hd⟩,command.2⟩
  · obtain ⟨-,-,-,-,hrec⟩ := Leader.step_other cfg l m e (fun a ok hx => he ⟨a,ok,hx⟩) hs
    exact .inl (hrec .event key keep)

theorem Leader.Consistent.threeValued {cfg : QuorumConfig} {key : GoString} {l m : Leader}
    (h : l.Consistent cfg .event key) (e : LeaderEvent) (keep : e≠.delKey key)
    (hs : l.step cfg e=some m) (h3 : ThreeValued (l.prevConsensus key)) :
    ThreeValued (m.prevConsensus key) := by
  rcases h.flip e keep hs with same|⟨notifies,-⟩
  · rw [same]
    exact h3
  · exact .inr notifies

/-- A change of the key's status between UP and DOWN comes after a script for the key and the
new status has run. -/
def FlipsAfterScript (cfg : QuorumConfig) (key : GoString) (l : Leader) (e : LeaderEvent) : Prop :=
  ∀ m,l.step cfg e=some m → l.prevConsensus key≠[] → m.prevConsensus key≠l.prevConsensus key →
    l.HasRun key (m.prevConsensus key)

/-- A script that could not be started changes a set status of the key only if another one for
the same status has run. -/
def UnstartedFlipsNothing (key : GoString) (l : Leader) (e : LeaderEvent) : Prop :=
  ∀ r,TakesUnstarted key l e r → l.checker.writable=true → l.prevConsensus key≠[] →
    r.sent.command.status≠l.prevConsensus key → l.HasRun key r.sent.command.status

/-- The recorded status after a result was taken with write permission. -/
theorem Leader.Consistent.takes {cfg : QuorumConfig} {key : GoString} {l m : Leader} {r : Finished}
    {i : Nat} (h : l.Consistent cfg .event key) (hr : l.checker.results[i]?=some r)
    (hd : r.sent.decision.about .event key=true) (writable : l.checker.writable=true)
    (hs : l.step cfg (.act (.record i) true)=some m) :
    m.prevConsensus key=r.sent.command.status := by
  obtain ⟨c,eff,hc,ha⟩ := Leader.step_act cfg l m _ true hs
  have sound := h.sound.results r (List.mem_of_getElem? hr)
  obtain ⟨kind,hkey⟩ := (Decision.about_iff _ _ _).mp hd
  cases hc with
  | record i q hq =>
    obtain rfl : r=q := Option.some.inj (hr.symm.trans hq)
    rw [Checker.notifyFollower,if_pos writable] at ha
    rcases ha.store with ⟨-,failed⟩|⟨e,source,he,-,happly⟩
    · exact absurd (failed _ _ rfl) (by simp)
    · cases he
      have notifies : CheckKind.event.Notifies r.result.status := by
        rw [sound.2.2,←kind]
        exact sound.1.1.notifies
      have now := Fsm.recorded_resultEntry _ _ _ _ notifies happly .event key
      rw [sound.2.1,sound.2.2,if_pos ⟨rfl,hkey⟩] at now
      rw [sound.1.2.2]
      exact now

theorem Leader.Consistent.flips_iff {cfg : QuorumConfig} {key : GoString} {l : Leader}
    (h : l.Consistent cfg .event key) (three : ThreeValued (l.prevConsensus key))
    (e : LeaderEvent) (keep : e≠.delKey key) :
    FlipsAfterScript cfg key l e ↔ UnstartedFlipsNothing key l e := by
  constructor
  · rintro flips r ⟨i,rfl,hr,-,hd⟩ writable set change
    obtain ⟨m,hm⟩ := l.record_possible cfg i r hr true
    have status := h.takes hr hd writable hm
    rw [←status] at change ⊢
    exact flips m hm set change
  · intro nothing m hm set change
    rcases h.flip e keep hm with same|⟨-,cause⟩
    · exact absurd same change
    · rcases cause (three.resolve_left set) with ran|⟨writable,r,takes,status⟩
      · exact ran
      · rw [←status] at change ⊢
        exact nothing r takes writable set change

/-- In every run of one leader that never deletes the key's gossip entry, the recorded status is
unset, UP or DOWN, stays set once set, and the pending branch only ever writes over an unset one.
It changes between UP and DOWN only after a script for the key and the new status has run,
exactly when no script that could not be started changes it alone. -/
theorem no_silent_flip (cfg : QuorumConfig) (key : GoString) (f : Fsm) (w : Bool)
    (start : ThreeValued (f.gcm.replicated key).prevConsensus) (es : List LeaderEvent)
    (keep : ∀ e∈es,e≠.delKey key) :
    Along (Leader.step cfg) (fun l e => ThreeValued (l.prevConsensus key) ∧
      (∀ d rest,l.checker.tick=.submitStatus d::rest → d.key=key → l.prevConsensus key=[]) ∧
      ∀ m,l.step cfg e=some m → ThreeValued (m.prevConsensus key) ∧
        (l.prevConsensus key≠[] → m.prevConsensus key≠[])) (.start f w) es ∧
    (Along (Leader.step cfg) (FlipsAfterScript cfg key) (.start f w) es ↔
      Along (Leader.step cfg) (UnstartedFlipsNothing key) (.start f w) es) := by
  have first : (Leader.start f w).Consistent cfg .event key ∧
      ThreeValued ((Leader.start f w).prevConsensus key) :=
    ⟨Leader.consistent_start cfg .event key f w,start⟩
  have kept (l : Leader) (e : LeaderEvent) (m : Leader)
      (h : l.Consistent cfg .event key ∧ ThreeValued (l.prevConsensus key)) (ok : e≠.delKey key)
      (hs : l.step cfg e=some m) :
      m.Consistent cfg .event key ∧ ThreeValued (m.prevConsensus key) :=
    ⟨h.1.step e ok hs,h.1.threeValued e ok hs h.2⟩
  constructor
  · refine along_of_invariant (Leader.step cfg) _ (fun e => e≠.delKey key) _ ?_ kept es _ first keep
    intro l e h ok
    refine ⟨h.2,?_,?_⟩
    · intro d rest ht hd
      have sound := h.1.sound.tick (.submitStatus d) (by rw [ht]; simp)
      have here := (d.about_iff .event key).mpr ⟨(sound.1.pending sound.2).1,hd⟩
      exact h.2.resolve_right (h.1.pending d rest ht here)
    · intro m hs
      refine ⟨(kept l e m h ok hs).2,?_⟩
      intro set unset
      rcases h.1.flip e ok hs with same|⟨notifies,-⟩
      · exact set (same ▸ unset)
      · rw [unset] at notifies
        exact absurd notifies (by decide)
  · exact along_congr_events (Leader.step cfg) _ (fun e => e≠.delKey key) _ _
      (fun l e h ok => h.1.flips_iff h.2 e ok) kept es _ first keep

/-- One reporting node, a quorum of one, the default event interval. -/
def soloConfig : QuorumConfig := ⟨1,60,goStr "notify"⟩

/-- Report of the node "n" about the key "k", ts in seconds. -/
def soloReport (ts : Int64) (s : GossipStatus) : MyBroadcastMessage :=
  ⟨ts*1000000000,goStr "n",goStr "k",goStr "v",s⟩

def soloScan (ts now : Int64) (s : GossipStatus) : Scan :=
  ⟨[(goStr "n",⟨s,ts*1000000000⟩)],fun _ => now*1000000000,[(s,1)]⟩

def soloEntry (prevEventTime : GoTime) (prevConsensus : GossipStatus) (ts : Int64)
    (s : GossipStatus) : GossipConsensus :=
  {prevEventTime := prevEventTime,prevConsensus := prevConsensus,
    consensus := .alloc (Finmap.insert (goStr "n") ⟨s,ts*1000000000⟩ ∅)}

def LeaderEvent.tick (input : TickInput) : LeaderEvent := .act (.tick input) true

/-- The first UP report of a key and the pass that records it as pending. -/
def firstUp : List LeaderEvent :=
  [.report (soloReport 1 gossipUp),.act .enter true,.tick (.barrier true),
    .tick (.order [(goStr "k",soloEntry .zero [] 1 gossipUp)]),
    .tick (.check 2000000000 (soloScan 1 2 gossipUp)),.tick (.clock 2000000000),
    .tick .go,.tick .go,.tick (.check 2000000000 (soloScan 1 2 gossipUp))]

/-- A DOWN report one minute later and the pass that notifies about it. -/
def thenDown : List LeaderEvent :=
  [.report (soloReport 62 gossipDown),.act .enter true,.tick (.barrier true),
    .tick (.order [(goStr "k",soloEntry (.ofNano 2000000000) gossipUp 62 gossipDown)]),
    .tick (.check 63000000000 (soloScan 62 63 gossipDown)),.tick (.clock 63000000000),
    .tick .go,.tick .go,.tick .go,.tick (.check 63000000000 (soloScan 62 63 gossipDown))]

/-- The script for DOWN exits with zero and its result is recorded. -/
def downDelivered : List LeaderEvent :=
  [.act (.start 0) true,.act (.finish 0 (.exited 0 [] [])) true,.act (.record 0) true]

theorem no_silent_flip_down :
    ∃ l,run (Leader.step soloConfig) (.start .new true) (firstUp++thenDown++downDelivered)=some l ∧
      l.prevConsensus (goStr "k")=gossipDown ∧ l.ran.map (fun x => x.command.status)=[gossipDown] ∧
      (Along (Leader.step soloConfig) (FlipsAfterScript soloConfig (goStr "k")) (.start .new true)
          (firstUp++thenDown++downDelivered) ↔
        Along (Leader.step soloConfig) (UnstartedFlipsNothing (goStr "k")) (.start .new true)
          (firstUp++thenDown++downDelivered)) := by
  have done : (run (Leader.step soloConfig) (.start .new true)
      (firstUp++thenDown++downDelivered)).map (fun l => (l.prevConsensus (goStr "k"),
        l.ran.map (fun x => x.command.status)))=some (gossipDown,[gossipDown]) := by
    decide +kernel
  obtain ⟨l,hl,facts⟩ := Option.map_eq_some_iff.mp done
  obtain ⟨down,ran⟩ := Prod.mk.inj facts
  refine ⟨l,hl,down,ran,(no_silent_flip soloConfig (goStr "k") .new true (.inl rfl) _ ?_).2⟩
  intro e he
  simp only [firstUp,thenDown,downDelivered,LeaderEvent.tick,List.cons_append,List.nil_append,
    List.mem_cons,List.not_mem_nil,or_false] at he
  rintro rfl
  simp at he

/-- The value of the key has a NUL byte, so the script for DOWN cannot be started. DOWN is
recorded all the same, and no script has run. -/
theorem unstarted_script_flips :
    (run (Leader.step soloConfig) (.start .new true)
      (.client ⟨.set,goStr "k",[118,0]⟩::firstUp++thenDown++
        [.act (.start 0) true,.act (.finish 0 .notStarted) true])).map
      (fun l => (l.prevConsensus (goStr "k"),l.ran.length,
        l.checker.results.map (fun r => r.sent.command.cmd.contains 0)))=
      some (gossipUp,0,[true]) ∧
    (run (Leader.step soloConfig) (.start .new true)
      (.client ⟨.set,goStr "k",[118,0]⟩::firstUp++thenDown++
        [.act (.start 0) true,.act (.finish 0 .notStarted) true,.act (.record 0) true])).map
      (fun l => (l.prevConsensus (goStr "k"),l.ran.length))=some (gossipDown,0) := by
  constructor
  · decide +kernel
  · decide +kernel

end StCache
