import StCache.Cluster.Evidence
import StCache.Quorum.Pacing

namespace StCache

/-- The clock readings of the checks, over all nodes in the order of the run. -/
def ClusterEvent.readings : ClusterEvent → List Int64
  | .check _ x _ => x.readings
  | _ => []

def readings (es : List ClusterEvent) : List Int64 := es.flatMap ClusterEvent.readings

/-- A node passes its Barrier only when no other node is between its own Barrier and
the time entry of this check of this key. -/
def SolePass (kind : CheckKind) (key : GoString) (s : Cluster) : ClusterEvent → Prop
  | .check a (.tick (.barrier true)) _ => ∀ b,b≠a → (s.node b).checker.active kind key=false
  | _ => True

/-- Every time entry of a notifying decision is submitted and commits, no other such
entry reaches the log, and no replica loses the logged time. -/
def timesKept (kind : CheckKind) (key : GoString) (s : Cluster) : ClusterEvent → Bool
  | .commit e => (e.stampOf kind key).isNone
  | .delKey _ k => decide (k≠key)
  | .restart _ i => decide (i=0)
  | .check a (.tick _) committed =>
    match (s.node a).checker.tick with
    | .submitTime d _::_ =>
      !d.about kind key || d.pending || ((s.node a).checker.writable && committed)
    | _ => true
  | _ => true

namespace Cluster

def sentStamps (kind : CheckKind) (key : GoString) (s : Cluster) : List Int64 :=
  s.sent.filterMap (fun p => p.2.stampFor kind key)

/-- What a step does to the decisions of this check of this key. -/
inductive Pace (kind : CheckKind) (key : GoString) (s t : Cluster) : Prop where
  | quiet (log : stamps kind key t.log=stamps kind key s.log)
      (sent : t.sentStamps kind key=s.sentStamps kind key)
      (late : ∀ b,∀ ts∈(t.node b).checker.lateStamps kind key,
        ts∈(s.node b).checker.lateStamps kind key)
  | logged (a : GoString) (p : Decision) (ts : Int64) (rest : List Stmt)
      (head : (s.node a).checker.tick=.submitTime p ts::rest) (about : p.about kind key=true)
      (log : stamps kind key t.log=stamps kind key s.log++[ts])
      (sent : t.sentStamps kind key=s.sentStamps kind key)
      (here : ∀ x∈(t.node a).checker.lateStamps kind key,x=ts)
      (late : ∀ b,b≠a → (t.node b).checker=(s.node b).checker)
      (done : (t.node a).checker.active kind key=false)
  | sent (a : GoString) (ts : Int64) (log : stamps kind key t.log=stamps kind key s.log)
      (sent : t.sentStamps kind key=s.sentStamps kind key++[ts])
      (before : (s.node a).checker.lateStamps kind key=[ts])
      (after : (t.node a).checker.lateStamps kind key=[])
      (late : ∀ b,b≠a → (t.node b).checker=(s.node b).checker)

theorem absorb_checker (s : Cluster) (a : GoString) (c : Checker) (eff : Effect)
    (committed : Bool) (b : GoString) :
    ((s.absorb a c eff committed).node b).checker=if b=a then c else (s.node b).checker := by
  simp only [absorb,put_node]
  split_ifs <;> rfl

/-- What the checker of one node does, seen from the cluster. -/
theorem absorb_pace (cfg : ClusterConfig) (kind : CheckKind) (key : GoString) (s : Cluster)
    (src : s.Sourced cfg) (a : GoString) (x : Action) (committed : Bool) (c : Checker)
    (eff : Effect) (hc : (s.node a).checker.Steps cfg.quorum (s.node a).fsm x c eff)
    (ok : timesKept kind key s (.check a x committed)=true) :
    Pace kind key s (s.absorb a c eff committed) := by
  have log (h : ∀ e source,eff=.submit e source → committed=true → e.stampOf kind key=none) :
      stamps kind key (s.absorb a c eff committed).log=stamps kind key s.log := by
    cases eff with
    | submit e source =>
      cases committed with
      | true => exact stamps_snoc_none kind key s.log e (h e source rfl rfl)
      | false => rfl
    | silent | sent | ran => rfl
  have sent (h : eff.received.filterMap (Sent.stampFor kind key)=[]) :
      (s.absorb a c eff committed).sentStamps kind key=s.sentStamps kind key := by
    simp only [sentStamps,absorb,List.filterMap_append,List.filterMap_map]
    rw [show (fun p : GoString × Sent => p.2.stampFor kind key) ∘ (fun y => (a,y))=
      Sent.stampFor kind key from rfl,h,List.append_nil]
  have other (b : GoString) (hb : b≠a) :
      ((s.absorb a c eff committed).node b).checker=(s.node b).checker := by
    rw [absorb_checker,if_neg hb]
  have here : ((s.absorb a c eff committed).node a).checker=c := by
    rw [absorb_checker,if_pos rfl]
  rcases hc.paced kind key (src.sound a) (src.single a kind key) with
    ⟨late,hsent,time,-⟩|⟨input,p,ts,rest,rfl,ht,ha,rfl,late,quiet⟩|⟨y,rest,ht,ha,rfl,before,after,-⟩
  · refine .quiet (log (fun e source he _ => time e source he)) (sent hsent) ?_
    intro b ts hts
    by_cases hb : b=a
    · subst b
      rwa [here,late] at hts
    · rwa [other b hb] at hts
  · simp only [timesKept,ht,ha,Bool.not_true,Bool.false_or,Bool.or_eq_true,Bool.and_eq_true] at ok
    by_cases commits : (s.node a).checker.writable=true ∧ committed=true
    · have eff : (s.node a).checker.notifyFollower (p.timeEntry ts) none=
          .submit (p.timeEntry ts) none := by rw [Checker.notifyFollower,if_pos commits.1]
      refine .logged a p ts rest ht ha ?_ (sent (by simp)) ?_ other (by rwa [here])
      · rw [eff,commits.2]
        exact stamps_snoc_some kind key s.log _ ts (by rw [stampOf_timeEntry,if_pos ha])
      · intro x hx
        rw [here,late] at hx
        split_ifs at hx
        · simp at hx
        · exact List.mem_singleton.mp hx
    · have pending : p.pending=true := ok.resolve_right commits
      refine .quiet (log ?_) (sent (by simp)) ?_
      · intro e source he hcm
        have writable := ((s.node a).checker.notifyFollower_submit _ _ _ _ he).2.2
        exact absurd ⟨writable,hcm⟩ commits
      · intro b ts' hts
        by_cases hb : b=a
        · subst b
          rw [here,late,if_pos pending] at hts
          simp at hts
        · rwa [other b hb] at hts
  · refine .sent a y.stamp (log (by simp)) ?_ before (by rwa [here]) other
    simp [sentStamps,absorb,Effect.received,Sent.stampFor,ha]

/-- A step leaves a log that begins with the old one. -/
theorem Steps.log_grows {cfg : ClusterConfig} {s t : Cluster} {e : ClusterEvent}
    (h : s.Steps cfg e t) : ∃ more,t.log=s.log++more := by
  cases h with
  | commit e => exact ⟨[e],rfl⟩
  | check a x committed c eff hm hc =>
    cases eff with
    | submit e source =>
      cases committed with
      | true => exact ⟨[e],rfl⟩
      | false => exact ⟨[],(List.append_nil _).symm⟩
    | silent | sent | ran => exact ⟨[],(List.append_nil _).symm⟩
  | applyNext | deliver | verify | makeGossip2 | delKey | delNodeAddr | detectorDelKey
  | writeFlag | restart => exact ⟨[],(List.append_nil _).symm⟩

theorem Steps.pace {cfg : ClusterConfig} {s t : Cluster} {e : ClusterEvent}
    (h : s.Steps cfg e t) (src : s.Sourced cfg) (kind : CheckKind) (key : GoString)
    (ok : timesKept kind key s e=true) : Pace kind key s t := by
  have same (a : GoString) (n : Node) (hn : n.checker.tick=(s.node a).checker.tick) (b : GoString)
      (ts : Int64) (h : ts∈((s.put a n).node b).checker.lateStamps kind key) :
      ts∈(s.node b).checker.lateStamps kind key := by
    unfold Checker.lateStamps at h ⊢
    rwa [s.put_frame a n (fun m => m.checker.tick) hn b] at h
  cases h with
  | check a x committed c eff hm hc => exact absorb_pace cfg kind key s src a x committed c eff hc ok
  | commit e =>
    exact .quiet (stamps_snoc_none kind key s.log e (by simpa [timesKept] using ok)) rfl
      (fun _ _ h => h)
  | restart a i cm hi hcm =>
    refine .quiet rfl rfl ?_
    intro b ts hts
    rw [put_node] at hts
    split_ifs at hts
    · simp [Node.new,Checker.lateStamps] at hts
    · exact hts
  | applyNext a | deliver a | verify a | makeGossip2 a | delKey a | delNodeAddr a
  | detectorDelKey a | writeFlag a =>
    exact .quiet rfl rfl (same a _ rfl)

/-- A replica has the last time of the part of the log it has applied. -/
structure Viewed (kind : CheckKind) (key : GoString) (log : List LogEntryData) (n : Node) :
    Prop where
  applied : n.applied≤log.length
  time : kind.time (n.fsm.gcm.replicated key)=lastTime (stamps kind key (log.take n.applied))

theorem Viewed.grow {kind : CheckKind} {key : GoString} {log : List LogEntryData} {n : Node}
    (h : Viewed kind key log n) (more : List LogEntryData) : Viewed kind key (log++more) n := by
  refine ⟨h.applied.trans (by simp),?_⟩
  rw [List.take_append_of_le_length h.applied]
  exact h.time

theorem put_viewed (kind : CheckKind) (key : GoString) (s : Cluster) (log : List LogEntryData)
    (old : ∀ b,Viewed kind key log (s.node b)) (a : GoString) (n : Node)
    (here : Viewed kind key log n) (b : GoString) : Viewed kind key log ((s.put a n).node b) := by
  rw [put_node]
  split_ifs
  · exact here
  · exact old b

theorem Viewed.apply {kind : CheckKind} {key : GoString} {log : List LogEntryData} {n : Node}
    (h : Viewed kind key log n) (e : LogEntryData) (f : Fsm) (he : log[n.applied]?=some e)
    (hf : n.fsm.applyEntry e=some f) :
    Viewed kind key log {n with fsm := f,applied := n.applied+1} := by
  have inside : n.applied<log.length := (List.getElem?_eq_some_iff.mp he).1
  have next : log.take (n.applied+1)=log.take n.applied++[e] := by
    rw [List.take_add_one,he]
    rfl
  refine ⟨inside,?_⟩
  rw [((Fsm.applyEntry_some _ _ _).mp hf).2,next,time_replay]
  cases hs : e.stampOf kind key with
  | none => rw [stamps_snoc_none kind key _ e hs,h.time]
  | some ts => rw [stamps_snoc_some kind key _ e ts hs,lastTime_snoc]

theorem Steps.viewed {cfg : ClusterConfig} {s t : Cluster} {e : ClusterEvent}
    (h : s.Steps cfg e t) (kind : CheckKind) (key : GoString) (ok : timesKept kind key s e=true)
    (old : ∀ b,Viewed kind key s.log (s.node b)) (b : GoString) :
    Viewed kind key t.log (t.node b) := by
  cases h with
  | commit e => exact (old b).grow [e]
  | applyNext a e f he hf =>
    exact put_viewed kind key s s.log old a _ ((old a).apply e f he hf) b
  | deliver a m gcm bs hm hset =>
    apply put_viewed kind key s s.log old
    refine ⟨(old a).applied,?_⟩
    rw [(s.node a).fsm.gcm.replicated_set gcm m bs hset]
    exact (old a).time
  | makeGossip2 a i now o gcm bs ho hset =>
    apply put_viewed kind key s s.log old
    refine ⟨(old a).applied,?_⟩
    rw [(s.node a).fsm.gcm.replicated_set gcm _ bs hset]
    exact (old a).time
  | check a x committed c eff hm hc =>
    obtain ⟨more,hlog⟩ := (Steps.check a x committed c eff hm hc : s.Steps cfg _ _).log_grows
    rw [hlog]
    refine Viewed.grow ?_ more
    apply put_viewed kind key s s.log old
    exact ⟨(old a).applied,(old a).time⟩
  | delKey a k =>
    apply put_viewed kind key s s.log old
    refine ⟨(old a).applied,?_⟩
    have ne : key≠k := Ne.symm (by simpa [timesKept] using ok)
    rw [GossipCacheManager.replicated_delKey,if_neg ne]
    exact (old a).time
  | delNodeAddr a k n =>
    apply put_viewed kind key s s.log old
    refine ⟨(old a).applied,?_⟩
    rw [GossipCacheManager.replicated_delNodeAddr]
    exact (old a).time
  | restart a i cm hi hcm =>
    have zero : i=0 := by simpa [timesKept] using ok
    apply put_viewed kind key s s.log old
    refine ⟨hi,?_⟩
    rw [zero]
    cases kind <;> rfl
  | verify a | detectorDelKey a | writeFlag a =>
    apply put_viewed kind key s s.log old
    exact ⟨(old a).applied,(old a).time⟩

/-- Applying or appending entries without an instant does not let a replica fall back. -/
theorem caught_grow (kind : CheckKind) (key : GoString) (l more : List LogEntryData) (n m : Nat)
    (hn : n≤l.length) (hm : n ≤ m) (h : stamps kind key (l.take n)=stamps kind key l)
    (same : stamps kind key (l++more)=stamps kind key l) :
    stamps kind key ((l++more).take m)=stamps kind key (l++more) := by
  have first : (l.take n).IsPrefix ((l++more).take m) := by
    rw [←List.take_append_of_le_length hn]
    exact List.take_isPrefix_take.mpr (.inl hm)
  have low := first.filterMap (LogEntryData.stampOf kind key)
  have high := (List.take_prefix m (l++more)).filterMap (LogEntryData.stampOf kind key)
  apply high.eq_of_length_le
  calc (stamps kind key (l++more)).length
      =(stamps kind key (l.take n)).length := by rw [same,h]
    _ ≤ (stamps kind key ((l++more).take m)).length := low.length_le

/-- At most one node is on its way to a time entry, and it knows the last one. -/
structure Turns (cfg : ClusterConfig) (kind : CheckKind) (key : GoString) (rs : List Int64)
    (s : Cluster) : Prop where
  alone : ∀ a b,(s.node a).checker.active kind key=true →
    (s.node b).checker.active kind key=true → a=b
  caught : ∀ a,.clone∈(s.node a).checker.tick →
    stamps kind key (s.log.take (s.node a).applied)=stamps kind key s.log
  ready : ∀ a,∀ st∈(s.node a).checker.tick,
    st.Ready cfg.quorum kind key (lastTime (stamps kind key s.log)) rs

/-- With nobody on the way the invariant is about nothing. -/
theorem turns_of_inactive (cfg : ClusterConfig) (kind : CheckKind) (key : GoString)
    (rs : List Int64) (s : Cluster) (h : ∀ a,(s.node a).checker.active kind key=false) :
    s.Turns cfg kind key rs := by
  have late (a : GoString) (st : Stmt) (hst : st∈(s.node a).checker.tick) :
      st.early kind key=false := by
    by_contra early
    have active := Checker.active_of_mem hst (by simpa using early)
    exact absurd (active.symm.trans (h a)) (by decide)
  refine ⟨?_,?_,?_⟩
  · intro a b ha
    exact absurd (ha.symm.trans (h a)) (by decide)
  · intro a hc
    exact absurd (late a .clone hc) (by simp [Stmt.early])
  · intro a st hst
    exact Stmt.ready_of_not_early (late a st hst) _ _ _

/-- A step that leaves every pass where it is. -/
theorem Turns.frame {cfg : ClusterConfig} {kind : CheckKind} {key : GoString} {rs : List Int64}
    {s t : Cluster} (h : s.Turns cfg kind key rs) (old : ∀ b,Viewed kind key s.log (s.node b))
    (more : List LogEntryData) (hlog : t.log=s.log++more)
    (same : stamps kind key t.log=stamps kind key s.log)
    (tick : ∀ b,(t.node b).checker.tick=(s.node b).checker.tick ∨ (t.node b).checker.tick=[])
    (applied : ∀ b,(t.node b).checker.tick≠[] → (s.node b).applied≤(t.node b).applied)
    (rs' : List Int64) : t.Turns cfg kind key (rs++rs') := by
  have active (b : GoString) (hb : (t.node b).checker.active kind key=true) :
      (s.node b).checker.active kind key=true := by
    cases tick b with
    | inl htick => rwa [Checker.active,htick] at hb
    | inr htick => simp [Checker.active,htick] at hb
  have mem (b : GoString) (st : Stmt) (hst : st∈(t.node b).checker.tick) :
      st∈(s.node b).checker.tick := by
    cases tick b with
    | inl htick => rwa [htick] at hst
    | inr htick => simp [htick] at hst
  refine ⟨fun a b ha hb => h.alone a b (active a ha) (active b hb),?_,?_⟩
  · intro a hc
    rw [hlog] at same ⊢
    exact caught_grow kind key s.log more _ _ (old a).applied
      (applied a (List.ne_nil_of_mem hc)) (h.caught a (mem a _ hc)) same
  · intro a st hst
    rw [same]
    exact (h.ready a st (mem a st hst)).more rs'

section CheckStep
variable {cfg : ClusterConfig} {kind : CheckKind} {key : GoString} {rs : List Int64} {s : Cluster}
  {a : GoString} {x : Action} {committed : Bool} {c : Checker} {eff : Effect}

theorem Turns.check_alone (h : s.Turns cfg kind key rs) (src : s.Sourced cfg)
    (hc : (s.node a).checker.Steps cfg.quorum (s.node a).fsm x c eff)
    (sole : SolePass kind key s (.check a x committed)) (b b' : GoString)
    (hb : ((s.absorb a c eff committed).node b).checker.active kind key=true)
    (hb' : ((s.absorb a c eff committed).node b').checker.active kind key=true) : b=b' := by
  rw [absorb_checker] at hb hb'
  by_cases barrier : x=.tick (.barrier true)
  · subst x
    have only (b : GoString)
        (hb : (if b=a then c else (s.node b).checker).active kind key=true) : b=a := by
      by_contra ne
      rw [if_neg ne] at hb
      exact absurd (hb.symm.trans (sole b ne)) (by decide)
    rw [only b hb,only b' hb']
  · have before (b : GoString)
        (hb : (if b=a then c else (s.node b).checker).active kind key=true) :
        (s.node b).checker.active kind key=true := by
      split_ifs at hb with ba
      · rw [ba]
        exact (hc.active_of kind key (src.sound a) (src.single a kind key) hb).resolve_right barrier
      · exact hb
    exact h.alone b b' (before b hb) (before b' hb')

/-- A pass that is about to clone sees the whole log: its Barrier made sure. -/
theorem Turns.check_caught (h : s.Turns cfg kind key rs) (hm : s.mayCheck a x=true)
    (hc : (s.node a).checker.Steps cfg.quorum (s.node a).fsm x c eff) (b : GoString)
    (hb : .clone∈((s.absorb a c eff committed).node b).checker.tick) :
    stamps kind key (s.log.take (s.node b).applied)=stamps kind key s.log := by
  rw [absorb_checker] at hb
  split_ifs at hb with ba
  · rw [ba]
    rcases hc.clone_of hb with hclone|rfl
    · exact h.caught a hclone
    · have all : (s.node a).applied=s.log.length := by simpa [mayCheck] using hm
      rw [all,List.take_length]
  · exact h.caught b hb

/-- A step of one node's checker that logs no instant. -/
theorem Turns.check (h : s.Turns cfg kind key rs) (src : s.Sourced cfg)
    (old : ∀ b,Viewed kind key s.log (s.node b)) (hm : s.mayCheck a x=true)
    (hc : (s.node a).checker.Steps cfg.quorum (s.node a).fsm x c eff)
    (sole : SolePass kind key s (.check a x committed))
    (latest : ∀ r∈rs,∀ now∈x.readings,r≤now) (more : List LogEntryData)
    (hlog : (s.absorb a c eff committed).log=s.log++more)
    (same : stamps kind key (s.absorb a c eff committed).log=stamps kind key s.log) :
    (s.absorb a c eff committed).Turns cfg kind key (rs++x.readings) := by
  refine ⟨h.check_alone src hc sole,?_,?_⟩
  · intro b hb
    have caught := h.check_caught hm hc b hb
    have applied : ((s.absorb a c eff committed).node b).applied=(s.node b).applied :=
      s.put_frame a _ Node.applied (by rfl) b
    rw [applied]
    rw [hlog] at same ⊢
    exact caught_grow kind key s.log more _ _ (old b).applied le_rfl caught same
  · intro b st hst
    rw [same]
    rw [absorb_checker] at hst
    split_ifs at hst
    · refine hc.ready kind key _ rs (h.ready a) ?_ latest st hst
      intro hclone
      rw [(old a).time,h.caught a hclone]
    · exact (h.ready b st hst).more _

end CheckStep

theorem Turns.step {cfg : ClusterConfig} {kind : CheckKind} {key : GoString} {rs : List Int64}
    {s t : Cluster} {e : ClusterEvent} (h : s.Turns cfg kind key rs) (src : s.Sourced cfg)
    (old : ∀ b,Viewed kind key s.log (s.node b)) (hs : s.Steps cfg e t)
    (sole : SolePass kind key s e) (ok : timesKept kind key s e=true)
    (latest : ∀ r∈rs,∀ now∈e.readings,r≤now) : t.Turns cfg kind key (rs++e.readings) := by
  have unlogged (same : stamps kind key t.log=stamps kind key s.log) :
      t.Turns cfg kind key (rs++e.readings) := by
    obtain ⟨more,hlog⟩ := hs.log_grows
    cases hs with
    | check a x committed c eff hm hc =>
      exact h.check src old hm hc sole latest more hlog same
    | commit e => exact h.frame old more hlog same (fun _ => .inl rfl) (fun _ _ => le_rfl) _
    | applyNext a e f he hf =>
      refine h.frame old more hlog same (fun b => .inl ?_) ?_ _
      · exact s.put_frame a _ (fun n => n.checker.tick) (by rfl) b
      · intro b _
        rw [put_node]
        split_ifs with ba
        · rw [ba]
          exact Nat.le_succ _
        · exact le_rfl
    | restart a i cm hi hcm =>
      refine h.frame old more hlog same ?_ ?_ _
      · intro b
        rw [put_node]
        split_ifs
        · exact .inr rfl
        · exact .inl rfl
      · intro b hb
        rw [put_node] at hb ⊢
        split_ifs at hb ⊢
        · exact absurd rfl hb
        · exact le_rfl
    | deliver a | verify a | makeGossip2 a | delKey a | delNodeAddr a | detectorDelKey a
    | writeFlag a =>
      refine h.frame old more hlog same (fun b => .inl ?_) ?_ _
      · exact s.put_frame a _ (fun n => n.checker.tick) (by rfl) b
      · intro b _
        exact (s.put_frame a _ Node.applied (by rfl) b).ge
  cases hs.pace src kind key ok with
  | quiet log sent late => exact unlogged log
  | sent a ts log sent before after late => exact unlogged log
  | logged a p ts rest head about log sent here late done =>
    have mine : (s.node a).checker.active kind key=true := by
      apply @Checker.active_of_mem kind key _ (.submitTime p ts) _ about
      rw [head]
      exact List.mem_cons_self
    refine turns_of_inactive cfg kind key _ t ?_
    intro b
    by_cases ba : b=a
    · rw [ba]
      exact done
    · rw [late b ba]
      by_contra hb
      exact ba (h.alone b a (by simpa using hb) mine)

/-- The event interval in nanoseconds. -/
def interval (cfg : ClusterConfig) : Int := 1000000000*cfg.quorum.eventInterval.toInt

/-- Every decision that notifies has its instant in the log. With a positive interval
the logged instants are that far apart, and each belongs to one decision. -/
structure Ledger (cfg : ClusterConfig) (kind : CheckKind) (key : GoString) (s : Cluster) :
    Prop where
  late : ∀ a,∀ ts∈(s.node a).checker.lateStamps kind key,ts∈stamps kind key s.log
  sent : ∀ ts∈s.sentStamps kind key,ts∈stamps kind key s.log
  apart : 0 < interval cfg →
    (stamps kind key s.log).Pairwise (fun x y => x.toInt+interval cfg≤y.toInt)
  fresh : 0 < interval cfg → ∀ a,∀ ts∈(s.node a).checker.lateStamps kind key,
    ts∉s.sentStamps kind key
  distinct : 0 < interval cfg → ∀ a b,a≠b → ∀ ts∈(s.node a).checker.lateStamps kind key,
    ts∉(s.node b).checker.lateStamps kind key
  once : 0 < interval cfg → (s.sentStamps kind key).Nodup

theorem viewed_init (cfg : ClusterConfig) (kind : CheckKind) (key : GoString) (b : GoString) :
    Viewed kind key (init cfg).log ((init cfg).node b) := by
  refine ⟨Nat.zero_le _,?_⟩
  cases kind <;> rfl

theorem turns_init (cfg : ClusterConfig) (kind : CheckKind) (key : GoString) :
    (init cfg).Turns cfg kind key (readings []) :=
  turns_of_inactive cfg kind key _ _ (fun _ => rfl)

theorem ledger_init (cfg : ClusterConfig) (kind : CheckKind) (key : GoString) :
    (init cfg).Ledger cfg kind key :=
  ⟨nofun,nofun,fun _ => .nil,fun _ => nofun,fun _ _ _ _ => nofun,fun _ => .nil⟩

/-- An instant that has waited for the last one is far enough from all of them. -/
theorem after_all (cfg : ClusterConfig) (l : List Int64) (ts : Int64)
    (pos : 0 < interval cfg) (fits : interval cfg<2^63)
    (apart : l.Pairwise (fun x y => x.toInt+interval cfg≤y.toInt))
    (waited : ¬since ts (lastTime l)<seconds cfg.quorum.eventInterval) :
    ∀ x∈l,x.toInt+interval cfg≤ts.toInt := by
  intro x hx
  obtain ⟨init,y,rfl⟩ : ∃ init y,l=init++[y] :=
    ⟨l.dropLast,l.getLast (List.ne_nil_of_mem hx),(List.dropLast_append_getLast _).symm⟩
  have size : seconds cfg.quorum.eventInterval=interval cfg := by
    unfold interval at pos fits ⊢
    exact seconds_eq _ (by omega) fits
  rw [lastTime_snoc,size] at waited
  have last : y.toInt+interval cfg≤ts.toInt :=
    (since_ofNano_ge ts y (interval cfg) (by omega) waited).resolve_right (by omega)
  cases List.mem_append.mp hx with
  | inl hx =>
    have before := (List.pairwise_append.mp apart).2.2 x hx y (by simp)
    omega
  | inr hx =>
    rw [List.mem_singleton.mp hx]
    exact last

section LedgerSteps
variable {cfg : ClusterConfig} {kind : CheckKind} {key : GoString} {s t : Cluster}

theorem Ledger.keep (h : s.Ledger cfg kind key) (log : stamps kind key t.log=stamps kind key s.log)
    (sent : t.sentStamps kind key=s.sentStamps kind key)
    (late : ∀ b,∀ ts∈(t.node b).checker.lateStamps kind key,
      ts∈(s.node b).checker.lateStamps kind key) : t.Ledger cfg kind key := by
  refine ⟨?_,?_,?_,?_,?_,?_⟩
  · intro a ts hts
    rw [log]
    exact h.late a ts (late a ts hts)
  · rw [log,sent]
    exact h.sent
  · rw [log]
    exact h.apart
  · intro pos a ts hts
    rw [sent]
    exact h.fresh pos a ts (late a ts hts)
  · intro pos a b ne ts hts hb
    exact h.distinct pos a b ne ts (late a ts hts) (late b ts hb)
  · rw [sent]
    exact h.once

/-- A logged instant moves from the pass that decided it to the sent commands. -/
theorem Ledger.send (h : s.Ledger cfg kind key) (a : GoString) (stamp : Int64)
    (log : stamps kind key t.log=stamps kind key s.log)
    (sent : t.sentStamps kind key=s.sentStamps kind key++[stamp])
    (before : (s.node a).checker.lateStamps kind key=[stamp])
    (after : (t.node a).checker.lateStamps kind key=[])
    (late : ∀ b,b≠a → (t.node b).checker=(s.node b).checker) : t.Ledger cfg kind key := by
  have same (b : GoString) (ts : Int64) (hb : ts∈(t.node b).checker.lateStamps kind key) :
      b≠a ∧ ts∈(s.node b).checker.lateStamps kind key := by
    by_cases ba : b=a
    · simp [ba,after] at hb
    · exact ⟨ba,by rwa [late b ba] at hb⟩
  have mine : stamp∈(s.node a).checker.lateStamps kind key := by simp [before]
  refine ⟨?_,?_,?_,?_,?_,?_⟩
  · intro b ts hts
    rw [log]
    exact h.late b ts (same b ts hts).2
  · rw [log,sent]
    intro ts hts
    cases List.mem_append.mp hts with
    | inl hts => exact h.sent ts hts
    | inr hts =>
      rw [List.mem_singleton.mp hts]
      exact h.late a stamp mine
  · rw [log]
    exact h.apart
  · intro pos b ts hts
    rw [sent]
    obtain ⟨ba,old⟩ := same b ts hts
    intro hmem
    cases List.mem_append.mp hmem with
    | inl hmem => exact h.fresh pos b ts old hmem
    | inr hmem =>
      rw [List.mem_singleton.mp hmem] at old
      exact h.distinct pos b a ba stamp old mine
  · intro pos b b' ne ts hts hb'
    exact h.distinct pos b b' ne ts (same b ts hts).2 (same b' ts hb').2
  · intro pos
    rw [sent]
    exact List.nodup_append.mpr ⟨h.once pos,List.nodup_singleton _,fun x hx y hy he =>
      h.fresh pos a stamp mine (List.mem_singleton.mp hy ▸ he ▸ hx)⟩

/-- A new instant is logged by one pass, after it waited for the last one. -/
theorem Ledger.record (h : s.Ledger cfg kind key) (a : GoString) (stamp : Int64)
    (fits : interval cfg<2^63)
    (waited : ¬since stamp (lastTime (stamps kind key s.log))<seconds cfg.quorum.eventInterval)
    (log : stamps kind key t.log=stamps kind key s.log++[stamp])
    (sent : t.sentStamps kind key=s.sentStamps kind key)
    (here : ∀ x∈(t.node a).checker.lateStamps kind key,x=stamp)
    (late : ∀ b,b≠a → (t.node b).checker=(s.node b).checker) : t.Ledger cfg kind key := by
  have above (pos : 0 < interval cfg) := after_all cfg _ stamp pos fits (h.apart pos) waited
  have new (pos : 0 < interval cfg) : stamp∉stamps kind key s.log := by
    intro hmem
    have gap := above pos stamp hmem
    omega
  have lateOf (b : GoString) (ts : Int64) (hb : ts∈(t.node b).checker.lateStamps kind key) :
      (b=a ∧ ts=stamp) ∨ (b≠a ∧ ts∈(s.node b).checker.lateStamps kind key) := by
    by_cases ba : b=a
    · subst b
      exact .inl ⟨rfl,here ts hb⟩
    · exact .inr ⟨ba,by rwa [late b ba] at hb⟩
  refine ⟨?_,?_,?_,?_,?_,?_⟩
  · intro b ts hts
    rw [log]
    rcases lateOf b ts hts with ⟨-,rfl⟩|⟨-,old⟩
    · exact List.mem_append_right _ (List.mem_singleton_self _)
    · exact List.mem_append_left _ (h.late b ts old)
  · rw [log,sent]
    exact fun ts hts => List.mem_append_left _ (h.sent ts hts)
  · intro pos
    rw [log]
    exact List.pairwise_append.mpr ⟨h.apart pos,List.pairwise_singleton _ _,
      fun x hx y hy => List.mem_singleton.mp hy ▸ above pos x hx⟩
  · intro pos b ts hts
    rw [sent]
    rcases lateOf b ts hts with ⟨-,rfl⟩|⟨-,old⟩
    · exact fun hmem => new pos (h.sent _ hmem)
    · exact h.fresh pos b ts old
  · intro pos b b' ne ts hts hb'
    rcases lateOf b ts hts with ⟨rfl,rfl⟩|⟨-,old⟩
    · rcases lateOf b' ts hb' with ⟨rfl,-⟩|⟨-,old'⟩
      · exact ne rfl
      · exact new pos (h.late b' ts old')
    · rcases lateOf b' ts hb' with ⟨-,rfl⟩|⟨-,old'⟩
      · exact new pos (h.late b _ old)
      · exact h.distinct pos b b' ne ts old old'
  · rw [sent]
    exact h.once

theorem Ledger.step (h : s.Ledger cfg kind key) (pace : Pace kind key s t)
    (fits : interval cfg<2^63)
    (ready : ∀ a,∀ st∈(s.node a).checker.tick,∀ p ts,st=.submitTime p ts →
      p.about kind key=true →
      ¬since ts (lastTime (stamps kind key s.log))<seconds cfg.quorum.eventInterval) :
    t.Ledger cfg kind key := by
  cases pace with
  | quiet log sent late => exact h.keep log sent late
  | sent a stamp log sent before after late => exact h.send a stamp log sent before after late
  | logged a p stamp rest head about log sent here late done =>
    have first : .submitTime p stamp∈(s.node a).checker.tick := by
      rw [head]
      exact List.mem_cons_self
    exact h.record a stamp fits (ready a _ first p stamp rfl about) log sent here late

end LedgerSteps

end Cluster

/-- In every run with a common clock in which each time entry of a notifying decision
commits, no two nodes are on their way to such an entry at once, and no replica loses
the logged times: the decisions that went on to send a command are at least the event
interval apart, and each of them is in the log. -/
theorem notifications_rate_limited (cfg : ClusterConfig) (kind : CheckKind) (key : GoString)
    (es : List ClusterEvent) (t : Cluster) (fits : Cluster.interval cfg<2^63)
    (clock : (readings es).Pairwise (· ≤ ·))
    (ok : Along (Cluster.step cfg) (fun s e => SolePass kind key s e ∧ timesKept kind key s e=true)
      (.init cfg) es)
    (hr : run (Cluster.step cfg) (.init cfg) es=some t) :
    (t.sentStamps kind key).Pairwise (fun x y => Cluster.interval cfg≤|x.toInt-y.toInt|) ∧
      ∀ ts∈t.sentStamps kind key,ts∈stamps kind key t.log := by
  have ledger : t.Ledger cfg kind key := by
    have all := run_history_along (Cluster.step cfg) _ (.init cfg)
      (fun es s => (readings es).Pairwise (· ≤ ·) → (∀ b,Cluster.Viewed kind key s.log (s.node b)) ∧
        s.Turns cfg kind key (readings es) ∧ s.Ledger cfg kind key)
      (fun _ => ⟨Cluster.viewed_init cfg kind key,Cluster.turns_init cfg kind key,
        Cluster.ledger_init cfg kind key⟩) ?_ es t ok hr
    · exact (all clock).2.2
    intro fs e s u hfs ih met hs sorted
    rw [readings,List.flatMap_append,List.flatMap_singleton] at sorted ⊢
    obtain ⟨before,-,latest⟩ := List.pairwise_append.mp sorted
    obtain ⟨views,turns,ledger⟩ := ih before
    have src := (Cluster.run_traced cfg fs s hfs).2
    have steps := s.step_steps cfg u e hs
    refine ⟨steps.viewed kind key met.2 views,turns.step src views steps met.1 met.2 latest,
      ledger.step (steps.pace src kind key met.2) fits ?_⟩
    intro a st hst p ts he about
    have ready := turns.ready a st hst
    rw [he] at ready
    exact ready about
  refine ⟨?_,ledger.sent⟩
  by_cases pos : 0<Cluster.interval cfg
  · have gap : (stamps kind key t.log).Pairwise
        (fun x y => Cluster.interval cfg≤|x.toInt-y.toInt|) := by
      apply (ledger.apart pos).imp
      intro x y h
      rw [abs_sub_comm]
      exact le_trans (by omega) (le_abs_self _)
    have : Std.Symm (fun x y : Int64 => Cluster.interval cfg≤|x.toInt-y.toInt|) := by
      constructor
      intro x y h
      rwa [abs_sub_comm]
    apply (ledger.once pos).pairwise_of_forall_ne
    intro x hx y hy ne
    exact gap.forall (ledger.sent x hx) (ledger.sent y hy) ne
  · apply List.pairwise_of_forall
    intro x y
    exact le_trans (by omega) (abs_nonneg _)

/-- A node that is alone in a run passes its Barrier alone. -/
theorem solePass_of_single (cfg : ClusterConfig) (kind : CheckKind) (key a : GoString)
    (es : List ClusterEvent) (single : ∀ e∈es,e.actor=none ∨ e.actor=some a) :
    Along (Cluster.step cfg) (SolePass kind key) (.init cfg) es := by
  apply along_of_invariant (Cluster.step cfg) (fun s => ∀ b,b≠a → (s.node b).checker.tick=[])
    (fun e => e.actor=none ∨ e.actor=some a)
  · intro s e idle he
    cases e with
    | check c x committed =>
      unfold SolePass
      split
      · next d _ this =>
        cases this
        intro b hb
        have same : c=a := by simpa [ClusterEvent.actor] using he
        simp [Checker.active,idle b (same ▸ hb)]
      · trivial
    | _ => trivial
  · intro s e t idle he hs b hb
    have far : e.actor≠some b := by
      cases he with
      | inl he => simp [he]
      | inr he => simpa [he] using hb.symm
    rw [(s.step_steps cfg t e hs).elsewhere b far]
    exact idle b hb
  · exact fun _ _ => rfl
  · exact single

/-- DOWN at 63 seconds is notified and recorded, and UP at 131 seconds is notified. -/
def downThenUp : List ClusterEvent :=
  downNoticed []++
  [.check (goStr "a") (.tick .go) true,
    .check (goStr "a") (.tick (.check 63000000000 (onlyScan 62000000001 63000000000 gossipDown))) true,
    .applyNext (goStr "a"),.check (goStr "a") (.start 0) true,
    .check (goStr "a") (.finish 0 (.exited 0 [] [])) true,.check (goStr "a") (.record 0) true,
    .applyNext (goStr "a")]++
  verifyOnce (goStr "a") (goStr "v") gossipUp 130000000000++
  onlyPass (onlyEntry (.ofNano 63000000000) gossipDown 130000000001 gossipUp) 131000000000
    (onlyScan 130000000001 131000000000 gossipUp) [true,true,true]

theorem notifications_rate_limited_downThenUp :
    ∃ t,run (Cluster.step pairConfig) (.init pairConfig) downThenUp=some t ∧
      t.sentStamps .event (goStr "k")=[63000000000,131000000000] ∧
      (t.sentStamps .event (goStr "k")).Pairwise
        (fun x y => Cluster.interval pairConfig≤|x.toInt-y.toInt|) := by
  have done : (run (Cluster.step pairConfig) (.init pairConfig) downThenUp).map
      (fun t => t.sentStamps .event (goStr "k"))=some [63000000000,131000000000] := by
    decide +kernel
  obtain ⟨t,ht,sent⟩ := Option.map_eq_some_iff.mp done
  have sole := solePass_of_single pairConfig .event (goStr "k") (goStr "a") downThenUp (by decide)
  have kept : Along (Cluster.step pairConfig)
      (fun s e => timesKept .event (goStr "k") s e=true) (.init pairConfig) downThenUp := by
    decide +kernel
  exact ⟨t,ht,sent,(notifications_rate_limited pairConfig .event (goStr "k") downThenUp t (by decide)
    (by decide) (along_and _ _ _ _ _ sole kept) ht).1⟩

/-- The time entry of the first DOWN decision does not commit. Its command is sent all
the same, and ten seconds later, within the interval of a minute, another one. -/
theorem rate_limit_lost_with_entry :
    (run (Cluster.step pairConfig) (.init pairConfig)
      (upRecorded++verifyOnce (goStr "a") (goStr "v") gossipDown 62000000000++
        onlyPass (onlyEntry (.ofNano 2000000000) gossipUp 62000000001 gossipDown) 63000000000
          (onlyScan 62000000001 63000000000 gossipDown) [false,true,true]++
        [.check (goStr "a")
          (.tick (.check 63000000000 (onlyScan 62000000001 63000000000 gossipDown))) true]++
        onlyPass (onlyEntry (.ofNano 2000000000) gossipUp 62000000001 gossipDown) 73000000000
          (onlyScan 62000000001 73000000000 gossipDown) [true,true,true])).map
      (fun t => (t.sentStamps .event (goStr "k"),stamps .event (goStr "k") t.log))=
      some ([63000000000,73000000000],[2000000000,73000000000]) ∧
    Cluster.interval pairConfig=60000000000 := by
  constructor
  · decide +kernel
  · decide

end StCache
