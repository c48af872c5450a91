import StCache.Quorum.Decision

namespace StCache

/-- The statements that replace a clone, key by key in iteration order. -/
def cloneChecks (o : List (GoString × GossipConsensus)) : List Stmt :=
  o.flatMap (fun p => [.checkEvent p.1 p.2.copy,.checkEmpty p.1 p.2.copy])

/-- Everything a statement of the pass can do. -/
inductive Executes (cfg : QuorumConfig) (f : Fsm) (c : Checker) :
    Stmt → TickInput → List Stmt → Effect → Prop where
  | barrier : Executes cfg f c .barrier (.barrier true) [.clone] .silent
  | failed : Executes cfg f c .barrier (.barrier false) [] .silent
  | clone (o : List (GoString × GossipConsensus)) (h : Enumerates o f.gcm.data) :
      Executes cfg f c .clone (.order o) (cloneChecks o) .silent
  | checkEvent (key : GoString) (v : GossipConsensus) (now : Int64) (sc : Scan)
      (h : sc.Valid v v.prevEventTime) :
      Executes cfg f c (.checkEvent key v) (.check now sc) (checkEvent cfg key v now sc) .silent
  | checkEmpty (key : GoString) (v : GossipConsensus) (now : Int64) (sc : Scan)
      (h : sc.Valid v v.emptyTime) :
      Executes cfg f c (.checkEmpty key v) (.check now sc) (checkEmpty cfg key v now sc) .silent
  | stamp (d : Decision) (now : Int64) :
      Executes cfg f c (.stamp d) (.clock now) [.submitTime d now] .silent
  | submitPending (d : Decision) (ts : Int64) (h : d.pending=true) :
      Executes cfg f c (.submitTime d ts) .go [.submitStatus d]
        (c.notifyFollower (d.timeEntry ts) none)
  | submitTime (d : Decision) (ts : Int64) (h : d.pending=false) :
      Executes cfg f c (.submitTime d ts) .go [.build d ts]
        (c.notifyFollower (d.timeEntry ts) none)
  | submitStatus (d : Decision) :
      Executes cfg f c (.submitStatus d) .go []
        (c.notifyFollower ⟨.notifyStatus,d.key,d.status⟩ none)
  | build (d : Decision) (ts : Int64) :
      Executes cfg f c (.build d ts) .go [.send (d.toSent cfg ts f.cm)] .silent
  | send (x : Sent) : Executes cfg f c (.send x) .go [] (.sent x)

theorem Checker.exec_executes (cfg : QuorumConfig) (f : Fsm) (c : Checker) (st : Stmt)
    (input : TickInput) (sts : List Stmt) (eff : Effect)
    (h : c.exec cfg f st input=some (sts,eff)) : Executes cfg f c st input sts eff := by
  cases st <;> cases input <;> simp only [Checker.exec,reduceCtorEq] at h
  case barrier.barrier ok =>
    cases ok <;> cases h
    · exact .failed
    · exact .barrier
  case clone.order o =>
    split_ifs at h with ho
    cases h
    exact .clone o ho
  case checkEvent.check key v now sc =>
    split_ifs at h with hv
    cases h
    exact .checkEvent key v now sc hv
  case checkEmpty.check key v now sc =>
    split_ifs at h with hv
    cases h
    exact .checkEmpty key v now sc hv
  case stamp.clock d now =>
    cases h
    exact .stamp d now
  case submitTime.go d ts =>
    cases h
    cases hp : d.pending with
    | true => exact .submitPending d ts hp
    | false => exact .submitTime d ts hp
  case submitStatus.go d =>
    cases h
    exact .submitStatus d
  case build.go d ts =>
    cases h
    exact .build d ts
  case send.go x =>
    cases h
    exact .send x

/-- Everything the checker can do. -/
inductive Checker.Steps (cfg : QuorumConfig) (f : Fsm) (c : Checker) :
    Action → Checker → Effect → Prop where
  | enter (ht : c.tick=[]) (hw : c.writable=true) :
      Steps cfg f c .enter {c with tick := [.barrier]} .silent
  | tick (st : Stmt) (rest : List Stmt) (input : TickInput) (sts : List Stmt) (eff : Effect)
      (ht : c.tick=st::rest) (hx : Executes cfg f c st input sts eff) :
      Steps cfg f c (.tick input) {c with tick := sts++rest,cmds := c.cmds++eff.received} eff
  | start (i : Nat) (x : Sent) (hi : c.cmds[i]?=some x) (hw : c.writable=true) :
      Steps cfg f c (.start i) {c with cmds := c.cmds.eraseIdx i,running := c.running++[x]} .silent
  | drop (i : Nat) (x : Sent) (hi : c.cmds[i]?=some x) (hw : c.writable=false) :
      Steps cfg f c (.start i) {c with cmds := c.cmds.eraseIdx i} .silent
  | finish (i : Nat) (o : ShellOutcome) (x : Sent) (hi : c.running[i]?=some x) :
      Steps cfg f c (.finish i o) {c with
        running := c.running.eraseIdx i,results := c.results++[⟨x,o,x.command.run o⟩]} (x.effect o)
  | record (i : Nat) (r : Finished) (hi : c.results[i]?=some r) :
      Steps cfg f c (.record i) {c with results := c.results.eraseIdx i}
        (c.notifyFollower (resultEntry r.result) (some r))

theorem Checker.step_steps (cfg : QuorumConfig) (f : Fsm) (c d : Checker) (a : Action)
    (eff : Effect) (h : c.step cfg f a=some (d,eff)) : c.Steps cfg f a d eff := by
  cases a with
  | enter =>
    cases ht : c.tick with
    | nil =>
      cases hw : c.writable with
      | false => simp [Checker.step,ht,hw] at h
      | true =>
        simp only [Checker.step,ht,hw,Option.some.injEq,Prod.mk.injEq] at h
        obtain ⟨rfl,rfl⟩ := h
        simpa only [hw] using @Checker.Steps.enter cfg f c ht hw
    | cons st rest => simp [Checker.step,ht] at h
  | tick input =>
    cases ht : c.tick with
    | nil => simp [Checker.step,ht] at h
    | cons st rest =>
      simp only [Checker.step,ht,Option.map_eq_some_iff,Prod.mk.injEq] at h
      obtain ⟨⟨sts,eff'⟩,hx,rfl,rfl⟩ := h
      exact .tick st rest input sts eff' ht (c.exec_executes cfg f st input sts eff' hx)
  | start i =>
    cases hi : c.cmds[i]? with
    | none => simp [Checker.step,hi] at h
    | some x =>
      cases hw : c.writable with
      | true =>
        simp only [Checker.step,hi,hw,if_true,Option.some.injEq,Prod.mk.injEq] at h
        obtain ⟨rfl,rfl⟩ := h
        simpa only [hw] using @Checker.Steps.start cfg f c i x hi hw
      | false =>
        simp only [Checker.step,hi,hw,Bool.false_eq_true,if_false,Option.some.injEq,
          Prod.mk.injEq] at h
        obtain ⟨rfl,rfl⟩ := h
        simpa only [hw] using @Checker.Steps.drop cfg f c i x hi hw
  | finish i o =>
    cases hi : c.running[i]? with
    | none => simp [Checker.step,hi] at h
    | some x =>
      simp only [Checker.step,hi,Option.some.injEq,Prod.mk.injEq] at h
      obtain ⟨rfl,rfl⟩ := h
      exact .finish i o x hi
  | record i =>
    cases hi : c.results[i]? with
    | none => simp [Checker.step,hi] at h
    | some r =>
      simp only [Checker.step,hi,Option.some.injEq,Prod.mk.injEq] at h
      obtain ⟨rfl,rfl⟩ := h
      exact .record i r hi

/-- A command that a non-pending decision led to. -/
def Sent.Sound (cfg : QuorumConfig) (x : Sent) : Prop :=
  x.decision.Sound cfg ∧ x.decision.pending=false ∧
    x.command=⟨x.decision.key,x.decision.status,notificationScriptTimeout,
      notificationFormat cfg.notificationScript x.decision.key x.value x.decision.status⟩

def Stmt.Sound (cfg : QuorumConfig) : Stmt → Prop
  | .stamp d => d.Sound cfg
  | .submitTime d _ => d.Sound cfg
  | .submitStatus d => d.Sound cfg ∧ d.pending=true
  | .build d _ => d.Sound cfg ∧ d.pending=false
  | .send x => x.Sound cfg
  | _ => True

/-- The pass has not reached its first check. -/
def Stmt.Opens (st : Stmt) : Prop := st=.barrier ∨ st=.clone

def Finished.Sound (cfg : QuorumConfig) (r : Finished) : Prop :=
  r.sent.Sound cfg ∧ r.result.key=r.sent.decision.key ∧ r.result.status=r.sent.decision.status

/-- Commands from cmdCh on, until quorumCheck2 has taken their result. -/
def Checker.inflight (c : Checker) : List Sent :=
  c.cmds++(c.running++c.results.map Finished.sent)

/-- Everything under way comes from a sound decision. -/
structure Checker.Sound (cfg : QuorumConfig) (c : Checker) : Prop where
  tick : ∀ st∈c.tick,st.Sound cfg
  alone : ∀ st∈c.tick,st.Opens → c.tick=[st]
  cmds : ∀ x∈c.cmds,x.Sound cfg
  running : ∀ x∈c.running,x.Sound cfg
  results : ∀ r∈c.results,r.Sound cfg

theorem Checker.sound_idle (cfg : QuorumConfig) (w : Bool) :
    Checker.Sound cfg {writable := w} :=
  ⟨by simp,by simp,by simp,by simp,by simp⟩

@[simp] theorem Checker.notifyFollower_received (c : Checker) (e : LogEntryData)
    (source : Option Finished) : (c.notifyFollower e source).received=[] := by
  unfold Checker.notifyFollower
  split_ifs <;> rfl

@[simp] theorem Sent.effect_received (x : Sent) (o : ShellOutcome) : (x.effect o).received=[] := by
  unfold Sent.effect
  split_ifs <;> rfl

theorem Sent.effect_ne_submit (x : Sent) (o : ShellOutcome) (e : LogEntryData)
    (source : Option Finished) : x.effect o≠.submit e source := by
  unfold Sent.effect
  split_ifs <;> simp

theorem Executes.sound {cfg : QuorumConfig} {f : Fsm} {c : Checker} {st : Stmt}
    {input : TickInput} {sts : List Stmt} {eff : Effect} (h : Executes cfg f c st input sts eff)
    (hs : st.Sound cfg) :
    (∀ s∈sts,s.Sound cfg) ∧ (∀ x∈eff.received,x.Sound cfg) ∧
      ∀ s∈sts,s.Opens → st.Opens ∧ sts=[s] := by
  have stamped (sts : List Stmt) (all : ∀ s∈sts,∃ d,s=.stamp d) :
      ∀ s∈sts,s.Opens → st.Opens ∧ sts=[s] := by
    intro s hm opens
    obtain ⟨d,rfl⟩ := all s hm
    simp [Stmt.Opens] at opens
  cases h with
  | barrier =>
    refine ⟨by simp [Stmt.Sound],by simp [Effect.received],?_⟩
    intro s hm _
    exact ⟨.inl rfl,by rw [List.mem_singleton.mp hm]⟩
  | failed => exact ⟨by simp,by simp [Effect.received],by simp⟩
  | clone o ho =>
    refine ⟨fun s hm => ?_,by simp [Effect.received],fun s hm opens => ?_⟩ <;>
      obtain ⟨p,-,hp⟩ := List.mem_flatMap.mp hm <;>
      simp only [List.mem_cons,List.not_mem_nil,or_false] at hp <;>
      rcases hp with rfl|rfl
    · trivial
    · trivial
    · simp [Stmt.Opens] at opens
    · simp [Stmt.Opens] at opens
  | checkEvent key v now sc hv =>
    refine ⟨fun s hm => ?_,by simp [Effect.received],stamped _ fun s hm => ?_⟩ <;>
      obtain ⟨d,hd,-,-,-,sound,-⟩ := checkEvent_sound cfg key v now sc hv _ hm
    · exact hd ▸ sound
    · exact ⟨d,hd⟩
  | checkEmpty key v now sc hv =>
    refine ⟨fun s hm => ?_,by simp [Effect.received],stamped _ fun s hm => ?_⟩ <;>
      obtain ⟨d,hd,-,-,-,sound,-⟩ := checkEmpty_sound cfg key v now sc hv _ hm
    · exact hd ▸ sound
    · exact ⟨d,hd⟩
  | stamp d now =>
    exact ⟨fun s hm => List.mem_singleton.mp hm ▸ hs,by simp [Effect.received],by simp [Stmt.Opens]⟩
  | submitPending d ts hp => exact ⟨by simpa using ⟨hs,hp⟩,by simp,by simp [Stmt.Opens]⟩
  | submitTime d ts hp => exact ⟨by simpa using ⟨hs,hp⟩,by simp,by simp [Stmt.Opens]⟩
  | submitStatus d => exact ⟨by simp,by simp,by simp⟩
  | build d ts =>
    exact ⟨by simpa using ⟨hs.1,hs.2,rfl⟩,by simp [Effect.received],by simp [Stmt.Opens]⟩
  | send x => exact ⟨by simp,fun y hm => List.mem_singleton.mp hm ▸ hs,by simp⟩

theorem Checker.Sound.step {cfg : QuorumConfig} {f : Fsm} {c d : Checker} {a : Action}
    {eff : Effect} (h : c.Sound cfg) (hs : c.Steps cfg f a d eff) : d.Sound cfg := by
  cases hs with
  | enter ht hw =>
    refine ⟨by simp [Stmt.Sound],?_,h.cmds,h.running,h.results⟩
    intro st hm _
    rw [List.mem_singleton.mp hm]
  | tick st rest input sts eff ht hx =>
    have hst := h.tick st (by rw [ht]; simp)
    obtain ⟨hsts,hrec,hopens⟩ := hx.sound hst
    have hrest : ∀ s∈rest,s.Sound cfg := fun s hm => h.tick s (by rw [ht]; simp [hm])
    refine ⟨?_,?_,?_,h.running,h.results⟩
    · intro s hm
      exact (List.mem_append.mp hm).elim (hsts s) (hrest s)
    · intro s hm opens
      cases List.mem_append.mp hm with
      | inl hm =>
        obtain ⟨before,hs⟩ := hopens s hm opens
        have alone := h.alone st (by rw [ht]; simp) before
        rw [ht,List.cons.injEq] at alone
        rw [alone.2,hs]
        rfl
      | inr hm =>
        have alone := h.alone s (by rw [ht]; simp [hm]) opens
        rw [ht,List.cons.injEq] at alone
        simp [alone.2] at hm
    · intro x hm
      exact (List.mem_append.mp hm).elim (h.cmds x) (hrec x)
  | start i x hi hw =>
    refine ⟨h.tick,h.alone,fun y hy => h.cmds y (List.mem_of_mem_eraseIdx hy),?_,h.results⟩
    intro y hy
    cases List.mem_append.mp hy with
    | inl hy => exact h.running y hy
    | inr hy =>
      rw [List.mem_singleton.mp hy]
      exact h.cmds x (List.mem_of_getElem? hi)
  | drop i x hi hw =>
    exact ⟨h.tick,h.alone,fun y hy => h.cmds y (List.mem_of_mem_eraseIdx hy),h.running,h.results⟩
  | finish i o x hi =>
    refine ⟨h.tick,h.alone,h.cmds,fun y hy => h.running y (List.mem_of_mem_eraseIdx hy),?_⟩
    intro r hr
    cases List.mem_append.mp hr with
    | inl hr => exact h.results r hr
    | inr hr =>
      rw [List.mem_singleton.mp hr]
      have sound := h.running x (List.mem_of_getElem? hi)
      refine ⟨sound,?_,?_⟩ <;> simp [TimeoutShellCmd.run,sound.2.2]
  | record i r hi =>
    exact ⟨h.tick,h.alone,h.cmds,h.running,fun y hy => h.results y (List.mem_of_mem_eraseIdx hy)⟩

def Decision.about (d : Decision) (kind : CheckKind) (key : GoString) : Bool :=
  decide (d.kind=kind) && decide (d.key=key)

/-- The statement belongs to this check of this key. -/
def Stmt.about (kind : CheckKind) (key : GoString) : Stmt → Bool
  | .barrier => false
  | .clone => false
  | .checkEvent k _ => decide (CheckKind.event=kind) && decide (k=key)
  | .checkEmpty k _ => decide (CheckKind.empty=kind) && decide (k=key)
  | .stamp d => d.about kind key
  | .submitTime d _ => d.about kind key
  | .submitStatus d => d.about kind key
  | .build d _ => d.about kind key
  | .send x => x.decision.about kind key

/-- The cloned entry a statement works on. -/
def Stmt.entry : Stmt → GossipConsensus
  | .barrier => {}
  | .clone => {}
  | .checkEvent _ v => v
  | .checkEmpty _ v => v
  | .stamp d => d.v
  | .submitTime d _ => d.v
  | .submitStatus d => d.v
  | .build d _ => d.v
  | .send x => x.decision.v

/-- A statement other than the clone is replaced by at most one, about the same
check and on the same entry. -/
theorem Executes.successor {cfg : QuorumConfig} {f : Fsm} {c : Checker} {st : Stmt}
    {input : TickInput} {sts : List Stmt} {eff : Effect} (h : Executes cfg f c st input sts eff)
    (hn : st≠.clone) :
    sts.length≤1 ∧ ∀ s∈sts,(∀ kind key,s.about kind key=st.about kind key) ∧ s.entry=st.entry := by
  cases h with
  | barrier => exact ⟨by simp,by simp [Stmt.about,Stmt.entry]⟩
  | failed => exact ⟨by simp,by simp⟩
  | clone o ho => exact absurd rfl hn
  | checkEvent key v now sc hv =>
    refine ⟨checkEvent_length cfg key v now sc,?_⟩
    intro s hm
    obtain ⟨d,rfl,hk,hkey,hd,-⟩ := checkEvent_sound cfg key v now sc hv s hm
    exact ⟨fun kind k => by simp [Stmt.about,Decision.about,hk,hkey],hd⟩
  | checkEmpty key v now sc hv =>
    refine ⟨checkEmpty_length cfg key v now sc,?_⟩
    intro s hm
    obtain ⟨d,rfl,hk,hkey,hd,-⟩ := checkEmpty_sound cfg key v now sc hv s hm
    exact ⟨fun kind k => by simp [Stmt.about,Decision.about,hk,hkey],hd⟩
  | stamp d now => exact ⟨by simp,by simp [Stmt.about,Stmt.entry]⟩
  | submitPending d ts hp => exact ⟨by simp,by simp [Stmt.about,Stmt.entry]⟩
  | submitTime d ts hp => exact ⟨by simp,by simp [Stmt.about,Stmt.entry]⟩
  | submitStatus d => exact ⟨by simp,by simp⟩
  | build d ts => exact ⟨by simp,by simp [Stmt.about,Stmt.entry,Decision.toSent]⟩
  | send x => exact ⟨by simp,by simp⟩

theorem cloneChecks_about (o : List (GoString × GossipConsensus)) (kind : CheckKind)
    (key : GoString) :
    ((cloneChecks o).filter (Stmt.about kind key)).length=
      (o.map Prod.fst).countP (fun k => decide (k=key)) := by
  induction o with
  | nil => rfl
  | cons p o ih =>
    have split : cloneChecks (p::o)=
        .checkEvent p.1 p.2.copy::.checkEmpty p.1 p.2.copy::cloneChecks o := rfl
    rw [split,List.map_cons,List.countP_cons,←ih]
    by_cases hk : p.1=key <;> cases kind <;> simp [Stmt.about,hk]

theorem mem_cloneChecks (o : List (GoString × GossipConsensus)) (kind : CheckKind)
    (key : GoString) (st : Stmt) (h : st∈cloneChecks o) (ha : st.about kind key=true) :
    ∃ v,(key,v)∈o ∧ st.entry=v.copy := by
  obtain ⟨p,hp,hst⟩ := List.mem_flatMap.mp h
  simp only [List.mem_cons,List.not_mem_nil,or_false] at hst
  rcases hst with rfl|rfl <;>
    simp only [Stmt.about,Bool.and_eq_true,decide_eq_true_eq] at ha <;>
    exact ⟨p.2,ha.2 ▸ hp,rfl⟩

/-- What is left of this check of this key in the pass. -/
def Checker.focus (c : Checker) (kind : CheckKind) (key : GoString) : List Stmt :=
  c.tick.filter (Stmt.about kind key)

theorem Executes.focus_le {cfg : QuorumConfig} {f : Fsm} {c : Checker} {st : Stmt}
    {input : TickInput} {sts : List Stmt} {eff : Effect} (h : Executes cfg f c st input sts eff)
    (rest : List Stmt) (alone : st=.clone → rest=[]) (kind : CheckKind) (key : GoString)
    (hf : ((st::rest).filter (Stmt.about kind key)).length≤1) :
    ((sts++rest).filter (Stmt.about kind key)).length≤1 := by
  by_cases hc : st=.clone
  · subst st
    obtain rfl := alone rfl
    cases h with
    | clone o ho =>
      rw [List.append_nil,cloneChecks_about]
      have count := List.nodup_iff_count_le_one.mp ho.nodup_keys key
      rw [List.count] at count
      exact (List.countP_mono_left (fun k _ hk => by simpa using hk)).trans count
  · obtain ⟨len,same⟩ := h.successor hc
    rw [List.filter_append,List.length_append]
    cases ha : st.about kind key with
    | true =>
      rw [List.filter_cons_of_pos ha,List.length_cons] at hf
      have := List.length_filter_le (Stmt.about kind key) sts
      omega
    | false =>
      rw [List.filter_cons_of_neg (by simp [ha])] at hf
      have none' : sts.filter (Stmt.about kind key)=[] := by
        rw [List.filter_eq_nil_iff]
        intro s hs
        rw [(same s hs).1,ha]
        simp
      rw [none',List.length_nil,Nat.zero_add]
      exact hf

/-- At every moment of a pass at most one statement is about a given check of a
given key. -/
theorem Checker.Steps.focus_le {cfg : QuorumConfig} {f : Fsm} {c d : Checker} {a : Action}
    {eff : Effect} (hs : c.Steps cfg f a d eff) (h : c.Sound cfg) (kind : CheckKind)
    (key : GoString) (hf : (c.focus kind key).length≤1) : (d.focus kind key).length≤1 := by
  cases hs with
  | enter ht hw => simp [Checker.focus,Stmt.about]
  | tick st rest input sts eff ht hx =>
    refine hx.focus_le rest ?_ kind key (by rw [←ht]; exact hf)
    intro hc
    have alone := h.alone st (by rw [ht]; simp) (.inr hc)
    rw [ht,List.cons.injEq] at alone
    exact alone.2
  | start i x hi hw => exact hf
  | drop i x hi hw => exact hf
  | finish i o x hi => exact hf
  | record i r hi => exact hf

/-- Statements about a check of a key work on the entry an earlier one worked on,
or on a fresh copy of the stored entry. -/
theorem Checker.Steps.focus_entry {cfg : QuorumConfig} {f : Fsm} {c d : Checker} {a : Action}
    {eff : Effect} (hs : c.Steps cfg f a d eff) (kind : CheckKind) (key : GoString) (s : Stmt)
    (h : s∈d.focus kind key) :
    (∃ t∈c.focus kind key,t.entry=s.entry) ∨
      ∃ v,f.gcm.data.lookup key=some v ∧ s.entry=v.copy := by
  cases hs with
  | enter ht hw => simp [Checker.focus,Stmt.about] at h
  | tick st rest input sts eff ht hx =>
    obtain ⟨hm,ha⟩ := List.mem_filter.mp h
    cases List.mem_append.mp hm with
    | inl hin =>
      by_cases hc : st=.clone
      · subst st
        cases hx with
        | clone o ho =>
          obtain ⟨v,hv,he⟩ := mem_cloneChecks o kind key s hin ha
          exact .inr ⟨v,(ho.mem_iff key v).mp hv,he⟩
      · obtain ⟨-,same⟩ := hx.successor hc
        refine .inl ⟨st,List.mem_filter.mpr ⟨by rw [ht]; simp,?_⟩,(same s hin).2.symm⟩
        rw [←(same s hin).1,ha]
    | inr hin => exact .inl ⟨s,List.mem_filter.mpr ⟨by rw [ht]; simp [hin],ha⟩,rfl⟩
  | start i x hi hw => exact .inl ⟨s,h,rfl⟩
  | drop i x hi hw => exact .inl ⟨s,h,rfl⟩
  | finish i o x hi => exact .inl ⟨s,h,rfl⟩
  | record i r hi => exact .inl ⟨s,h,rfl⟩

theorem Executes.received_send {cfg : QuorumConfig} {f : Fsm} {c : Checker} {st : Stmt}
    {input : TickInput} {sts : List Stmt} {eff : Effect} (h : Executes cfg f c st input sts eff)
    (x : Sent) (hx : x∈eff.received) : st=.send x ∧ sts=[] := by
  cases h with
  | send y =>
    obtain rfl := List.mem_singleton.mp hx
    exact ⟨rfl,rfl⟩
  | submitPending d ts hp => simp at hx
  | submitTime d ts hp => simp at hx
  | submitStatus d => simp at hx
  | _ => simp [Effect.received] at hx

/-- Only the build statement makes a command. -/
theorem Executes.built {cfg : QuorumConfig} {f : Fsm} {c : Checker} {st : Stmt}
    {input : TickInput} {sts : List Stmt} {eff : Effect} (h : Executes cfg f c st input sts eff)
    (x : Sent) (hx : .send x∈sts) :
    st=.build x.decision x.stamp ∧ x.value=f.cm.get x.decision.key := by
  cases h with
  | build d ts =>
    obtain rfl : x=d.toSent cfg ts f.cm := by simpa using hx
    exact ⟨rfl,rfl⟩
  | clone o ho =>
    obtain ⟨p,-,hp⟩ := List.mem_flatMap.mp hx
    simp at hp
  | checkEvent key v now sc hv =>
    obtain ⟨d,hd,-⟩ := checkEvent_sound cfg key v now sc hv _ hx
    cases hd
  | checkEmpty key v now sc hv =>
    obtain ⟨d,hd,-⟩ := checkEmpty_sound cfg key v now sc hv _ hx
    cases hd
  | barrier | failed | stamp | submitPending | submitTime | submitStatus | send => simp at hx

/-- Only a Barrier that succeeds makes the pass clone. -/
theorem Executes.opens_barrier {cfg : QuorumConfig} {f : Fsm} {c : Checker} {st : Stmt}
    {input : TickInput} {sts : List Stmt} {eff : Effect} (h : Executes cfg f c st input sts eff)
    (hc : .clone∈sts) : input=.barrier true := by
  cases h with
  | barrier => rfl
  | clone o ho =>
    obtain ⟨p,-,hp⟩ := List.mem_flatMap.mp hc
    simp at hp
  | checkEvent key v now sc hv =>
    obtain ⟨d,hd,-⟩ := checkEvent_sound cfg key v now sc hv _ hc
    cases hd
  | checkEmpty key v now sc hv =>
    obtain ⟨d,hd,-⟩ := checkEmpty_sound cfg key v now sc hv _ hc
    cases hd
  | failed | stamp | submitPending | submitTime | submitStatus | build | send => simp at hc

theorem Checker.Steps.built {cfg : QuorumConfig} {f : Fsm} {c d : Checker} {a : Action}
    {eff : Effect} (hs : c.Steps cfg f a d eff) (x : Sent) (hx : .send x∈d.tick) :
    .send x∈c.tick ∨
      ((∃ rest,c.tick=.build x.decision x.stamp::rest) ∧ x.value=f.cm.get x.decision.key) := by
  cases hs with
  | enter ht hw => simp at hx
  | tick st rest input sts eff ht he =>
    cases List.mem_append.mp hx with
    | inl new =>
      have made := he.built x new
      exact .inr ⟨⟨rest,by rw [ht,made.1]⟩,made.2⟩
    | inr old =>
      rw [ht]
      exact .inl (List.mem_cons_of_mem st old)
  | start | drop | finish | record => exact .inl hx

/-- A command comes into flight only by being sent on cmdCh. -/
theorem Checker.Steps.mem_inflight {cfg : QuorumConfig} {f : Fsm} {c d : Checker} {a : Action}
    {eff : Effect} (hs : c.Steps cfg f a d eff) (x : Sent) (h : x∈d.inflight) :
    x∈c.inflight ∨ ∃ rest,c.tick=.send x::rest := by
  simp only [Checker.inflight,List.mem_append] at h ⊢
  cases hs with
  | enter ht hw => exact .inl h
  | tick st rest input sts eff ht hx =>
    cases h with
    | inl h =>
      cases List.mem_append.mp h with
      | inl h => exact .inl (.inl h)
      | inr h => exact .inr ⟨rest,by rw [ht,(hx.received_send x h).1]⟩
    | inr h => exact .inl (.inr h)
  | start i y hi hw =>
    rcases h with h|h|h
    · exact .inl (.inl (List.mem_of_mem_eraseIdx h))
    · cases List.mem_append.mp h with
      | inl h => exact .inl (.inr (.inl h))
      | inr h =>
        rw [List.mem_singleton.mp h]
        exact .inl (.inl (List.mem_of_getElem? hi))
    · exact .inl (.inr (.inr h))
  | drop i y hi hw =>
    exact .inl (h.imp List.mem_of_mem_eraseIdx id)
  | finish i o y hi =>
    rcases h with h|h|h
    · exact .inl (.inl h)
    · exact .inl (.inr (.inl (List.mem_of_mem_eraseIdx h)))
    · rw [List.map_append,List.mem_append] at h
      cases h with
      | inl h => exact .inl (.inr (.inr h))
      | inr h =>
        obtain rfl : x=y := by simpa using h
        exact .inl (.inr (.inl (List.mem_of_getElem? hi)))
  | record i r hi =>
    rcases h with h|h|h
    · exact .inl (.inl h)
    · exact .inl (.inr (.inl h))
    · obtain ⟨q,hq,rfl⟩ := List.mem_map.mp h
      exact .inl (.inr (.inr (List.mem_map.mpr ⟨q,List.mem_of_mem_eraseIdx hq,rfl⟩)))

theorem Checker.notifyFollower_submit (c : Checker) (e e' : LogEntryData)
    (source source' : Option Finished)
    (h : c.notifyFollower e source=.submit e' source') :
    e'=e ∧ source'=source ∧ c.writable=true := by
  unfold Checker.notifyFollower at h
  split_ifs at h with hw
  cases h
  exact ⟨rfl,rfl,hw⟩

/-- The entries a checker hands to raft. -/
theorem Checker.Steps.submits {cfg : QuorumConfig} {f : Fsm} {c d : Checker} {a : Action}
    {e : LogEntryData} {source : Option Finished} (hs : c.Steps cfg f a d (.submit e source)) :
    (∃ p ts rest,c.tick=.submitTime p ts::rest ∧ e=p.timeEntry ts ∧ source=none) ∨
      (∃ p rest,c.tick=.submitStatus p::rest ∧ d.tick=rest ∧ e=⟨.notifyStatus,p.key,p.status⟩ ∧
        source=none) ∨
      (∃ i r,a=.record i ∧ c.results[i]?=some r ∧ d.tick=c.tick ∧ e=resultEntry r.result ∧
        source=some r) := by
  generalize heff : Effect.submit e source=eff at hs
  cases hs with
  | tick st rest input sts eff ht hx =>
    cases hx with
    | submitPending p ts hp =>
      obtain ⟨rfl,rfl,-⟩ := c.notifyFollower_submit _ _ _ _ heff.symm
      exact .inl ⟨p,ts,rest,ht,rfl,rfl⟩
    | submitTime p ts hp =>
      obtain ⟨rfl,rfl,-⟩ := c.notifyFollower_submit _ _ _ _ heff.symm
      exact .inl ⟨p,ts,rest,ht,rfl,rfl⟩
    | submitStatus p =>
      obtain ⟨rfl,rfl,-⟩ := c.notifyFollower_submit _ _ _ _ heff.symm
      exact .inr (.inl ⟨p,rest,ht,rfl,rfl,rfl⟩)
    | _ => cases heff
  | record i r hi =>
    obtain ⟨rfl,rfl,-⟩ := c.notifyFollower_submit _ _ _ _ heff.symm
    exact .inr (.inr ⟨i,r,rfl,hi,rfl,rfl,rfl⟩)
  | finish i o x hi => exact absurd heff.symm (x.effect_ne_submit o e source)
  | _ => cases heff

end StCache
