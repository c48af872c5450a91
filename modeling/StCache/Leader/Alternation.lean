import Mathlib.Data.List.Chain
import Mathlib.Data.List.Perm.Basic
import StCache.Leader.SilentFlip

namespace StCache

/-- The decision of a statement that has read the clock for its notification. -/
def Stmt.stamped : Stmt → Option Decision
  | .submitTime d _ => if d.pending then none else some d
  | .build d _ => some d
  | .send x => some x.decision
  | _ => none

/-- Notifications of a check that are decided but not yet on cmdCh. -/
def Checker.unsent (c : Checker) (kind : CheckKind) (key : GoString) : List Decision :=
  (c.focus kind key).filterMap Stmt.stamped

/-- Commands of a check on their way from cmdCh to quorumCheck2. -/
def Checker.flying (c : Checker) (kind : CheckKind) (key : GoString) : List Sent :=
  c.inflight.filter (fun x => x.decision.about kind key)

/-- The statuses of the commands sent for a check of a key, in order. -/
def Leader.sentStatuses (l : Leader) (kind : CheckKind) (key : GoString) : List GossipStatus :=
  (l.sent.filter (fun x => x.decision.about kind key)).map (fun x => x.command.status)

section Perm
variable {cfg : QuorumConfig} {f : Fsm} {c d : Checker}

theorem eraseIdx_perm {A : Type} (xs : List A) (i : Nat) (x : A) (h : xs[i]?=some x) :
    xs.Perm (x::xs.eraseIdx i) := by
  obtain ⟨hi,rfl⟩ := List.getElem?_eq_some_iff.mp h
  exact (List.getElem_cons_eraseIdx_perm hi).symm

theorem Checker.Steps.inflight_tick {input : TickInput} {eff : Effect}
    (hs : c.Steps cfg f (.tick input) d eff) : d.inflight.Perm (eff.received++c.inflight) := by
  cases hs with
  | tick st rest input sts eff ht hx =>
    simp only [Checker.inflight,List.append_assoc]
    exact (List.perm_append_comm_assoc _ _ _)

theorem Checker.Steps.inflight_start {i : Nat} {eff : Effect}
    (hs : c.Steps cfg f (.start i) d eff) (hw : c.writable=true) :
    d.inflight.Perm c.inflight ∧ d.tick=c.tick := by
  cases hs with
  | start i x hi _ =>
    refine ⟨?_,rfl⟩
    simp only [Checker.inflight]
    refine ((List.Perm.append_right _ (eraseIdx_perm c.cmds i x hi)).trans ?_).symm
    simp only [List.cons_append,List.append_assoc]
    refine (List.perm_middle.symm).trans ?_
    exact List.Perm.append_left _ List.perm_middle.symm
  | drop i x hi hn => rw [hw] at hn; cases hn

theorem Checker.Steps.inflight_finish {i : Nat} {o : ShellOutcome} {eff : Effect}
    (hs : c.Steps cfg f (.finish i o) d eff) : d.inflight.Perm c.inflight ∧ d.tick=c.tick := by
  cases hs with
  | finish i o x hi =>
    refine ⟨?_,rfl⟩
    simp only [Checker.inflight,List.map_append,List.map_cons,List.map_nil]
    refine List.Perm.append_left _ ?_
    refine ((List.Perm.append_right _ (eraseIdx_perm c.running i x hi)).trans ?_).symm
    simp only [List.cons_append]
    refine List.perm_middle.symm.trans ?_
    refine List.Perm.append_left _ ?_
    exact (List.perm_append_singleton x _).symm

theorem Checker.Steps.inflight_record {i : Nat} {eff : Effect} {r : Finished}
    (hs : c.Steps cfg f (.record i) d eff) (hr : c.results[i]?=some r) :
    c.inflight.Perm (r.sent::d.inflight) ∧ d.tick=c.tick := by
  cases hs with
  | record i q hq =>
    obtain rfl : r=q := Option.some.inj (hr.symm.trans hq)
    refine ⟨?_,rfl⟩
    have moved : (c.results.map Finished.sent).Perm
        (r.sent::(c.results.eraseIdx i).map Finished.sent) :=
      (eraseIdx_perm c.results i r hr).map Finished.sent
    simp only [Checker.inflight]
    refine (List.Perm.append_left _ (List.Perm.append_left _ moved)).trans ?_
    refine (List.Perm.append_left _ List.perm_middle).trans ?_
    exact List.perm_middle

end Perm

section Phases
variable (kind : CheckKind) (key : GoString) (l : Leader)

/-- The last command sent carries this status, if any was sent. -/
def Leader.LastSent (s : GossipStatus) : Prop :=
  ∀ t,(l.sentStatuses kind key).getLast?=some t → t=s

/-- Nothing is under way and the last notified status is the recorded one. -/
def Leader.Quiet : Prop :=
  l.checker.unsent kind key=[] ∧ l.checker.flying kind key=[] ∧
    l.LastSent kind key (l.fsm.recorded kind key)

/-- One notification is decided, on an entry that records the current status. -/
def Leader.Deciding : Prop :=
  ∃ d,l.checker.unsent kind key=[d] ∧ l.checker.flying kind key=[] ∧
    recordedStatus kind d.v.replicated=l.fsm.recorded kind key ∧
    l.LastSent kind key (l.fsm.recorded kind key)

/-- One command is in flight and it is the last one sent. -/
def Leader.Flying : Prop :=
  ∃ x,l.checker.unsent kind key=[] ∧ l.checker.flying kind key=[x] ∧
    (l.sentStatuses kind key).getLast?=some x.decision.status

def Leader.Phase : Prop := l.Quiet kind key ∨ l.Deciding kind key ∨ l.Flying kind key

end Phases

section PhaseSteps
variable {cfg : QuorumConfig} {kind : CheckKind} {key : GoString} {l m : Leader}

/-- A step that changes nothing for a check of a key. -/
structure Leader.Untouched (kind : CheckKind) (key : GoString) (l m : Leader) : Prop where
  unsent : m.checker.unsent kind key=l.checker.unsent kind key
  flying : (m.checker.flying kind key).Perm (l.checker.flying kind key)
  sent : m.sentStatuses kind key=l.sentStatuses kind key
  recorded : m.fsm.recorded kind key=l.fsm.recorded kind key

theorem Leader.Phase.congr (h : l.Phase kind key) (same : l.Untouched kind key m) :
    m.Phase kind key := by
  obtain ⟨hu,hf,hs,hr⟩ := same
  rcases h with ⟨h1,h2,h3⟩|⟨d,h1,h2,h3,h4⟩|⟨x,h1,h2,h3⟩
  · refine .inl ⟨hu.trans h1,?_,?_⟩
    · rw [h2] at hf
      exact List.perm_nil.mp hf
    · rw [Leader.LastSent,hs,hr]
      exact h3
  · refine .inr (.inl ⟨d,hu.trans h1,?_,h3.trans hr.symm,?_⟩)
    · rw [h2] at hf
      exact List.perm_nil.mp hf
    · rw [Leader.LastSent,hs,hr]
      exact h4
  · refine .inr (.inr ⟨x,hu.trans h1,?_,hs ▸ h3⟩)
    rw [h2] at hf
    exact List.perm_singleton.mp hf

/-- The recorded status of a check is one it notifies about once a command was
sent. -/
structure Leader.Alternates (cfg : QuorumConfig) (kind : CheckKind) (key : GoString)
    (l : Leader) : Prop where
  consistent : l.Consistent cfg kind key
  writable : l.checker.writable=true
  chain : (l.sentStatuses kind key).IsChain (· ≠ ·)
  notifies : ∀ s∈l.sentStatuses kind key,kind.Notifies s
  phase : l.Phase kind key

theorem Executes.unsent_other {f : Fsm} {c : Checker} {st : Stmt} {input : TickInput}
    {sts : List Stmt} {eff : Effect} (h : Executes cfg f c st input sts eff)
    (ha : st.about kind key=false) :
    (sts.filter (Stmt.about kind key)).filterMap Stmt.stamped=[] := by
  rw [List.filterMap_eq_nil_iff]
  intro s hs
  obtain ⟨hm,hsa⟩ := List.mem_filter.mp hs
  by_cases hc : st=.clone
  · subst st
    cases h with
    | clone o ho =>
      obtain ⟨p,-,hp⟩ := List.mem_flatMap.mp hm
      simp only [List.mem_cons,List.not_mem_nil,or_false] at hp
      rcases hp with rfl|rfl <;> rfl
  · rw [((h.successor hc).2 s hm).1,ha] at hsa
    cases hsa

/-- The statements left behind the one that is about the check do not matter. -/
theorem Leader.Consistent.focus_head (h : l.Consistent cfg kind key) (st : Stmt)
    (rest : List Stmt) (ht : l.checker.tick=st::rest) (ha : st.about kind key=true) :
    rest.filter (Stmt.about kind key)=[] := by
  have one := h.focus
  rw [Checker.focus,ht,List.filter_cons_of_pos ha,List.length_cons] at one
  exact List.length_eq_zero_iff.mp (by omega)

theorem Leader.sentStatuses_append (kind : CheckKind) (key : GoString) (xs : List Sent)
    (hs : m.sent=l.sent++xs) :
    m.sentStatuses kind key=l.sentStatuses kind key++
      (xs.filter (fun x => x.decision.about kind key)).map (fun x => x.command.status) := by
  rw [Leader.sentStatuses,hs,List.filter_append,List.map_append]
  rfl

/-- What one step has to show: the phase goes on and what was sent still alternates. -/
def Leader.GoesOn (kind : CheckKind) (key : GoString) (m : Leader) : Prop :=
  m.Phase kind key ∧ (m.sentStatuses kind key).IsChain (· ≠ ·) ∧
    ∀ s∈m.sentStatuses kind key,kind.Notifies s

theorem Leader.Alternates.goesOn (h : l.Alternates cfg kind key)
    (same : l.Untouched kind key m) : m.GoesOn kind key :=
  ⟨h.phase.congr same,same.sent ▸ h.chain,same.sent ▸ h.notifies⟩

/-- Nothing is under way and a notification is decided on a current entry. -/
theorem Leader.Alternates.decides (h : l.Alternates cfg kind key) {d : Decision}
    (hl : l.checker.unsent kind key=[]) (none' : l.checker.flying kind key=[])
    (same : recordedStatus kind d.v.replicated=l.fsm.recorded kind key)
    (hm : m.checker.unsent kind key=[d])
    (hf : (m.checker.flying kind key).Perm (l.checker.flying kind key))
    (hs : m.sentStatuses kind key=l.sentStatuses kind key)
    (hr : m.fsm.recorded kind key=l.fsm.recorded kind key) : m.GoesOn kind key := by
  have last : l.LastSent kind key (l.fsm.recorded kind key) := by
    rcases h.phase with ⟨-,-,h3⟩|⟨d',h1,-⟩|⟨x,-,h2,-⟩
    · exact h3
    · rw [hl] at h1
      cases h1
    · rw [none'] at h2
      cases h2
  refine ⟨.inr (.inl ⟨d,hm,?_,same.trans hr.symm,?_⟩),hs ▸ h.chain,hs ▸ h.notifies⟩
  · rw [none'] at hf
    exact List.perm_nil.mp hf
  · rw [Leader.LastSent,hs,hr]
    exact last

/-- While the recorded status is none the check notifies about, nothing of it is in
flight and nothing was ever sent. -/
theorem Leader.Alternates.silent_unset (h : l.Alternates cfg kind key)
    (unset : ¬kind.Notifies (l.fsm.recorded kind key)) (hl : l.checker.unsent kind key=[]) :
    l.checker.flying kind key=[] ∧ l.sentStatuses kind key=[] := by
  rcases h.phase with ⟨-,h2,h3⟩|⟨d',h1,-⟩|⟨x,-,h2,-⟩
  · refine ⟨h2,List.getLast?_eq_none_iff.mp ?_⟩
    cases hlast : (l.sentStatuses kind key).getLast? with
    | none => rfl
    | some t =>
      have notifies := h.notifies t (List.mem_of_getLast? hlast)
      rw [h3 t hlast] at notifies
      exact absurd notifies unset
  · rw [hl] at h1
    cases h1
  · have hx : x∈l.checker.flying kind key := by rw [h2]; simp
    obtain ⟨hx,hab⟩ := List.mem_filter.mp hx
    exact absurd (h.consistent.inflight x hx hab) unset

/-- A first status may be recorded in any way: there is no command to agree with. -/
theorem Leader.Alternates.records_first (h : l.Alternates cfg kind key)
    (unset : ¬kind.Notifies (l.fsm.recorded kind key)) (hl : l.checker.unsent kind key=[])
    (hm : m.checker.unsent kind key=[])
    (hf : (m.checker.flying kind key).Perm (l.checker.flying kind key))
    (hs : m.sentStatuses kind key=l.sentStatuses kind key) : m.GoesOn kind key := by
  obtain ⟨flying,sent⟩ := h.silent_unset unset hl
  refine ⟨.inl ⟨hm,?_,?_⟩,hs ▸ h.chain,hs ▸ h.notifies⟩
  · rw [flying] at hf
    exact List.perm_nil.mp hf
  · intro t hlast
    rw [hs,sent] at hlast
    cases hlast

/-- The decided notification is sent: it differs from the recorded status, which is
that of the last command. -/
theorem Leader.Alternates.sends (h : l.Alternates cfg kind key) {x : Sent}
    (hl : l.checker.unsent kind key=[x.decision]) (hm : m.checker.unsent kind key=[])
    (hf : (m.checker.flying kind key).Perm (x::l.checker.flying kind key))
    (hs : m.sentStatuses kind key=l.sentStatuses kind key++[x.decision.status])
    (change : x.decision.status≠recordedStatus kind x.decision.v.replicated)
    (notifies : kind.Notifies x.decision.status) : m.GoesOn kind key := by
  obtain ⟨none',same,last⟩ : l.checker.flying kind key=[] ∧
      recordedStatus kind x.decision.v.replicated=l.fsm.recorded kind key ∧
      l.LastSent kind key (l.fsm.recorded kind key) := by
    rcases h.phase with ⟨h1,-⟩|⟨d,h1,h2,h3,h4⟩|⟨x,h1,-⟩
    · rw [hl] at h1
      cases h1
    · rw [hl] at h1
      cases h1
      exact ⟨h2,h3,h4⟩
    · rw [hl] at h1
      cases h1
  refine ⟨.inr (.inr ⟨x,hm,?_,by rw [hs]; simp⟩),?_,?_⟩
  · rw [none'] at hf
    exact List.perm_singleton.mp hf
  · rw [hs]
    refine h.chain.append (List.isChain_singleton _) ?_
    intro t ht y hy
    obtain rfl : x.decision.status=y := by simpa using hy
    rw [last t ht,←same]
    exact change.symm
  · rw [hs]
    intro t ht
    cases List.mem_append.mp ht with
    | inl ht => exact h.notifies t ht
    | inr ht =>
      rw [List.mem_singleton.mp ht]
      exact notifies

section Tick
variable {st : Stmt} {rest : List Stmt} {input : TickInput} {sts : List Stmt} {eff : Effect}

theorem Leader.unsent_tick (kind : CheckKind) (key : GoString) (ht : l.checker.tick=st::rest)
    (hm : m.checker.tick=sts++rest) :
    l.checker.unsent kind key=([st].filter (Stmt.about kind key)).filterMap Stmt.stamped++
        (rest.filter (Stmt.about kind key)).filterMap Stmt.stamped ∧
      m.checker.unsent kind key=(sts.filter (Stmt.about kind key)).filterMap Stmt.stamped++
        (rest.filter (Stmt.about kind key)).filterMap Stmt.stamped := by
  simp only [Checker.unsent,Checker.focus,ht,hm,←List.filterMap_append,←List.filter_append]
  exact ⟨rfl,trivial⟩

theorem Leader.Alternates.recorded_tick (h : l.Alternates cfg kind key) {c : Checker}
    (ht : l.checker.tick=st::rest) (hs : l.checker.Steps cfg l.fsm (.tick input) c eff)
    (ha : l.Absorbed c eff true m) (hn : ∀ d,d.about kind key=true → st≠.submitStatus d) :
    m.fsm.recorded kind key=l.fsm.recorded kind key := by
  rcases Leader.recorded_act cfg l m _ true c eff h.consistent.sound hs ha kind key with
    same|⟨d,r,hd,-,hda,-⟩|⟨i,r,hi,-⟩
  · exact same
  · rw [ht,List.cons.injEq] at hd
    exact absurd hd.1 (hn d hda)
  · cases hi

/-- A statement that is not about the check changes nothing for it. -/
theorem Leader.Alternates.tick_other (h : l.Alternates cfg kind key) {c : Checker}
    (ht : l.checker.tick=st::rest) (hx : Executes cfg l.fsm l.checker st input sts eff)
    (hc : c.tick=sts++rest) (hs : l.checker.Steps cfg l.fsm (.tick input) c eff)
    (ha : l.Absorbed c eff true m) (no : st.about kind key=false) : l.Untouched kind key m := by
  have quiet : eff.received.filter (fun x => x.decision.about kind key)=[] := by
    rw [List.filter_eq_nil_iff]
    intro x hx' hab
    rw [(hx.received_send x hx').1] at no
    exact absurd hab (by simpa [Stmt.about] using no)
  obtain ⟨hl,hm⟩ := Leader.unsent_tick kind key ht
    (show m.checker.tick=sts++rest by rw [ha.checker,hc])
  refine ⟨?_,?_,?_,?_⟩
  · rw [hl,hm,hx.unsent_other no,List.filter_cons_of_neg (by simp [no])]
    rfl
  · have moved := (hs.inflight_tick).filter (fun x => x.decision.about kind key)
    rw [List.filter_append,quiet,List.nil_append,←ha.checker] at moved
    exact moved
  · rw [Leader.sentStatuses_append kind key _ ha.sent,quiet,List.map_nil,List.append_nil]
  · refine h.recorded_tick ht hs ha ?_
    intro d hd he
    rw [he] at no
    exact absurd hd (by simpa [Stmt.about] using no)

/-- A statement about the check moves its notification one step on. -/
theorem Leader.Alternates.tick_about (h : l.Alternates cfg kind key) {c : Checker}
    (ht : l.checker.tick=st::rest) (hx : Executes cfg l.fsm l.checker st input sts eff)
    (hc : c.tick=sts++rest) (hs : l.checker.Steps cfg l.fsm (.tick input) c eff)
    (ha : l.Absorbed c eff true m) (yes : st.about kind key=true)
    (current : ∀ d,st=.stamp d → d.pending=false → l.checker.flying kind key=[] ∧
      recordedStatus kind d.v.replicated=l.fsm.recorded kind key) : m.GoesOn kind key := by
  obtain ⟨hl,hm⟩ := Leader.unsent_tick kind key ht
    (show m.checker.tick=sts++rest by rw [ha.checker,hc])
  have moved := (hs.inflight_tick).filter (fun x => x.decision.about kind key)
  rw [List.filter_append,←ha.checker] at moved
  rw [h.consistent.focus_head st rest ht yes,List.filterMap_nil,List.append_nil] at hl hm
  rw [List.filter_cons_of_pos yes,List.filter_nil] at hl
  have sound := h.consistent.sound.tick st (by rw [ht]; simp)
  have sent := Leader.sentStatuses_append kind key _ ha.sent
  have stay (hq : eff.received=[]) (hu : m.checker.unsent kind key=l.checker.unsent kind key)
      (hn : ∀ d,d.about kind key=true → st≠.submitStatus d) : m.GoesOn kind key := by
    rw [hq] at moved sent
    exact h.goesOn ⟨hu,moved,by simpa using sent,h.recorded_tick ht hs ha hn⟩
  -- a check that has not read the clock leaves decisions that have not read it either
  have checked (hq : eff.received=[]) (unread : st.stamped=none)
      (decisions : ∀ s∈sts,∃ d,s=.stamp d)
      (hn : ∀ d,d.about kind key=true → st≠.submitStatus d) : m.GoesOn kind key := by
    refine stay hq ?_ hn
    rw [hl,hm,List.filterMap_cons_none unread,List.filterMap_nil,List.filterMap_eq_nil_iff]
    intro s hm'
    obtain ⟨d,rfl⟩ := decisions s (List.mem_filter.mp hm').1
    rfl
  cases hx with
  | barrier | failed | clone => simp [Stmt.about] at yes
  | checkEvent k v now sc hv =>
    refine checked rfl rfl ?_ (by simp)
    intro s hm'
    obtain ⟨d,hd,-⟩ := checkEvent_sound cfg k v now sc hv s hm'
    exact ⟨d,hd⟩
  | checkEmpty k v now sc hv =>
    refine checked rfl rfl ?_ (by simp)
    intro s hm'
    obtain ⟨d,hd,-⟩ := checkEmpty_sound cfg k v now sc hv s hm'
    exact ⟨d,hd⟩
  | stamp d now =>
    have here : (Stmt.submitTime d now).about kind key=true := yes
    rw [List.filter_cons_of_pos here,List.filter_nil] at hm
    cases hp : d.pending with
    | true =>
      refine stay rfl ?_ (by simp)
      rw [hl,hm]
      simp [Stmt.stamped,hp]
    | false =>
      obtain ⟨none',same⟩ := current d rfl hp
      refine h.decides (by rw [hl]; rfl) none' same ?_ moved (by simpa [Effect.received] using sent)
        (h.recorded_tick ht hs ha (by simp))
      rw [hm]
      simp [Stmt.stamped,hp]
  | submitPending d ts hp =>
    refine stay (by simp) ?_ (by simp)
    rw [hl,hm]
    simp [Stmt.stamped,hp]
  | submitTime d ts hp =>
    have here : (Stmt.build d ts).about kind key=true := yes
    refine stay (by simp) ?_ (by simp)
    rw [hl,hm,List.filter_cons_of_pos here]
    simp [Stmt.stamped,hp]
  | submitStatus d =>
    rw [Checker.notifyFollower_received,List.filter_nil] at moved sent
    exact h.records_first (h.consistent.pending d rest ht yes) (by rw [hl]; rfl) (by rw [hm]; rfl)
      moved (by simpa using sent)
  | build d ts =>
    have here : (Stmt.send (d.toSent cfg ts l.fsm.cm)).about kind key=true := yes
    refine stay rfl ?_ (by simp)
    rw [hl,hm,List.filter_cons_of_pos here]
    rfl
  | send x =>
    have status : x.command.status=x.decision.status := by rw [sound.2.2]
    have kindEq := ((x.decision.about_iff kind key).mp yes).1
    have change := (sound.1.change sound.2.1).2
    rw [kindEq] at change
    rw [Effect.received,List.filter_cons_of_pos (by exact yes),List.filter_nil] at moved sent
    rw [List.map_singleton,status] at sent
    exact h.sends (by rw [hl]; rfl) (by rw [hm]; rfl) moved sent change (kindEq ▸ sound.1.notifies)

end Tick

/-- Taking the result of the command in flight records its status. -/
theorem Leader.Alternates.record_about (h : l.Alternates cfg kind key) {c : Checker}
    {eff : Effect} {i : Nat} {r : Finished} (hr : l.checker.results[i]?=some r)
    (hs : l.checker.Steps cfg l.fsm (.record i) c eff) (ha : l.Absorbed c eff true m)
    (yes : r.sent.decision.about kind key=true) : m.GoesOn kind key := by
  obtain ⟨perm,tick⟩ := hs.inflight_record hr
  have sound := h.consistent.sound.results r (List.mem_of_getElem? hr)
  have perm' := perm.filter (fun x => x.decision.about kind key)
  rw [List.filter_cons_of_pos (by exact yes)] at perm'
  change (l.checker.flying kind key).Perm (r.sent::c.flying kind key) at perm'
  obtain ⟨x,hu,hf,last⟩ : l.Flying kind key := by
    rcases h.phase with ⟨-,h2,-⟩|⟨d,-,h2,-⟩|hfly
    · rw [h2] at perm'
      exact absurd (List.nil_perm.mp perm') (by simp)
    · rw [h2] at perm'
      exact absurd (List.nil_perm.mp perm') (by simp)
    · exact hfly
  rw [hf] at perm'
  have single := List.singleton_perm.mp perm'
  obtain ⟨rfl,gone⟩ := List.cons.inj single
  cases hs with
  | record i q hq =>
    obtain rfl : r=q := Option.some.inj (hr.symm.trans hq)
    rw [Checker.notifyFollower,if_pos h.writable] at ha
    have recorded : m.fsm.recorded kind key=r.sent.decision.status := by
      rcases ha.store with ⟨-,failed⟩|⟨e,source,he,-,happly⟩
      · exact absurd (failed _ _ rfl) (by simp)
      · cases he
        have notifies : r.sent.decision.kind.Notifies r.result.status := by
          rw [sound.2.2]
          exact sound.1.1.notifies
        obtain ⟨hk,hkey⟩ := (Decision.about_iff _ kind key).mp yes
        rw [Fsm.recorded_resultEntry _ _ _ _ notifies happly,sound.2.1,sound.2.2,
          if_pos ⟨hk.symm,hkey⟩]
    have statuses : m.sentStatuses kind key=l.sentStatuses kind key := by
      rw [Leader.sentStatuses,ha.sent]
      simp [Effect.received,Leader.sentStatuses]
    refine ⟨.inl ⟨?_,?_,?_⟩,statuses ▸ h.chain,statuses ▸ h.notifies⟩
    · rw [ha.checker]
      exact hu
    · rw [ha.checker]
      exact gone.symm
    · intro t ht
      rw [statuses,last] at ht
      rw [recorded]
      exact (Option.some.inj ht).symm

/-- Steps of the workers, and results of other checks, change nothing. -/
theorem Leader.Alternates.worker (h : l.Alternates cfg kind key) {a : Action} {c : Checker}
    {eff : Effect} (hs : l.checker.Steps cfg l.fsm a c eff) (ha : l.Absorbed c eff true m)
    (hq : eff.received=[]) (tick : c.tick=l.checker.tick)
    (perm : (c.flying kind key).Perm (l.checker.flying kind key))
    (hn : ∀ i r,a=.record i → l.checker.results[i]?=some r →
      r.sent.decision.about kind key=false) : l.Untouched kind key m := by
  refine ⟨?_,?_,?_,?_⟩
  · rw [ha.checker,Checker.unsent,Checker.focus,tick]
    rfl
  · rw [ha.checker]
    exact perm
  · rw [Leader.sentStatuses_append kind key _ ha.sent,hq]
    simp
  · rcases Leader.recorded_act cfg l m a true c eff h.consistent.sound hs ha kind key with
      same|⟨d,rest,htick,hrest,-⟩|⟨i,r,hi,hr,-,hab,-⟩
    · exact same
    · rw [tick,htick] at hrest
      exact absurd (congrArg List.length hrest) (by simp)
    · rw [hn i r hi hr] at hab
      cases hab

/-- The decision to notify that the next step makes by reading the clock. -/
def deciding (kind : CheckKind) (key : GoString) (l : Leader) : LeaderEvent → Option Decision
  | .act (.tick _) _ =>
    match l.checker.tick with
    | .stamp d::_ => if d.about kind key && !d.pending then some d else none
    | _ => none
  | _ => none

/-- A decision to notify is made when nothing of its check is under way and on
an entry that records what the store records. -/
def DecidesOnCurrent (kind : CheckKind) (key : GoString) (l : Leader) (e : LeaderEvent) : Prop :=
  ∀ d∈deciding kind key l e,l.checker.flying kind key=[] ∧
    recordedStatus kind d.v.replicated=l.fsm.recorded kind key

/-- One stable leader: every Apply succeeds, the write flag stays set and the
gossip entry of the key is not deleted. -/
def StableEvent (key : GoString) : LeaderEvent → Prop
  | .act _ ok => ok=true
  | .writeFlag b => b=true
  | .delKey k => k≠key
  | _ => True

instance (key : GoString) : ∀ e,Decidable (StableEvent key e)
  | .act _ ok => inferInstanceAs (Decidable (ok=true))
  | .writeFlag b => inferInstanceAs (Decidable (b=true))
  | .delKey k => inferInstanceAs (Decidable (k≠key))
  | .client _ => isTrue trivial
  | .report _ => isTrue trivial
  | .delNodeAddr _ _ => isTrue trivial

/-- A step of the checker changes nothing for the check, or executes a statement about it, or
takes the result of one of its commands. -/
theorem Leader.Alternates.touches (h : l.Alternates cfg kind key) (a : Action) (c : Checker)
    (eff : Effect) (hc : l.checker.Steps cfg l.fsm a c eff) (ha : l.Absorbed c eff true m) :
    (l.Untouched kind key m ∧ ∀ st rest input,a=.tick input → l.checker.tick=st::rest →
        st.about kind key=false) ∨
      (∃ st rest input sts,a=.tick input ∧ l.checker.tick=st::rest ∧ st.about kind key=true ∧
        Executes cfg l.fsm l.checker st input sts eff ∧ c.tick=sts++rest) ∨
      ∃ i r,a=.record i ∧ l.checker.results[i]?=some r ∧ r.sent.decision.about kind key=true := by
  have steps := hc
  cases hc with
  | enter ht hw =>
    refine .inl ⟨⟨?_,?_,?_,?_⟩,by simp⟩
    · rw [ha.checker,Checker.unsent,Checker.unsent,Checker.focus,Checker.focus,ht]
      rfl
    · rw [ha.checker]
      exact List.Perm.refl _
    · rw [Leader.sentStatuses_append kind key _ ha.sent]
      simp [Effect.received]
    · rcases ha.store with ⟨same,-⟩|⟨_,_,he,-⟩
      · rw [same]
      · cases he
  | tick st rest input sts eff ht hx =>
    cases hab : st.about kind key with
    | false =>
      refine .inl ⟨h.tick_other ht hx rfl steps ha hab,?_⟩
      intro st' rest' _ _ ht'
      rw [ht] at ht'
      cases ht'
      exact hab
    | true => exact .inr (.inl ⟨st,rest,input,sts,rfl,ht,hab,hx,rfl⟩)
  | start i x hi hw =>
    have moved := (steps.inflight_start h.writable).1.filter (fun x => x.decision.about kind key)
    exact .inl ⟨h.worker steps ha rfl rfl moved (by simp),by simp⟩
  | drop i x hi hw =>
    rw [h.writable] at hw
    cases hw
  | finish i o x hi =>
    have moved := steps.inflight_finish.1.filter (fun x => x.decision.about kind key)
    exact .inl ⟨h.worker steps ha (by simp) rfl moved (by simp),by simp⟩
  | record i r hi =>
    cases hab : r.sent.decision.about kind key with
    | true => exact .inr (.inr ⟨i,r,rfl,hi,hab⟩)
    | false =>
      have moved := (steps.inflight_record hi).1.filter (fun x => x.decision.about kind key)
      rw [List.filter_cons_of_neg (by simp [hab])] at moved
      refine .inl ⟨h.worker steps ha (by simp) rfl moved.symm ?_,by simp⟩
      intro j q hj hq
      cases hj
      obtain rfl : r=q := Option.some.inj (hi.symm.trans hq)
      exact hab

theorem Leader.Alternates.act (h : l.Alternates cfg kind key) (a : Action)
    (current : DecidesOnCurrent kind key l (.act a true))
    (hs : l.step cfg (.act a true)=some m) : m.GoesOn kind key := by
  obtain ⟨c,eff,hc,ha⟩ := Leader.step_act cfg l m a true hs
  rcases h.touches a c eff hc ha with
    ⟨same,-⟩|⟨st,rest,input,sts,rfl,ht,hab,hx,htick⟩|⟨i,r,rfl,hi,hab⟩
  · exact h.goesOn same
  · refine h.tick_about ht hx htick hc ha hab ?_
    intro d hd hp
    rw [hd] at ht hab
    have now : d∈deciding kind key l (.act (.tick input) true) := by
      simp only [deciding,ht]
      rw [if_pos (by simp [hp,show d.about kind key=true from hab])]
      rfl
    exact current d now
  · exact h.record_about hi hc ha hab

theorem StableEvent.keeps {e : LeaderEvent} (h : StableEvent key e) : e≠.delKey key := by
  rintro rfl
  exact h rfl

theorem Leader.untouched_other {e : LeaderEvent} (he : ∀ a ok,e≠.act a ok) (keep : e≠.delKey key)
    (hs : l.step cfg e=some m) : l.Untouched kind key m := by
  obtain ⟨⟨b,hb⟩,hsent,-,-,hrec⟩ := Leader.step_other cfg l m e he hs
  refine ⟨by rw [hb]; rfl,by rw [hb]; exact List.Perm.refl _,?_,hrec kind key keep⟩
  rw [Leader.sentStatuses,hsent]
  rfl

theorem Leader.Alternates.step (h : l.Alternates cfg kind key) (e : LeaderEvent)
    (stable : StableEvent key e) (current : DecidesOnCurrent kind key l e)
    (hs : l.step cfg e=some m) : m.Alternates cfg kind key := by
  have consistent := h.consistent.step e stable.keeps hs
  have writable : m.checker.writable=true := by
    cases e with
    | act a ok =>
      obtain ⟨c,eff,hc,ha⟩ := Leader.step_act cfg l m a ok hs
      rw [ha.checker]
      cases hc <;> exact h.writable
    | writeFlag b =>
      cases hs
      exact stable
    | client e =>
      simp only [Leader.step] at hs
      split_ifs at hs
      obtain ⟨f,-,rfl⟩ := Option.map_eq_some_iff.mp hs
      exact h.writable
    | report msg =>
      obtain ⟨f,-,rfl⟩ := Option.map_eq_some_iff.mp hs
      exact h.writable
    | delKey k =>
      cases hs
      exact h.writable
    | delNodeAddr k n =>
      cases hs
      exact h.writable
  have goes : m.GoesOn kind key := by
    by_cases he : ∃ a ok,e=.act a ok
    · obtain ⟨a,ok,rfl⟩ := he
      obtain rfl : ok=true := stable
      exact h.act a current hs
    · exact h.goesOn (Leader.untouched_other (fun a ok hx => he ⟨a,ok,hx⟩) stable.keeps hs)
  exact ⟨consistent,writable,goes.2.1,goes.2.2,goes.1⟩

theorem Leader.alternates_start (f : Fsm) : (Leader.start f true).Alternates cfg kind key :=
  ⟨Leader.consistent_start cfg kind key f true,rfl,.nil,by simp [Leader.sentStatuses,Leader.start],
    .inl ⟨rfl,rfl,fun t ht => by simp [Leader.sentStatuses,Leader.start] at ht⟩⟩

end PhaseSteps

end StCache
