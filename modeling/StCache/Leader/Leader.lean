import StCache.Framework.Runs
import StCache.Quorum.Steps

namespace StCache

/-- The status the store of a replica records for a check of a key. -/
def Fsm.recorded (f : Fsm) (kind : CheckKind) (key : GoString) : GossipStatus :=
  recordedStatus kind (f.gcm.replicated key)

theorem Fsm.recorded_applyEntry (f g : Fsm) (e : LogEntryData) (h : f.applyEntry e=some g)
    (kind : CheckKind) (key : GoString) :
    g.recorded kind key=match e.updateOf key with
      | none => f.recorded kind key
      | some u => recordedStatus kind (u.write (f.gcm.replicated key)) := by
  rw [recorded,((applyEntry_some f g e).mp h).2,GossipCacheManager.replicated_replay]
  cases e.updateOf key <;> rfl

theorem Fsm.recorded_timeEntry (f g : Fsm) (d : Decision) (ts : Int64)
    (h : f.applyEntry (d.timeEntry ts)=some g) (kind : CheckKind) (key : GoString) :
    g.recorded kind key=f.recorded kind key := by
  rw [recorded_applyEntry f g _ h]
  cases hu : (d.timeEntry ts).updateOf key with
  | none => rfl
  | some u =>
    unfold Decision.timeEntry LogEntryData.updateOf LogEntryData.update at hu
    split_ifs at hu
    cases hk : d.kind <;> simp only [hk,Option.map_eq_some_iff] at hu <;>
      obtain ⟨t,-,rfl⟩ := hu <;> cases kind <;> rfl

theorem Fsm.recorded_statusEntry (f g : Fsm) (k : GoString) (s : GossipStatus)
    (h : f.applyEntry ⟨.notifyStatus,k,s⟩=some g) (kind : CheckKind) (key : GoString) :
    g.recorded kind key=if kind=.event ∧ k=key then s else f.recorded kind key := by
  rw [recorded_applyEntry f g _ h]
  by_cases hk : k=key
  · subst k
    cases kind <;> simp [LogEntryData.updateOf,LogEntryData.update] <;> rfl
  · simp [LogEntryData.updateOf,hk]

/-- The entry of a result records the status that was notified. -/
theorem Fsm.recorded_resultEntry (f g : Fsm) (r : ShellCmdResult) (k : CheckKind)
    (hn : k.Notifies r.status) (h : f.applyEntry (resultEntry r)=some g) (kind : CheckKind)
    (key : GoString) :
    g.recorded kind key=if kind=k ∧ r.key=key then r.status else f.recorded kind key := by
  have flag (b : Bool) (hb : f.applyEntry ⟨.notifyEmpty,r.key,formatBool b⟩=some g) :
      g.recorded kind key=if kind=.empty ∧ r.key=key then
        (if b then gossipEmpty else gossipEmptyRecover) else f.recorded kind key := by
    rw [recorded_applyEntry f g _ hb]
    by_cases hk : r.key=key
    · cases kind <;> simp [LogEntryData.updateOf,LogEntryData.update,parseBool_formatBool,hk] <;> rfl
    · simp [LogEntryData.updateOf,hk]
  cases k with
  | event =>
    have other : r.status≠gossipEmpty ∧ r.status≠gossipEmptyRecover := by
      rcases hn with hn|hn <;> rw [hn] <;> decide
    rw [resultEntry,if_neg other.1,if_neg other.2] at h
    exact recorded_statusEntry f g r.key r.status h kind key
  | empty =>
    cases hn with
    | inl hn =>
      rw [resultEntry,if_pos hn] at h
      rw [flag true h,hn]
      rfl
    | inr hn =>
      have other : r.status≠gossipEmpty := by rw [hn]; decide
      rw [resultEntry,if_neg other,if_pos hn] at h
      rw [flag false h,hn]
      rfl

/-- One leader: its stores, its checker, and what has happened so far. -/
structure Leader where
  fsm : Fsm
  checker : Checker
  sent : List Sent := []
  ran : List Sent := []
  submitted : List (LogEntryData × Option Finished) := []

def Leader.start (f : Fsm) (writable : Bool) : Leader := {fsm := f,checker := {writable := writable}}

/-- `ok` is the outcome of the raft Apply call of the step, if it makes one. A
client entry is a committed SET or DELETE. -/
inductive LeaderEvent where
  | act (a : Action) (ok : Bool)
  | client (e : LogEntryData)
  | report (m : MyBroadcastMessage)
  | delKey (key : GoString)
  | delNodeAddr (key node : GoString)
  | writeFlag (b : Bool)

/-- A successful Apply has gone through FSM.Apply when it returns. A failed one
of a leader that stays leader was never put into the log. -/
def Leader.absorb (l : Leader) (c : Checker) (eff : Effect) (ok : Bool) : Option Leader :=
  match eff with
  | .silent => some {l with checker := c}
  | .sent x => some {l with checker := c,sent := l.sent++[x]}
  | .ran x => some {l with checker := c,ran := l.ran++[x]}
  | .submit e source =>
    if ok then (l.fsm.applyEntry e).map (fun f =>
      {l with fsm := f,checker := c,submitted := l.submitted++[(e,source)]})
    else some {l with checker := c,submitted := l.submitted++[(e,source)]}

def Leader.step (cfg : QuorumConfig) (l : Leader) : LeaderEvent → Option Leader
  | .act a ok => (l.checker.step cfg l.fsm a).bind (fun r => l.absorb r.1 r.2 ok)
  | .client e =>
    if e.cmd=.set ∨ e.cmd=.delete then (l.fsm.applyEntry e).map (fun f => {l with fsm := f})
    else none
  | .report m => (l.fsm.gcm.set m).map (fun r => {l with fsm := {l.fsm with gcm := r.1}})
  | .delKey key => some {l with fsm := {l.fsm with gcm := l.fsm.gcm.delKey key}}
  | .delNodeAddr key node => some {l with fsm := {l.fsm with gcm := l.fsm.gcm.delNodeAddr key node}}
  | .writeFlag b => some {l with checker := {l.checker with writable := b}}

def Effect.started : Effect → List Sent
  | .ran x => [x]
  | _ => []

def Effect.submission : Effect → List (LogEntryData × Option Finished)
  | .submit e source => [(e,source)]
  | _ => []

/-- What a step of the checker leaves in the leader. -/
structure Leader.Absorbed (l : Leader) (c : Checker) (eff : Effect) (ok : Bool) (m : Leader) :
    Prop where
  checker : m.checker=c
  sent : m.sent=l.sent++eff.received
  ran : m.ran=l.ran++eff.started
  submitted : m.submitted=l.submitted++eff.submission
  store : (m.fsm=l.fsm ∧ ∀ e source,eff=.submit e source → ok=false) ∨
    ∃ e source,eff=.submit e source ∧ ok=true ∧ l.fsm.applyEntry e=some m.fsm

theorem Leader.absorb_spec (l : Leader) (c : Checker) (eff : Effect) (ok : Bool) (m : Leader)
    (h : l.absorb c eff ok=some m) : l.Absorbed c eff ok m := by
  have nil {A : Type} (xs : List A) : xs=xs++[] := (List.append_nil xs).symm
  cases eff with
  | silent =>
    cases h
    exact ⟨rfl,nil _,nil _,nil _,.inl ⟨rfl,by simp⟩⟩
  | sent x =>
    cases h
    exact ⟨rfl,rfl,nil _,nil _,.inl ⟨rfl,by simp⟩⟩
  | ran x =>
    cases h
    exact ⟨rfl,nil _,rfl,nil _,.inl ⟨rfl,by simp⟩⟩
  | submit e source =>
    cases ok with
    | true =>
      simp only [absorb,if_true,Option.map_eq_some_iff] at h
      obtain ⟨f,hf,rfl⟩ := h
      exact ⟨rfl,nil _,nil _,rfl,.inr ⟨e,source,rfl,rfl,hf⟩⟩
    | false =>
      simp only [absorb,Bool.false_eq_true,if_false,Option.some.injEq] at h
      subst h
      exact ⟨rfl,nil _,nil _,rfl,.inl ⟨rfl,fun _ _ _ => rfl⟩⟩

/-- Steps other than those of the checker keep it, up to the write flag, and
keep the recorded status of a key unless they delete its entry. -/
theorem Leader.step_other (cfg : QuorumConfig) (l m : Leader) (e : LeaderEvent)
    (he : ∀ a ok,e≠.act a ok) (h : l.step cfg e=some m) :
    (∃ b,m.checker={l.checker with writable := b}) ∧ m.sent=l.sent ∧ m.ran=l.ran ∧
      m.submitted=l.submitted ∧
      ∀ kind key,e≠.delKey key → m.fsm.recorded kind key=l.fsm.recorded kind key := by
  cases e with
  | act a ok => exact absurd rfl (he a ok)
  | client e =>
    simp only [step] at h
    split_ifs at h with hc
    obtain ⟨f,hf,rfl⟩ := Option.map_eq_some_iff.mp h
    refine ⟨⟨_,rfl⟩,rfl,rfl,rfl,?_⟩
    intro kind key _
    rw [Fsm.recorded_applyEntry _ _ _ hf]
    have none' : e.updateOf key=none := by
      unfold LogEntryData.updateOf LogEntryData.update
      rcases hc with hc|hc <;> simp [hc]
    rw [none']
  | report msg =>
    obtain ⟨⟨c,bs⟩,hc,rfl⟩ := Option.map_eq_some_iff.mp h
    refine ⟨⟨_,rfl⟩,rfl,rfl,rfl,?_⟩
    intro kind key _
    simp only [Fsm.recorded,GossipCacheManager.replicated_set _ _ _ _ hc]
  | delKey k =>
    cases h
    refine ⟨⟨_,rfl⟩,rfl,rfl,rfl,?_⟩
    intro kind key hk
    have other : key≠k := fun he => hk (by rw [he])
    simp only [Fsm.recorded,GossipCacheManager.replicated_delKey,if_neg other]
  | delNodeAddr k n =>
    cases h
    refine ⟨⟨_,rfl⟩,rfl,rfl,rfl,?_⟩
    intro kind key _
    simp only [Fsm.recorded,GossipCacheManager.replicated_delNodeAddr]
  | writeFlag b =>
    cases h
    exact ⟨⟨b,rfl⟩,rfl,rfl,rfl,fun _ _ _ => rfl⟩

theorem Leader.step_act (cfg : QuorumConfig) (l m : Leader) (a : Action) (ok : Bool)
    (h : l.step cfg (.act a ok)=some m) :
    ∃ c eff,l.checker.Steps cfg l.fsm a c eff ∧ l.Absorbed c eff ok m := by
  obtain ⟨⟨c,eff⟩,hs,ha⟩ := Option.bind_eq_some_iff.mp h
  exact ⟨c,eff,Checker.step_steps cfg l.fsm l.checker c a eff hs,l.absorb_spec c eff ok m ha⟩

/-- quorumCheck2 can take every result, whatever comes of its Apply call. -/
theorem Leader.record_possible (cfg : QuorumConfig) (l : Leader) (i : Nat) (r : Finished)
    (hr : l.checker.results[i]?=some r) (ok : Bool) :
    ∃ m,l.step cfg (.act (.record i) ok)=some m := by
  simp only [Leader.step,Checker.step,hr,Option.bind_some,Checker.notifyFollower]
  by_cases hw : l.checker.writable=true
  · rw [if_pos hw]
    cases ok with
    | false => exact ⟨_,rfl⟩
    | true =>
      simp only [Leader.absorb,if_true,Fsm.applyEntry_eq]
      have kept : l.fsm.cm.replay (resultEntry r.result)=some l.fsm.cm := by
        unfold resultEntry CacheManager.replay
        split_ifs <;> rfl
      rw [kept]
      exact ⟨_,rfl⟩
  · rw [if_neg hw]
    exact ⟨_,rfl⟩

end StCache
