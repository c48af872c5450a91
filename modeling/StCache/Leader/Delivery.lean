import StCache.Leader.SilentFlip

namespace StCache

/-- quorumCheck2 takes the result of a script that failed. -/
def TakesFailure (l : Leader) (e : LeaderEvent) (r : Finished) : Prop :=
  ∃ i ok,e=.act (.record i) ok ∧ l.checker.results[i]?=some r ∧ r.outcome.succeeded=false

/-- The step submits nothing for a failed script and leaves the status and the
empty flag of its key as they were. -/
def RecordsOnlyDelivered (cfg : QuorumConfig) (l : Leader) (e : LeaderEvent) : Prop :=
  ∀ m r,l.step cfg e=some m → TakesFailure l e r →
    m.submitted=l.submitted ∧
      ∀ kind,m.fsm.recorded kind r.result.key=l.fsm.recorded kind r.result.key

/-- No failed script's result is taken while the node may write. -/
def NoFailureWhileWritable (l : Leader) (e : LeaderEvent) : Prop :=
  ∀ r,TakesFailure l e r → l.checker.writable=false

/-- Taking a result with write permission always submits the entry, whatever the
script did. -/
theorem Leader.record_submits (cfg : QuorumConfig) (l m : Leader) (i : Nat) (ok : Bool)
    (r : Finished) (hr : l.checker.results[i]?=some r) (hw : l.checker.writable=true)
    (hs : l.step cfg (.act (.record i) ok)=some m) :
    m.submitted=l.submitted++[(resultEntry r.result,some r)] := by
  obtain ⟨c,eff,hc,ha⟩ := Leader.step_act cfg l m _ ok hs
  cases hc with
  | record i r' hr' =>
    obtain rfl : r=r' := Option.some.inj (hr.symm.trans hr')
    rw [ha.submitted,Checker.notifyFollower,if_pos hw]
    rfl

theorem Leader.record_refused (cfg : QuorumConfig) (l m : Leader) (i : Nat) (ok : Bool)
    (hw : l.checker.writable=false) (hs : l.step cfg (.act (.record i) ok)=some m) :
    m.submitted=l.submitted ∧ m.fsm=l.fsm := by
  obtain ⟨c,eff,hc,ha⟩ := Leader.step_act cfg l m _ ok hs
  cases hc with
  | record i r hr =>
    have silent : l.checker.notifyFollower (resultEntry r.result) (some r)=.silent := by
      rw [Checker.notifyFollower,hw,if_neg (by simp)]
    rw [silent] at ha
    refine ⟨by simpa [Effect.submission] using ha.submitted,?_⟩
    rcases ha.store with ⟨same,-⟩|⟨_,_,he,-⟩
    · exact same
    · cases he

theorem recordsOnlyDelivered_iff (cfg : QuorumConfig) (l : Leader) (e : LeaderEvent) :
    RecordsOnlyDelivered cfg l e ↔ NoFailureWhileWritable l e := by
  constructor
  · rintro h r ⟨i,ok,rfl,hr,hf⟩
    by_contra hw
    have writable : l.checker.writable=true := by simpa using hw
    obtain ⟨m,hm⟩ := l.record_possible cfg i r hr ok
    have kept := (h m r hm ⟨i,ok,rfl,hr,hf⟩).1
    rw [l.record_submits cfg m i ok r hr writable hm] at kept
    exact absurd (congrArg List.length kept) (by simp)
  · rintro h m r hs ⟨i,ok,rfl,hr,hf⟩
    have refused := l.record_refused cfg m i ok (h r ⟨i,ok,rfl,hr,hf⟩) hs
    exact ⟨refused.1,fun kind => by rw [refused.2]⟩

/-- A run records only delivered notifications exactly when quorumCheck2 never
takes, with write permission, the result of a script that was not started, did
not exit with zero, or was killed at its timeout. -/
theorem records_only_delivered_iff (cfg : QuorumConfig) (f : Fsm) (w : Bool)
    (es : List LeaderEvent) :
    Along (Leader.step cfg) (RecordsOnlyDelivered cfg) (.start f w) es ↔
      Along (Leader.step cfg) NoFailureWhileWritable (.start f w) es :=
  ⟨along_mono _ _ _ (fun l e => (recordsOnlyDelivered_iff cfg l e).mp) _ es,
    along_mono _ _ _ (fun l e => (recordsOnlyDelivered_iff cfg l e).mpr) _ es⟩

/-- The script for DOWN exits with status 1 and DOWN is recorded all the same. -/
theorem failed_script_recorded :
    (run (Leader.step soloConfig) (.start .new true)
      (firstUp++thenDown++[.act (.start 0) true,.act (.finish 0 (.exited 1 [] [])) true])).map
        (fun l => (l.prevConsensus (goStr "k"),
          l.checker.results.map (fun r => r.outcome.succeeded)))=some (gossipUp,[false]) ∧
    (run (Leader.step soloConfig) (.start .new true)
      (firstUp++thenDown++[.act (.start 0) true,.act (.finish 0 (.exited 1 [] [])) true,
        .act (.record 0) true])).map
        (fun l => (l.prevConsensus (goStr "k"),
          l.submitted.map (fun p => (p.1.cmd,p.2.map (fun r => r.outcome.succeeded)))))=
      some (gossipDown,[(.notifyTime,none),(.notifyStatus,none),(.notifyTime,none),
        (.notifyStatus,some false)]) := by
  decide +kernel

end StCache
