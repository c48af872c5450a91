import StCache.Quorum.Checker

namespace StCache

/-- The status that the replicated fields record for a check. -/
def recordedStatus : CheckKind → Replicated → GossipStatus
  | .event,r => r.prevConsensus
  | .empty,r => if r.empty then gossipEmpty else gossipEmptyRecover

/-- The statuses a check notifies about. -/
def CheckKind.Notifies : CheckKind → GossipStatus → Prop
  | .event,s => s=gossipUp ∨ s=gossipDown
  | .empty,s => s=gossipEmpty ∨ s=gossipEmptyRecover

instance : ∀ (kind : CheckKind) (s : GossipStatus),Decidable (kind.Notifies s)
  | .event,_ => inferInstanceAs (Decidable (_ ∨ _))
  | .empty,_ => inferInstanceAs (Decidable (_ ∨ _))

/-- The time after which reports count for a check. -/
def CheckKind.readTime : CheckKind → GossipConsensus → GoTime
  | .event,v => v.prevEventTime
  | .empty,v => v.emptyTime

/-- What a counted report says for the notified status: the status itself, or
for a recovery anything that counts towards one. -/
def CountsFor (status s : GossipStatus) : Prop :=
  if status=gossipEmptyRecover then notRecovered s=false else s=status

/-- What holds of every decision a check makes. -/
structure Decision.Sound (cfg : QuorumConfig) (d : Decision) : Prop where
  notifies : d.kind.Notifies d.status
  pending : d.pending=true →
    d.kind=.event ∧ ¬d.kind.Notifies (recordedStatus d.kind d.v.replicated)
  change : d.pending=false → d.kind.Notifies (recordedStatus d.kind d.v.replicated) ∧
    d.status≠recordedStatus d.kind d.v.replicated
  quorum : d.pending=false → ∃ S : Finset GoString,cfg.quorum≤S.card ∧
    Supports d.v (d.kind.readTime d.v) d.now (CountsFor d.status) S

theorem checkEvent_sound (cfg : QuorumConfig) (key : GoString) (v : GossipConsensus)
    (now : Int64) (sc : Scan) (hv : sc.Valid v v.prevEventTime) (st : Stmt)
    (h : st∈checkEvent cfg key v now sc) :
    ∃ d,st=.stamp d ∧ d.kind=.event ∧ d.key=key ∧ d.v=v ∧ d.Sound cfg ∧
      ¬since now v.prevEventTime<seconds cfg.eventInterval := by
  simp only [checkEvent] at h
  by_cases early : since now v.prevEventTime<seconds cfg.eventInterval
  · simp [early] at h
  · rw [if_neg early] at h
    cases List.mem_append.mp h with
    | inl h =>
      split_ifs at h with hp
      · obtain rfl := List.mem_singleton.mp h
        obtain ⟨status,prev⟩ := hasEvent_pending _ _ _ hp
        refine ⟨_,rfl,rfl,rfl,rfl,⟨status.symm,fun _ => ⟨rfl,?_⟩,nofun,nofun⟩,early⟩
        exact not_or.mpr prev
      · simp at h
    | inr h =>
      split_ifs at h with he
      · obtain rfl := List.mem_singleton.mp h
        obtain ⟨hs,cases'⟩ := hasEvent_event _ _ _ he
        have now' : sc.statusNow cfg.quorum=gossipDown ∨ sc.statusNow cfg.quorum=gossipUp :=
          cases'.imp And.left And.left
        have nonempty : sc.statusNow cfg.quorum≠[] := by
          rcases now' with h|h <;> rw [h] <;> decide
        have notRecover : sc.statusNow cfg.quorum≠gossipEmptyRecover := by
          rcases now' with h|h <;> rw [h] <;> decide
        obtain ⟨S,hcard,hS⟩ := hv.statusNow cfg.quorum nonempty
        refine ⟨_,rfl,rfl,rfl,rfl,⟨?_,nofun,?_,fun _ => ⟨S,hcard,?_⟩⟩,early⟩
        · rw [hs]
          exact now'.symm
        · intro _
          rw [hs]
          rcases cases' with ⟨h1,h2⟩|⟨h1,h2⟩
          · refine ⟨.inl h2,?_⟩
            change sc.statusNow cfg.quorum≠v.prevConsensus
            rw [h1,h2]
            decide
          · refine ⟨.inr h2,?_⟩
            change sc.statusNow cfg.quorum≠v.prevConsensus
            rw [h1,h2]
            decide
        · rw [hs]
          intro n hn
          obtain ⟨r,hr,ht,hf⟩ := hS n hn
          exact ⟨r,hr,by simp [CountsFor,notRecover,ht],hf⟩
      · simp at h

theorem checkEmpty_sound (cfg : QuorumConfig) (key : GoString) (v : GossipConsensus)
    (now : Int64) (sc : Scan) (hv : sc.Valid v v.emptyTime) (st : Stmt)
    (h : st∈checkEmpty cfg key v now sc) :
    ∃ d,st=.stamp d ∧ d.kind=.empty ∧ d.key=key ∧ d.v=v ∧ d.Sound cfg ∧
      ¬since now v.emptyTime<seconds cfg.eventInterval := by
  simp only [checkEmpty] at h
  by_cases early : since now v.emptyTime<seconds cfg.eventInterval
  · simp [early] at h
  · rw [if_neg early] at h
    cases List.mem_append.mp h with
    | inl h =>
      split_ifs at h with he hflag
      · simp at h
      · obtain rfl := List.mem_singleton.mp h
        have hnow := (emptyRecover_empty _ _ _ he).1
        obtain ⟨S,hcard,hS⟩ := hv.statusNow cfg.quorum (by rw [hnow]; decide)
        have flag : v.empty=false := by simpa using hflag
        refine ⟨_,rfl,rfl,rfl,rfl,⟨.inl he,nofun,?_,fun _ => ⟨S,hcard,?_⟩⟩,early⟩
        · intro _
          simp only [recordedStatus,GossipConsensus.replicated,flag,he]
          exact ⟨.inr rfl,by decide⟩
        · rw [he]
          intro n hn
          obtain ⟨r,hr,ht,hf⟩ := hS n hn
          refine ⟨r,hr,?_,hf⟩
          change CountsFor gossipEmpty r.gossipStatus
          rw [CountsFor,if_neg (by decide)]
          exact ht.trans hnow
      · simp at h
    | inr h =>
      split_ifs at h with hr hflag
      · obtain rfl := List.mem_singleton.mp h
        obtain ⟨S,hcard,hS⟩ := hv.emptyRecover cfg.quorum hr
        refine ⟨_,rfl,rfl,rfl,rfl,⟨.inr rfl,nofun,?_,fun _ => ⟨S,hcard,?_⟩⟩,early⟩
        · intro _
          simp only [recordedStatus,GossipConsensus.replicated,hflag]
          exact ⟨.inl rfl,by decide⟩
        · intro n hn
          obtain ⟨r,hl,ht,hf⟩ := hS n hn
          exact ⟨r,hl,by simpa [CountsFor] using ht,hf⟩
      · simp at h
      · simp at h

theorem checkEvent_length (cfg : QuorumConfig) (key : GoString) (v : GossipConsensus)
    (now : Int64) (sc : Scan) : (checkEvent cfg key v now sc).length≤1 := by
  simp only [checkEvent]
  have one := hasEvent_exclusive cfg.quorum v sc
  split_ifs <;> simp_all

theorem checkEmpty_length (cfg : QuorumConfig) (key : GoString) (v : GossipConsensus)
    (now : Int64) (sc : Scan) : (checkEmpty cfg key v now sc).length≤1 := by
  simp only [checkEmpty]
  have one := emptyRecover_empty cfg.quorum v sc
  split_ifs <;> simp_all

end StCache
