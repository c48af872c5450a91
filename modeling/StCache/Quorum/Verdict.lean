import StCache.Store.GossipCache

namespace StCache

/-- The options the quorum checker reads. -/
structure QuorumConfig where
  quorum : Int
  eventInterval : Int64
  notificationScript : GoString
  deriving DecidableEq

/-- `time.Second * STALE_INFO_INTERVAL_IN_SECONDS` -/
def staleInfoInterval : Int := 300*1000000000

/-- What one evaluation of hasEvent or emptyRecover meets outside its argument:
the order in which it visits v.consensus, the clock at each visit, and the order
in which it visits the counts. -/
structure Scan where
  reports : List (GoString × GossipStatusAndTimeStamp)
  now : GoString → Int64
  counts : List (GossipStatus × Nat)

/-- The report is neither skipped as already considered nor as stale. -/
def fresh (t0 : GoTime) (now : GoString → Int64) (p : GoString × GossipStatusAndTimeStamp) :
    Bool :=
  if p.2.timeStamp≤t0.unixNano then false
  else if staleInfoInterval<since (now p.1) (.ofNano p.2.timeStamp) then false
  else true

namespace Scan

def freshReports (sc : Scan) (t0 : GoTime) : List (GoString × GossipStatusAndTimeStamp) :=
  sc.reports.filter (fresh t0 sc.now)

def countMap (sc : Scan) (t0 : GoTime) : Table GossipStatus Nat :=
  tally ((sc.freshReports t0).map (fun p => p.2.gossipStatus))

/-- The orders are ones the two maps allow. -/
def Valid (sc : Scan) (v : GossipConsensus) (t0 : GoTime) : Prop :=
  Enumerates sc.reports v.consensus.table ∧ Enumerates sc.counts (sc.countMap t0)

instance (sc : Scan) (v : GossipConsensus) (t0 : GoTime) : Decidable (sc.Valid v t0) :=
  inferInstanceAs (Decidable (_ ∧ _))

/-- The first status in iteration order that reaches the quorum. -/
def statusNow (sc : Scan) (quorum : Int) : GossipStatus :=
  match sc.counts.find? (fun p => quorum≤p.2) with
  | some p => p.1
  | none => []

end Scan

structure EventVerdict where
  hasEvent : Bool
  pending : Bool
  status : GossipStatus
  deriving DecidableEq

def hasEvent (quorum : Int) (v : GossipConsensus) (sc : Scan) : EventVerdict :=
  let statusNow := sc.statusNow quorum
  if statusNow=gossipDown ∧ v.prevConsensus=gossipUp then ⟨true,false,gossipDown⟩
  else if statusNow=gossipDown ∧ v.prevConsensus≠gossipDown then ⟨false,true,gossipDown⟩
  else if statusNow=gossipUp ∧ v.prevConsensus=gossipDown then ⟨true,false,gossipUp⟩
  else if statusNow=gossipUp ∧ v.prevConsensus≠gossipUp then ⟨false,true,gossipUp⟩
  else ⟨false,false,statusNow⟩

/-- The statuses that do not count towards a recovery. -/
def notRecovered (s : GossipStatus) : Bool :=
  s=gossipLessThanMinsample || s=gossipNotFillSamples || s=gossipEmpty

def emptyRecover (quorum : Int) (v : GossipConsensus) (sc : Scan) : Bool × GossipStatus :=
  let recoverCount :=
    (sc.freshReports v.emptyTime).countP (fun p => !notRecovered p.2.gossipStatus)
  let statusNow := sc.statusNow quorum
  if statusNow=gossipEmpty then (false,statusNow)
  else if quorum ≤ recoverCount then (true,statusNow)
  else (false,statusNow)

/-- An event is a change between UP and DOWN of the recorded status. -/
theorem hasEvent_event (quorum : Int) (v : GossipConsensus) (sc : Scan)
    (h : (hasEvent quorum v sc).hasEvent=true) :
    (hasEvent quorum v sc).status=sc.statusNow quorum ∧
      ((sc.statusNow quorum=gossipDown ∧ v.prevConsensus=gossipUp) ∨
        (sc.statusNow quorum=gossipUp ∧ v.prevConsensus=gossipDown)) := by
  simp only [hasEvent] at h ⊢
  split_ifs at h ⊢ with h1 h2 h3 h4
  · exact ⟨h1.1.symm,.inl h1⟩
  · exact ⟨h3.1.symm,.inr h3⟩

/-- A pending verdict needs a recorded status that is neither UP nor DOWN. -/
theorem hasEvent_pending (quorum : Int) (v : GossipConsensus) (sc : Scan)
    (h : (hasEvent quorum v sc).pending=true) :
    ((hasEvent quorum v sc).status=gossipDown ∨ (hasEvent quorum v sc).status=gossipUp) ∧
      v.prevConsensus≠gossipUp ∧ v.prevConsensus≠gossipDown := by
  simp only [hasEvent] at h ⊢
  split_ifs at h ⊢ with h1 h2 h3 h4
  · exact ⟨.inl rfl,fun hu => h1 ⟨h2.1,hu⟩,h2.2⟩
  · exact ⟨.inr rfl,h4.2,fun hd => h3 ⟨h4.1,hd⟩⟩

theorem hasEvent_exclusive (quorum : Int) (v : GossipConsensus) (sc : Scan)
    (h : (hasEvent quorum v sc).hasEvent=true) : (hasEvent quorum v sc).pending=false := by
  simp only [hasEvent] at h ⊢
  split_ifs at h ⊢ <;> rfl

theorem fresh_iff (t0 : GoTime) (now : GoString → Int64) (n : GoString)
    (r : GossipStatusAndTimeStamp) :
    fresh t0 now (n,r)=true ↔
      t0.unixNano < r.timeStamp ∧ (now n).toInt-r.timeStamp.toInt ≤ staleInfoInterval := by
  have stale := since_ofNano_le (now n) r.timeStamp staleInfoInterval (by decide) (by decide)
  rw [←stale]
  simp [fresh]

/-- Different nodes whose fresh report satisfies the test. -/
def Supports (v : GossipConsensus) (t0 : GoTime) (now : GoString → Int64)
    (test : GossipStatus → Prop) (S : Finset GoString) : Prop :=
  ∀ n∈S,∃ r,v.consensus.get? n=some r ∧ test r.gossipStatus ∧ fresh t0 now (n,r)=true

theorem Scan.Valid.supports {sc : Scan} {v : GossipConsensus} {t0 : GoTime}
    (h : sc.Valid v t0) (test : GossipStatus → Bool) :
    ∃ S,S.card=(sc.freshReports t0).countP (fun p => test p.2.gossipStatus) ∧
      Supports v t0 sc.now (fun s => test s=true) S := by
  obtain ⟨S,hcard,hS⟩ := h.1.exists_keys (fun p => test p.2.gossipStatus && fresh t0 sc.now p)
  refine ⟨S,?_,?_⟩
  · rw [hcard,Scan.freshReports,List.countP_filter]
  · intro n hn
    obtain ⟨r,hr,ht⟩ := hS n hn
    rw [GoMap.lookup_table] at hr
    rw [Bool.and_eq_true] at ht
    exact ⟨r,hr,ht.1,ht.2⟩

/-- The loop over the counts finds nothing, or a status whose count reaches the quorum. -/
theorem Scan.statusNow_cases (sc : Scan) (quorum : Int) :
    ((∀ p∈sc.counts,¬quorum≤p.2) ∧ sc.statusNow quorum=[]) ∨
      ∃ c : Nat,(sc.statusNow quorum,c)∈sc.counts ∧ quorum ≤ c := by
  cases hf : sc.counts.find? (fun p => quorum≤p.2) with
  | none =>
    refine Or.inl ⟨?_,by simp [Scan.statusNow,hf]⟩
    intro p hp
    simpa using List.find?_eq_none.mp hf p hp
  | some p =>
    have status : sc.statusNow quorum=p.1 := by simp [Scan.statusNow,hf]
    have reached : quorum≤p.2 := by simpa using List.find?_some hf
    rw [status]
    exact Or.inr ⟨p.2,List.mem_of_find?_eq_some hf,reached⟩

/-- What the counts say of a status is the number of its fresh reports. -/
theorem Scan.Valid.mem_counts_iff {sc : Scan} {v : GossipConsensus} {t0 : GoTime}
    (h : sc.Valid v t0) (s : GossipStatus) (c : Nat) :
    (s,c)∈sc.counts ↔
      0 < c ∧ c=(sc.freshReports t0).countP (fun p => p.2.gossipStatus==s) := by
  have counted : ((sc.freshReports t0).map (fun p => p.2.gossipStatus)).count s=
      (sc.freshReports t0).countP (fun p => p.2.gossipStatus==s) := by
    rw [List.count,List.countP_map]
    rfl
  rw [h.2.mem_iff,Scan.countMap,lookup_tally,←counted]
  split_ifs with hm
  · have pos := List.count_pos_iff.mpr hm
    rw [Option.some.injEq]
    omega
  · have zero := List.count_eq_zero_of_not_mem hm
    constructor
    · intro he
      cases he
    · intro he
      omega

/-- A non-empty statusNow has a quorum of fresh reports. -/
theorem Scan.Valid.statusNow {sc : Scan} {v : GossipConsensus} {t0 : GoTime}
    (h : sc.Valid v t0) (quorum : Int) (hs : sc.statusNow quorum≠[]) :
    ∃ S : Finset GoString,quorum≤S.card ∧
      Supports v t0 sc.now (fun s => s=sc.statusNow quorum) S := by
  cases sc.statusNow_cases quorum with
  | inl missing => exact absurd missing.2 hs
  | inr found =>
    obtain ⟨c,hm,reached⟩ := found
    have count := ((h.mem_counts_iff _ c).mp hm).2
    obtain ⟨S,hcard,hS⟩ := h.supports (fun s => s==sc.statusNow quorum)
    refine ⟨S,?_,?_⟩
    · rw [hcard,←count]
      exact reached
    · intro n hn
      obtain ⟨r,hr,ht,hfresh⟩ := hS n hn
      exact ⟨r,hr,eq_of_beq ht,hfresh⟩

/-- A recovery has a quorum of fresh reports that do count towards it. -/
theorem Scan.Valid.emptyRecover {sc : Scan} {v : GossipConsensus}
    (h : sc.Valid v v.emptyTime) (quorum : Int) (hr : (emptyRecover quorum v sc).1=true) :
    ∃ S : Finset GoString,quorum≤S.card ∧
      Supports v v.emptyTime sc.now (fun s => notRecovered s=false) S := by
  obtain ⟨S,hcard,hS⟩ := h.supports (fun s => !notRecovered s)
  simp only [StCache.emptyRecover] at hr
  split_ifs at hr with h1 h2
  refine ⟨S,by rw [hcard]; exact h2,?_⟩
  intro n hn
  obtain ⟨r,hl,ht,hfresh⟩ := hS n hn
  exact ⟨r,hl,by simpa using ht,hfresh⟩

theorem emptyRecover_empty (quorum : Int) (v : GossipConsensus) (sc : Scan)
    (h : (emptyRecover quorum v sc).2=gossipEmpty) :
    sc.statusNow quorum=gossipEmpty ∧ (emptyRecover quorum v sc).1=false := by
  simp only [emptyRecover] at h ⊢
  split_ifs at h ⊢ <;> simp_all

end StCache
