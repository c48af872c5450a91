import StCache.Quorum.Verdict

namespace StCache

/-- A report counts for t0: it is newer than t0 in int64 nanoseconds and at most
300 seconds old when the clock reads now. -/
def Eligible (t0 : GoTime) (now : Int64) (r : GossipStatusAndTimeStamp) : Prop :=
  t0.unixNano < r.timeStamp ∧ now.toInt-r.timeStamp.toInt ≤ staleInfoInterval

instance (t0 : GoTime) (now : Int64) (r : GossipStatusAndTimeStamp) :
    Decidable (Eligible t0 now r) :=
  inferInstanceAs (Decidable (_ ∧ _))

/-- The nodes with an eligible report whose status passes the test. -/
def eligibleNodes (v : GossipConsensus) (t0 : GoTime) (now : GoString → Int64)
    (test : GossipStatus → Bool) : Finset GoString :=
  keysWhere v.consensus.table (fun p => test p.2.gossipStatus && decide (Eligible t0 (now p.1) p.2))

/-- At least quorum nodes have an eligible report of the status. -/
def Reaches (quorum : Int) (v : GossipConsensus) (t0 : GoTime) (now : GoString → Int64)
    (s : GossipStatus) : Prop :=
  quorum≤(eligibleNodes v t0 now (fun x => x==s)).card

instance (quorum : Int) (v : GossipConsensus) (t0 : GoTime) (now : GoString → Int64)
    (s : GossipStatus) : Decidable (Reaches quorum v t0 now s) :=
  inferInstanceAs (Decidable (_≤_))

theorem fresh_eq_eligible (t0 : GoTime) (now : GoString → Int64)
    (p : GoString × GossipStatusAndTimeStamp) :
    fresh t0 now p=decide (Eligible t0 (now p.1) p.2) := by
  have h := fresh_iff t0 now p.1 p.2
  rw [Bool.eq_iff_iff,decide_eq_true_eq]
  exact h

/-- The counter of a scan is the number of nodes it stands for. -/
theorem Scan.Valid.countP_fresh {sc : Scan} {v : GossipConsensus} {t0 : GoTime}
    (h : sc.Valid v t0) (test : GossipStatus → Bool) :
    (sc.freshReports t0).countP (fun p => test p.2.gossipStatus)=
      (eligibleNodes v t0 sc.now test).card := by
  rw [Scan.freshReports,List.countP_filter,eligibleNodes,←h.1.countP_eq_card]
  refine List.countP_congr ?_
  intro p _
  rw [fresh_eq_eligible]

theorem Scan.Valid.mem_counts {sc : Scan} {v : GossipConsensus} {t0 : GoTime}
    (h : sc.Valid v t0) (s : GossipStatus) (c : Nat) :
    (s,c)∈sc.counts ↔ 0 < c ∧ c=(eligibleNodes v t0 sc.now (fun x => x==s)).card := by
  rw [h.mem_counts_iff,h.countP_fresh (fun x => x==s)]

/-- The loop over the counts meets a status exactly when it reaches the quorum. -/
theorem Scan.Valid.reaches_iff {sc : Scan} {v : GossipConsensus} {t0 : GoTime}
    (h : sc.Valid v t0) {quorum : Int} (hq : 1≤quorum) (s : GossipStatus) :
    Reaches quorum v t0 sc.now s ↔ ∃ c,(s,c)∈sc.counts ∧ quorum ≤ c := by
  constructor
  · intro hr
    have pos : 0 < (eligibleNodes v t0 sc.now (fun x => x==s)).card := by
      rw [Reaches] at hr
      omega
    exact ⟨_,(h.mem_counts s _).mpr ⟨pos,rfl⟩,hr⟩
  · rintro ⟨c,hm,hc⟩
    obtain ⟨_,rfl⟩ := (h.mem_counts s c).mp hm
    exact hc

theorem Scan.Valid.statusNow_cases {sc : Scan} {v : GossipConsensus} {t0 : GoTime}
    (h : sc.Valid v t0) {quorum : Int} (hq : 1≤quorum) :
    ((∀ s,¬Reaches quorum v t0 sc.now s) ∧ sc.statusNow quorum=[]) ∨
      Reaches quorum v t0 sc.now (sc.statusNow quorum) := by
  cases sc.statusNow_cases quorum with
  | inl missing =>
    refine Or.inl ⟨?_,missing.2⟩
    intro s hs
    obtain ⟨c,hm,hc⟩ := (h.reaches_iff hq s).mp hs
    exact missing.1 (s,c) hm hc
  | inr found => exact Or.inr ((h.reaches_iff hq _).mpr found)

theorem Scan.Valid.statusNow_none {sc : Scan} {v : GossipConsensus} {t0 : GoTime}
    (h : sc.Valid v t0) {quorum : Int} (hq : 1≤quorum)
    (hn : ∀ s,¬Reaches quorum v t0 sc.now s) : sc.statusNow quorum=[] := by
  cases h.statusNow_cases hq with
  | inl missing => exact missing.2
  | inr reached => exact absurd reached (hn _)

/-- Where at most one status reaches the quorum, the loop finds that one. -/
theorem Scan.Valid.statusNow_unique {sc : Scan} {v : GossipConsensus} {t0 : GoTime}
    (h : sc.Valid v t0) {quorum : Int} (hq : 1≤quorum) {s : GossipStatus}
    (hs : Reaches quorum v t0 sc.now s)
    (only : ∀ x,Reaches quorum v t0 sc.now x → x=s) : sc.statusNow quorum=s := by
  cases h.statusNow_cases hq with
  | inl missing => exact absurd hs (missing.1 s)
  | inr reached => exact only _ reached

@[simp] theorem hasEvent_status (quorum : Int) (v : GossipConsensus) (sc : Scan) :
    (hasEvent quorum v sc).status=sc.statusNow quorum := by
  simp only [hasEvent]
  split_ifs with h1 h2 h3 h4
  · exact h1.1.symm
  · exact h2.1.symm
  · exact h3.1.symm
  · exact h4.1.symm
  · rfl

@[simp] theorem emptyRecover_status (quorum : Int) (v : GossipConsensus) (sc : Scan) :
    (emptyRecover quorum v sc).2=sc.statusNow quorum := by
  simp only [emptyRecover]
  split_ifs <;> rfl

theorem hasEvent_congr {quorum : Int} {v : GossipConsensus} {sc sc' : Scan}
    (h : sc.statusNow quorum=sc'.statusNow quorum) : hasEvent quorum v sc=hasEvent quorum v sc' := by
  simp only [hasEvent,h]

/-- The recovery counter does not depend on the order of the reports. -/
theorem emptyRecover_congr {quorum : Int} {v : GossipConsensus} {sc sc' : Scan}
    (h : sc.statusNow quorum=sc'.statusNow quorum) (valid : sc.Valid v v.emptyTime)
    (valid' : sc'.Valid v v.emptyTime) (clock : sc.now=sc'.now) :
    emptyRecover quorum v sc=emptyRecover quorum v sc' := by
  have count := valid.countP_fresh (fun s => !notRecovered s)
  have count' := valid'.countP_fresh (fun s => !notRecovered s)
  rw [←clock,←count] at count'
  simp only [emptyRecover,h,count']

/-- A timestamp of a clock after 1970 is later than the wrapped zero time. -/
theorem unixNano_zero_lt {ts : Int64} (h : 0≤ts) : GoTime.zero.unixNano < ts := by
  have wrapped : GoTime.zero.unixNano < 0 := by decide
  exact Int64.lt_of_lt_of_le wrapped h

/-- The branch table of hasEvent on the status that alone reaches the quorum. -/
theorem hasEvent_of_statusNow {quorum : Int} {v : GossipConsensus} {sc : Scan}
    {s : GossipStatus} (h : sc.statusNow quorum=s) :
    ((s=gossipUp ∧ v.prevConsensus=gossipDown ∨ s=gossipDown ∧ v.prevConsensus=gossipUp) →
        hasEvent quorum v sc=⟨true,false,s⟩) ∧
      ((s=gossipUp ∨ s=gossipDown) → v.prevConsensus≠gossipUp → v.prevConsensus≠gossipDown →
        hasEvent quorum v sc=⟨false,true,s⟩) ∧
      ((s=v.prevConsensus ∨ s≠gossipUp ∧ s≠gossipDown) → hasEvent quorum v sc=⟨false,false,s⟩) := by
  have differ : gossipUp≠gossipDown := by decide
  simp only [hasEvent,h]
  refine ⟨?_,?_,?_⟩
  · rintro (⟨rfl,hp⟩|⟨rfl,hp⟩)
    · simp [hp,differ]
    · simp [hp]
  · rintro (rfl|rfl) hu hd
    · simp [hu,hd,differ]
    · simp [hu,hd]
  · rintro (rfl|⟨hu,hd⟩)
    · by_cases hd : v.prevConsensus=gossipDown
      · simp [hd,differ.symm]
      · by_cases hu : v.prevConsensus=gossipUp
        · simp [hu,differ]
        · simp [hd,hu]
    · simp [hu,hd]

/-- Two statuses cannot both reach more than half of the eligible reports. -/
theorem reaches_unique {quorum : Int} {v : GossipConsensus} {t0 : GoTime}
    {now : GoString → Int64}
    (half : (eligibleNodes v t0 now (fun _ => true)).card<2*quorum) {s x : GossipStatus}
    (hs : Reaches quorum v t0 now s) (hx : Reaches quorum v t0 now x) : x=s := by
  by_contra differ
  have disjoint : Disjoint (eligibleNodes v t0 now (fun y => y==s))
      (eligibleNodes v t0 now (fun y => y==x)) := by
    rw [Finset.disjoint_left]
    intro n hn hn'
    obtain ⟨r,hr,ht⟩ := (mem_keysWhere _ _ n).mp hn
    obtain ⟨r',hr',ht'⟩ := (mem_keysWhere _ _ n).mp hn'
    obtain rfl : r=r' := Option.some.inj (hr.symm.trans hr')
    rw [Bool.and_eq_true,beq_iff_eq] at ht ht'
    exact differ (ht'.1.symm.trans ht.1)
  have inside (y : GossipStatus) : eligibleNodes v t0 now (fun z => z==y)⊆
      eligibleNodes v t0 now (fun _ => true) := by
    intro n hn
    obtain ⟨r,hr,ht⟩ := (mem_keysWhere _ _ n).mp hn
    rw [Bool.and_eq_true] at ht
    exact (mem_keysWhere _ _ n).mpr ⟨r,hr,by simpa using ht.2⟩
  have sum := Finset.card_le_card (Finset.union_subset (inside s) (inside x))
  rw [Finset.card_union_of_disjoint disjoint] at sum
  rw [Reaches] at hs hx
  omega

/-- The decision of the quorum checker, read off the eligible reports. -/
theorem quorum_decision (quorum : Int) (hq : 1≤quorum) (v : GossipConsensus) (sc : Scan) :
    (sc.Valid v v.prevEventTime →
      ((∀ s,¬Reaches quorum v v.prevEventTime sc.now s) →
        hasEvent quorum v sc=⟨false,false,[]⟩) ∧
      ∀ s,Reaches quorum v v.prevEventTime sc.now s →
        (∀ x,Reaches quorum v v.prevEventTime sc.now x → x=s) →
        ((s=gossipUp ∧ v.prevConsensus=gossipDown ∨ s=gossipDown ∧ v.prevConsensus=gossipUp) →
            hasEvent quorum v sc=⟨true,false,s⟩) ∧
          ((s=gossipUp ∨ s=gossipDown) → v.prevConsensus≠gossipUp → v.prevConsensus≠gossipDown →
            hasEvent quorum v sc=⟨false,true,s⟩) ∧
          ((s=v.prevConsensus ∨ s≠gossipUp ∧ s≠gossipDown) →
            hasEvent quorum v sc=⟨false,false,s⟩)) ∧
    (sc.Valid v v.emptyTime →
      (Reaches quorum v v.emptyTime sc.now gossipEmpty →
        (∀ x,Reaches quorum v v.emptyTime sc.now x → x=gossipEmpty) →
        emptyRecover quorum v sc=(false,gossipEmpty)) ∧
      (¬Reaches quorum v v.emptyTime sc.now gossipEmpty →
        ((emptyRecover quorum v sc).1=true ↔
          quorum≤(eligibleNodes v v.emptyTime sc.now (fun s => !notRecovered s)).card))) ∧
    ∀ ts : Int64,0≤ts → GoTime.zero.unixNano < ts := by
  refine ⟨?_,?_,fun ts h => unixNano_zero_lt h⟩
  · intro valid
    constructor
    · intro missing
      have status := valid.statusNow_none hq missing
      exact (hasEvent_of_statusNow status).2.2 (.inr ⟨by decide,by decide⟩)
    · intro s hs only
      exact hasEvent_of_statusNow (valid.statusNow_unique hq hs only)
  · intro valid
    constructor
    · intro hs only
      have status := valid.statusNow_unique hq hs only
      simp [emptyRecover,status]
    · intro hs
      have other : sc.statusNow quorum≠gossipEmpty := by
        intro he
        cases valid.statusNow_cases hq with
        | inl missing => exact absurd (missing.2.symm.trans he) (by decide)
        | inr reached => exact hs (he ▸ reached)
      have count := valid.countP_fresh (fun s => !notRecovered s)
      simp only [emptyRecover,if_neg other,count]
      split_ifs with h
      · simpa using h
      · simpa using h

/-- Reports of one second after the epoch, read at that moment. -/
def reportedAt (reports : List (GoString × GossipStatus)) (prev : GossipStatus) :
    GossipConsensus where
  prevConsensus := prev
  consensus := .alloc (insertAll ∅ (reports.map (fun p => (p.1,⟨p.2,1000000000⟩))))

def scanOf (reports : List (GoString × GossipStatus)) (counts : List (GossipStatus × Nat)) :
    Scan :=
  ⟨reports.map (fun p => (p.1,⟨p.2,1000000000⟩)),fun _ => 1000000000,counts⟩

def downReports : List (GoString × GossipStatus) :=
  [(goStr "n1",gossipDown),(goStr "n2",gossipDown),(goStr "n3",gossipDown)]

theorem quorum_decision_down :
    (scanOf downReports [(gossipDown,3)]).Valid (reportedAt downReports gossipUp) .zero ∧
      hasEvent 3 (reportedAt downReports gossipUp) (scanOf downReports [(gossipDown,3)])=
        ⟨true,false,gossipDown⟩ := by
  have valid : (scanOf downReports [(gossipDown,3)]).Valid (reportedAt downReports gossipUp)
      (reportedAt downReports gossipUp).prevEventTime := by decide +kernel
  have reached : Reaches 3 (reportedAt downReports gossipUp)
      (reportedAt downReports gossipUp).prevEventTime (fun _ => 1000000000) gossipDown := by
    decide +kernel
  have half : ((eligibleNodes (reportedAt downReports gossipUp)
      (reportedAt downReports gossipUp).prevEventTime (fun _ => 1000000000)
      (fun _ => true)).card : Int)<2*3 := by decide +kernel
  have decision := (quorum_decision 3 (by decide) (reportedAt downReports gossipUp)
    (scanOf downReports [(gossipDown,3)])).1 valid
  exact ⟨valid,(decision.2 gossipDown reached (fun x hx => reaches_unique half reached hx)).1
    (.inr ⟨rfl,rfl⟩)⟩

/-- The evaluation gives one result over all orders of the two maps. -/
def OrderIndependent {A : Type} (v : GossipConsensus) (t0 : GoTime) (now : GoString → Int64)
    (f : Scan → A) : Prop :=
  ∀ sc sc' : Scan,sc.Valid v t0 → sc'.Valid v t0 → sc.now=now → sc'.now=now → f sc=f sc'

/-- Some order visits a status that reaches the quorum before every other one. -/
theorem exists_scan {quorum : Int} (hq : 1≤quorum) {v : GossipConsensus} {t0 : GoTime}
    {now : GoString → Int64} {s : GossipStatus} (hs : Reaches quorum v t0 now s) :
    ∃ sc : Scan,sc.Valid v t0 ∧ sc.now=now ∧ sc.statusNow quorum=s := by
  obtain ⟨reports,hreports⟩ := exists_enumerates v.consensus.table
  obtain ⟨counts,hcounts⟩ := exists_enumerates (Scan.countMap ⟨reports,now,[]⟩ t0)
  have valid : Scan.Valid ⟨reports,now,counts⟩ v t0 := ⟨hreports,hcounts⟩
  obtain ⟨c,hm,hc⟩ := (valid.reaches_iff hq s).mp hs
  obtain ⟨rest,hrest⟩ := exists_enumerates_head ((hcounts.mem_iff s c).mp hm)
  exact ⟨⟨reports,now,(s,c)::rest⟩,⟨hreports,hrest⟩,rfl,by simp [Scan.statusNow,hc]⟩

/-- An evaluation that returns the status it found, and otherwise depends on its
order only through that status. -/
theorem orderIndependent_iff {A : Type} {quorum : Int} (hq : 1≤quorum) {v : GossipConsensus}
    {t0 : GoTime} {now : GoString → Int64} (f : Scan → A) (status : A → GossipStatus)
    (returned : ∀ sc,status (f sc)=sc.statusNow quorum)
    (congr : ∀ sc sc' : Scan,sc.Valid v t0 → sc'.Valid v t0 → sc.now=sc'.now →
      sc.statusNow quorum=sc'.statusNow quorum → f sc=f sc') :
    OrderIndependent v t0 now f ↔
      ∀ s x,Reaches quorum v t0 now s → Reaches quorum v t0 now x → s=x := by
  constructor
  · intro h s x hs hx
    obtain ⟨sc,valid,clock,hsc⟩ := exists_scan hq hs
    obtain ⟨sc',valid',clock',hsc'⟩ := exists_scan hq hx
    have same := congrArg status (h sc sc' valid valid' clock clock')
    rwa [returned,returned,hsc,hsc'] at same
  · intro unique sc sc' valid valid' clock clock'
    apply congr sc sc' valid valid' (clock.trans clock'.symm)
    have cases := valid.statusNow_cases hq
    have cases' := valid'.statusNow_cases hq
    rw [clock] at cases
    rw [clock'] at cases'
    rcases cases with ⟨missing,empty⟩|reached
    · rcases cases' with ⟨_,empty'⟩|reached'
      · rw [empty,empty']
      · exact absurd reached' (missing _)
    · rcases cases' with ⟨missing',_⟩|reached'
      · exact absurd reached (missing' _)
      · exact unique _ _ reached reached'

/-- The verdicts do not depend on the iteration orders exactly when at most one
status reaches the quorum, as it must when the quorum is a majority. -/
theorem verdict_orderIndependent_iff (quorum : Int) (hq : 1≤quorum) (v : GossipConsensus)
    (now : GoString → Int64) :
    (OrderIndependent v v.prevEventTime now (hasEvent quorum v) ↔
      ∀ s x,Reaches quorum v v.prevEventTime now s → Reaches quorum v v.prevEventTime now x →
        s=x) ∧
    (OrderIndependent v v.emptyTime now (emptyRecover quorum v) ↔
      ∀ s x,Reaches quorum v v.emptyTime now s → Reaches quorum v v.emptyTime now x → s=x) ∧
    ∀ t0,(eligibleNodes v t0 now (fun _ => true)).card<2*quorum →
      ∀ s x,Reaches quorum v t0 now s → Reaches quorum v t0 now x → s=x := by
  refine ⟨?_,?_,fun t0 half s x hs hx => reaches_unique half hx hs⟩
  · exact orderIndependent_iff hq _ EventVerdict.status (hasEvent_status quorum v)
      (fun _ _ _ _ _ same => hasEvent_congr same)
  · exact orderIndependent_iff hq _ Prod.snd (emptyRecover_status quorum v)
      (fun _ _ valid valid' clock same => emptyRecover_congr same valid valid' clock)

theorem verdict_orderIndependent_majority :
    OrderIndependent (reportedAt downReports gossipUp) .zero (fun _ => 1000000000)
      (hasEvent 3 (reportedAt downReports gossipUp)) := by
  have exact := verdict_orderIndependent_iff 3 (by decide) (reportedAt downReports gossipUp)
    (fun _ => 1000000000)
  exact exact.1.mpr (exact.2.2 _ (by decide +kernel))

/-- Three nodes against three with the default quorum. -/
def splitReports : List (GoString × GossipStatus) :=
  [(goStr "n1",gossipUp),(goStr "n2",gossipUp),(goStr "n3",gossipUp),
    (goStr "n4",gossipDown),(goStr "n5",gossipDown),(goStr "n6",gossipDown)]

/-- One order reports an event, the other one reports none. -/
theorem verdict_depends_on_order :
    (scanOf splitReports [(gossipUp,3),(gossipDown,3)]).Valid (reportedAt splitReports gossipUp)
      .zero ∧
    (scanOf splitReports [(gossipDown,3),(gossipUp,3)]).Valid (reportedAt splitReports gossipUp)
      .zero ∧
    hasEvent 3 (reportedAt splitReports gossipUp)
      (scanOf splitReports [(gossipUp,3),(gossipDown,3)])=⟨false,false,gossipUp⟩ ∧
    hasEvent 3 (reportedAt splitReports gossipUp)
      (scanOf splitReports [(gossipDown,3),(gossipUp,3)])=⟨true,false,gossipDown⟩ ∧
    emptyRecover 3 (reportedAt splitReports gossipUp)
      (scanOf splitReports [(gossipUp,3),(gossipDown,3)])=(true,gossipUp) ∧
    emptyRecover 3 (reportedAt splitReports gossipUp)
      (scanOf splitReports [(gossipDown,3),(gossipUp,3)])=(true,gossipDown) := by
  decide +kernel

end StCache
