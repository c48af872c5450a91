import StCache.Cluster.Convergence
import StCache.Store.Acceptance

namespace StCache

/-- One process as the reports under its own address see it: the store, the bridge, every
report it has broadcast, the messages of the delegate and the batch of consumeGossip. -/
structure OwnNode where
  gcm : GossipCacheManager := .new
  lastTimeStamp : Int64 := 0
  pending : Option MyBroadcastMessage := none
  originated : List MyBroadcastMessage := []
  msgs : List MyBroadcastMessage := []
  batch : List MyBroadcastMessage := []

/-- makeGossip2 stamps an output and then calls Set; a message arrives, and consumeGossip
fetches the messages and calls Set for each. -/
inductive OwnEvent where
  | stamp (now : Int64) (o : VerifyOutput)
  | publish
  | arrive (m : MyBroadcastMessage)
  | getMessages
  | consume
  deriving DecidableEq

/-- A report about the same key from the same moment. Its value and status have been through
JSON on the way. -/
def EchoOf (x m : MyBroadcastMessage) : Prop := m.key=x.key ∧ m.timeStamp=x.timeStamp

instance (x m : MyBroadcastMessage) : Decidable (EchoOf x m) := inferInstanceAs (Decidable (_ ∧ _))

namespace OwnNode

/-- A report under the address of the node is an echo; all others are free. -/
def MayArrive (addr : GoString) (s : OwnNode) (m : MyBroadcastMessage) : Prop :=
  m.node=addr → ∃ x∈s.originated,EchoOf x m

instance (addr : GoString) (s : OwnNode) (m : MyBroadcastMessage) :
    Decidable (s.MayArrive addr m) := inferInstanceAs (Decidable (_ → _))

def step (addr : GoString) (s : OwnNode) : OwnEvent → Option OwnNode
  | .stamp now o =>
    match s.pending with
    | some _ => none
    | none =>
      let timeStamp := max64 now s.lastTimeStamp+1
      some {s with
        lastTimeStamp := timeStamp
        pending := some ⟨timeStamp,addr,o.key,o.value,o.status⟩}
  | .publish =>
    match s.pending with
    | none => none
    | some m => (s.gcm.set m).map (fun r =>
        {s with gcm := r.1,pending := none,originated := s.originated++r.2})
  | .arrive m => if s.MayArrive addr m then some {s with msgs := s.msgs++[m]} else none
  | .getMessages => if s.batch=[] then some {s with batch := s.msgs,msgs := []} else none
  | .consume =>
    match s.batch with
    | [] => none
    | m::rest => (s.gcm.set m).map (fun r => {s with gcm := r.1,batch := rest})

/-- The Set of makeGossip2 stores and broadcasts its report. The Set of a delivered report
returns, and changes nothing when the report is an echo. -/
def Fresh (addr : GoString) (s : OwnNode) : OwnEvent → Prop
  | .publish => ∀ m,s.pending=some m → ∃ d,s.gcm.set m=some (d,[m]) ∧
      d.report m.key addr=some ⟨m.status,m.timeStamp⟩
  | .consume => ∀ m rest,s.batch=m::rest → ∃ d bs,s.gcm.set m=some (d,bs) ∧
      (m.node=addr → d=s.gcm ∧ bs=[])
  | _ => True

end OwnNode

/-- The clock reading of a stamp is below 2^62. -/
def OwnEvent.ClockBelow : OwnEvent → Prop
  | .stamp now _ => now.toInt<2^62
  | _ => True

/-- How often the run stamps an output. -/
def OwnEvent.stamps (es : List OwnEvent) : Nat :=
  es.countP (fun | .stamp _ _ => true | _ => false)

namespace GossipCacheManager

/-- Every entry has a consensus map. -/
def Allocated (c : GossipCacheManager) : Prop :=
  ∀ key v,c.data.lookup key=some v → v.consensus≠.nil

theorem Allocated.set_returns {c : GossipCacheManager} (h : c.Allocated)
    (m : MyBroadcastMessage) : ∃ d bs,c.set m=some (d,bs) := by
  cases hset : c.set m with
  | none =>
    obtain ⟨v,hv,nil⟩ := (c.set_eq_none m).mp hset
    exact absurd nil (h m.key v hv)
  | some r => exact ⟨r.1,r.2,rfl⟩

theorem Allocated.set {c d : GossipCacheManager} (h : c.Allocated) {m : MyBroadcastMessage}
    {bs : List MyBroadcastMessage} (hset : c.set m=some (d,bs)) : d.Allocated := by
  rcases c.set_cases d m bs hset with ⟨rfl,-⟩|⟨-,-,v,hd,-,t,hc,-⟩
  · exact h
  · intro key w hw
    rw [hd,lookup_insert_ite] at hw
    split_ifs at hw with same
    · cases hw
      rw [hc]
      intro nil
      cases nil
    · exact h key w hw

/-- A report newer than the stored one is stored and broadcast. -/
theorem Allocated.accepts {c : GossipCacheManager} (h : c.Allocated) {m : MyBroadcastMessage}
    (newer : ∀ old,c.report m.key m.node=some old → old.timeStamp < m.timeStamp) :
    ∃ d,c.set m=some (d,[m]) := by
  obtain ⟨d,bs,hset⟩ := h.set_returns m
  rcases c.set_cases d m bs hset with ⟨-,-,old,ho,older⟩|⟨rfl,-⟩
  · exact absurd (newer old ho) older
  · exact ⟨d,hset⟩

/-- A report that is not newer than what is stored changes nothing. -/
theorem Allocated.ignores {c : GossipCacheManager} (h : c.Allocated) {m : MyBroadcastMessage}
    (known : c.HasReport m.key m.node m.timeStamp) : c.set m=some (c,[]) := by
  obtain ⟨d,bs,hset⟩ := h.set_returns m
  rcases c.set_cases d m bs hset with ⟨rfl,rfl,-⟩|⟨rfl,-⟩
  · exact hset
  · have older := known.lt_of_set hset (by simp)
    exact absurd older Int64.lt_irrefl

end GossipCacheManager

namespace OwnNode

/-- Every report under the own address that is stored, delivered or on its way is one that the
node has broadcast, and the next one is newer than all of them. After n stamps the last
timestamp is below 2^62+n. -/
structure Ahead (addr : GoString) (n : Nat) (s : OwnNode) : Prop where
  allocated : s.gcm.Allocated
  stored : ∀ key r,s.gcm.report key addr=some r → ∃ x∈s.originated,x.timeStamp=r.timeStamp
  recorded : ∀ x∈s.originated,s.gcm.HasReport x.key addr x.timeStamp
  echoes : ∀ m∈s.msgs++s.batch,s.MayArrive addr m
  below : ∀ x∈s.originated,x.timeStamp ≤ s.lastTimeStamp
  pending : ∀ m,s.pending=some m → m.node=addr ∧ m.timeStamp=s.lastTimeStamp ∧
    ∀ x∈s.originated,x.timeStamp < m.timeStamp
  clock : s.lastTimeStamp.toInt<2^62+n

theorem ahead_new (addr : GoString) : Ahead addr 0 {} := by
  refine ⟨?_,?_,by simp,by simp,by simp,by simp,by decide⟩
  · intro key v found
    simp [GossipCacheManager.new] at found
  · intro key r found
    simp [GossipCacheManager.new,GossipCacheManager.report,GossipCacheManager.entry] at found

/-- What makeGossip2 has stamped is newer than anything stored under the address. -/
theorem Ahead.accepts {addr : GoString} {n : Nat} {s : OwnNode} (h : s.Ahead addr n)
    {m : MyBroadcastMessage} (hm : s.pending=some m) : ∃ d,s.gcm.set m=some (d,[m]) := by
  obtain ⟨own,-,newest⟩ := h.pending m hm
  refine h.allocated.accepts ?_
  intro old ho
  rw [own] at ho
  obtain ⟨x,hx,same⟩ := h.stored m.key old ho
  rw [←same]
  exact newest x hx

/-- An echo is not newer than what is stored. -/
theorem Ahead.ignores {addr : GoString} {n : Nat} {s : OwnNode} (h : s.Ahead addr n)
    {m : MyBroadcastMessage} (hm : s.MayArrive addr m) (own : m.node=addr) :
    s.gcm.set m=some (s.gcm,[]) := by
  obtain ⟨x,hx,key,time⟩ := hm own
  refine h.allocated.ignores ?_
  rw [own,key,time]
  exact h.recorded x hx

theorem Ahead.fresh {addr : GoString} {n : Nat} {s : OwnNode} (h : s.Ahead addr n)
    (e : OwnEvent) : s.Fresh addr e := by
  cases e with
  | stamp now o => trivial
  | arrive m => trivial
  | getMessages => trivial
  | publish =>
    intro m hm
    obtain ⟨d,hd⟩ := h.accepts hm
    have stored := GossipCacheManager.report_of_accepted hd
    rw [(h.pending m hm).1] at stored
    exact ⟨d,hd,stored⟩
  | consume =>
    intro m rest hb
    by_cases own : m.node=addr
    · exact ⟨s.gcm,[],h.ignores (h.echoes m (by simp [hb])) own,fun _ => ⟨rfl,rfl⟩⟩
    · obtain ⟨d,bs,hd⟩ := h.allocated.set_returns m
      exact ⟨d,bs,hd,fun same => absurd same own⟩

/-- The timestamp after the next one. -/
theorem toInt_stamp {now last : Int64} (hn : now.toInt<2^62) {n : Nat}
    (hl : last.toInt<2^62+n) (few : n<2^62) :
    last < max64 now last+1 ∧ (max64 now last+1).toInt<2^62+((n+1 : Nat) : Int) := by
  have top : Int64.maxValue.toInt=2^63-1 := by decide
  have below : (max64 now last).toInt<2^62+n := by
    unfold max64
    split_ifs
    · omega
    · exact hl
  have notMax (x : Int64) (hx : x.toInt<2^62+n) : x≠Int64.maxValue := by
    intro same
    rw [same,top] at hx
    omega
  refine ⟨lt_max64_succ now last (notMax now (by omega)) (notMax last hl),?_⟩
  have low := (max64 now last).le_toInt
  rw [Int64.toInt_add,Int64.toInt_one,Int.bmod_eq_of_le (by omega) (by omega)]
  push_cast
  omega

theorem Ahead.stamp {addr : GoString} {n : Nat} {s t : OwnNode} (h : s.Ahead addr n)
    {now : Int64} {o : VerifyOutput} (hn : now.toInt<2^62) (few : n<2^62)
    (hs : s.step addr (.stamp now o)=some t) : t.Ahead addr (n+1) := by
  simp only [step] at hs
  split at hs
  · cases hs
  · obtain ⟨newer,bound⟩ := toInt_stamp hn h.clock few
    cases hs
    refine ⟨h.allocated,h.stored,h.recorded,h.echoes,?_,?_,bound⟩
    · intro x hx
      exact Int64.le_of_lt (Int64.lt_of_le_of_lt (h.below x hx) newer)
    · intro m hm
      cases hm
      exact ⟨rfl,rfl,fun x hx => Int64.lt_of_le_of_lt (h.below x hx) newer⟩

theorem Ahead.publish {addr : GoString} {n : Nat} {s t : OwnNode} (h : s.Ahead addr n)
    (hs : s.step addr .publish=some t) : t.Ahead addr n := by
  simp only [step] at hs
  split at hs
  · cases hs
  · next m hm =>
    obtain ⟨own,last,-⟩ := h.pending m hm
    obtain ⟨d,hd⟩ := h.accepts hm
    rw [hd] at hs
    cases hs
    refine ⟨h.allocated.set hd,?_,?_,?_,?_,by simp,h.clock⟩
    · intro key r hr
      by_cases same : key=m.key
      · have stored := GossipCacheManager.report_of_accepted hd
        rw [own,←same] at stored
        have equal : (⟨m.status,m.timeStamp⟩ : GossipStatusAndTimeStamp)=r :=
          Option.some.inj (stored.symm.trans hr)
        exact ⟨m,by simp,by rw [←equal]⟩
      · have kept : d.report key addr=s.gcm.report key addr := by
          rw [s.gcm.report_set d m [m] hd,if_neg (fun both => same both.1)]
        obtain ⟨x,hx,time⟩ := h.stored key r (kept.symm.trans hr)
        exact ⟨x,by simp [hx],time⟩
    · intro x hx
      cases List.mem_append.mp hx with
      | inl old => exact (h.recorded x old).set hd
      | inr new =>
        rw [List.mem_singleton.mp new,←own]
        exact GossipCacheManager.hasReport_set hd
    · intro x hx same
      obtain ⟨y,hy,echo⟩ := h.echoes x hx same
      exact ⟨y,by simp [hy],echo⟩
    · intro x hx
      cases List.mem_append.mp hx with
      | inl old => exact h.below x old
      | inr new =>
        rw [List.mem_singleton.mp new,last]
        exact Int64.le_refl _

theorem Ahead.consume {addr : GoString} {n : Nat} {s t : OwnNode} (h : s.Ahead addr n)
    (hs : s.step addr .consume=some t) : t.Ahead addr n := by
  simp only [step] at hs
  split at hs
  · cases hs
  · next m rest hb =>
    have first := h.echoes m (by simp [hb])
    have others : ∀ x∈s.msgs++rest,s.MayArrive addr x := by
      intro x hx
      refine h.echoes x ?_
      rw [hb,List.mem_append,List.mem_cons]
      exact (List.mem_append.mp hx).imp_right Or.inr
    obtain ⟨⟨d,bs⟩,hd,rfl⟩ := Option.map_eq_some_iff.mp hs
    have kept (key : GoString) : d.report key addr=s.gcm.report key addr := by
      by_cases own : m.node=addr
      · rw [h.ignores first own] at hd
        cases hd
        rfl
      · rw [s.gcm.report_set d m bs hd,if_neg (fun both => own both.2.symm)]
    refine ⟨h.allocated.set hd,?_,fun x hx => (h.recorded x hx).set hd,others,h.below,h.pending,
      h.clock⟩
    intro key r hr
    exact h.stored key r ((kept key).symm.trans hr)

theorem Ahead.step {addr : GoString} {n : Nat} {s t : OwnNode} (h : s.Ahead addr n)
    {e : OwnEvent} (clock : e.ClockBelow) (few : n+OwnEvent.stamps [e]≤2^62)
    (hs : s.step addr e=some t) : t.Ahead addr (n+OwnEvent.stamps [e]) := by
  cases e with
  | stamp now o => exact h.stamp clock few hs
  | publish => exact h.publish hs
  | consume => exact h.consume hs
  | arrive m =>
    simp only [OwnNode.step] at hs
    split_ifs at hs with may
    cases hs
    refine ⟨h.allocated,h.stored,h.recorded,?_,h.below,h.pending,h.clock⟩
    intro x hx
    rw [List.append_assoc,List.mem_append,List.mem_append,List.mem_singleton] at hx
    rcases hx with old|new|old
    · exact h.echoes x (List.mem_append_left _ old)
    · exact new ▸ may
    · exact h.echoes x (List.mem_append_right _ old)
  | getMessages =>
    simp only [OwnNode.step] at hs
    split_ifs at hs with empty
    cases hs
    refine ⟨h.allocated,h.stored,h.recorded,?_,h.below,h.pending,h.clock⟩
    intro x hx
    exact h.echoes x (List.mem_append_left _ (by simpa using hx))

theorem stamps_snoc (es : List OwnEvent) (e : OwnEvent) :
    OwnEvent.stamps (es++[e])=OwnEvent.stamps es+OwnEvent.stamps [e] := by
  rw [OwnEvent.stamps,List.countP_append]
  rfl

theorem run_ahead (addr : GoString) (es : List OwnEvent) (clocks : ∀ e∈es,e.ClockBelow)
    (few : OwnEvent.stamps es≤2^62) {s : OwnNode} (hr : run (step addr) {} es=some s) :
    s.Ahead addr (OwnEvent.stamps es) := by
  induction es using List.reverseRecOn generalizing s with
  | nil =>
    cases hr
    exact ahead_new addr
  | append_singleton es e ih =>
    rw [stamps_snoc] at few ⊢
    obtain ⟨u,hu,hs⟩ := (run_snoc (step addr) {} s es e).mp hr
    have before := ih (fun x hx => clocks x (List.mem_append_left _ hx)) (by omega) hu
    exact before.step (clocks e (by simp)) few hs

/-- With at most 2^62 outputs no own report is refused, and no echo changes anything. -/
theorem own_reports_fresh (addr : GoString) (es : List OwnEvent)
    (clocks : ∀ e∈es,e.ClockBelow) (few : OwnEvent.stamps es≤2^62) :
    Along (step addr) (Fresh addr) {} es := by
  induction es using List.reverseRecOn with
  | nil => trivial
  | append_singleton es e ih =>
    have clocks' : ∀ x∈es,x.ClockBelow := fun x hx => clocks x (List.mem_append_left _ hx)
    rw [stamps_snoc] at few
    have few' : OwnEvent.stamps es≤2^62 := by omega
    refine (along_snoc (step addr) (Fresh addr) {} es e).mpr ⟨ih clocks' few',fun s hs => ?_⟩
    exact (run_ahead addr es clocks' few' hs).fresh e

/-- The clock goes back between two outputs, and the first report comes back in between. -/
theorem own_reports_fresh_backwards :
    (∀ e∈[OwnEvent.stamp 5 ⟨[107],[118],gossipUp⟩,.publish,.arrive ⟨6,[97],[107],[118],gossipUp⟩,
        .stamp 3 ⟨[107],[118],gossipDown⟩,.getMessages,.consume,.publish],e.ClockBelow) ∧
      Along (step [97]) (Fresh [97]) {} [.stamp 5 ⟨[107],[118],gossipUp⟩,.publish,
        .arrive ⟨6,[97],[107],[118],gossipUp⟩,.stamp 3 ⟨[107],[118],gossipDown⟩,.getMessages,
        .consume,.publish] := by
  have clocks : ∀ e∈[OwnEvent.stamp 5 ⟨[107],[118],gossipUp⟩,.publish,
      .arrive ⟨6,[97],[107],[118],gossipUp⟩,.stamp 3 ⟨[107],[118],gossipDown⟩,.getMessages,
      .consume,.publish],e.ClockBelow := by
    intro e he
    simp only [List.mem_cons,List.not_mem_nil,or_false] at he
    rcases he with rfl|rfl|rfl|rfl|rfl|rfl|rfl
    · exact (by decide : (5 : Int64).toInt<2^62)
    · trivial
    · trivial
    · exact (by decide : (3 : Int64).toInt<2^62)
    · trivial
    · trivial
    · trivial
  exact ⟨clocks,own_reports_fresh [97] _ clocks (by decide)⟩

/-- A clock that stands still just below 2^62, and n outputs of one key. -/
def stalled : Nat → List OwnEvent
  | 0 => []
  | n+1 => stalled n++[.stamp 4611686018427387903 ⟨[107],[118],[]⟩,.publish]

theorem stalled_clocks (n : Nat) : ∀ e∈stalled n,e.ClockBelow := by
  induction n with
  | zero => simp [stalled]
  | succ n ih =>
    intro e he
    rw [stalled,List.mem_append] at he
    cases he with
    | inl before => exact ih e before
    | inr last =>
      simp only [List.mem_cons,List.not_mem_nil,or_false] at last
      rcases last with rfl|rfl
      · exact (by decide : (4611686018427387903 : Int64).toInt<2^62)
      · trivial

theorem stamps_stalled (n : Nat) : OwnEvent.stamps (stalled n)=n := by
  induction n with
  | zero => rfl
  | succ n ih =>
    rw [OwnEvent.stamps] at ih ⊢
    rw [stalled,List.countP_append,ih]
    rfl

/-- One more output: the clock reading or the last timestamp, plus one. -/
theorem run_stalled_succ {n : Nat} {s : OwnNode} (few : n<2^62)
    (hr : run (step [97]) {} (stalled n)=some s) (idle : s.pending=none)
    (last : (max64 4611686018427387903 s.lastTimeStamp).toInt+1=2^62+n) :
    ∃ t,run (step [97]) {} (stalled (n+1))=some t ∧ t.pending=none ∧
      t.lastTimeStamp.toInt=2^62+n ∧ ∃ r,t.gcm.report [107] [97]=some r := by
  have ahead := run_ahead [97] (stalled n) (stalled_clocks n) (by rw [stamps_stalled]; omega) hr
  rw [stamps_stalled] at ahead
  have stamped : s.step [97] (.stamp 4611686018427387903 ⟨[107],[118],[]⟩)=
      some {s with
        lastTimeStamp := max64 4611686018427387903 s.lastTimeStamp+1
        pending := some ⟨max64 4611686018427387903 s.lastTimeStamp+1,[97],[107],[118],[]⟩} := by
    simp only [step,idle]
  have next := ahead.stamp (by decide) few stamped
  obtain ⟨d,hd⟩ := next.accepts rfl
  have report := GossipCacheManager.report_of_accepted hd
  refine ⟨{s with
    gcm := d
    lastTimeStamp := max64 4611686018427387903 s.lastTimeStamp+1
    pending := none
    originated := s.originated++
      [⟨max64 4611686018427387903 s.lastTimeStamp+1,[97],[107],[118],[]⟩]},?_,rfl,?_,_,report⟩
  · rw [stalled,run_append,hr,Option.bind_some,run_cons,stamped,Option.bind_some,run_cons]
    simp only [step,hd]
    rfl
  · show (max64 4611686018427387903 s.lastTimeStamp+1).toInt=2^62+(n : Int)
    have low := (max64 4611686018427387903 s.lastTimeStamp).le_toInt
    rw [Int64.toInt_add,Int64.toInt_one,Int.bmod_eq_of_le (by omega) (by omega)]
    exact last

/-- Every output adds one to the last timestamp. -/
theorem run_stalled (n : Nat) (few : n<2^62) :
    ∃ s,run (step [97]) {} (stalled (n+1))=some s ∧ s.pending=none ∧
      s.lastTimeStamp.toInt=2^62+n ∧ ∃ r,s.gcm.report [107] [97]=some r := by
  induction n with
  | zero => exact run_stalled_succ (by decide) rfl rfl (by decide)
  | succ n ih =>
    obtain ⟨s,hs,idle,last,-⟩ := ih (by omega)
    refine run_stalled_succ few hs idle ?_
    have top : (4611686018427387903 : Int64).toInt=2^62-1 := by decide
    have behind : ¬s.lastTimeStamp<4611686018427387903 := by
      rw [Int64.lt_iff_toInt_lt,top,last]
      omega
    rw [max64,if_neg behind,last]
    push_cast
    omega

/-- After 2^62 outputs the next timestamp wraps around, and Set refuses the report. -/
theorem own_report_refused :
    ∃ es s,(∀ e∈es,OwnEvent.ClockBelow e) ∧ run (step [97]) {} es=some s ∧
      ¬s.Fresh [97] .publish := by
  obtain ⟨s,hs,idle,last,r,hr⟩ := run_stalled (2^62-1) (by decide)
  have full : s.lastTimeStamp=Int64.maxValue := by
    rw [←Int64.toInt_inj,last]
    decide
  have wrapped : max64 4611686018427387903 s.lastTimeStamp+1=Int64.minValue := by
    rw [full]
    decide
  have stamped : s.step [97] (.stamp 4611686018427387903 ⟨[107],[118],[]⟩)=
      some {s with
        lastTimeStamp := Int64.minValue
        pending := some ⟨Int64.minValue,[97],[107],[118],[]⟩} := by
    simp only [step,idle,wrapped]
  refine ⟨stalled (2^62-1+1)++[.stamp 4611686018427387903 ⟨[107],[118],[]⟩],_,?_,
    (run_snoc (step [97]) {} _ _ _).mpr ⟨s,hs,stamped⟩,?_⟩
  · intro e he
    cases List.mem_append.mp he with
    | inl before => exact stalled_clocks _ e before
    | inr now =>
      rw [List.mem_singleton.mp now]
      exact (by decide : (4611686018427387903 : Int64).toInt<2^62)
  · intro fresh
    obtain ⟨d,hd,-⟩ := fresh _ rfl
    rcases s.gcm.set_cases d _ _ hd with ⟨-,none',-⟩|⟨-,newer,-⟩
    · cases none'
    · have older := Int64.lt_iff_toInt_lt.mp (newer r hr)
      have low := r.timeStamp.le_toInt
      have bottom : Int64.minValue.toInt=-2^63 := by decide
      rw [bottom] at older
      omega

end OwnNode

end StCache
