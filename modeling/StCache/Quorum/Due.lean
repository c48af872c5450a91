import StCache.Quorum.Eligible
import StCache.Quorum.Pacing

namespace StCache

/-- Reports only get too old. -/
theorem eligibleNodes_earlier {v : GossipConsensus} (t0 : GoTime) {now now' : GoString → Int64}
    (test : GossipStatus → Bool)
    (earlier : ∀ n r,v.consensus.table.lookup n=some r → now n ≤ now' n) :
    eligibleNodes v t0 now' test⊆eligibleNodes v t0 now test := by
  intro n hn
  obtain ⟨r,hr,ht⟩ := (mem_keysWhere _ _ n).mp hn
  simp only [Bool.and_eq_true,decide_eq_true_eq] at ht
  obtain ⟨passes,newer,young⟩ := ht
  have le := Int64.le_iff_toInt_le.mp (earlier n r hr)
  refine (mem_keysWhere _ _ n).mpr ⟨r,hr,?_⟩
  simp only [Bool.and_eq_true,decide_eq_true_eq]
  exact ⟨passes,newer,by omega⟩

theorem Reaches.earlier {quorum : Int} {v : GossipConsensus} {t0 : GoTime}
    {now now' : GoString → Int64} {s : GossipStatus} (h : Reaches quorum v t0 now' s)
    (earlier : ∀ n r,v.consensus.table.lookup n=some r → now n ≤ now' n) :
    Reaches quorum v t0 now s := by
  have card := Finset.card_le_card (eligibleNodes_earlier t0 (fun x => x==s) earlier)
  rw [Reaches] at h ⊢
  omega

/-- Read at any moment between lo and hi, the check of the entry notifies the status: the interval
has passed at lo, a quorum for the status is young enough until hi, and no other status has one. -/
def Due (cfg : QuorumConfig) (v : GossipConsensus) (lo hi : Int64) (s : GossipStatus) :
    CheckKind → Prop
  | .event => ¬since lo v.prevEventTime<seconds cfg.eventInterval ∧
      Reaches cfg.quorum v v.prevEventTime (fun _ => hi) s ∧
      (∀ x,Reaches cfg.quorum v v.prevEventTime (fun _ => lo) x → x=s) ∧
      (s=gossipUp ∧ v.prevConsensus=gossipDown ∨ s=gossipDown ∧ v.prevConsensus=gossipUp)
  | .empty => ¬since lo v.emptyTime<seconds cfg.eventInterval ∧
      (s=gossipEmpty ∧ v.empty=false ∧ Reaches cfg.quorum v v.emptyTime (fun _ => hi) s ∧
          (∀ x,Reaches cfg.quorum v v.emptyTime (fun _ => lo) x → x=s) ∨
        s=gossipEmptyRecover ∧ v.empty=true ∧
          ¬Reaches cfg.quorum v v.emptyTime (fun _ => lo) gossipEmpty ∧
          cfg.quorum≤(eligibleNodes v v.emptyTime (fun _ => hi) (fun x => !notRecovered x)).card)

/-- The deep copy that the pass works on is due when the stored entry is. -/
theorem due_copy {cfg : QuorumConfig} {v : GossipConsensus} {lo hi : Int64} {s : GossipStatus}
    {kind : CheckKind} (h : Due cfg v lo hi s kind) : Due cfg v.copy lo hi s kind := by
  cases kind with
  | event => exact h
  | empty => exact h

/-- The clock readings of a check lie between lo and hi. -/
def TickInput.Between (lo hi : Int64) : TickInput → Prop
  | .check now sc => lo≤now ∧ ∀ p∈sc.reports,lo ≤ sc.now p.1 ∧ sc.now p.1≤hi
  | _ => True

instance (lo hi : Int64) : ∀ input : TickInput,Decidable (input.Between lo hi)
  | .check _ _ => inferInstanceAs (Decidable (_ ∧ _))
  | .barrier _ => isTrue trivial
  | .order _ => isTrue trivial
  | .clock _ => isTrue trivial
  | .go => isTrue trivial

section Checks
variable {cfg : QuorumConfig} {v : GossipConsensus} {lo hi now : Int64} {s : GossipStatus}
  {sc : Scan} {t0 : GoTime}

theorem Scan.Valid.between (valid : sc.Valid v t0) (clock : (TickInput.check now sc).Between lo hi)
    (n : GoString) (r : GossipStatusAndTimeStamp) (h : v.consensus.table.lookup n=some r) :
    lo ≤ sc.now n ∧ sc.now n≤hi :=
  clock.2 (n,r) ((valid.1.mem_iff n r).mpr h)

/-- A status with a quorum at the end, and the only one with a quorum at the start, is the one the
loop finds. -/
theorem Scan.Valid.statusNow_due (valid : sc.Valid v t0) (hq : 1 ≤ cfg.quorum)
    (clock : (TickInput.check now sc).Between lo hi)
    (reached : Reaches cfg.quorum v t0 (fun _ => hi) s)
    (only : ∀ x,Reaches cfg.quorum v t0 (fun _ => lo) x → x=s) :
    sc.statusNow cfg.quorum=s := by
  have still := reached.earlier (fun n r h => (valid.between clock n r h).2)
  refine valid.statusNow_unique hq still ?_
  intro x hx
  exact only x (hx.earlier (fun n r h => (valid.between clock n r h).1))

theorem checkEvent_due (key : GoString) (due : Due cfg v lo hi s .event) (hq : 1 ≤ cfg.quorum)
    (valid : sc.Valid v v.prevEventTime) (clock : (TickInput.check now sc).Between lo hi) :
    checkEvent cfg key v now sc=[.stamp ⟨.event,false,key,v,sc.now,s⟩] := by
  obtain ⟨waited,reached,only,change⟩ := due
  have passed : ¬since now v.prevEventTime<seconds cfg.eventInterval := by
    have later := since_mono lo now v.prevEventTime clock.1
    omega
  have status := valid.statusNow_due hq clock reached only
  simp [checkEvent,passed,(hasEvent_of_statusNow status).1 change]

theorem checkEmpty_due (key : GoString) (due : Due cfg v lo hi s .empty) (hq : 1 ≤ cfg.quorum)
    (valid : sc.Valid v v.emptyTime) (clock : (TickInput.check now sc).Between lo hi) :
    checkEmpty cfg key v now sc=[.stamp ⟨.empty,false,key,v,sc.now,s⟩] := by
  obtain ⟨waited,change⟩ := due
  have passed : ¬since now v.emptyTime<seconds cfg.eventInterval := by
    have later := since_mono lo now v.emptyTime clock.1
    omega
  rcases change with ⟨rfl,flag,reached,only⟩|⟨rfl,flag,missing,recovered⟩
  · have status := valid.statusNow_due hq clock reached only
    simp [checkEmpty,passed,emptyRecover,status,flag]
  · have other : sc.statusNow cfg.quorum≠gossipEmpty := by
      intro found
      rcases valid.statusNow_cases hq with ⟨-,none⟩|reached
      · exact absurd (none.symm.trans found) (by decide)
      · rw [found] at reached
        exact missing (reached.earlier (fun n r h => (valid.between clock n r h).1))
    have more := Finset.card_le_card (eligibleNodes_earlier v.emptyTime
      (fun x => !notRecovered x) (fun n r h => (valid.between clock n r h).2))
    have enough : cfg.quorum≤((sc.freshReports v.emptyTime).countP
        (fun p => !notRecovered p.2.gossipStatus) : Int) := by
      rw [valid.countP_fresh (fun x => !notRecovered x)]
      omega
    simp [checkEmpty,passed,emptyRecover,other,flag,enough]

end Checks

/-- The decision notifies the status for this check of this key. -/
structure Decision.Leads (d : Decision) (kind : CheckKind) (key : GoString) (s : GossipStatus) :
    Prop where
  kind : d.kind=kind
  key : d.key=key
  pending : d.pending=false
  status : d.status=s

/-- The statement is on the way from the check of the entry to that notification. -/
def Stmt.Leads (kind : CheckKind) (key : GoString) (v : GossipConsensus) (s : GossipStatus) :
    Stmt → Prop
  | .checkEvent k w => kind=.event ∧ k=key ∧ w=v
  | .checkEmpty k w => kind=.empty ∧ k=key ∧ w=v
  | .stamp d => d.Leads kind key s
  | .submitTime d _ => d.Leads kind key s
  | .build d _ => d.Leads kind key s
  | .send x => x.decision.Leads kind key s
  | _ => False

section Pass
variable {cfg : QuorumConfig} {f : Fsm} {c : Checker} {st : Stmt} {input : TickInput}
  {sts rest : List Stmt} {eff : Effect} {kind : CheckKind} {key : GoString} {v : GossipConsensus}
  {s : GossipStatus} {lo hi : Int64}

/-- Each statement on the way is replaced by the next one, and the last one sends. -/
theorem Executes.leads (h : Executes cfg f c st input sts eff) (leads : st.Leads kind key v s)
    (due : Due cfg v lo hi s kind) (hq : 1 ≤ cfg.quorum) (clock : input.Between lo hi) :
    (∃ next,sts=[next] ∧ next.Leads kind key v s ∧ eff.received=[]) ∨
      ∃ x,sts=[] ∧ eff=.sent x ∧ x.decision.Leads kind key s := by
  cases h with
  | barrier | failed | clone | submitStatus => exact leads.elim
  | checkEvent k w now sc valid =>
    obtain ⟨rfl,rfl,rfl⟩ := leads
    exact .inl ⟨_,checkEvent_due k due hq valid clock,⟨rfl,rfl,rfl,rfl⟩,rfl⟩
  | checkEmpty k w now sc valid =>
    obtain ⟨rfl,rfl,rfl⟩ := leads
    exact .inl ⟨_,checkEmpty_due k due hq valid clock,⟨rfl,rfl,rfl,rfl⟩,rfl⟩
  | stamp d now => exact .inl ⟨_,rfl,leads,rfl⟩
  | submitPending d ts pending => exact absurd (leads.pending.symm.trans pending) (by decide)
  | submitTime d ts notifies => exact .inl ⟨_,rfl,leads,c.notifyFollower_received _ _⟩
  | build d ts => exact .inl ⟨_,rfl,leads,rfl⟩
  | send x => exact .inr ⟨x,rfl,rfl,leads⟩

theorem Stmt.Leads.about (h : st.Leads kind key v s) : st.about kind key=true := by
  cases st with
  | barrier | clone | submitStatus => exact h.elim
  | checkEvent | checkEmpty => simp [Stmt.about,h.1,h.2.1]
  | stamp | submitTime | build | send => simp [Stmt.about,Decision.about,h.kind,h.key]

/-- A statement about another check or key leaves this one alone. -/
theorem Executes.apart (h : Executes cfg f c st input sts eff) (other : st≠.clone)
    (apart : st.about kind key=false) :
    sts.filter (Stmt.about kind key)=[] ∧
      eff.received.filter (fun x => x.decision.about kind key)=[] := by
  constructor
  · rw [List.filter_eq_nil_iff]
    intro next hn
    rw [((h.successor other).2 next hn).1 kind key,apart]
    exact Bool.false_ne_true
  · rw [List.filter_eq_nil_iff]
    intro x hx
    obtain ⟨rfl,-⟩ := h.received_send x hx
    rw [show x.decision.about kind key=false from apart]
    exact Bool.false_ne_true

/-- After the barrier the pass does not come back to its beginning. -/
theorem Executes.past (h : Executes cfg f c st input sts eff) (other : st≠.barrier) :
    ∀ next∈sts,¬next.Opens := by
  intro next hn opens
  cases h with
  | barrier | failed => exact other rfl
  | clone o ho =>
    obtain ⟨p,-,hp⟩ := List.mem_flatMap.mp hn
    simp only [List.mem_cons,List.not_mem_nil,or_false] at hp
    rcases hp with rfl|rfl <;> simp [Stmt.Opens] at opens
  | checkEvent k w now sc valid =>
    obtain ⟨d,rfl,-⟩ := checkEvent_sound cfg k w now sc valid _ hn
    simp [Stmt.Opens] at opens
  | checkEmpty k w now sc valid =>
    obtain ⟨d,rfl,-⟩ := checkEmpty_sound cfg k w now sc valid _ hn
    simp [Stmt.Opens] at opens
  | submitStatus | send => cases hn
  | stamp | submitPending | submitTime | build =>
    simp only [List.mem_singleton] at hn
    simp [hn,Stmt.Opens] at opens

/-- How far the pass is with the notification: one statement is left, or one command was sent. -/
inductive Underway (kind : CheckKind) (key : GoString) (v : GossipConsensus) (s : GossipStatus)
    (tick : List Stmt) (sent : List Sent) : Prop where
  | left (st : Stmt) (one : tick.filter (Stmt.about kind key)=[st]) (leads : st.Leads kind key v s)
      (none : sent.filter (fun x => x.decision.about kind key)=[])
  | sent (x : Sent) (none : tick.filter (Stmt.about kind key)=[])
      (one : sent.filter (fun x => x.decision.about kind key)=[x])
      (leads : x.decision.Leads kind key s)

theorem Decision.Leads.about {d : Decision} (h : d.Leads kind key s) : d.about kind key=true := by
  simp [Decision.about,h.kind,h.key]

/-- One statement of the pass. -/
theorem Underway.step {sent : List Sent} (h : Underway kind key v s (st::rest) sent)
    (hx : Executes cfg f c st input sts eff) (other : st≠.clone) (due : Due cfg v lo hi s kind)
    (hq : 1 ≤ cfg.quorum) (clock : input.Between lo hi) :
    Underway kind key v s (sts++rest) (sent++eff.received) := by
  cases ha : st.about kind key with
  | false =>
    obtain ⟨statements,commands⟩ := hx.apart other ha
    have same : (sts++rest).filter (Stmt.about kind key)=(st::rest).filter (Stmt.about kind key) := by
      rw [List.filter_append,statements,List.nil_append,
        List.filter_cons_of_neg (by rw [ha]; exact Bool.false_ne_true)]
    have same' : (sent++eff.received).filter (fun x => x.decision.about kind key)=
        sent.filter (fun x => x.decision.about kind key) := by
      rw [List.filter_append,commands,List.append_nil]
    cases h with
    | left st' one leads none => exact .left st' (same.trans one) leads (same'.trans none)
    | sent x none one leads => exact .sent x (same.trans none) (same'.trans one) leads
  | true =>
    cases h with
    | sent x none =>
      rw [List.filter_cons_of_pos ha] at none
      cases none
    | left st' one leads none =>
      rw [List.filter_cons_of_pos ha,List.cons.injEq] at one
      obtain ⟨rfl,alone⟩ := one
      rcases hx.leads leads due hq clock with ⟨next,rfl,leads',silent⟩|⟨x,rfl,rfl,leads'⟩
      · refine .left next ?_ leads' ?_
        · rw [List.singleton_append,List.filter_cons_of_pos leads'.about,alone]
        · rw [silent,List.append_nil]
          exact none
      · refine .sent x alone ?_ leads'
        rw [List.filter_append,none,List.nil_append]
        exact List.filter_cons_of_pos leads'.about

end Pass

/-- The clone starts one check of each kind for every stored key. -/
theorem underway_cloneChecks {f : Fsm} {o : List (GoString × GossipConsensus)}
    (ho : Enumerates o f.gcm.data) {key : GoString} {v : GossipConsensus}
    (stored : f.gcm.data.lookup key=some v) (kind : CheckKind) (s : GossipStatus) :
    Underway kind key v.copy s (cloneChecks o) [] := by
  have count : ((cloneChecks o).filter (Stmt.about kind key)).length≤1 := by
    rw [cloneChecks_about]
    have once := List.nodup_iff_count_le_one.mp ho.nodup_keys key
    rw [List.count] at once
    exact (List.countP_mono_left (fun k _ hk => by simpa using hk)).trans once
  have here := (ho.mem_iff key v).mpr stored
  have check (st : Stmt) (made : st∈[Stmt.checkEvent key v.copy,Stmt.checkEmpty key v.copy])
      (leads : st.Leads kind key v.copy s) : Underway kind key v.copy s (cloneChecks o) [] := by
    have mem : st∈(cloneChecks o).filter (Stmt.about kind key) :=
      List.mem_filter.mpr ⟨List.mem_flatMap.mpr ⟨(key,v),here,made⟩,leads.about⟩
    refine .left st ?_ leads rfl
    match hl : (cloneChecks o).filter (Stmt.about kind key) with
    | [] => rw [hl] at mem; cases mem
    | [x] => rw [hl] at mem; rw [List.mem_singleton.mp mem]
    | _::_::_ => rw [hl] at count; simp at count
  cases kind with
  | event => exact check _ List.mem_cons_self ⟨rfl,rfl,rfl⟩
  | empty => exact check _ (List.mem_cons_of_mem _ List.mem_cons_self) ⟨rfl,rfl,rfl⟩

end StCache
