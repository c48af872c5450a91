import StCache.Cluster.Cluster

namespace StCache

/-- The reports about a pair of key and reporter. -/
def reportsOf (received : List MyBroadcastMessage) (key node : GoString) :
    List MyBroadcastMessage :=
  received.filter (fun m => decide (m.key=key) && decide (m.node=node))

/-- The reports about a pair folded into the one that is kept. -/
def newestReport (received : List MyBroadcastMessage) (key node : GoString) :
    Option GossipStatusAndTimeStamp :=
  (reportsOf received key node).foldl (fun r m => some (GossipCacheManager.winner m r)) none

/-- No received report of the pair has a higher timestamp. -/
def IsHighest (received : List MyBroadcastMessage) (key node : GoString)
    (m : MyBroadcastMessage) : Prop :=
  m∈reportsOf received key node ∧ ∀ x∈reportsOf received key node,x.timeStamp ≤ m.timeStamp

/-- No deletion from the store and no new process. -/
def noLoss : ClusterEvent → Bool
  | .delKey _ _ => false
  | .delNodeAddr _ _ _ => false
  | .restart _ _ => false
  | _ => true

/-- Neither the clock nor the last timestamp of makeGossip2 is at the end of int64. -/
def noWrap (s : Cluster) : ClusterEvent → Bool
  | .makeGossip2 a _ now =>
    decide (now≠Int64.maxValue) && decide ((s.node a).lastTimeStamp≠Int64.maxValue)
  | _ => true

theorem mem_reportsOf {received : List MyBroadcastMessage} {key node : GoString}
    {m : MyBroadcastMessage} :
    m∈reportsOf received key node ↔ m∈received ∧ m.key=key ∧ m.node=node := by
  simp [reportsOf]

theorem reportsOf_snoc (received : List MyBroadcastMessage) (m : MyBroadcastMessage)
    (key node : GoString) :
    reportsOf (received++[m]) key node=
      if key=m.key ∧ node=m.node then reportsOf received key node++[m]
      else reportsOf received key node := by
  rw [reportsOf,reportsOf,List.filter_append]
  split_ifs with h
  · rw [List.filter_cons_of_pos (by simp [h.1,h.2]),List.filter_nil]
  · have other : ¬(m.key=key ∧ m.node=node) := fun he => h ⟨he.1.symm,he.2.symm⟩
    rw [List.filter_cons_of_neg (by simpa using other),List.filter_nil,List.append_nil]

theorem newestReport_snoc (received : List MyBroadcastMessage) (m : MyBroadcastMessage)
    (key node : GoString) :
    newestReport (received++[m]) key node=if key=m.key ∧ node=m.node then
        some (GossipCacheManager.winner m (newestReport received m.key m.node))
      else newestReport received key node := by
  rw [newestReport,reportsOf_snoc]
  split_ifs with h
  · rw [h.1,h.2,List.foldl_append,←newestReport]
    rfl
  · rfl

theorem IsHighest.snoc_old {received : List MyBroadcastMessage} {key node : GoString}
    {m x : MyBroadcastMessage} (h : IsHighest received key node x)
    (old : key=m.key ∧ node=m.node → m.timeStamp≤x.timeStamp) :
    IsHighest (received++[m]) key node x := by
  rw [IsHighest,reportsOf_snoc]
  split_ifs with about
  · refine ⟨List.mem_append_left _ h.1,?_⟩
    intro y hy
    cases List.mem_append.mp hy with
    | inl hy => exact h.2 y hy
    | inr hy =>
      rw [List.mem_singleton.mp hy]
      exact old about
  · exact h

theorem isHighest_snoc_new {received : List MyBroadcastMessage} {m : MyBroadcastMessage}
    (new : ∀ y∈reportsOf received m.key m.node,y.timeStamp ≤ m.timeStamp) :
    IsHighest (received++[m]) m.key m.node m := by
  rw [IsHighest,reportsOf_snoc,if_pos ⟨rfl,rfl⟩]
  refine ⟨by simp,?_⟩
  intro y hy
  cases List.mem_append.mp hy with
  | inl hy => exact new y hy
  | inr hy =>
    rw [List.mem_singleton.mp hy]
    exact Int64.le_refl _

/-- The kept report is a highest one. -/
theorem newestReport_isHighest (received : List MyBroadcastMessage) (key node : GoString) :
    (reportsOf received key node=[] ∧ newestReport received key node=none) ∨
    ∃ m,IsHighest received key node m ∧
      newestReport received key node=some ⟨m.status,m.timeStamp⟩ := by
  induction received using List.reverseRecOn with
  | nil => exact .inl ⟨rfl,rfl⟩
  | append_singleton received m ih =>
    rw [newestReport_snoc,reportsOf_snoc]
    by_cases about : key=m.key ∧ node=m.node
    · obtain ⟨rfl,rfl⟩ := about
      rw [if_pos ⟨rfl,rfl⟩,if_pos ⟨rfl,rfl⟩]
      rcases ih with ⟨empty,none⟩|⟨x,hx,kept⟩
      · rw [none]
        exact .inr ⟨m,isHighest_snoc_new (by simp [empty]),rfl⟩
      · rw [kept,GossipCacheManager.winner]
        split_ifs with newer
        · have above : ∀ y∈reportsOf received m.key m.node,y.timeStamp ≤ m.timeStamp := fun y hy =>
            Int64.le_trans (hx.2 y hy) (Int64.le_of_lt newer)
          exact .inr ⟨m,isHighest_snoc_new above,rfl⟩
        · exact .inr ⟨x,hx.snoc_old (fun _ => Int64.not_lt.mp newer),rfl⟩
    · rw [if_neg about,if_neg about]
      rcases ih with empty|⟨x,hx,kept⟩
      · exact .inl empty
      · exact .inr ⟨x,hx.snoc_old (fun he => absurd he about),kept⟩

theorem le_newestReport {received : List MyBroadcastMessage} {key node : GoString}
    {m : MyBroadcastMessage} (hm : m∈reportsOf received key node) :
    ∃ r,newestReport received key node=some r ∧ m.timeStamp ≤ r.timeStamp := by
  rcases newestReport_isHighest received key node with ⟨empty,-⟩|⟨x,hx,hr⟩
  · simp [empty] at hm
  · exact ⟨⟨x.status,x.timeStamp⟩,hr,hx.2 m hm⟩

theorem IsHighest.timeStamp_eq {received : List MyBroadcastMessage} {key node : GoString}
    {m m' : MyBroadcastMessage} (h : IsHighest received key node m)
    (h' : IsHighest received key node m') : m.timeStamp=m'.timeStamp :=
  Int64.le_antisymm (h'.2 m h.1) (h.2 m' h'.1)

theorem reportsOf_congr {received received' : List MyBroadcastMessage}
    (same : ∀ m,m∈received ↔ m∈received') (key node : GoString) (m : MyBroadcastMessage) :
    m∈reportsOf received key node ↔ m∈reportsOf received' key node := by
  rw [mem_reportsOf,mem_reportsOf,same m]

theorem IsHighest.congr {received received' : List MyBroadcastMessage} {key node : GoString}
    {m : MyBroadcastMessage} (same : ∀ m,m∈received ↔ m∈received')
    (h : IsHighest received key node m) : IsHighest received' key node m :=
  ⟨(reportsOf_congr same key node m).mp h.1,
    fun x hx => h.2 x ((reportsOf_congr same key node x).mpr hx)⟩

/-- Set keeps the highest-timestamp report of every pair. -/
theorem GossipCacheManager.report_set_newest (c d : GossipCacheManager) (m : MyBroadcastMessage)
    (bs received : List MyBroadcastMessage) (hset : c.set m=some (d,bs))
    (h : ∀ key node,c.report key node=newestReport received key node) (key node : GoString) :
    d.report key node=newestReport (received++[m]) key node := by
  rw [c.report_set d m bs hset,newestReport_snoc,h m.key m.node,h key node]

/-- Max(now, last)+1 is a new highest timestamp unless the addition wraps around. -/
theorem lt_max64_succ (now last : Int64) (hn : now≠Int64.maxValue) (hl : last≠Int64.maxValue) :
    last < max64 now last+1 := by
  have fits (x : Int64) (hx : x≠Int64.maxValue) : (x+1).toInt=x.toInt+1 := by
    have top : x.toInt≠Int64.maxValue.toInt := fun he => hx (Int64.toInt_inj.mp he)
    have lo := x.le_toInt
    have hi := x.toInt_lt
    have hm : Int64.maxValue.toInt=2^63-1 := by decide
    rw [Int64.toInt_add,Int64.toInt_one,Int.bmod_eq_of_le (by omega) (by omega)]
  rw [Int64.lt_iff_toInt_lt]
  unfold max64
  split_ifs with hlt
  · have lt := Int64.lt_iff_toInt_lt.mp hlt
    have next := fits now hn
    omega
  · have next := fits last hl
    omega

namespace Cluster

/-- A step other than a deletion leaves every report and the network alone, or it is one
call of Set with a report that was broadcast or is being originated, whose broadcasts go
to the network. -/
theorem Steps.sets {cfg : ClusterConfig} {s t : Cluster} {e : ClusterEvent}
    (h : s.Steps cfg e t) (kept : noLoss e=true) :
    (t.network=s.network ∧ ∀ b,(t.node b).received=(s.node b).received ∧
      ∀ key n,(t.node b).fsm.gcm.report key n=(s.node b).fsm.gcm.report key n) ∨
    ∃ a m bs,e.actor=some a ∧ (m∈s.network ∨ m.node=a ∧ m∈t.originated) ∧
      t.network=s.network++bs ∧ (t.node a).received=(s.node a).received++[m] ∧
      (s.node a).fsm.gcm.set m=some ((t.node a).fsm.gcm,bs) := by
  have untouched (a : GoString) (n : Node) (hr : n.received=(s.node a).received)
      (hg : ∀ key k,n.fsm.gcm.report key k=(s.node a).fsm.gcm.report key k) (b : GoString) :
      ((s.put a n).node b).received=(s.node b).received ∧
      ∀ key k,((s.put a n).node b).fsm.gcm.report key k=(s.node b).fsm.gcm.report key k :=
    ⟨s.put_frame a n Node.received hr b,
      fun key k => s.put_frame a n (fun x => x.fsm.gcm.report key k) (hg key k) b⟩
  cases h with
  | commit e => exact Or.inl ⟨rfl,fun _ => ⟨rfl,fun _ _ => rfl⟩⟩
  | applyNext a e f he hf =>
    have gcm := ((Fsm.applyEntry_some _ _ _).mp hf).2
    refine Or.inl ⟨rfl,untouched a _ rfl ?_⟩
    intro key k
    rw [gcm,GossipCacheManager.report_replay]
  | deliver a m gcm bs hm hset =>
    exact Or.inr ⟨a,m,bs,rfl,Or.inl hm,rfl,by simp [put_node],by simpa [put_node] using hset⟩
  | makeGossip2 a i now o gcm bs ho hset =>
    exact Or.inr ⟨a,stampReport (s.node a) a o now,bs,rfl,Or.inr ⟨rfl,by simp⟩,rfl,
      by simp [put_node],by simpa [put_node] using hset⟩
  | verify a | check a | detectorDelKey a | writeFlag a =>
    exact Or.inl ⟨rfl,untouched a _ rfl (fun _ _ => rfl)⟩
  | delKey | delNodeAddr | restart => exact absurd kept (by simp [noLoss])

/-- The same seen from one node. -/
theorem Steps.receives {cfg : ClusterConfig} {s t : Cluster} {e : ClusterEvent}
    (h : s.Steps cfg e t) (kept : noLoss e=true) (b : GoString) :
    ((t.node b).received=(s.node b).received ∧
      ∀ key n,(t.node b).fsm.gcm.report key n=(s.node b).fsm.gcm.report key n) ∨
    ∃ m bs,(m∈s.network ∨ m.node=b ∧ m∈t.originated) ∧
      (t.node b).received=(s.node b).received++[m] ∧
      (s.node b).fsm.gcm.set m=some ((t.node b).fsm.gcm,bs) := by
  cases h.sets kept with
  | inl quiet => exact Or.inl (quiet.2 b)
  | inr call =>
    obtain ⟨a,m,bs,actor,source,-,received,hset⟩ := call
    by_cases hb : b=a
    · subst b
      exact Or.inr ⟨m,bs,source,received,hset⟩
    · have same : t.node b=s.node b := h.elsewhere b (by simp [actor,Ne.symm hb])
      exact Or.inl (by simp [same])

/-- What is on the network is what was there, and possibly a report that its origin
has just accepted as newer than the stored one of its pair. -/
theorem Steps.spreads {cfg : ClusterConfig} {s t : Cluster} {e : ClusterEvent}
    (h : s.Steps cfg e t) :
    (∀ m,m∈t.network ↔ m∈s.network) ∨
    ∃ x,(∀ m,m∈t.network ↔ m∈s.network ∨ m=x) ∧ x∈(t.node x.node).received ∧
      ∀ old,(s.node x.node).fsm.gcm.report x.key x.node=some old → old.timeStamp<x.timeStamp := by
  cases h with
  | deliver a x gcm bs hx hset =>
    refine Or.inl (fun m => ⟨?_,fun hm => List.mem_append_left _ hm⟩)
    intro hm
    cases List.mem_append.mp hm with
    | inl hm => exact hm
    | inr hm =>
      have same := (s.node a).fsm.gcm.broadcast_of_set gcm x bs hset m hm
      exact same ▸ hx
  | makeGossip2 a i now o gcm bs ho hset =>
    rcases (s.node a).fsm.gcm.set_cases gcm _ bs hset with ⟨-,hb,-⟩|⟨hb,newer,-⟩
    · exact Or.inl (fun m => by simp [hb])
    · refine Or.inr ⟨stampReport (s.node a) a o now,fun m => by simp [hb],?_,newer⟩
      simp [put_node,stampReport]
  | commit | applyNext | verify | check | delKey | delNodeAddr | detectorDelKey
  | writeFlag | restart => exact Or.inl (fun m => Iff.rfl)

/-- A report newer than all of its group keeps the timestamps of a group distinct. -/
theorem unique_insert {G : Type} (group : MyBroadcastMessage → G) (old new : List MyBroadcastMessage)
    (x : MyBroadcastMessage) (more : ∀ m,m∈new ↔ m∈old ∨ m=x)
    (unique : ∀ m∈old,∀ m'∈old,group m=group m' → m.timeStamp=m'.timeStamp → m=m')
    (newer : ∀ m∈old,group m=group x → m.timeStamp<x.timeStamp) :
    ∀ m∈new,∀ m'∈new,group m=group m' → m.timeStamp=m'.timeStamp → m=m' := by
  intro m hm m' hm' hg ht
  cases (more m).mp hm with
  | inl hm =>
    cases (more m').mp hm' with
    | inl hm' => exact unique m hm m' hm' hg ht
    | inr hm' =>
      rw [hm'] at hg ht
      exact absurd ht (Int64.ne_of_lt (newer m hm hg))
  | inr hm =>
    cases (more m').mp hm' with
    | inl hm' =>
      rw [hm] at hg ht
      exact absurd ht.symm (Int64.ne_of_lt (newer m' hm' hg.symm))
    | inr hm' => rw [hm,hm']

/-- The gossip of a run without losses. A report that was passed on is known to its
origin, whose own Set refuses a second report with the same timestamp. -/
structure Gossiping (s : Cluster) : Prop where
  newest : ∀ a key n,(s.node a).fsm.gcm.report key n=newestReport (s.node a).received key n
  heard : ∀ a,∀ m∈(s.node a).received,m∈s.network ∨ m.node=a
  known : ∀ m∈s.network,m∈(s.node m.node).received
  unique : ∀ m∈s.network,∀ m'∈s.network,m.key=m'.key → m.node=m'.node →
    m.timeStamp=m'.timeStamp → m=m'

theorem gossiping_init (cfg : ClusterConfig) : (init cfg).Gossiping :=
  ⟨fun _ _ _ => rfl,by simp [init,Node.new],by simp [init],by simp [init]⟩

/-- A report that is passed on for the first time is newer than those of its pair. -/
theorem Gossiping.newer {s : Cluster} (h : s.Gossiping) (m : MyBroadcastMessage)
    (newer : ∀ old,(s.node m.node).fsm.gcm.report m.key m.node=some old → old.timeStamp < m.timeStamp)
    (x : MyBroadcastMessage) (hx : x∈s.network) (hk : x.key=m.key) (hn : x.node=m.node) :
    x.timeStamp < m.timeStamp := by
  have here : x∈reportsOf (s.node m.node).received m.key m.node := by
    have hr := h.known x hx
    rw [hn] at hr
    exact mem_reportsOf.mpr ⟨hr,hk,hn⟩
  obtain ⟨old,hold,hle⟩ := le_newestReport here
  have lt := newer old ((h.newest m.node m.key m.node).trans hold)
  exact Int64.lt_of_le_of_lt hle lt

theorem Gossiping.step {cfg : ClusterConfig} {s t : Cluster} {e : ClusterEvent}
    (h : s.Gossiping) (kept : noLoss e=true) (hs : s.Steps cfg e t) : t.Gossiping := by
  have grows (m : MyBroadcastMessage) (hm : m∈s.network) : m∈t.network := by
    rcases hs.spreads with same|⟨x,more,-⟩
    · exact (same m).mpr hm
    · exact (more m).mpr (Or.inl hm)
  have hears (a : GoString) (m : MyBroadcastMessage) (hm : m∈(s.node a).received) :
      m∈(t.node a).received := by
    rcases hs.receives kept a with ⟨hr,-⟩|⟨x,bs,-,hr,-⟩
    · rwa [hr]
    · rw [hr]
      exact List.mem_append_left _ hm
  refine ⟨?_,?_,?_,?_⟩
  · intro a key n
    rcases hs.receives kept a with ⟨hr,hg⟩|⟨m,bs,-,hr,hset⟩
    · rw [hr,hg,h.newest]
    · rw [hr]
      exact GossipCacheManager.report_set_newest _ _ m bs _ hset (h.newest a) key n
  · intro a m hm
    rcases hs.receives kept a with ⟨hr,-⟩|⟨x,bs,hx,hr,-⟩
    · rw [hr] at hm
      exact (h.heard a m hm).imp_left (grows m)
    · rw [hr] at hm
      cases List.mem_append.mp hm with
      | inl hm => exact (h.heard a m hm).imp_left (grows m)
      | inr hm =>
        rw [List.mem_singleton.mp hm]
        exact hx.imp (grows x) And.left
  · intro m hm
    rcases hs.spreads with same|⟨x,more,here,-⟩
    · exact hears _ m (h.known m ((same m).mp hm))
    · cases (more m).mp hm with
      | inl hm => exact hears _ m (h.known m hm)
      | inr hm =>
        rw [hm]
        exact here
  · intro m hm m' hm' hk hn ht
    rcases hs.spreads with same|⟨x,more,-,newer⟩
    · exact h.unique m ((same m).mp hm) m' ((same m').mp hm') hk hn ht
    · have pairs := unique_insert (fun m => (m.key,m.node)) s.network t.network x more
        (fun m hm m' hm' hg => h.unique m hm m' hm' (Prod.mk.inj hg).1 (Prod.mk.inj hg).2)
        (fun m hm hg => h.newer x newer m hm (Prod.mk.inj hg).1 (Prod.mk.inj hg).2)
      exact pairs m hm m' hm' (Prod.ext hk hn) ht

/-- The reports of a run in which no timestamp wraps around. -/
structure Stamped (s : Cluster) : Prop where
  network : ∀ m∈s.network,m∈s.originated
  received : ∀ a,∀ m∈(s.node a).received,m∈s.originated
  bound : ∀ m∈s.originated,m.timeStamp≤(s.node m.node).lastTimeStamp
  unique : ∀ m∈s.originated,∀ m'∈s.originated,m.node=m'.node → m.timeStamp=m'.timeStamp → m=m'

theorem stamped_init (cfg : ClusterConfig) : (init cfg).Stamped :=
  ⟨by simp [init],by simp [init,Node.new],by simp [init],by simp [init]⟩

theorem Stamped.heard {cfg : ClusterConfig} {s t : Cluster} {e : ClusterEvent}
    (h : s.Stamped) (kept : noLoss e=true) (hs : s.Steps cfg e t) (a : GoString)
    (m : MyBroadcastMessage) (hm : m∈(t.node a).received) : m∈t.originated := by
  have grows := hs.originated_grows
  rcases hs.receives kept a with ⟨hr,-⟩|⟨x,bs,hx,hr,-⟩
  · rw [hr] at hm
    exact grows m (h.received a m hm)
  · rw [hr] at hm
    cases List.mem_append.mp hm with
    | inl hm => exact grows m (h.received a m hm)
    | inr hm =>
      rw [List.mem_singleton.mp hm]
      exact hx.elim (fun hx => grows x (h.network x hx)) And.right

theorem Stamped.step {cfg : ClusterConfig} {s t : Cluster} {e : ClusterEvent}
    (h : s.Stamped) (kept : noLoss e=true) (fits : noWrap s e=true) (hs : s.Steps cfg e t) :
    t.Stamped := by
  rcases hs.originates with ⟨ho,hl⟩|⟨a,i,now,o,rfl,-,ho,hl⟩
  · have same := hl (by rintro a i rfl; simp [noLoss] at kept)
    refine ⟨hs.broadcasts h.network,h.heard kept hs,?_,?_⟩
    · intro m hm
      rw [ho] at hm
      rw [same]
      exact h.bound m hm
    · rw [ho]
      exact h.unique
  · have later : (s.node a).lastTimeStamp<(stampReport (s.node a) a o now).timeStamp := by
      simp only [noWrap,Bool.and_eq_true,decide_eq_true_eq] at fits
      exact lt_max64_succ now (s.node a).lastTimeStamp fits.1 fits.2
    have above (m : MyBroadcastMessage) (hm : m∈s.originated) (hn : m.node=a) :
        m.timeStamp<(stampReport (s.node a) a o now).timeStamp :=
      Int64.lt_of_le_of_lt (hn ▸ h.bound m hm) later
    refine ⟨hs.broadcasts h.network,h.heard kept hs,?_,?_⟩
    · intro m hm
      rw [ho] at hm
      rw [hl]
      cases List.mem_append.mp hm with
      | inl hm =>
        split_ifs with hn
        · exact Int64.le_of_lt (above m hm hn)
        · exact h.bound m hm
      | inr hm =>
        rw [List.mem_singleton.mp hm,if_pos (by rfl)]
        exact Int64.le_refl _
    · exact unique_insert MyBroadcastMessage.node s.originated t.originated
        (stampReport (s.node a) a o now) (by simp [ho]) h.unique above

/-- A report that reached two nodes was passed on by its origin. -/
theorem Gossiping.shared {s : Cluster} (h : s.Gossiping) (a b : GoString) (ne : a≠b)
    (m : MyBroadcastMessage) (ha : m∈(s.node a).received) (hb : m∈(s.node b).received) :
    m∈s.network := by
  cases h.heard a m ha with
  | inl hm => exact hm
  | inr na =>
    cases h.heard b m hb with
    | inl hm => exact hm
    | inr nb => exact absurd (na.symm.trans nb) ne

theorem Gossiping.agree {s : Cluster} (h : s.Gossiping) (a b : GoString)
    (same : ∀ m,m∈(s.node a).received ↔ m∈(s.node b).received) (key n : GoString) :
    (s.node a).fsm.gcm.report key n=(s.node b).fsm.gcm.report key n := by
  by_cases ne : a=b
  · rw [ne]
  rw [h.newest,h.newest]
  rcases newestReport_isHighest (s.node a).received key n with ⟨empty,none⟩|⟨m,hm,some⟩
  · rcases newestReport_isHighest (s.node b).received key n with ⟨-,none'⟩|⟨m',hm',-⟩
    · rw [none,none']
    · have here := (reportsOf_congr same key n m').mpr hm'.1
      simp [empty] at here
  · rcases newestReport_isHighest (s.node b).received key n with ⟨empty',-⟩|⟨m',hm',some'⟩
    · have here := (reportsOf_congr same key n m).mp hm.1
      simp [empty'] at here
    · have pair := mem_reportsOf.mp hm.1
      have pair' := mem_reportsOf.mp hm'.1
      have net := h.shared a b ne m pair.1 ((same m).mp pair.1)
      have net' := h.shared a b ne m' ((same m').mpr pair'.1) pair'.1
      have stamp := (hm.congr same).timeStamp_eq hm'
      have eq := h.unique m net m' net' (pair.2.1.trans pair'.2.1.symm)
        (pair.2.2.trans pair'.2.2.symm) stamp
      rw [some,some',eq]

end Cluster

/-- In a run without deletions every node stores a highest-timestamp report of each
pair, and nodes that received the same set of reports store the same reports. As
long as no timestamp wraps around, the highest-timestamp report is unique. -/
theorem gossip_converges (cfg : ClusterConfig) (es : List ClusterEvent) (t : Cluster)
    (kept : ∀ e∈es,noLoss e=true) (hr : run (Cluster.step cfg) (.init cfg) es=some t) :
    (∀ a key n,(reportsOf (t.node a).received key n=[] ∧
        (t.node a).fsm.gcm.report key n=none) ∨
      ∃ m,IsHighest (t.node a).received key n m ∧
        (t.node a).fsm.gcm.report key n=some ⟨m.status,m.timeStamp⟩) ∧
    (∀ a b,(∀ m,m∈(t.node a).received ↔ m∈(t.node b).received) →
      ∀ key n,(t.node a).fsm.gcm.report key n=(t.node b).fsm.gcm.report key n) ∧
    (Along (Cluster.step cfg) (fun s e => noWrap s e=true) (.init cfg) es →
      ∀ a key n m,IsHighest (t.node a).received key n m →
        (t.node a).fsm.gcm.report key n=some ⟨m.status,m.timeStamp⟩) := by
  have along := along_of_forall (Cluster.step cfg) (fun e => noLoss e=true) (.init cfg) es kept
  have gossip : t.Gossiping := run_invariant (Cluster.step cfg) _ Cluster.Gossiping
    (fun s e u h ok hs => h.step ok (s.step_steps cfg u e hs)) es _ t
    (Cluster.gossiping_init cfg) along hr
  have highest (a key n : GoString) := newestReport_isHighest (t.node a).received key n
  refine ⟨?_,gossip.agree,?_⟩
  · intro a key n
    rw [gossip.newest]
    exact highest a key n
  · intro fits a key n m hm
    have stamped : t.Stamped := run_invariant (Cluster.step cfg) _ Cluster.Stamped
      (fun s e u h ok hs => h.step ok.1 ok.2 (s.step_steps cfg u e hs)) es _ t
      (Cluster.stamped_init cfg) (along_and _ _ _ _ es along fits) hr
    rw [gossip.newest]
    rcases highest a key n with ⟨empty,-⟩|⟨m',hm',stored⟩
    · simp [IsHighest,empty] at hm
    · have pair := mem_reportsOf.mp hm.1
      have pair' := mem_reportsOf.mp hm'.1
      have eq := stamped.unique m (stamped.received a m pair.1) m' (stamped.received a m' pair'.1)
        (pair.2.2.trans pair'.2.2.symm) (hm.timeStamp_eq hm')
      rw [stored,eq]

/-- Two nodes with windows of one cell. -/
def pairConfig : ClusterConfig := ⟨⟨1,60,goStr "notify"⟩,1,1⟩

/-- Node a verifies the only key "k" once, with value v, and reports the status. -/
def verifyOnce (a : GoString) (v : GoString) (status : GossipStatus) (now : Int64) :
    List ClusterEvent :=
  [.verify a (.makeGossip1 [(goStr "k",v)]),.verify a .verify,.verify a (.ping 0 status now),
    .verify a (.phi 0 [(status,1)]),.makeGossip2 a 0 now]

/-- Both reports of node "a" reach node "b" in the wrong order, one of them twice. -/
def outOfOrder : List ClusterEvent :=
  [.commit ⟨.set,goStr "k",goStr "v"⟩,.applyNext (goStr "a")]++
  verifyOnce (goStr "a") (goStr "v") gossipUp 10++
  verifyOnce (goStr "a") (goStr "v") gossipDown 5++
  [.deliver (goStr "b") ⟨12,goStr "a",goStr "k",goStr "v",gossipDown⟩,
    .deliver (goStr "b") ⟨11,goStr "a",goStr "k",goStr "v",gossipUp⟩,
    .deliver (goStr "b") ⟨12,goStr "a",goStr "k",goStr "v",gossipDown⟩]

theorem gossip_converges_outOfOrder :
    ∃ t,run (Cluster.step pairConfig) (.init pairConfig) outOfOrder=some t ∧
      (t.node (goStr "a")).fsm.gcm.report (goStr "k") (goStr "a")=
        (t.node (goStr "b")).fsm.gcm.report (goStr "k") (goStr "a") ∧
      (t.node (goStr "b")).fsm.gcm.report (goStr "k") (goStr "a")=some ⟨gossipDown,12⟩ := by
  have done : (run (Cluster.step pairConfig) (.init pairConfig) outOfOrder).map
      (fun t => ((t.node (goStr "a")).received,(t.node (goStr "b")).received))=
      some ([⟨11,goStr "a",goStr "k",goStr "v",gossipUp⟩,
          ⟨12,goStr "a",goStr "k",goStr "v",gossipDown⟩],
        [⟨12,goStr "a",goStr "k",goStr "v",gossipDown⟩,⟨11,goStr "a",goStr "k",goStr "v",gossipUp⟩,
          ⟨12,goStr "a",goStr "k",goStr "v",gossipDown⟩]) := by
    decide +kernel
  obtain ⟨t,ht,hrec⟩ := Option.map_eq_some_iff.mp done
  obtain ⟨ha,hb⟩ := Prod.mk.inj hrec
  have converges := gossip_converges pairConfig outOfOrder t (by decide) ht
  refine ⟨t,ht,converges.2.1 _ _ ?_ _ _,converges.2.2 (by decide +kernel) _ _ _
    ⟨12,goStr "a",goStr "k",goStr "v",gossipDown⟩ ?_⟩
  · intro m
    rw [ha,hb]
    simp only [List.mem_cons,List.not_mem_nil,or_false]
    tauto
  · rw [hb]
    exact ⟨by decide,by decide⟩

end StCache
