import StCache.Framework.Runs
import StCache.Store.GossipCache

namespace StCache

/-- One step of an interleaving: a raft field update or a gossip report. -/
abbrev Update := (GoString × Notify) ⊕ MyBroadcastMessage

def Update.key : Update → GoString
  | .inl p => p.1
  | .inr m => m.key

/-- The raft updates of an interleaving, in order. -/
def notifies (I : List Update) : List (GoString × Notify) := I.filterMap Sum.getLeft?

/-- The gossip reports of an interleaving, in order. -/
def reports (I : List Update) : List MyBroadcastMessage := I.filterMap Sum.getRight?

@[simp] theorem notifies_snoc_inl (I : List Update) (p : GoString × Notify) :
    notifies (I++[.inl p])=notifies I++[p] := by
  rw [notifies,List.filterMap_append]
  rfl

@[simp] theorem notifies_snoc_inr (I : List Update) (m : MyBroadcastMessage) :
    notifies (I++[.inr m])=notifies I := by
  rw [notifies,List.filterMap_append]
  exact List.append_nil _

@[simp] theorem reports_snoc_inl (I : List Update) (p : GoString × Notify) :
    reports (I++[.inl p])=reports I := by
  rw [reports,List.filterMap_append]
  exact List.append_nil _

@[simp] theorem reports_snoc_inr (I : List Update) (m : MyBroadcastMessage) :
    reports (I++[.inr m])=reports I++[m] := by
  rw [reports,List.filterMap_append]
  rfl

namespace GossipCacheManager

/-- None is a panic. -/
def update (c : GossipCacheManager) : Update → Option GossipCacheManager
  | .inl p => some (c.notify p.1 p.2)
  | .inr m => (c.set m).map Prod.fst

def foldNotifies (N : List (GoString × Notify)) : GossipCacheManager :=
  N.foldl (fun c p => c.notify p.1 p.2) .new

def runReports (R : List MyBroadcastMessage) : Option GossipCacheManager :=
  run update .new (R.map Sum.inr)

/-- The state c combines the raft fields of f with the reports of r, key by key. -/
def Merged (f r c : GossipCacheManager) : Prop :=
  ∀ key,c.data.lookup key=
    if (f.data.lookup key).isSome || (r.data.lookup key).isSome then
      some {f.entry key with consensus := (r.entry key).consensus}
    else none

theorem Merged.entry {f r c : GossipCacheManager} (h : Merged f r c) (key : GoString) :
    c.entry key={f.entry key with consensus := (r.entry key).consensus} := by
  have hk := h key
  cases hf : f.data.lookup key <;> cases hr : r.data.lookup key <;>
    simp [GossipCacheManager.entry,hk,hf,hr]

/-- Merged states are determined by the two parts. -/
theorem Merged.unique {f r c d : GossipCacheManager} (hc : Merged f r c) (hd : Merged f r d) :
    c=d := by
  have data : c.data=d.data := Finmap.ext_lookup (fun key => (hc key).trans (hd key).symm)
  cases c
  cases d
  simpa using data

end GossipCacheManager

theorem GossipConsensus.ext_parts (v w : GossipConsensus) (hr : v.replicated=w.replicated)
    (hc : v.consensus=w.consensus) : v=w := by
  cases v
  cases w
  simp only [replicated,Replicated.mk.injEq] at hr
  simp_all

namespace GossipCacheManager

theorem Merged.notify {f r c : GossipCacheManager} (h : Merged f r c) (key : GoString)
    (u : Notify) : Merged (f.notify key u) r (c.notify key u) := by
  obtain ⟨v,hv,hvr,hvc⟩ := notify_data f key u
  obtain ⟨w,hw,hwr,hwc⟩ := notify_data c key u
  have same : w={v with consensus := (r.entry key).consensus} := by
    apply GossipConsensus.ext_parts
    · change w.replicated=v.replicated
      rw [hwr,hvr,GossipCacheManager.replicated,h.entry key]
      rfl
    · rw [hwc,h.entry key]
  intro k
  have fe : (f.notify key u).entry k=if k=key then v else f.entry k := by
    rw [←entry_insert f.data key k v,←hv]
  rw [hw,lookup_insert_ite,lookup_notify_isSome,fe]
  by_cases hk : k=key
  · subst k
    simp [same]
  · simp [hk,h k]

/-- A report changes the combined state exactly as it changes the reports alone,
provided the entry it meets has a consensus map. -/
theorem Merged.set {f r c : GossipCacheManager} (h : Merged f r c) (m : MyBroadcastMessage)
    (ok : (f.data.lookup m.key).isSome=true → (r.data.lookup m.key).isSome=true)
    (alloc : ∀ v,r.data.lookup m.key=some v → v.consensus≠.nil) :
    ∃ d s bs,c.set m=some (d,bs) ∧ r.set m=some (s,bs) ∧ Merged f s d := by
  have present (hc : (c.data.lookup m.key).isSome=true) : (r.data.lookup m.key).isSome=true := by
    rw [h m.key] at hc
    split_ifs at hc with hp
    · rw [Bool.or_eq_true] at hp
      exact hp.elim ok id
    · simp at hc
  have reportEq (n : GoString) : c.report m.key n=r.report m.key n := by
    rw [report,report,h.entry m.key]
  have cSome : c.set m≠none := by
    intro hn
    obtain ⟨v,hv,hnil⟩ := (set_eq_none c m).mp hn
    obtain ⟨w,hw⟩ := Option.isSome_iff_exists.mp (present (by simp [hv]))
    have he := h.entry m.key
    have same : v.consensus=w.consensus := by
      simpa [GossipCacheManager.entry,hv,hw] using congrArg GossipConsensus.consensus he
    exact alloc w hw (same ▸ hnil)
  have rSome : r.set m≠none := by
    intro hn
    obtain ⟨v,hv,hnil⟩ := (set_eq_none r m).mp hn
    exact alloc v hv hnil
  obtain ⟨⟨d,bs⟩,hd⟩ := Option.ne_none_iff_exists'.mp cSome
  obtain ⟨⟨s,bs'⟩,hs⟩ := Option.ne_none_iff_exists'.mp rSome
  rcases set_cases c d m bs hd with ⟨rfl,rfl,old,ho,hlt⟩|⟨rfl,hnew,v,hdd,hvr,t,hvc,hvl⟩
  · rcases set_cases r s m bs' hs with ⟨rfl,rfl,-⟩|⟨-,hnew,-⟩
    · exact ⟨_,_,_,hd,hs,h⟩
    · exact absurd (hnew old (by rw [←reportEq,ho])) hlt
  · rcases set_cases r s m bs' hs with ⟨-,-,old,ho,hlt⟩|⟨rfl,-,w,hss,-,t',hwc,hwl⟩
    · exact absurd (hnew old (by rw [reportEq,ho])) hlt
    · refine ⟨d,s,_,hd,hs,?_⟩
      have tables : t=t' := Finmap.ext_lookup (fun n => by rw [hvl,hwl,reportEq])
      have same : v={f.entry m.key with consensus := w.consensus} := by
        apply GossipConsensus.ext_parts
        · change v.replicated=(f.entry m.key).replicated
          rw [hvr,GossipCacheManager.replicated,h.entry m.key]
          rfl
        · rw [hvc,hwc,tables]
      intro k
      have se : s.entry k=if k=m.key then w else r.entry k := by
        rw [←entry_insert r.data m.key k w,←hss]
      rw [hdd,hss,lookup_insert_ite,lookup_insert_ite,se]
      by_cases hk : k=m.key
      · subst k
        simp [same]
      · simp [hk,h k]

theorem foldNotifies_isSome (N : List (GoString × Notify)) (key : GoString)
    (h : ((foldNotifies N).data.lookup key).isSome=true) : ∃ p∈N,p.1=key := by
  induction N using List.reverseRecOn with
  | nil => simp [foldNotifies,new] at h
  | append_singleton N p ih =>
    simp only [foldNotifies,List.foldl_append,List.foldl_cons,List.foldl_nil] at h
    rw [lookup_notify_isSome,Bool.or_eq_true,decide_eq_true_eq] at h
    cases h with
    | inl h => exact ⟨p,by simp,h.symm⟩
    | inr h =>
      obtain ⟨q,hq,he⟩ := ih h
      exact ⟨q,by simp [hq],he⟩

/-- Reports alone never panic: each entry is created with its map allocated. -/
theorem runReports_some (R : List MyBroadcastMessage) :
    ∃ r,runReports R=some r ∧ (∀ m∈R,(r.data.lookup m.key).isSome=true) ∧
      ∀ key v,r.data.lookup key=some v → v.consensus≠.nil := by
  induction R using List.reverseRecOn with
  | nil => exact ⟨.new,rfl,by simp,by simp [new]⟩
  | append_singleton R m ih =>
    obtain ⟨r,hr,present,alloc⟩ := ih
    have some' : r.set m≠none := by
      intro hn
      obtain ⟨v,hv,hnil⟩ := (set_eq_none r m).mp hn
      exact alloc m.key v hv hnil
    obtain ⟨⟨s,bs⟩,hs⟩ := Option.ne_none_iff_exists'.mp some'
    have hrun : runReports (R++[m])=some s := by
      rw [runReports,List.map_append,List.map_singleton,run_snoc]
      exact ⟨r,hr,by simp [update,hs]⟩
    refine ⟨s,hrun,?_⟩
    rcases set_cases r s m bs hs with ⟨rfl,-,old,ho,-⟩|⟨-,-,v,hd,-,t,ht,-⟩
    · refine ⟨?_,alloc⟩
      intro n hn
      cases List.mem_append.mp hn with
      | inl hn => exact present n hn
      | inr hn =>
        rw [List.mem_singleton] at hn
        subst n
        cases hl : s.data.lookup m.key with
        | none => simp [report,entry,hl] at ho
        | some w => rfl
    · rw [hd]
      refine ⟨?_,?_⟩
      · intro n hn
        rw [lookup_insert_ite]
        split_ifs with hk
        · rfl
        · cases List.mem_append.mp hn with
          | inl hn => exact present n hn
          | inr hn => exact absurd (by rw [List.mem_singleton.mp hn]) hk
      · intro key w hw
        rw [lookup_insert_ite] at hw
        split_ifs at hw with hk
        · obtain rfl := Option.some.inj hw
          simp [ht]
        · exact alloc key w hw

end GossipCacheManager

/-- The first step that names a key, and so creates its entry. -/
def creator (I : List Update) (key : GoString) : Option Update :=
  I.find? (fun u => decide (u.key=key))

/-- The entry of the key is created by a gossip report. -/
def CreatedByReport (I : List Update) (key : GoString) : Prop :=
  ∃ m,creator I key=some (.inr m)

theorem creator_snoc (I : List Update) (u : Update) (key : GoString) :
    creator (I++[u]) key=(creator I key).or (if u.key=key then some u else none) := by
  simp [creator,List.find?_append,List.find?_cons]
  split_ifs <;> simp_all

theorem creator_some_of_mem (I : List Update) (u : Update) (h : u∈I) :
    ∃ w,creator I u.key=some w ∧ w∈I ∧ w.key=u.key := by
  have found : (creator I u.key).isSome=true := by
    rw [creator,List.find?_isSome]
    exact ⟨u,h,by simp⟩
  obtain ⟨w,hw⟩ := Option.isSome_iff_exists.mp found
  exact ⟨w,hw,List.mem_of_find?_eq_some hw,by simpa using List.find?_some hw⟩

theorem mem_reports (I : List Update) (m : MyBroadcastMessage) : m∈reports I ↔ .inr m∈I := by
  simp [reports]

theorem mem_notifies (I : List Update) (p : GoString × Notify) : p∈notifies I ↔ .inl p∈I := by
  simp [notifies]

theorem createdByReport_prefix (I : List Update) (u : Update) (m : MyBroadcastMessage)
    (hm : m∈reports I) (h : CreatedByReport (I++[u]) m.key) : CreatedByReport I m.key := by
  obtain ⟨w,hw,-⟩ := creator_some_of_mem I (.inr m) ((mem_reports I m).mp hm)
  change creator I m.key=some w at hw
  obtain ⟨n,hn⟩ := h
  rw [creator_snoc,hw] at hn
  exact ⟨n,hw.trans hn⟩

namespace GossipCacheManager

/-- An interleaving whose reported keys are created by reports runs to the end
and combines the two parts. -/
theorem run_update_merged (I : List Update)
    (h : ∀ m∈reports I,CreatedByReport I m.key) :
    ∃ r c,runReports (reports I)=some r ∧ run update .new I=some c ∧
      Merged (foldNotifies (notifies I)) r c := by
  induction I using List.reverseRecOn with
  | nil => exact ⟨.new,.new,rfl,rfl,fun key => by simp [foldNotifies,notifies,new]⟩
  | append_singleton I u ih =>
    obtain ⟨r,c,hr,hc,hm⟩ := ih (fun m hm =>
      createdByReport_prefix I u m hm (h m
        ((mem_reports _ m).mpr (List.mem_append_left _ ((mem_reports I m).mp hm)))))
    obtain ⟨r',hr',present,alloc⟩ := runReports_some (reports I)
    obtain rfl : r'=r := Option.some.inj (hr'.symm.trans hr)
    cases u with
    | inl p =>
      refine ⟨r',c.notify p.1 p.2,by simpa using hr,?_,?_⟩
      · exact (run_snoc _ _ _ _ _).mpr ⟨c,hc,rfl⟩
      · simpa [foldNotifies,List.foldl_append] using hm.notify p.1 p.2
    | inr m =>
      have ok : ((foldNotifies (notifies I)).data.lookup m.key).isSome=true →
          (r'.data.lookup m.key).isSome=true := by
        intro hf
        obtain ⟨p,hp,hk⟩ := foldNotifies_isSome _ _ hf
        obtain ⟨w,hw,hwI,hwk⟩ := creator_some_of_mem I (.inl p) ((mem_notifies I p).mp hp)
        change creator I p.1=some w at hw
        obtain ⟨n,hn⟩ := h m (by simp)
        rw [creator_snoc,←hk,hw,Option.some_or,Option.some.injEq] at hn
        subst w
        have named : n.key=m.key := hwk.trans hk
        rw [←named]
        exact present n ((mem_reports I n).mpr hwI)
      obtain ⟨d,s,bs,hd,hs,hmerged⟩ := hm.set m ok (alloc m.key)
      refine ⟨s,d,?_,(run_snoc _ _ _ _ _).mpr ⟨c,hc,by simp [update,hd]⟩,?_⟩
      · rw [reports_snoc_inr,runReports,List.map_append,List.map_singleton,run_snoc]
        exact ⟨r',hr,by simp [update,hs]⟩
      · simpa using hmerged

/-- What the first step naming a key leaves behind: a raft update creates the
entry with a nil map, and no later step can allocate it. -/
def CreatorKept (I : List Update) (c : GossipCacheManager) : Prop :=
  (∀ m∈reports I,CreatedByReport I m.key) ∧
    ∀ key,(creator I key=none → c.data.lookup key=none) ∧
      ∀ p,creator I key=some (.inl p) →
        ∃ v,c.data.lookup key=some v ∧ v.consensus=.nil

theorem CreatorKept.notify {I : List Update} {c : GossipCacheManager} (h : CreatorKept I c)
    (p : GoString × Notify) : CreatorKept (I++[.inl p]) (c.notify p.1 p.2) := by
  refine ⟨?_,fun key => ⟨?_,?_⟩⟩
  · intro m hm
    obtain ⟨n,hn⟩ := h.1 m (by simpa using hm)
    exact ⟨n,by rw [creator_snoc,hn,Option.some_or]⟩
  · intro hnone
    rw [creator_snoc,Option.or_eq_none_iff] at hnone
    have other : key≠p.1 := by
      intro hk
      simp [Update.key,hk] at hnone
    have absent := (h.2 key).1 hnone.1
    have hs := lookup_notify_isSome c p.1 key p.2
    simpa [other,absent] using hs
  · intro q hq
    have nil : (c.entry key).consensus=.nil ∧
        ((c.data.lookup key).isSome=true ∨ key=p.1) := by
      cases hc : creator I key with
      | none =>
        rw [creator_snoc,hc,Option.none_or] at hq
        split_ifs at hq with hk
        exact ⟨by simp [entry,(h.2 key).1 hc],.inr hk.symm⟩
      | some w =>
        rw [creator_snoc,hc,Option.some_or,Option.some.injEq] at hq
        subst w
        obtain ⟨v,hv,hn⟩ := (h.2 key).2 q hc
        exact ⟨by simp [entry,hv,hn],.inl (by simp [hv])⟩
    have hs := lookup_notify_isSome c p.1 key p.2
    have found : ((c.notify p.1 p.2).data.lookup key).isSome=true := by
      rw [hs]
      rcases nil.2 with hp|hp <;> simp [hp]
    obtain ⟨v,hv⟩ := Option.isSome_iff_exists.mp found
    have kept := entry_notify_consensus c p.1 key p.2
    rw [entry,hv,Option.getD_some,nil.1] at kept
    exact ⟨v,hv,kept⟩

theorem CreatorKept.set {I : List Update} {c d : GossipCacheManager} (h : CreatorKept I c)
    (m : MyBroadcastMessage) (hd : update c (.inr m)=some d) : CreatorKept (I++[.inr m]) d := by
  obtain ⟨⟨d',bs⟩,hset,rfl⟩ := Option.map_eq_some_iff.mp hd
  have created : CreatedByReport (I++[.inr m]) m.key := by
    cases hc : creator I m.key with
    | none => exact ⟨m,by simp [creator_snoc,hc,Update.key]⟩
    | some w =>
      cases w with
      | inl p =>
        have hnone := (set_eq_none c m).mpr ((h.2 m.key).2 p hc)
        rw [hnone] at hset
        cases hset
      | inr n => exact ⟨n,by rw [creator_snoc,hc,Option.some_or]⟩
  have elsewhere (key : GoString) (hk : key≠m.key) :
      creator (I++[.inr m]) key=creator I key ∧ d'.data.lookup key=c.data.lookup key := by
    refine ⟨by simp [creator_snoc,Update.key,hk.symm],?_⟩
    rcases set_cases c d' m bs hset with ⟨rfl,-⟩|⟨-,-,v,hd,-⟩
    · rfl
    · rw [hd,lookup_insert_ite,if_neg hk]
  refine ⟨?_,?_⟩
  · intro n hn
    cases List.mem_append.mp (by simpa using hn : n∈reports I++[m]) with
    | inl hn =>
      obtain ⟨k,hk⟩ := h.1 n hn
      exact ⟨k,by rw [creator_snoc,hk,Option.some_or]⟩
    | inr hn => exact List.mem_singleton.mp hn ▸ created
  · intro key
    by_cases hk : key=m.key
    · subst key
      obtain ⟨n,hn⟩ := created
      simp [hn]
    · rw [(elsewhere key hk).1,(elsewhere key hk).2]
      exact h.2 key

theorem run_update_creatorKept (I : List Update) (c : GossipCacheManager)
    (hr : run update .new I=some c) : CreatorKept I c := by
  refine run_history update .new CreatorKept ?_ ?_ I c hr
  · exact ⟨by simp [reports],fun key => by simp [creator,new]⟩
  · intro es u c d _ kept hu
    cases u with
    | inl p =>
      obtain rfl := Option.some.inj hu
      exact kept.notify p
    | inr m => exact kept.set m hu

end GossipCacheManager

/-- An interleaving completes without a panic, and then with the raft fields of
its updates alone and the reports of its messages alone, exactly when no raft
update is the first to name a key that a report names. -/
theorem interleaving_merged_iff (I : List Update) :
    (∃ r c,GossipCacheManager.runReports (reports I)=some r ∧
        run GossipCacheManager.update .new I=some c ∧
        GossipCacheManager.Merged (GossipCacheManager.foldNotifies (notifies I)) r c) ↔
      ∀ m∈reports I,CreatedByReport I m.key := by
  constructor
  · rintro ⟨r,c,-,hc,-⟩
    exact (GossipCacheManager.run_update_creatorKept I c hc).1
  · exact GossipCacheManager.run_update_merged I

/-- Two interleavings of the same updates and reports that both complete end in
the same state. -/
theorem interleavings_agree (I J : List Update) (c d : GossipCacheManager)
    (hn : notifies I=notifies J) (hr : reports I=reports J)
    (hI : run GossipCacheManager.update .new I=some c)
    (hJ : run GossipCacheManager.update .new J=some d) : c=d := by
  have okI := (GossipCacheManager.run_update_creatorKept I c hI).1
  have okJ := (GossipCacheManager.run_update_creatorKept J d hJ).1
  obtain ⟨r,c',hrI,hc,mc⟩ := GossipCacheManager.run_update_merged I okI
  obtain ⟨s,d',hrJ,hd,md⟩ := GossipCacheManager.run_update_merged J okJ
  obtain rfl : c=c' := Option.some.inj (hI.symm.trans hc)
  obtain rfl : d=d' := Option.some.inj (hJ.symm.trans hd)
  rw [←hr,hrI] at hrJ
  obtain rfl := Option.some.inj hrJ
  rw [←hn] at md
  exact mc.unique md

/-- Replaying one NOTIFY_STATUS entry before the first report of its key arrives. -/
theorem interleaving_nil_map_panic :
    run GossipCacheManager.update .new
      [.inl (goStr "k",.status gossipUp),
        .inr ⟨1,goStr "n",goStr "k",goStr "v",gossipUp⟩]=none := by
  decide

end StCache
