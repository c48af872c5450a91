import StCache.Store.Fields
import StCache.Store.Scavenger

namespace StCache

/-- What one node does locally: it applies the next log entry, takes a gossip
report, or runs a whole scavenge pass. -/
inductive NodeStep where
  | apply (e : LogEntryData)
  | report (m : MyBroadcastMessage)
  | scavenge (members : List GoString) (order : List (GoString × List GoString))
  deriving DecidableEq

/-- None is a panic, or a pass in an order the maps do not allow. -/
def Fsm.nodeStep (f : Fsm) : NodeStep → Option Fsm
  | .apply e => f.applyEntry e
  | .report m => (f.gcm.set m).map (fun r => {f with gcm := r.1})
  | .scavenge members order =>
    if f.gcm.ScavengeOrder order then
      some {f with gcm := f.gcm.scavenge f.cm.clone members order}
    else none

/-- The log prefix a node has applied. -/
def applied (T : List NodeStep) : List LogEntryData :=
  T.filterMap (fun s => match s with | .apply e => some e | _ => none)

@[simp] theorem applied_nil : applied []=[] := rfl
@[simp] theorem applied_apply (e : LogEntryData) : applied [.apply e]=[e] := rfl
@[simp] theorem applied_report (m : MyBroadcastMessage) : applied [.report m]=[] := rfl
@[simp] theorem applied_scavenge (members : List GoString)
    (order : List (GoString × List GoString)) : applied [.scavenge members order]=[] := rfl

theorem applied_append (T U : List NodeStep) : applied (T++U)=applied T++applied U :=
  List.filterMap_append

/-- The key is not in the cache map after this log. -/
def AbsentAfter (key : GoString) (es : List LogEntryData) : Prop :=
  ∃ c,run CacheManager.replay .new es=some c ∧ c.data.get? key=none

section Dropped
variable {α : Type} (F : Field α) (key : GoString)

/-- The node ran a pass while the key was absent and the field has not been
written since. -/
def Dropped (T : List NodeStep) : Prop :=
  ∃ U V members order,T=U++.scavenge members order::V ∧ AbsentAfter key (applied U) ∧
    lastWrite F key (applied V)=none

theorem not_dropped_nil : ¬Dropped F key [] := by
  rintro ⟨U,V,members,order,h,-⟩
  simp at h

theorem dropped_snoc (T : List NodeStep) (s : NodeStep) :
    Dropped F key (T++[s]) ↔
      (∃ members order,s=.scavenge members order ∧ AbsentAfter key (applied T)) ∨
        Dropped F key T ∧ lastWrite F key (applied [s])=none := by
  constructor
  · rintro ⟨U,V,members,order,h,absent,last⟩
    rcases List.eq_nil_or_concat V with rfl|⟨V',v,rfl⟩
    · obtain ⟨rfl,hs⟩ := List.append_inj' h rfl
      exact .inl ⟨members,order,by simpa using hs,absent⟩
    · rw [List.concat_eq_append,←List.cons_append,←List.append_assoc] at h
      obtain ⟨rfl,hs⟩ := List.append_inj' h rfl
      obtain rfl : s=v := by simpa using hs
      rw [List.concat_eq_append,applied_append,lastWrite_append,Option.or_eq_none_iff] at last
      exact .inr ⟨⟨U,V',members,order,rfl,absent,last.2⟩,last.1⟩
  · rintro (⟨members,order,rfl,absent⟩|⟨⟨U,V,members,order,rfl,absent,hV⟩,hs⟩)
    · exact ⟨T,[],members,order,rfl,absent,rfl⟩
    · refine ⟨U,V++[s],members,order,by simp,absent,?_⟩
      rw [applied_append,lastWrite_append,hs,hV,Option.or_none]

end Dropped

/-- The cache map of a node is that of its log, whatever else the node did. -/
theorem run_nodeStep_cm (T : List NodeStep) (f : Fsm)
    (h : run Fsm.nodeStep .new T=some f) :
    run CacheManager.replay .new (applied T)=some f.cm := by
  refine run_history Fsm.nodeStep .new
    (fun T f => run CacheManager.replay .new (applied T)=some f.cm) rfl ?_ T f h
  intro T s u g _ ih hs
  rw [applied_append]
  cases s with
  | apply e =>
    have hcm := ((Fsm.applyEntry_some u g e).mp hs).1
    exact (run_snoc _ _ _ _ _).mpr ⟨u.cm,ih,hcm⟩
  | report m =>
    obtain ⟨r,-,rfl⟩ := Option.map_eq_some_iff.mp hs
    simpa using ih
  | scavenge members order =>
    simp only [Fsm.nodeStep,Option.ite_none_right_eq_some] at hs
    obtain ⟨-,hg⟩ := hs
    cases hg
    simpa using ih

theorem absentAfter_iff (T : List NodeStep) (f : Fsm) (h : run Fsm.nodeStep .new T=some f)
    (key : GoString) : AbsentAfter key (applied T) ↔ f.cm.data.get? key=none := by
  have hcm := run_nodeStep_cm T f h
  constructor
  · rintro ⟨c,hc,absent⟩
    obtain rfl : f.cm=c := Option.some.inj (hcm.symm.trans hc)
    exact absent
  · exact fun absent => ⟨f.cm,hcm,absent⟩

/-- A replicated field reads as zero once dropped and otherwise as its last
logged value. -/
def FieldHistory {α : Type} (F : Field α) (key : GoString) (T : List NodeStep) (f : Fsm) : Prop :=
  (Dropped F key T → F.read (f.gcm.replicated key)=F.read {}) ∧
    (¬Dropped F key T → F.read (f.gcm.replicated key)=
      (lastWrite F key (applied T)).getD (F.read {}))

theorem FieldHistory.step {α : Type} (F : Field α) (key : GoString) (T : List NodeStep)
    (s : NodeStep) (f g : Fsm) (hT : run Fsm.nodeStep .new T=some f)
    (ih : FieldHistory F key T f) (hs : f.nodeStep s=some g) : FieldHistory F key (T++[s]) g := by
  unfold FieldHistory
  rw [dropped_snoc,applied_append,lastWrite_append]
  cases s with
  | apply e =>
    have hg := ((Fsm.applyEntry_some f g e).mp hs).2
    have single : lastWrite F key (applied [.apply e])=entryWrite F key e := by
      simp [lastWrite]
    rw [hg,read_replay,single]
    cases entryWrite F key e with
    | none => simpa [FieldHistory] using ih
    | some x => simp
  | report m =>
    obtain ⟨⟨c,bs⟩,hc,rfl⟩ := Option.map_eq_some_iff.mp hs
    have kept := GossipCacheManager.replicated_set f.gcm c m bs hc key
    simpa [FieldHistory,kept] using ih
  | scavenge members order =>
    simp only [Fsm.nodeStep,Option.ite_none_right_eq_some] at hs
    obtain ⟨ho,hg⟩ := hs
    cases hg
    have pruned := f.gcm.replicated_scavenge f.cm.clone members order ho key
    rw [CacheManager.lookup_clone] at pruned
    rw [pruned]
    by_cases absent : f.cm.data.get? key=none
    · have hA := (absentAfter_iff T f hT key).mpr absent
      simp [absent,hA]
    · have hA : ¬AbsentAfter key (applied T) :=
        fun h => absent ((absentAfter_iff T f hT key).mp h)
      simpa [FieldHistory,absent,hA] using ih

theorem run_fieldHistory {α : Type} (F : Field α) (key : GoString) (T : List NodeStep) (f : Fsm)
    (h : run Fsm.nodeStep .new T=some f) : FieldHistory F key T f := by
  refine run_history Fsm.nodeStep .new (FieldHistory F key) ?_ ?_ T f h
  · exact ⟨fun hd => absurd hd (not_dropped_nil F key),fun _ => rfl⟩
  · intro T s u g hT ih hs
    exact ih.step F key T s u g hT hs

/-- Both nodes dropped the field since its last write, or neither did; a field
whose last logged value is zero does not care. -/
def SameDrops {α : Type} (F : Field α) (key : GoString) (T U : List NodeStep) : Prop :=
  ∀ x,lastWrite F key (applied T)=some x → x≠F.read {} → (Dropped F key T ↔ Dropped F key U)

theorem read_eq_iff_sameDrops {α : Type} (F : Field α) (key : GoString) (T U : List NodeStep)
    (f g : Fsm) (hf : run Fsm.nodeStep .new T=some f) (hg : run Fsm.nodeStep .new U=some g)
    (same : applied T=applied U) :
    F.read (f.gcm.replicated key)=F.read (g.gcm.replicated key) ↔ SameDrops F key T U := by
  have left := run_fieldHistory F key T f hf
  have right := run_fieldHistory F key U g hg
  rw [FieldHistory,←same] at right
  unfold FieldHistory at left
  unfold SameDrops
  by_cases hT : Dropped F key T <;> by_cases hU : Dropped F key U
  · simp [left.1 hT,right.1 hU,hT,hU]
  · rw [left.1 hT,right.2 hU]
    cases lastWrite F key (applied T) <;> simp [hT,hU,eq_comm]
  · rw [left.2 hT,right.1 hU]
    cases lastWrite F key (applied T) <;> simp [hT,hU]
  · simp [left.2 hT,right.2 hU,hT,hU]

/-- Two nodes with the same log agree on every key of the cache map exactly when
no field of such a key was dropped by a scavenge pass on one node only. -/
theorem replica_agreement_iff (T U : List NodeStep) (f g : Fsm)
    (hf : run Fsm.nodeStep .new T=some f) (hg : run Fsm.nodeStep .new U=some g)
    (same : applied T=applied U) :
    (f.cm=g.cm ∧ ∀ key,(f.cm.data.get? key).isSome=true →
        f.gcm.replicated key=g.gcm.replicated key) ↔
      ∀ key,¬AbsentAfter key (applied T) →
        SameDrops fieldStatus key T U ∧ SameDrops fieldEventTime key T U ∧
          SameDrops fieldEmpty key T U ∧ SameDrops fieldEmptyTime key T U := by
  have maps : f.cm=g.cm := by
    have ht := run_nodeStep_cm T f hf
    have hu := run_nodeStep_cm U g hg
    rw [same,hu] at ht
    exact (Option.some.inj ht).symm
  have fields (key : GoString) : f.gcm.replicated key=g.gcm.replicated key ↔
      SameDrops fieldStatus key T U ∧ SameDrops fieldEventTime key T U ∧
        SameDrops fieldEmpty key T U ∧ SameDrops fieldEmptyTime key T U := by
    rw [replicated_eq_iff,read_eq_iff_sameDrops fieldStatus key T U f g hf hg same,
      read_eq_iff_sameDrops fieldEventTime key T U f g hf hg same,
      read_eq_iff_sameDrops fieldEmpty key T U f g hf hg same,
      read_eq_iff_sameDrops fieldEmptyTime key T U f g hf hg same]
  have present (key : GoString) :
      (f.cm.data.get? key).isSome=true ↔ ¬AbsentAfter key (applied T) := by
    rw [absentAfter_iff T f hf key,Option.isSome_iff_ne_none]
  simp only [maps,true_and] at *
  simp only [present,fields]

/-- A key is deleted and set again, once with a pass in between. -/
def prunedTrace : List NodeStep :=
  [.apply ⟨.set,goStr "k",goStr "v"⟩,.apply ⟨.notifyStatus,goStr "k",gossipUp⟩,
    .apply ⟨.delete,goStr "k",[]⟩,.scavenge [] [(goStr "k",[])],
    .apply ⟨.set,goStr "k",goStr "v"⟩]

def unprunedTrace : List NodeStep :=
  [.apply ⟨.set,goStr "k",goStr "v"⟩,.apply ⟨.notifyStatus,goStr "k",gossipUp⟩,
    .apply ⟨.delete,goStr "k",[]⟩,.apply ⟨.set,goStr "k",goStr "v"⟩]

theorem replica_agreement_iff_pruned :
    ∃ f g,run Fsm.nodeStep .new prunedTrace=some f ∧ run Fsm.nodeStep .new unprunedTrace=some g ∧
      ((f.cm=g.cm ∧ ∀ key,(f.cm.data.get? key).isSome=true →
          f.gcm.replicated key=g.gcm.replicated key) ↔
        ∀ key,¬AbsentAfter key (applied prunedTrace) →
          SameDrops fieldStatus key prunedTrace unprunedTrace ∧
            SameDrops fieldEventTime key prunedTrace unprunedTrace ∧
            SameDrops fieldEmpty key prunedTrace unprunedTrace ∧
            SameDrops fieldEmptyTime key prunedTrace unprunedTrace) := by
  refine ⟨(run Fsm.nodeStep .new prunedTrace).get (by decide),
    (run Fsm.nodeStep .new unprunedTrace).get (by decide),by simp,by simp,?_⟩
  exact replica_agreement_iff prunedTrace unprunedTrace _ _ (by simp) (by simp) (by decide)

/-- The node that ran the pass lost the recorded UP, the other one kept it. -/
theorem replicas_disagree_after_pass :
    applied prunedTrace=applied unprunedTrace ∧
      (run Fsm.nodeStep .new prunedTrace).map (fun f =>
        (f.cm.data.get? (goStr "k"),(f.gcm.replicated (goStr "k")).prevConsensus))=
          some (some (goStr "v"),[]) ∧
      (run Fsm.nodeStep .new unprunedTrace).map (fun f =>
        (f.cm.data.get? (goStr "k"),(f.gcm.replicated (goStr "k")).prevConsensus))=
          some (some (goStr "v"),gossipUp) := by
  decide

end StCache
