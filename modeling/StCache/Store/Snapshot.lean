import StCache.Store.Codec
import StCache.Store.Fields

namespace StCache

/-- The replicated state, everything FSM.Apply writes: the cache map and, for
every key, the four raft fields. -/
def Fsm.SameReplicated (f g : Fsm) : Prop :=
  f.cm=g.cm ∧ ∀ key,f.gcm.replicated key=g.gcm.replicated key

/-- FSM.Snapshot captures the cache and nothing of the gossip store. -/
def Fsm.snapshot (f : Fsm) : CacheManager := f.cm

/-- snapshot.Persist. A failed Write or Close of the sink cancels the snapshot. -/
def persist (j : MapCodec) (cm : CacheManager) (write close : Bool) : Option GoString :=
  if write then if close then some (cm.marshal j) else none else none

/-- FSM.Restore -/
def Fsm.restore (j : MapCodec) (f : Fsm) (serialized : GoString) : Fsm :=
  {f with cm := f.cm.unMarshal j serialized}

/-- A snapshot taken after P, restored over some prior state and followed by S,
gives the replicated state of replaying P and S from the empty state. -/
def SnapshotAgrees (j : MapCodec) (unmarshal : GoString → Option LogEntryData)
    (prior : Fsm) (P S : List GoString) : Prop :=
  ∃ p bytes r q,run (Fsm.apply unmarshal) .new P=some p ∧
    persist j p.snapshot true true=some bytes ∧
    run (Fsm.apply unmarshal) (prior.restore j bytes) S=some r ∧
    run (Fsm.apply unmarshal) .new (P++S)=some q ∧ r.SameReplicated q

/-- The suffix writes the field of the key, or the receiving replica already
held the value that the prefix left there. -/
def Covered {α : Type} (F : Field α) (unmarshal : GoString → Option LogEntryData)
    (prior : Fsm) (P S : List GoString) (key : GoString) : Prop :=
  (lastWrite F key (S.filterMap unmarshal)).isSome ∨
    F.read (prior.gcm.replicated key)=
      (lastWrite F key (P.filterMap unmarshal)).getD (F.read {})

theorem run_apply (unmarshal : GoString → Option LogEntryData) (f : Fsm) (ds : List GoString)
    (hd : ∀ d∈ds,(unmarshal d).isSome) :
    run (Fsm.apply unmarshal) f ds=run Fsm.applyEntry f (ds.filterMap unmarshal) := by
  induction ds generalizing f with
  | nil => rfl
  | cons d ds ih =>
    obtain ⟨e,he⟩ := Option.isSome_iff_exists.mp (hd d (by simp))
    have tail (g : Fsm) := ih g (fun x hx => hd x (by simp [hx]))
    simp only [List.filterMap_cons,he,run_cons,Fsm.apply,Option.bind_some,tail]

/-- A live cache: an allocated map of valid UTF-8 strings. -/
def Utf8Cache (c : CacheManager) : Prop := ∃ t,c.data=.alloc t ∧ Utf8Table t

theorem Utf8Table.insert {t : Table GoString GoString} (h : Utf8Table t) {k v : GoString}
    (hk : ValidUtf8 k) (hv : ValidUtf8 v) : Utf8Table (Finmap.insert k v t) := by
  intro a b hab
  rw [lookup_insert_ite] at hab
  split_ifs at hab with he
  · cases hab
    exact ⟨he ▸ hk,hv⟩
  · exact h a b hab

theorem Utf8Table.erase {t : Table GoString GoString} (h : Utf8Table t) (k : GoString) :
    Utf8Table (Finmap.erase k t) := by
  intro a b hab
  rw [lookup_erase_ite] at hab
  split_ifs at hab
  exact h a b hab

/-- Entries with valid strings keep the cache live and never panic. -/
theorem CacheManager.replay_utf8 (c : CacheManager) (e : LogEntryData) (h : Utf8Cache c)
    (he : ValidUtf8 e.key ∧ ValidUtf8 e.value) : ∃ d,c.replay e=some d ∧ Utf8Cache d := by
  obtain ⟨t,ht,hu⟩ := h
  unfold replay
  cases e.cmd with
  | set =>
    refine ⟨⟨.alloc (t.insert e.key e.value)⟩,?_,_,rfl,hu.insert he.1 he.2⟩
    simp [set,ht]
  | delete =>
    refine ⟨_,rfl,t.erase e.key,?_,hu.erase e.key⟩
    simp [del,ht,GoMap.delete]
  | _ => exact ⟨c,rfl,t,ht,hu⟩

theorem CacheManager.run_replay_utf8 (c : CacheManager) (es : List LogEntryData)
    (h : Utf8Cache c) (he : ∀ e∈es,ValidUtf8 e.key ∧ ValidUtf8 e.value) :
    ∃ d,run CacheManager.replay c es=some d ∧ Utf8Cache d := by
  induction es generalizing c with
  | nil => exact ⟨c,rfl,h⟩
  | cons e es ih =>
    obtain ⟨d,hd,hu⟩ := c.replay_utf8 e h (he e (by simp))
    obtain ⟨f,hf,hv⟩ := ih d hu (fun x hx => he x (by simp [hx]))
    exact ⟨f,by rw [run_cons,hd,Option.bind_some,hf],hv⟩

theorem utf8Cache_new : Utf8Cache .new := ⟨∅,rfl,fun k v h => by simp at h⟩

theorem decoded_utf8 {unmarshal : GoString → Option LogEntryData} (hu : Utf8Entries unmarshal)
    (ds : List GoString) : ∀ e∈ds.filterMap unmarshal,ValidUtf8 e.key ∧ ValidUtf8 e.value := by
  intro e he
  obtain ⟨d,-,hd⟩ := List.mem_filterMap.mp he
  exact hu d e hd

/-- Restoring a snapshot of a live cache replaces the cache by exactly that one. -/
theorem restore_persisted (j : MapCodec) (hj : j.RoundTrips) (prior : Fsm) (c : CacheManager)
    (h : Utf8Cache c) : prior.restore j (c.marshal j)={prior with cm := c} := by
  obtain ⟨t,ht,hu⟩ := h
  have back : j.decode (j.marshal c.data)=some (.alloc t) := by rw [ht]; exact hj t hu
  cases c
  simp only at ht
  subst ht
  simp [Fsm.restore,CacheManager.unMarshal,CacheManager.marshal,back]

section Restore
variable (unmarshal : GoString → Option LogEntryData)

/-- Decodable entries replay on the two stores of a live replica without a panic. -/
theorem run_apply_live (hu : Utf8Entries unmarshal) (ds : List GoString)
    (hd : ∀ d∈ds,(unmarshal d).isSome) (f : Fsm) (live : Utf8Cache f.cm) :
    ∃ c,run CacheManager.replay f.cm (ds.filterMap unmarshal)=some c ∧ Utf8Cache c ∧
      run (Fsm.apply unmarshal) f ds=
        some ⟨c,(ds.filterMap unmarshal).foldl GossipCacheManager.replay f.gcm⟩ := by
  obtain ⟨c,hc,hl⟩ := f.cm.run_replay_utf8 (ds.filterMap unmarshal) live (decoded_utf8 hu ds)
  refine ⟨c,hc,hl,?_⟩
  rw [run_apply unmarshal f ds hd]
  exact (run_applyEntry _ _ _).mpr ⟨hc,rfl⟩

theorem covered_iff {α : Type} (F : Field α) (prior : Fsm) (P S : List GoString) (key : GoString) :
    F.read (((S.filterMap unmarshal).foldl GossipCacheManager.replay prior.gcm).replicated key)=
      F.read (((S.filterMap unmarshal).foldl GossipCacheManager.replay
        ((P.filterMap unmarshal).foldl GossipCacheManager.replay .new)).replicated key) ↔
    Covered F unmarshal prior P S key := by
  have zero : GossipCacheManager.new.replicated key={} := rfl
  have restored := read_replay_log F key prior.gcm (S.filterMap unmarshal)
  have replayed := read_replay_log F key
    ((P.filterMap unmarshal).foldl GossipCacheManager.replay .new) (S.filterMap unmarshal)
  have left := read_replay_log F key .new (P.filterMap unmarshal)
  rw [zero] at left
  rw [restored,replayed,left]
  unfold Covered
  cases lastWrite F key (S.filterMap unmarshal) <;> simp

/-- Both ways give the cache of the whole log, so only the raft fields can differ. -/
theorem snapshotAgrees_iff_fields (j : MapCodec) (hj : j.RoundTrips) (hu : Utf8Entries unmarshal)
    (P S : List GoString) (hP : ∀ d∈P,(unmarshal d).isSome) (hS : ∀ d∈S,(unmarshal d).isSome)
    (prior : Fsm) :
    SnapshotAgrees j unmarshal prior P S ↔ ∀ key,
      ((S.filterMap unmarshal).foldl GossipCacheManager.replay prior.gcm).replicated key=
        ((S.filterMap unmarshal).foldl GossipCacheManager.replay
          ((P.filterMap unmarshal).foldl GossipCacheManager.replay .new)).replicated key := by
  obtain ⟨cp,-,live,runP⟩ := run_apply_live unmarshal hu P hP .new utf8Cache_new
  obtain ⟨cr,hcr,-,runR⟩ := run_apply_live unmarshal hu S hS {prior with cm := cp} live
  obtain ⟨cq,hcq,-,runQ⟩ := run_apply_live unmarshal hu S hS
    ⟨cp,(P.filterMap unmarshal).foldl GossipCacheManager.replay .new⟩ live
  obtain rfl : cr=cq := Option.some.inj (hcr.symm.trans hcq)
  have whole := run_append (Fsm.apply unmarshal) .new P S
  rw [runP,Option.bind_some] at whole
  rw [←restore_persisted j hj prior cp live] at runR
  constructor
  · rintro ⟨p,bytes,r,q,hp,hb,hr,hq,same⟩
    obtain rfl := Option.some.inj (runP.symm.trans hp)
    cases hb
    obtain rfl := Option.some.inj (runR.symm.trans hr)
    obtain rfl := Option.some.inj ((whole.trans runQ).symm.trans hq)
    exact same.2
  · intro same
    exact ⟨_,_,_,_,runP,rfl,runR,whole.trans runQ,rfl,same⟩

end Restore

/-- The snapshot holds the cache map only. After a restore each raft field of a
key is right exactly when the suffix rewrites it or the receiving replica
already held the value the prefix left. -/
theorem snapshot_restore_iff (j : MapCodec) (unmarshal : GoString → Option LogEntryData)
    (hj : j.RoundTrips) (hu : Utf8Entries unmarshal) (P S : List GoString)
    (hd : ∀ d∈P++S,(unmarshal d).isSome) (prior : Fsm) :
    SnapshotAgrees j unmarshal prior P S ↔
      ∀ key,Covered fieldStatus unmarshal prior P S key ∧
        Covered fieldEventTime unmarshal prior P S key ∧
        Covered fieldEmpty unmarshal prior P S key ∧
        Covered fieldEmptyTime unmarshal prior P S key := by
  have hP : ∀ d∈P,(unmarshal d).isSome := fun d h => hd d (by simp [h])
  have hS : ∀ d∈S,(unmarshal d).isSome := fun d h => hd d (by simp [h])
  rw [snapshotAgrees_iff_fields unmarshal j hj hu P S hP hS prior]
  apply forall_congr'
  intro key
  rw [replicated_eq_iff,covered_iff,covered_iff,covered_iff,covered_iff]

def setEntry : GoString := marshalEntry (goStr "SET") (goStr "k") (goStr "10.0.0.1")

def statusEntry (status : GoString) : GoString :=
  marshalEntry (goStr "NOTIFY_STATUS") (goStr "k") status

/-- A status that the suffix records again survives the restore. -/
theorem snapshot_restore_iff_rerecorded :
    SnapshotAgrees jsonMap unmarshalEntry .new [setEntry,statusEntry gossipUp]
      [statusEntry gossipDown] := by
  refine (snapshot_restore_iff jsonMap unmarshalEntry jsonMap_roundTrips unmarshalEntry_utf8
    [setEntry,statusEntry gossipUp] [statusEntry gossipDown] (by decide +kernel) .new).mpr ?_
  have before : [setEntry,statusEntry gossipUp].filterMap unmarshalEntry=
      [⟨.set,goStr "k",goStr "10.0.0.1"⟩,⟨.notifyStatus,goStr "k",gossipUp⟩] := by decide +kernel
  have after : [statusEntry gossipDown].filterMap unmarshalEntry=
      [⟨.notifyStatus,goStr "k",gossipDown⟩] := by decide +kernel
  intro key
  have fresh : Fsm.new.gcm.replicated key={} := rfl
  simp only [Covered,before,after,fresh]
  by_cases hk : goStr "k"=key
  · simp [lastWrite,entryWrite,LogEntryData.updateOf,LogEntryData.update,hk,fieldStatus,
      fieldEventTime,fieldEmpty,fieldEmptyTime]
  · simp [lastWrite,entryWrite,LogEntryData.updateOf,hk]

/-- The status recorded before the snapshot is gone after it. -/
theorem snapshot_loses_status :
    ¬SnapshotAgrees jsonMap unmarshalEntry .new [statusEntry gossipUp] [] := by
  rintro ⟨p,bytes,r,q,hp,-,hr,hq,same⟩
  have recorded : (run (Fsm.apply unmarshalEntry) .new ([statusEntry gossipUp]++[])).map
      (fun f => (f.gcm.replicated (goStr "k")).prevConsensus)=some gossipUp := by decide +kernel
  rw [hq,Option.map_some,Option.some_inj,←same.2 (goStr "k")] at recorded
  have lost : (Fsm.new.gcm.replicated (goStr "k")).prevConsensus≠gossipUp := by decide +kernel
  cases hr
  exact lost recorded

end StCache
