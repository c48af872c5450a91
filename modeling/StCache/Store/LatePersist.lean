import StCache.Store.Snapshot

namespace StCache

/-- What an entry makes of a key's value, none where it leaves it alone. -/
def LogEntryData.valueOf (key : GoString) (e : LogEntryData) : Option (Option GoString) :=
  if e.key=key then
    match e.cmd with
    | .set => some (some e.value)
    | .delete => some none
    | _ => none
  else none

theorem CacheManager.get?_replay (key : GoString) (c : CacheManager) (e : LogEntryData)
    (d : CacheManager) (h : c.replay e=some d) :
    d.data.get? key=(e.valueOf key).getD (c.data.get? key) := by
  unfold replay at h
  unfold LogEntryData.valueOf
  cases hc : e.cmd with
  | set =>
    rw [hc] at h
    rw [c.get?_set d e.key e.value key h]
    by_cases hk : e.key=key
    · simp [hk]
    · simp [hk,Ne.symm hk]
  | delete =>
    rw [hc] at h
    cases h
    rw [get?_del]
    by_cases hk : e.key=key
    · simp [hk]
    · simp [hk,Ne.symm hk]
  | _ =>
    rw [hc] at h
    cases h
    split_ifs <;> rfl

/-- A log leaves in every key what its last entry for the key wrote. -/
theorem CacheManager.get?_run (key : GoString) (c d : CacheManager) (es : List LogEntryData)
    (h : run CacheManager.replay c es=some d) :
    d.data.get? key=(lastOf (LogEntryData.valueOf key) es).getD (c.data.get? key) :=
  read_run (LogEntryData.valueOf key) CacheManager.replay (fun c => c.data.get? key)
    (CacheManager.get?_replay key) c d es h

theorem Utf8Cache.ext {c d : CacheManager} (hc : Utf8Cache c) (hd : Utf8Cache d)
    (h : ∀ key,c.data.get? key=d.data.get? key) : c=d := by
  obtain ⟨s,hs,-⟩ := hc
  obtain ⟨t,ht,-⟩ := hd
  cases c
  cases d
  simp only at hs ht
  subst hs ht
  have same : s=t := Finmap.ext_lookup h
  rw [same]

/-- Entries that are in the snapshot already and are replayed once more change
nothing: the last entry for a key decides, and it is replayed too. -/
theorem CacheManager.replay_again (c d e f : CacheManager) (es fs : List LogEntryData)
    (hd : run CacheManager.replay c es=some d) (he : run CacheManager.replay c (es++fs)=some e)
    (hf : run CacheManager.replay d (es++fs)=some f) (key : GoString) :
    f.data.get? key=e.data.get? key := by
  rw [CacheManager.get?_run key d f _ hf,CacheManager.get?_run key c d _ hd,
    CacheManager.get?_run key c e _ he]
  exact lastOf_absorb (LogEntryData.valueOf key) es fs (c.data.get? key)

/-- A snapshot taken after P whose Persist marshals only after Q, restored over any
state and followed by the entries after P, gives the cache of the whole log; the
restored map takes further writes. -/
theorem late_persist_restores (j : MapCodec) (unmarshal : GoString → Option LogEntryData)
    (hj : j.RoundTrips) (hu : Utf8Entries unmarshal) (P Q R : List GoString)
    (hd : ∀ d∈P++(Q++R),(unmarshal d).isSome) (prior : Fsm) :
    ∃ p bytes r q,run (Fsm.apply unmarshal) .new (P++Q)=some p ∧
      persist j p.snapshot true true=some bytes ∧
      (prior.restore j bytes).cm.data≠.nil ∧
      (∀ key value,((prior.restore j bytes).cm.set key value).isSome) ∧
      run (Fsm.apply unmarshal) (prior.restore j bytes) (Q++R)=some r ∧
      run (Fsm.apply unmarshal) .new (P++(Q++R))=some q ∧ r.cm=q.cm := by
  have hP : ∀ d∈P,(unmarshal d).isSome := fun d h => hd d (by simp [h])
  have hQ : ∀ d∈Q,(unmarshal d).isSome := fun d h => hd d (by simp [h])
  have hQR : ∀ d∈Q++R,(unmarshal d).isSome := fun d h => hd d (List.mem_append_right P h)
  obtain ⟨c,-,live,runP⟩ := run_apply_live unmarshal hu P hP .new utf8Cache_new
  obtain ⟨m,hm,liveM,runQ⟩ := run_apply_live unmarshal hu Q hQ
    ⟨c,(P.filterMap unmarshal).foldl GossipCacheManager.replay .new⟩ live
  obtain ⟨e,he,liveE,runE⟩ := run_apply_live unmarshal hu (Q++R) hQR
    ⟨c,(P.filterMap unmarshal).foldl GossipCacheManager.replay .new⟩ live
  obtain ⟨f,hf,liveF,runF⟩ := run_apply_live unmarshal hu (Q++R) hQR {prior with cm := m} liveM
  rw [List.filterMap_append] at he hf
  have same : f=e := liveF.ext liveE (CacheManager.replay_again c m e f _ _ hm he hf)
  have upto := run_append (Fsm.apply unmarshal) .new P Q
  have whole := run_append (Fsm.apply unmarshal) .new P (Q++R)
  rw [runP,Option.bind_some] at upto whole
  have restored := restore_persisted j hj prior m liveM
  rw [←restored] at runF
  obtain ⟨t,ht,-⟩ := liveM
  refine ⟨_,m.marshal j,_,_,upto.trans runQ,rfl,?_,?_,runF,whole.trans runE,same⟩
  · simp [restored,ht]
  · intro key value
    simp [restored,CacheManager.set,ht]

def deleteEntry : GoString := marshalEntry (goStr "DELETE") (goStr "k") []

/-- The entries marshalled too late set a key and delete it again. -/
theorem late_persist_restores_deleted :
    ∃ p bytes r q,run (Fsm.apply unmarshalEntry) .new ([setEntry]++[deleteEntry,setEntry])=some p ∧
      persist jsonMap p.snapshot true true=some bytes ∧
      (Fsm.new.restore jsonMap bytes).cm.data≠.nil ∧
      (∀ key value,((Fsm.new.restore jsonMap bytes).cm.set key value).isSome) ∧
      run (Fsm.apply unmarshalEntry) (Fsm.new.restore jsonMap bytes)
        ([deleteEntry,setEntry]++[deleteEntry])=some r ∧
      run (Fsm.apply unmarshalEntry) .new
        ([setEntry]++([deleteEntry,setEntry]++[deleteEntry]))=some q ∧ r.cm=q.cm :=
  late_persist_restores jsonMap unmarshalEntry jsonMap_roundTrips unmarshalEntry_utf8 [setEntry]
    [deleteEntry,setEntry] [deleteEntry] (by decide +kernel) .new

end StCache
