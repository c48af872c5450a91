import StCache.Framework.GoMap
import StCache.Framework.Runs
import StCache.Framework.RwLock
import StCache.Framework.Strconv
import StCache.Store.Cache

namespace StCache

/-- The raft apply loop, and the calls of Clone or Marshal and of Get. -/
inductive LockThread where
  | apply
  | copy (i : Nat)
  | get (i : Nat)
  deriving DecidableEq

/-- The calls that change the cache. -/
inductive Mutation where
  | set (key value : GoString)
  | del (key : GoString)

namespace Mutation

/-- Set takes the lock, Del the read lock. -/
def acquire : Mutation → RwLock LockThread → Option (RwLock LockThread)
  | .set _ _,l => l.lock .apply
  | .del _,l => l.rLock .apply

def release : Mutation → RwLock LockThread → RwLock LockThread
  | .set _ _,l => l.unlock
  | .del _,l => l.rUnlock .apply

def write (data : Table GoString GoString) : Mutation → Table GoString GoString
  | .set key value => data.insert key value
  | .del key => data.erase key

/-- The call when nothing else runs. -/
def perform (c : CacheManager) : Mutation → Option CacheManager
  | .set key value => c.set key value
  | .del key => some (c.del key)

theorem perform_alloc (m : Mutation) (data : Table GoString GoString) :
    m.perform ⟨.alloc data⟩=some ⟨.alloc (m.write data)⟩ := by
  cases m <;> rfl

end Mutation

inductive ApplyPhase where
  | idle
  | called (m : Mutation)
  | locked (m : Mutation)
  | written (m : Mutation)

/-- The key of a Del that is about to delete. -/
def ApplyPhase.deleting? : ApplyPhase → Option GoString
  | .locked (.del key) => some key
  | _ => none

/-- A call of Clone or Marshal, with what the cache has contained since the call and what has
been copied. -/
inductive CopyPhase where
  | called (moments : List (Table GoString GoString))
  | copying (moments : List (Table GoString GoString)) (result : Table GoString GoString)
  | returned (moments : List (Table GoString GoString)) (result : Table GoString GoString)
  deriving DecidableEq

def CopyPhase.record (data : Table GoString GoString) : CopyPhase → CopyPhase
  | .called moments => .called (moments++[data])
  | .copying moments result => .copying (moments++[data]) result
  | .returned moments result => .returned moments result

structure LockedCache where
  data : Table GoString GoString
  lock : RwLock LockThread := {}
  apply : ApplyPhase := .idle
  copies : List CopyPhase := []

inductive LockEvent where
  | call (m : Mutation)
  | acquire
  | write
  | release
  | callCopy
  | lockCopy (i : Nat)
  | copyEntry (i : Nat) (key : GoString)
  | returnCopy (i : Nat)
  | lockGet (i : Nat)
  | readGet (i : Nat) (key value : GoString)
  | unlockGet (i : Nat)

namespace LockedCache

/-- The range over the map visits the entries in any order. One that is deleted before it is
reached is not visited, and the loop ends when no other entry is left. -/
def step (s : LockedCache) : LockEvent → Option LockedCache
  | .call m =>
    match s.apply with
    | .idle => some {s with apply := .called m}
    | _ => none
  | .acquire =>
    match s.apply with
    | .called m => (m.acquire s.lock).map (fun l => {s with lock := l,apply := .locked m})
    | _ => none
  | .write =>
    match s.apply with
    | .locked m =>
      let data := m.write s.data
      some {s with data := data,apply := .written m,copies := s.copies.map (CopyPhase.record data)}
    | _ => none
  | .release =>
    match s.apply with
    | .written m => some {s with lock := m.release s.lock,apply := .idle}
    | _ => none
  | .callCopy => some {s with copies := s.copies++[.called [s.data]]}
  | .lockCopy i =>
    match s.copies[i]? with
    | some (.called moments) => (s.lock.rLock (.copy i)).map (fun l =>
        {s with lock := l,copies := s.copies.set i (.copying moments ∅)})
    | _ => none
  | .copyEntry i key =>
    match s.copies[i]?,s.data.lookup key with
    | some (.copying moments result),some value =>
      if result.lookup key=none then
        some {s with copies := s.copies.set i (.copying moments (result.insert key value))}
      else none
    | _,_ => none
  | .returnCopy i =>
    match s.copies[i]? with
    | some (.copying moments result) =>
      if s.data.keys ⊆ result.keys then
        some {s with
          lock := s.lock.rUnlock (.copy i)
          copies := s.copies.set i (.returned moments result)}
      else none
    | _ => none
  | .lockGet i => (s.lock.rLock (.get i)).map (fun l => {s with lock := l})
  | .readGet i key value =>
    if .get i∈s.lock.readers ∧ value=(s.data.lookup key).getD [] then some s else none
  | .unlockGet i =>
    if .get i∈s.lock.readers then some {s with lock := s.lock.rUnlock (.get i)} else none

/-- What one step can do, with what it finds. -/
inductive Steps (s : LockedCache) : LockEvent → LockedCache → Prop
  | call (m : Mutation) : Steps s (.call m) {s with apply := .called m}
  | acquire {m : Mutation} {l : RwLock LockThread} (free : m.acquire s.lock=some l) :
    Steps s .acquire {s with lock := l,apply := .locked m}
  | write {m : Mutation} (locked : s.apply=.locked m) :
    Steps s .write {s with
      data := m.write s.data
      apply := .written m
      copies := s.copies.map (CopyPhase.record (m.write s.data))}
  | release (m : Mutation) : Steps s .release {s with lock := m.release s.lock,apply := .idle}
  | callCopy : Steps s .callCopy {s with copies := s.copies++[.called [s.data]]}
  | lockCopy {i : Nat} {moments : List (Table GoString GoString)} {l : RwLock LockThread}
    (called : s.copies[i]?=some (.called moments)) (free : s.lock.rLock (.copy i)=some l) :
    Steps s (.lockCopy i) {s with lock := l,copies := s.copies.set i (.copying moments ∅)}
  | copyEntry {i : Nat} {key value : GoString} {moments : List (Table GoString GoString)}
    {result : Table GoString GoString} (copying : s.copies[i]?=some (.copying moments result))
    (found : s.data.lookup key=some value) (new : result.lookup key=none) :
    Steps s (.copyEntry i key)
      {s with copies := s.copies.set i (.copying moments (result.insert key value))}
  | returnCopy {i : Nat} {moments : List (Table GoString GoString)}
    {result : Table GoString GoString} (copying : s.copies[i]?=some (.copying moments result))
    (all : s.data.keys ⊆ result.keys) :
    Steps s (.returnCopy i) {s with
      lock := s.lock.rUnlock (.copy i)
      copies := s.copies.set i (.returned moments result)}
  | lockGet {i : Nat} {l : RwLock LockThread} (free : s.lock.rLock (.get i)=some l) :
    Steps s (.lockGet i) {s with lock := l}
  | readGet (i : Nat) (key value : GoString) : Steps s (.readGet i key value) s
  | unlockGet (i : Nat) : Steps s (.unlockGet i) {s with lock := s.lock.rUnlock (.get i)}

theorem step_steps {s t : LockedCache} {e : LockEvent} (h : s.step e=some t) : s.Steps e t := by
  cases e with
  | call m =>
    simp only [step] at h
    split at h <;> cases h
    exact .call m
  | acquire =>
    simp only [step] at h
    split at h
    · obtain ⟨l,free,rfl⟩ := Option.map_eq_some_iff.mp h
      exact .acquire free
    · cases h
  | write =>
    simp only [step] at h
    split at h
    · next m locked =>
      cases h
      exact .write locked
    · cases h
  | release =>
    simp only [step] at h
    split at h <;> cases h
    exact .release _
  | callCopy =>
    cases h
    exact .callCopy
  | lockCopy i =>
    simp only [step] at h
    split at h
    · next moments called =>
      obtain ⟨l,free,rfl⟩ := Option.map_eq_some_iff.mp h
      exact .lockCopy called free
    · cases h
  | copyEntry i key =>
    simp only [step] at h
    split at h
    · next moments result value copying found =>
      split_ifs at h with new
      cases h
      exact .copyEntry copying found new
    · cases h
  | returnCopy i =>
    simp only [step] at h
    split at h
    · next moments result copying =>
      split_ifs at h with all
      cases h
      exact .returnCopy copying all
    · cases h
  | lockGet i =>
    obtain ⟨l,free,rfl⟩ := Option.map_eq_some_iff.mp h
    exact .lockGet free
  | readGet i key value =>
    simp only [step] at h
    split_ifs at h
    cases h
    exact .readGet i key value
  | unlockGet i =>
    simp only [step] at h
    split_ifs at h
    cases h
    exact .unlockGet i

/-- Only the write of the apply loop changes the cache, as the call does that runs alone. -/
theorem data_step {s t : LockedCache} {e : LockEvent} (h : s.step e=some t) :
    t.data=s.data ∨ ∃ m : Mutation,m.perform ⟨.alloc s.data⟩=some ⟨.alloc t.data⟩ := by
  cases step_steps h with
  | @write m _ => exact Or.inr ⟨m,m.perform_alloc s.data⟩
  | _ => exact Or.inl rfl

/-- The cache of any run is that of the mutations performed one after the other. -/
theorem data_sequential {s t : LockedCache} {events : List LockEvent}
    (h : run step s events=some t) :
    ∃ ms,run Mutation.perform ⟨.alloc s.data⟩ ms=some ⟨.alloc t.data⟩ := by
  refine run_history step s (fun _ u => ∃ ms,run Mutation.perform ⟨.alloc s.data⟩ ms=
    some ⟨.alloc u.data⟩) ⟨[],rfl⟩ ?_ events t h
  rintro _ e u v - ⟨ms,done⟩ last
  obtain same | ⟨m,hm⟩ := data_step last
  · rw [same]
    exact ⟨ms,done⟩
  · exact ⟨ms++[m],(run_snoc _ _ _ ms m).mpr ⟨_,done,hm⟩⟩

end LockedCache

/-- What has been copied is still there, unless the key is not or has been copied as well. -/
def CopyPhase.Calm (data : Table GoString GoString) (key : GoString) : CopyPhase → Prop
  | .copying _ result =>
    result.lookup key=none → data.lookup key≠none → result.keys ⊆ data.keys
  | _ => True

/-- No Del removes an entry that a copy has still to reach after entries that the copy has
already taken were removed. -/
def LockedCache.CalmDel (s : LockedCache) : LockEvent → Prop
  | .write => ∀ key∈s.apply.deleting?,∀ c∈s.copies,c.Calm s.data key
  | _ => True

instance (data : Table GoString GoString) (key : GoString) :
    ∀ c : CopyPhase,Decidable (c.Calm data key)
  | .called _ => isTrue trivial
  | .copying _ result => inferInstanceAs (Decidable (result.lookup key=none →
      data.lookup key≠none → result.keys ⊆ data.keys))
  | .returned _ _ => isTrue trivial

instance (s : LockedCache) : ∀ e,Decidable (s.CalmDel e)
  | .write => inferInstanceAs (Decidable (∀ key∈s.apply.deleting?,∀ c∈s.copies,c.Calm s.data key))
  | .call _ => isTrue trivial
  | .acquire => isTrue trivial
  | .release => isTrue trivial
  | .callCopy => isTrue trivial
  | .lockCopy _ => isTrue trivial
  | .copyEntry _ _ => isTrue trivial
  | .returnCopy _ => isTrue trivial
  | .lockGet _ => isTrue trivial
  | .readGet _ _ _ => isTrue trivial
  | .unlockGet _ => isTrue trivial

theorem mem_keys_iff (t : Table GoString GoString) (k : GoString) :
    k∈t.keys ↔ t.lookup k≠none := by
  rw [Finmap.mem_keys,←Finmap.lookup_isSome,Option.isSome_iff_ne_none]

/-- A copy so far: its values are those of the cache, and with the entries it has still to
reach it is what the cache contained at one moment. -/
structure CopyOf (data : Table GoString GoString) (moments : List (Table GoString GoString))
    (result : Table GoString GoString) : Prop where
  agree : ∀ k v,result.lookup k=some v → data.lookup k=none ∨ data.lookup k=some v
  moment : ∃ D∈moments,∀ k,D.lookup k=(result.lookup k).or (data.lookup k)

theorem CopyOf.start {data : Table GoString GoString} {moments : List (Table GoString GoString)}
    (now : data∈moments) : CopyOf data moments ∅ := by
  refine ⟨?_,data,now,?_⟩
  · intro k v found
    simp at found
  · intro k
    simp

theorem CopyOf.entry {data result : Table GoString GoString}
    {moments : List (Table GoString GoString)} (h : CopyOf data moments result)
    {key value : GoString} (found : data.lookup key=some value) (new : result.lookup key=none) :
    CopyOf data moments (result.insert key value) := by
  obtain ⟨D,hD,union⟩ := h.moment
  refine ⟨?_,D,hD,?_⟩
  · intro k v hv
    rw [lookup_insert_ite] at hv
    split_ifs at hv with same
    · cases hv
      rw [same]
      exact Or.inr found
    · exact h.agree k v hv
  · intro k
    rw [union k,lookup_insert_ite]
    split_ifs with same
    · rw [same,new,found]
      rfl
    · rfl

/-- The loop has reached every entry. -/
theorem CopyOf.finish {data result : Table GoString GoString}
    {moments : List (Table GoString GoString)} (h : CopyOf data moments result)
    (all : data.keys ⊆ result.keys) : result∈moments := by
  obtain ⟨D,hD,union⟩ := h.moment
  have same : D=result := by
    refine Finmap.ext_lookup ?_
    intro k
    rw [union k]
    cases found : result.lookup k with
    | some v => rfl
    | none =>
      have gone : data.lookup k=none := by
        by_contra there
        exact (mem_keys_iff result k).mp (all ((mem_keys_iff data k).mpr there)) found
      rw [gone]
      rfl
  exact same ▸ hD

theorem CopyOf.del {data result : Table GoString GoString}
    {moments : List (Table GoString GoString)} (h : CopyOf data moments result) {key : GoString}
    (calm : result.lookup key=none → data.lookup key≠none → result.keys ⊆ data.keys) :
    CopyOf (data.erase key) (moments++[data.erase key]) result := by
  have agree : ∀ k v,result.lookup k=some v →
      (data.erase key).lookup k=none ∨ (data.erase key).lookup k=some v := by
    intro k v hv
    rw [lookup_erase_ite]
    split_ifs
    · exact Or.inl rfl
    · exact h.agree k v hv
  refine ⟨agree,?_⟩
  by_cases passed : result.lookup key=none ∧ data.lookup key≠none
  · -- nothing that was copied is missing, so the moment is now
    have kept := calm passed.1 passed.2
    refine ⟨data.erase key,by simp,?_⟩
    intro k
    rw [lookup_erase_ite]
    split_ifs with same
    · rw [same,passed.1]
      rfl
    · cases copied : result.lookup k with
      | none => rfl
      | some v =>
        have there := (mem_keys_iff data k).mp (kept ((mem_keys_iff result k).mpr (by simp [copied])))
        exact (h.agree k v copied).resolve_left there
  · -- the entry was copied before or is not there: the moment stays
    obtain ⟨D,hD,union⟩ := h.moment
    refine ⟨D,List.mem_append_left _ hD,?_⟩
    intro k
    rw [union k,lookup_erase_ite]
    split_ifs with same
    · rw [same]
      cases copied : result.lookup key with
      | some v => rfl
      | none =>
        have gone : data.lookup key=none := by
          by_contra there
          exact passed ⟨copied,there⟩
        rw [gone]
    · rfl

namespace LockedCache

/-- What the call with number i has to show. -/
def Good (data : Table GoString GoString) (readers : List LockThread) (i : Nat) :
    CopyPhase → Prop
  | .called moments => data∈moments
  | .copying moments result => LockThread.copy i∈readers ∧ CopyOf data moments result
  | .returned moments result => result∈moments

structure Sound (s : LockedCache) : Prop where
  exclusive : s.lock.Exclusive
  setting : ∀ key value,s.apply=.locked (.set key value) → s.lock.writer≠none
  copies : ∀ i c,s.copies[i]?=some c → Good s.data s.lock.readers i c

theorem sound_start (data : Table GoString GoString) : Sound {data := data} := by
  refine ⟨fun _ => rfl,?_,?_⟩
  · intro key value locked
    cases locked
  · intro i c hc
    simp at hc

/-- Another thread takes or gives back the read lock. -/
theorem Good.readers {data : Table GoString GoString} {readers readers' : List LockThread}
    {i : Nat} {c : CopyPhase} (h : Good data readers i c)
    (kept : LockThread.copy i∈readers → LockThread.copy i∈readers') : Good data readers' i c := by
  cases c with
  | called moments => exact h
  | copying moments result => exact ⟨kept h.1,h.2⟩
  | returned moments result => exact h

/-- The lock and the phase of the apply loop change, the copies go on reading. -/
theorem Sound.relock {s : LockedCache} (h : s.Sound) {l : RwLock LockThread} {phase : ApplyPhase}
    (exclusive : l.Exclusive)
    (setting : ∀ key value,phase=.locked (.set key value) → l.writer≠none)
    (kept : ∀ j,LockThread.copy j∈s.lock.readers → LockThread.copy j∈l.readers) :
    Sound {s with lock := l,apply := phase} :=
  ⟨exclusive,setting,fun i c hc => (h.copies i c hc).readers (kept i)⟩

/-- One call goes on, the others keep their place among the readers. -/
theorem Sound.advance {s : LockedCache} (h : s.Sound) {l : RwLock LockThread} {i : Nat}
    {c : CopyPhase} (exclusive : l.Exclusive)
    (setting : ∀ key value,s.apply=.locked (.set key value) → l.writer≠none)
    (kept : ∀ j,j≠i → LockThread.copy j∈s.lock.readers → LockThread.copy j∈l.readers)
    (good : Good s.data l.readers i c) : Sound {s with lock := l,copies := s.copies.set i c} := by
  refine ⟨exclusive,setting,?_⟩
  intro j d hd
  simp only [List.getElem?_set] at hd
  split_ifs at hd with same
  · cases hd
    exact same ▸ good
  · exact (h.copies j d hd).readers (kept j (fun e => same e.symm))

/-- The write of Set meets no copy, and the write of Del is calm. -/
theorem Sound.mutate {s : LockedCache} (h : s.Sound) {m : Mutation}
    (locked : s.apply=.locked m) (calm : s.CalmDel .write) :
    ∀ i c,(s.copies.map (CopyPhase.record (m.write s.data)))[i]?=some c →
      Good (m.write s.data) s.lock.readers i c := by
  intro i c hc
  rw [List.getElem?_map,Option.map_eq_some_iff] at hc
  obtain ⟨d,hd,rfl⟩ := hc
  have good := h.copies i d hd
  cases d with
  | called moments => exact List.mem_append_right _ (by simp)
  | returned moments result => exact good
  | copying moments result =>
    refine ⟨good.1,?_⟩
    cases m with
    | set key value => exact absurd (h.exclusive.no_writer good.1) (h.setting key value locked)
    | del key =>
      have still := calm key (by rw [locked]; rfl) _ (List.mem_of_getElem? hd)
      exact good.2.del still

theorem Sound.acquire {s : LockedCache} (h : s.Sound) {m : Mutation} {l : RwLock LockThread}
    (hl : m.acquire s.lock=some l) : Sound {s with lock := l,apply := .locked m} := by
  cases m with
  | set key value =>
    obtain ⟨writer,readers,exclusive⟩ := RwLock.lock_eq hl
    refine h.relock exclusive (fun _ _ _ => by simp [writer]) ?_
    intro j member
    rw [readers]
    exact member
  | del key =>
    obtain ⟨-,readers,exclusive⟩ := RwLock.rLock_eq hl
    refine h.relock exclusive nofun ?_
    intro j member
    rw [readers]
    exact List.mem_cons_of_mem _ member

theorem Sound.release {s : LockedCache} (h : s.Sound) (m : Mutation) :
    Sound {s with lock := m.release s.lock,apply := .idle} := by
  cases m with
  | set key value => exact h.relock (RwLock.exclusive_unlock s.lock) nofun (fun _ member => member)
  | del key =>
    refine h.relock (h.exclusive.rUnlock .apply) nofun ?_
    intro j member
    exact (List.mem_erase_of_ne (by simp)).mpr member

theorem Sound.callCopy {s : LockedCache} (h : s.Sound) :
    Sound {s with copies := s.copies++[.called [s.data]]} := by
  refine ⟨h.exclusive,h.setting,?_⟩
  intro j c hc
  simp only [List.getElem?_append] at hc
  split_ifs at hc with old
  · exact h.copies j c hc
  · rw [List.mem_singleton.mp (List.mem_of_getElem? hc)]
    exact List.mem_singleton.mpr rfl

theorem Sound.step {s t : LockedCache} (h : s.Sound) {e : LockEvent} (calm : s.CalmDel e)
    (hs : s.step e=some t) : t.Sound := by
  cases step_steps hs with
  | call m => exact h.relock h.exclusive nofun (fun _ member => member)
  | acquire free => exact h.acquire free
  | write locked => exact ⟨h.exclusive,nofun,h.mutate locked calm⟩
  | release m => exact h.release m
  | callCopy => exact h.callCopy
  | @lockCopy i moments l called free =>
    obtain ⟨unlocked,readers,exclusive⟩ := RwLock.rLock_eq free
    refine h.advance exclusive (fun k v locked => absurd unlocked (h.setting k v locked)) ?_
      ⟨by simp [readers],CopyOf.start (h.copies i _ called)⟩
    intro j _ member
    rw [readers]
    exact List.mem_cons_of_mem _ member
  | @copyEntry i key value moments result copying found new =>
    obtain ⟨reading,copy⟩ := h.copies i _ copying
    exact h.advance h.exclusive h.setting (fun _ _ member => member)
      ⟨reading,copy.entry found new⟩
  | @returnCopy i moments result copying all =>
    obtain ⟨-,copy⟩ := h.copies i _ copying
    refine h.advance (h.exclusive.rUnlock _) h.setting ?_ (copy.finish all)
    intro j other member
    exact (List.mem_erase_of_ne (by simpa using other)).mpr member
  | lockGet free =>
    obtain ⟨unlocked,readers,exclusive⟩ := RwLock.rLock_eq free
    refine h.relock exclusive (fun k v locked => absurd unlocked (h.setting k v locked)) ?_
    intro j member
    rw [readers]
    exact List.mem_cons_of_mem _ member
  | readGet i key value => exact h
  | unlockGet i =>
    refine h.relock (h.exclusive.rUnlock _) h.setting ?_
    intro j member
    exact (List.mem_erase_of_ne (by simp)).mpr member

/-- Every copy is what the cache contained at one moment of the call, as long as every Del is
calm. -/
theorem copies_momentary (data : Table GoString GoString) (es : List LockEvent)
    (calm : Along step CalmDel {data := data} es) (s : LockedCache)
    (hr : run step {data := data} es=some s) (moments : List (Table GoString GoString))
    (result : Table GoString GoString) (hc : CopyPhase.returned moments result∈s.copies) :
    result∈moments := by
  have sound := run_invariant step CalmDel Sound (fun _ _ _ h ok hs => h.step ok hs) es
    {data := data} s (sound_start data) calm hr
  obtain ⟨i,hi⟩ := List.mem_iff_getElem?.mp hc
  exact sound.copies i _ hi

/-- Two entries, one of them deleted after the copy has reached it. -/
theorem copies_momentary_deleted :
    ∃ s moments result,run step {data := (Finmap.insert [97] [1] ∅).insert [98] [2]}
        [.callCopy,.lockCopy 0,.copyEntry 0 [97],.call (.del [97]),.acquire,.write,.release,
          .copyEntry 0 [98],.returnCopy 0]=some s ∧
      CopyPhase.returned moments result∈s.copies ∧ result∈moments := by
  have calm : Along step CalmDel {data := (Finmap.insert [97] [1] ∅).insert [98] [2]}
      [.callCopy,.lockCopy 0,.copyEntry 0 [97],.call (.del [97]),.acquire,.write,.release,
        .copyEntry 0 [98],.returnCopy 0] := by decide +kernel
  have ends : (run step {data := (Finmap.insert [97] [1] ∅).insert [98] [2]}
      [.callCopy,.lockCopy 0,.copyEntry 0 [97],.call (.del [97]),.acquire,.write,.release,
        .copyEntry 0 [98],.returnCopy 0]).map LockedCache.copies=
      some [.returned [(Finmap.insert [97] [1] ∅).insert [98] [2],Finmap.insert [98] [2] ∅]
        ((Finmap.insert [97] [1] ∅).insert [98] [2])] := by decide +kernel
  obtain ⟨s,hs,copies⟩ := Option.map_eq_some_iff.mp ends
  have member := copies ▸ List.mem_singleton.mpr rfl
  exact ⟨s,_,_,hs,member,copies_momentary _ _ calm s hs _ _ member⟩

/-- A copy takes the first of two entries, then both are deleted: it returns the first one alone,
which the cache never contained. -/
theorem copy_torn :
    (run step {data := (Finmap.insert [97] [1] ∅).insert [98] [2]}
        [.callCopy,.lockCopy 0,.copyEntry 0 [97],.call (.del [97]),.acquire,.write,.release,
          .call (.del [98]),.acquire,.write,.release,.returnCopy 0]).map LockedCache.copies=
      some [.returned [(Finmap.insert [97] [1] ∅).insert [98] [2],Finmap.insert [98] [2] ∅,∅]
        (Finmap.insert [97] [1] ∅)] ∧
    (Finmap.insert [97] [1] ∅ : Table GoString GoString)∉
      [(Finmap.insert [97] [1] ∅).insert [98] [2],Finmap.insert [98] [2] ∅,∅] := by
  decide +kernel

end LockedCache

end StCache
