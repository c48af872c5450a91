import StCache.Framework.LastWrite
import StCache.Store.Fsm

namespace StCache

/-- One replicated field: which updates write it and how it is read back. -/
structure Field (α : Type) where
  pick : Notify → Option α
  read : Replicated → α
  law : ∀ u r,read (u.write r)=(pick u).getD (read r)

def fieldStatus : Field GossipStatus where
  pick := fun u => match u with | .status s => some s | _ => none
  read := Replicated.prevConsensus
  law := by intro u r; cases u <;> rfl

def fieldEventTime : Field GoTime where
  pick := fun u => match u with | .eventTime t => some t | _ => none
  read := Replicated.prevEventTime
  law := by intro u r; cases u <;> rfl

def fieldEmpty : Field Bool where
  pick := fun u => match u with | .empty b => some b | _ => none
  read := Replicated.empty
  law := by intro u r; cases u <;> rfl

def fieldEmptyTime : Field GoTime where
  pick := fun u => match u with | .emptyTime t => some t | _ => none
  read := Replicated.emptyTime
  law := by intro u r; cases u <;> rfl

theorem replicated_eq_iff (r s : Replicated) :
    r=s ↔ fieldStatus.read r=fieldStatus.read s ∧ fieldEventTime.read r=fieldEventTime.read s ∧
      fieldEmpty.read r=fieldEmpty.read s ∧ fieldEmptyTime.read r=fieldEmptyTime.read s := by
  cases r
  cases s
  simp [fieldStatus,fieldEventTime,fieldEmpty,fieldEmptyTime]

section LastWrite
variable {α : Type} (F : Field α) (key : GoString)

/-- The value an entry writes to the field of the key. -/
def entryWrite (e : LogEntryData) : Option α := (e.updateOf key).bind F.pick

/-- The value the last entry of a log that touches the field wrote to it. -/
def lastWrite (es : List LogEntryData) : Option α :=
  es.foldl (fun acc e => (entryWrite F key e).or acc) none

@[simp] theorem lastWrite_nil : lastWrite F key []=none := rfl

theorem lastWrite_snoc (es : List LogEntryData) (e : LogEntryData) :
    lastWrite F key (es++[e])=(entryWrite F key e).or (lastWrite F key es) :=
  lastOf_snoc (entryWrite F key) es e

theorem lastWrite_append (es fs : List LogEntryData) :
    lastWrite F key (es++fs)=(lastWrite F key fs).or (lastWrite F key es) :=
  lastOf_append (entryWrite F key) es fs

theorem read_replay (c : GossipCacheManager) (e : LogEntryData) :
    F.read ((c.replay e).replicated key)=
      (entryWrite F key e).getD (F.read (c.replicated key)) := by
  rw [GossipCacheManager.replicated_replay,entryWrite]
  cases e.updateOf key with
  | none => rfl
  | some u => exact F.law u _

/-- Replaying a log leaves in a field what its last write put there. -/
theorem read_replay_log (c : GossipCacheManager) (es : List LogEntryData) :
    F.read ((es.foldl GossipCacheManager.replay c).replicated key)=
      (lastWrite F key es).getD (F.read (c.replicated key)) := by
  induction es using List.reverseRecOn with
  | nil => rfl
  | append_singleton es e ih =>
    rw [List.foldl_append,List.foldl_cons,List.foldl_nil,read_replay,ih,lastWrite_snoc]
    cases entryWrite F key e <;> rfl

end LastWrite

/-- A log replays on the two stores of a replica independently. -/
theorem run_applyEntry (f g : Fsm) (es : List LogEntryData) :
    run Fsm.applyEntry f es=some g ↔
      run CacheManager.replay f.cm es=some g.cm ∧
        g.gcm=es.foldl GossipCacheManager.replay f.gcm := by
  induction es generalizing f with
  | nil =>
    cases f
    cases g
    simp [eq_comm]
  | cons e es ih =>
    simp only [run_cons,Option.bind_eq_some_iff,List.foldl_cons]
    constructor
    · rintro ⟨h,hs,hr⟩
      obtain ⟨hcm,hg⟩ := (Fsm.applyEntry_some f h e).mp hs
      rw [ih,hg] at hr
      exact ⟨⟨h.cm,hcm,hr.1⟩,hr.2⟩
    · rintro ⟨⟨cm,hcm,hr⟩,hg⟩
      exact ⟨⟨cm,f.gcm.replay e⟩,(Fsm.applyEntry_some f _ e).mpr ⟨hcm,rfl⟩,
        (ih _).mpr ⟨hr,hg⟩⟩

end StCache
