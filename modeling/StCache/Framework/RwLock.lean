import Mathlib.Data.List.Basic

namespace StCache

/-- A reader/writer lock, with the threads that hold it. -/
structure RwLock (T : Type) where
  writer : Option T := none
  readers : List T := []

namespace RwLock
variable {T : Type}

def lock (l : RwLock T) (t : T) : Option (RwLock T) :=
  if l.writer=none ∧ l.readers=[] then some {l with writer := some t} else none

def unlock (l : RwLock T) : RwLock T := {l with writer := none}

def rLock (l : RwLock T) (t : T) : Option (RwLock T) :=
  if l.writer=none then some {l with readers := t::l.readers} else none

def rUnlock [DecidableEq T] (l : RwLock T) (t : T) : RwLock T := {l with readers := l.readers.erase t}

/-- A writer has the lock for itself. -/
def Exclusive (l : RwLock T) : Prop := l.writer≠none → l.readers=[]

theorem lock_eq {l m : RwLock T} {t : T} (h : l.lock t=some m) :
    m.writer=some t ∧ m.readers=l.readers ∧ m.Exclusive := by
  unfold lock at h
  split_ifs at h with free
  cases h
  exact ⟨rfl,rfl,fun _ => free.2⟩

theorem rLock_eq {l m : RwLock T} {t : T} (h : l.rLock t=some m) :
    l.writer=none ∧ m.readers=t::l.readers ∧ m.Exclusive := by
  unfold rLock at h
  split_ifs at h with free
  cases h
  exact ⟨free,rfl,fun held => absurd free held⟩

theorem exclusive_unlock (l : RwLock T) : l.unlock.Exclusive := fun held => absurd rfl held

theorem Exclusive.rUnlock [DecidableEq T] {l : RwLock T} (h : l.Exclusive) (t : T) :
    (l.rUnlock t).Exclusive := by
  intro held
  have none' : l.readers=[] := h held
  simp [RwLock.rUnlock,none']

theorem Exclusive.no_writer {l : RwLock T} (h : l.Exclusive) {t : T} (reading : t∈l.readers) :
    l.writer=none := by
  by_contra held
  rw [h held] at reading
  cases reading

end RwLock

end StCache
