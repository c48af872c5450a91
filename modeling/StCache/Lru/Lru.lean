import StCache.Framework.GoMap
import StCache.Framework.Links
import StCache.Framework.Runs
import StCache.Framework.Strconv
import StCache.Lru.Recency

namespace StCache

/-- A node of the recency list. A pointer is the address of a node, none is nil. -/
structure LruNode where
  key : GoString
  value : GoString
  prev : Option Nat := none
  next : Option Nat := none

/-- The memory holds a node at every address below fresh. -/
structure LruCache where
  mp : Table GoString Nat := ∅
  cap : Int
  head : Option Nat := none
  tail : Option Nat := none
  nodes : Nat → LruNode := fun _ => ⟨[],[],none,none⟩
  fresh : Nat := 0

namespace LruCache

/-- NewLRUCache -/
def new (cap : Int) : LruCache := {cap := cap}

def update (c : LruCache) (p : Nat) (write : LruNode → LruNode) : LruCache :=
  {c with nodes := Function.update c.nodes p (write (c.nodes p))}

def setValue (c : LruCache) (p : Nat) (value : GoString) : LruCache :=
  c.update p (fun n => {n with value := value})
def setPrev (c : LruCache) (p : Nat) (q : Option Nat) : LruCache :=
  c.update p (fun n => {n with prev := q})
def setNext (c : LruCache) (p : Nat) (q : Option Nat) : LruCache :=
  c.update p (fun n => {n with next := q})

/-- `&node{key:key, value:value}`, at the address fresh. -/
def alloc (c : LruCache) (key value : GoString) : LruCache :=
  {c with nodes := Function.update c.nodes c.fresh ⟨key,value,none,none⟩,fresh := c.fresh+1}

/-- The first half of removeAndInsert. None is the use of a nil pointer. -/
def remove (c : LruCache) (node : Nat) : Option LruCache :=
  if some node=c.head then some c
  else if some node=c.tail then
    match (c.nodes node).prev with
    | none => none
    | some p => some ({c with tail := some p}.setNext p none)
  else
    match (c.nodes node).prev with
    | none => none
    | some p =>
      let c := c.setNext p (c.nodes node).next
      match (c.nodes node).next with
      | none => none
      | some q =>
        let c := c.setPrev q (c.nodes node).prev
        some ((c.setPrev node none).setNext node none)

/-- The second half: insert at head. -/
def insertAtHead (c : LruCache) (node : Nat) : Option LruCache :=
  let c := c.setNext node c.head
  match c.head with
  | none => none
  | some h => some {c.setPrev h (some node) with head := some node}

def removeAndInsert (c : LruCache) (node : Nat) : Option LruCache :=
  (c.remove node).bind (fun c => c.insertAtHead node)

def get (c : LruCache) (key : GoString) : Option (LruCache × Option GoString) :=
  match c.mp.lookup key with
  | some node => (c.removeAndInsert node).map (fun d => (d,some (c.nodes node).value))
  | none => some (c,none)

def delTail (c : LruCache) : Option LruCache :=
  match c.tail with
  | none => none
  | some t =>
    let c := {c with mp := c.mp.erase (c.nodes t).key,tail := (c.nodes t).prev}
    match c.tail with
    | none => none
    | some p => some (c.setNext p none)

def put (c : LruCache) (key value : GoString) : Option LruCache :=
  match c.head with
  | none =>
    let n := c.fresh
    let c := c.alloc key value
    some {c with head := some n,tail := some n,mp := c.mp.insert key n}
  | some _ =>
    match c.mp.lookup key with
    | some n => (c.setValue n value).removeAndInsert n
    | none =>
      let n := c.fresh
      let c := c.alloc key value
      (if c.cap ≤ c.mp.keys.card then c.delTail else some c).bind (fun c =>
        {c with mp := c.mp.insert key n}.insertAtHead n)

end LruCache

/-- A cache and what its Get calls have answered. -/
structure LruRun where
  cache : LruCache
  answers : List (Option GoString) := []

namespace LruRun

def new (cap : Int) : LruRun := {cache := .new cap}

/-- The mutex makes every call one step. None is the use of a nil pointer. -/
def step (s : LruRun) : CacheOp GoString GoString → Option LruRun
  | .get key => (s.cache.get key).map (fun r => ⟨r.1,s.answers++[r.2]⟩)
  | .put key value => (s.cache.put key value).map (fun c => ⟨c,s.answers⟩)

end LruRun

end StCache
