import Mathlib.Data.List.Basic

namespace StCache

/-- What a least recently used cache is: its entries, the most recently used first. -/
structure Recency (K V : Type) where
  entries : List (K × V) := []
  answers : List (Option V) := []

inductive CacheOp (K V : Type) where
  | get (key : K)
  | put (key : K) (value : V)

def CacheOp.key {K V : Type} : CacheOp K V → K
  | .get key => key
  | .put key _ => key

namespace Recency
variable {K V : Type} [DecidableEq K]

def find? (entries : List (K × V)) (key : K) : Option V :=
  (entries.find? (fun p => p.1=key)).map Prod.snd

/-- The entries of all other keys, in their order. -/
def others (entries : List (K × V)) (key : K) : List (K × V) :=
  entries.filter (fun p => p.1≠key)

/-- A Put of a new key on a full cache first discards the least recently used entry. -/
def put (cap : Int) (entries : List (K × V)) (key : K) (value : V) : List (K × V) :=
  match find? entries key with
  | some _ => (key,value)::others entries key
  | none => (key,value)::(if cap≤entries.length then entries.dropLast else entries)

def get (entries : List (K × V)) (key : K) : List (K × V) :=
  match find? entries key with
  | some value => (key,value)::others entries key
  | none => entries

def step (cap : Int) (s : Recency K V) : CacheOp K V → Recency K V
  | .get key => ⟨get s.entries key,s.answers++[find? s.entries key]⟩
  | .put key value => ⟨put cap s.entries key value,s.answers⟩

def run (cap : Int) (ops : List (CacheOp K V)) : Recency K V := ops.foldl (step cap) {}

theorem run_snoc (cap : Int) (ops : List (CacheOp K V)) (op : CacheOp K V) :
    run cap (ops++[op])=step cap (run cap ops) op := by
  rw [run,List.foldl_append]
  rfl

end Recency

end StCache
