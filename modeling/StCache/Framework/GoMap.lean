import Mathlib.Data.Finmap

namespace StCache

/-- Allocated hash table: a finite partial function without an entry order. -/
abbrev Table (K V : Type) := Finmap (fun _ : K => V)

section Lookup
variable {K V : Type} [DecidableEq K]

theorem lookup_insert_ite (t : Table K V) (k j : K) (v : V) :
    (t.insert k v).lookup j=if j=k then some v else t.lookup j := by
  split_ifs with h
  · subst j
    exact Finmap.lookup_insert t
  · exact Finmap.lookup_insert_of_ne t h

theorem lookup_erase_ite (t : Table K V) (k j : K) :
    (t.erase k).lookup j=if j=k then none else t.lookup j := by
  split_ifs with h
  · subst j
    exact Finmap.lookup_erase k t
  · exact Finmap.lookup_erase_ne h

end Lookup

/-- A Go map value. Reads of a nil map find nothing and deletes on it do
nothing, but assigning an entry of a nil map panics. -/
inductive GoMap (K V : Type) where
  | nil
  | alloc (t : Table K V)

namespace GoMap
section Operations
variable {K V : Type} [DecidableEq K]

instance [DecidableEq V] : DecidableEq (GoMap K V)
  | .nil,.nil => isTrue rfl
  | .nil,.alloc _ => isFalse nofun
  | .alloc _,.nil => isFalse nofun
  | .alloc s,.alloc t => decidable_of_iff (s=t) ⟨congrArg _,fun h => GoMap.alloc.inj h⟩

def make : GoMap K V := .alloc ∅

def get? : GoMap K V → K → Option V
  | .nil,_ => none
  | .alloc t,k => t.lookup k

/-- `m[k] = v`; none is the panic on a nil map. -/
def set : GoMap K V → K → V → Option (GoMap K V)
  | .nil,_,_ => none
  | .alloc t,k,v => some (.alloc (t.insert k v))

def delete : GoMap K V → K → GoMap K V
  | .nil,_ => .nil
  | .alloc t,k => .alloc (t.erase k)

/-- The table a deep copy allocates: copying a nil map yields an empty one. -/
def table : GoMap K V → Table K V
  | .nil => ∅
  | .alloc t => t

@[simp] theorem get?_nil (k : K) : (GoMap.nil : GoMap K V).get? k=none := rfl
@[simp] theorem get?_alloc (t : Table K V) (k : K) : (GoMap.alloc t).get? k=t.lookup k := rfl
@[simp] theorem set_nil (k : K) (v : V) : (GoMap.nil : GoMap K V).set k v=none := rfl
@[simp] theorem set_alloc (t : Table K V) (k : K) (v : V) :
    (GoMap.alloc t).set k v=some (.alloc (t.insert k v)) := rfl

@[simp] theorem lookup_table (m : GoMap K V) (k : K) : m.table.lookup k=m.get? k := by
  cases m <;> rfl

theorem get?_delete (m : GoMap K V) (k j : K) :
    (m.delete k).get? j=if j=k then none else m.get? j := by
  cases m with
  | nil => simp [delete]
  | alloc t => exact lookup_erase_ite t k j

theorem get?_set (m n : GoMap K V) (k j : K) (v : V) (h : m.set k v=some n) :
    n.get? j=if j=k then some v else m.get? j := by
  cases m with
  | nil => simp at h
  | alloc t =>
    simp only [set_alloc,Option.some.injEq] at h
    subst n
    exact lookup_insert_ite t k j v

end Operations
end GoMap

section Enumeration
variable {K V : Type} [DecidableEq K]

/-- One order in which `range` may visit a table: every entry exactly once. -/
def Enumerates (l : List (K × V)) (t : Table K V) : Prop :=
  ((l.map (fun p => (⟨p.1,p.2⟩ : (_ : K) × V)) : List _) : Multiset _)=t.entries

instance [DecidableEq V] (l : List (K × V)) (t : Table K V) : Decidable (Enumerates l t) :=
  inferInstanceAs (Decidable (_=_))

theorem Enumerates.mem_iff {l : List (K × V)} {t : Table K V} (h : Enumerates l t)
    (k : K) (v : V) : (k,v)∈l ↔ t.lookup k=some v := by
  rw [Finmap.lookup_eq_some_iff,←h,Multiset.mem_coe,List.mem_map]
  constructor
  · intro hm
    exact ⟨(k,v),hm,rfl⟩
  · rintro ⟨⟨a,b⟩,hm,he⟩
    simp only [Sigma.mk.injEq,heq_eq_eq] at he
    rwa [←he.1,←he.2]

omit [DecidableEq K] in
theorem Enumerates.nodup_keys {l : List (K × V)} {t : Table K V} (h : Enumerates l t) :
    (l.map Prod.fst).Nodup := by
  have keys := t.nodupKeys
  rw [←h,Multiset.coe_nodupKeys] at keys
  have nodup : (l.map (fun p => (⟨p.1,p.2⟩ : (_ : K) × V))).keys.Nodup := keys
  simpa [List.keys,Function.comp_def] using nodup

/-- The keys whose entry passes the test. -/
def keysWhere (t : Table K V) (p : K × V → Bool) : Finset K :=
  t.keys.filter (fun k => (t.lookup k).any (fun v => p (k,v))=true)

theorem mem_keysWhere (t : Table K V) (p : K × V → Bool) (k : K) :
    k∈keysWhere t p ↔ ∃ v,t.lookup k=some v ∧ p (k,v)=true := by
  rw [keysWhere,Finset.mem_filter,Finmap.mem_keys,←Finmap.lookup_isSome]
  cases t.lookup k with
  | none => simp
  | some v => simp

/-- Entries counted during an iteration belong to that many different keys. -/
theorem Enumerates.countP_eq_card {l : List (K × V)} {t : Table K V} (h : Enumerates l t)
    (p : K × V → Bool) : l.countP p=(keysWhere t p).card := by
  have nodup : ((l.filter p).map Prod.fst).Nodup := h.nodup_keys.sublist (List.filter_sublist.map _)
  have same : ((l.filter p).map Prod.fst).toFinset=keysWhere t p := by
    ext k
    rw [mem_keysWhere,List.mem_toFinset,List.mem_map]
    constructor
    · rintro ⟨⟨a,v⟩,hm,rfl⟩
      rw [List.mem_filter] at hm
      exact ⟨v,(h.mem_iff a v).mp hm.1,hm.2⟩
    · rintro ⟨v,hl,hp⟩
      exact ⟨(k,v),List.mem_filter.mpr ⟨(h.mem_iff k v).mpr hl,hp⟩,rfl⟩
  rw [←same,List.toFinset_card_of_nodup nodup,List.length_map,List.countP_eq_length_filter]

theorem Enumerates.exists_keys {l : List (K × V)} {t : Table K V} (h : Enumerates l t)
    (p : K × V → Bool) :
    ∃ S : Finset K,S.card=l.countP p ∧ ∀ k∈S,∃ v,t.lookup k=some v ∧ p (k,v)=true :=
  ⟨keysWhere t p,(h.countP_eq_card p).symm,fun k hk => (mem_keysWhere t p k).mp hk⟩

omit [DecidableEq K] in
theorem exists_enumerates (t : Table K V) : ∃ l,Enumerates l t := by
  obtain ⟨es,hes⟩ : ∃ es : List ((_ : K) × V),(es : Multiset ((_ : K) × V))=t.entries :=
    Quot.exists_rep t.entries
  refine ⟨es.map (fun e => (e.1,e.2)),?_⟩
  rw [Enumerates,List.map_map]
  simpa [Function.comp_def] using hes

omit [DecidableEq K] in
theorem Enumerates.perm {l l' : List (K × V)} {t : Table K V} (h : Enumerates l t)
    (hp : l'.Perm l) : Enumerates l' t := by
  rw [Enumerates,←h]
  exact Multiset.coe_eq_coe.mpr (hp.map _)

/-- Any entry may be the first one an iteration visits. -/
theorem exists_enumerates_head {t : Table K V} {k : K} {v : V} (h : t.lookup k=some v) :
    ∃ l,Enumerates ((k,v)::l) t := by
  obtain ⟨l,hl⟩ := exists_enumerates t
  obtain ⟨a,b,rfl⟩ := List.append_of_mem ((hl.mem_iff k v).mpr h)
  exact ⟨a++b,hl.perm List.perm_middle.symm⟩

/-- One order in which `range` may visit the keys of a table. -/
def KeyOrder (l : List K) (t : Table K V) : Prop := l.Nodup ∧ l.toFinset=t.keys

instance (l : List K) (t : Table K V) : Decidable (KeyOrder l t) :=
  inferInstanceAs (Decidable (_ ∧ _))

theorem KeyOrder.mem_iff {l : List K} {t : Table K V} (h : KeyOrder l t) (k : K) :
    k∈l ↔ (t.lookup k).isSome=true := by
  rw [←List.mem_toFinset,h.2,Finmap.mem_keys,Finmap.lookup_isSome]

end Enumeration

section Pairs
variable {K V : Type} [DecidableEq K]

/-- A later pair overwrites an earlier one. -/
def insertAll (t : Table K V) (ps : List (K × V)) : Table K V :=
  ps.foldl (fun t p => t.insert p.1 p.2) t

theorem lookup_insertAll_map (t : Table K V) (keys : List K) (f : K → V) (k : K) :
    (insertAll t (keys.map (fun k => (k,f k)))).lookup k=
      if k∈keys then some (f k) else t.lookup k := by
  induction keys generalizing t with
  | nil => rfl
  | cons a keys ih =>
    have step := ih (t.insert a (f a))
    rw [lookup_insert_ite] at step
    rw [List.map_cons,insertAll,List.foldl_cons,←insertAll,step]
    by_cases he : k=a
    · subst a
      simp
    · simp [he]

theorem lookup_insertAll_of_notMem (t : Table K V) (ps : List (K × V)) (k : K)
    (h : k∉ps.map Prod.fst) : (insertAll t ps).lookup k=t.lookup k := by
  induction ps generalizing t with
  | nil => rfl
  | cons p ps ih =>
    simp only [List.map_cons,List.mem_cons,not_or] at h
    rw [insertAll,List.foldl_cons,←insertAll,ih _ h.2,lookup_insert_ite,if_neg h.1]

theorem lookup_insertAll_of_mem (t : Table K V) (ps : List (K × V)) (k : K) (v : V)
    (nodup : (ps.map Prod.fst).Nodup) (h : (k,v)∈ps) : (insertAll t ps).lookup k=some v := by
  induction ps generalizing t with
  | nil => cases h
  | cons p ps ih =>
    simp only [List.map_cons,List.nodup_cons] at nodup
    rw [insertAll,List.foldl_cons,←insertAll]
    rcases List.mem_cons.mp h with first|later
    · subst first
      rw [lookup_insertAll_of_notMem _ ps k nodup.1,lookup_insert_ite,if_pos rfl]
    · exact ih _ nodup.2 later

/-- A loop that ranges over a table and writes `m[k] = f(k,v)` maps the table, whatever the
order of its iteration. -/
theorem Enumerates.lookup_insertAll {W : Type} {l : List (K × V)} {t : Table K V}
    (h : Enumerates l t) (f : K → V → W) (k : K) :
    (insertAll ∅ (l.map (fun p => (p.1,f p.1 p.2)))).lookup k=(t.lookup k).map (f k) := by
  have keys : (l.map (fun p => (p.1,f p.1 p.2))).map Prod.fst=l.map Prod.fst := by
    rw [List.map_map]
    rfl
  cases found : t.lookup k with
  | none =>
    have absent : k∉l.map Prod.fst := by
      intro hm
      obtain ⟨⟨a,v⟩,visited,rfl⟩ := List.mem_map.mp hm
      rw [(h.mem_iff a v).mp visited] at found
      cases found
    rw [lookup_insertAll_of_notMem _ _ k (keys ▸ absent)]
    rfl
  | some v =>
    have visited := (h.mem_iff k v).mpr found
    exact lookup_insertAll_of_mem _ _ k (f k v) (keys ▸ h.nodup_keys)
      (List.mem_map.mpr ⟨(k,v),visited,rfl⟩)

end Pairs

section Tally
variable {A : Type} [DecidableEq A]

/-- `m[a] += 1` over a list, starting from an empty map. -/
def tally (l : List A) : Table A Nat :=
  l.foldl (fun m a => m.insert a ((m.lookup a).getD 0+1)) ∅

theorem tally_snoc (l : List A) (a : A) :
    tally (l++[a])=(tally l).insert a (((tally l).lookup a).getD 0+1) := by
  simp [tally,List.foldl_append]

theorem lookup_tally [BEq A] [LawfulBEq A] (l : List A) (a : A) :
    (tally l).lookup a=if a∈l then some (l.count a) else none := by
  induction l using List.reverseRecOn with
  | nil => simp [tally]
  | append_singleton l b ih =>
    rw [tally_snoc,lookup_insert_ite]
    by_cases h : a=b
    · subst b
      have counted : ((tally l).lookup a).getD 0=l.count a := by
        rw [ih]
        split_ifs with hm
        · rfl
        · exact (List.count_eq_zero_of_not_mem hm).symm
      simp [counted]
    · have hn : b≠a := fun e => h e.symm
      simp [h,ih,hn]

theorem tally_getD [BEq A] [LawfulBEq A] (l : List A) (a : A) : ((tally l).lookup a).getD 0=l.count a := by
  rw [lookup_tally]
  split_ifs with hm
  · rfl
  · exact (List.count_eq_zero_of_not_mem hm).symm

end Tally

end StCache
