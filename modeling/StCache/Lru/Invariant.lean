import StCache.Lru.Refinement

namespace StCache

namespace Recency
variable {K V : Type} [DecidableEq K]

theorem length_others {entries : List (K × V)} {key : K} {value : V}
    (present : find? entries key=some value) : (others entries key).length<entries.length := by
  rw [find?,Option.map_eq_some_iff] at present
  obtain ⟨entry,found,-⟩ := present
  rw [others,List.length_filter_lt_length_iff_exists]
  exact ⟨entry,List.mem_of_find?_eq_some found,by simpa using List.find?_some found⟩

/-- A call leaves at most as many entries as there is room for. -/
theorem length_step {cap : Int} (large : 1 ≤ cap) (r : Recency K V) (op : CacheOp K V)
    (small : r.entries.length ≤ cap) : ((step cap r op).entries.length : Int) ≤ cap := by
  cases op with
  | get key =>
    simp only [step,get]
    cases present : find? r.entries key with
    | none => exact small
    | some value =>
      have fewer := length_others present
      simp only [List.length_cons]
      omega
  | put key value =>
    simp only [step,put]
    cases present : find? r.entries key with
    | none =>
      simp only [List.length_cons]
      split_ifs with full
      · rw [List.length_dropLast]
        omega
      · omega
    | some value =>
      have fewer := length_others present
      simp only [List.length_cons]
      omega

theorem length_run {cap : Int} (large : 1 ≤ cap) (ops : List (CacheOp K V)) :
    ((run cap ops).entries.length : Int) ≤ cap := by
  induction ops using List.reverseRecOn with
  | nil =>
    show (0 : Int) ≤ cap
    omega
  | append_singleton ops op ih =>
    rw [run_snoc]
    exact length_step large _ op ih

end Recency

namespace LruCache

/-- What the list and the map of a cache should be to each other. -/
def RepInvariant (c : LruCache) : Prop :=
  ∃ ids : List Nat,ids.Nodup ∧ Visits (fun p => (c.nodes p).next) c.head ids ∧
    Visits (fun p => (c.nodes p).prev) c.tail ids.reverse ∧
    (∀ key p,c.mp.lookup key=some p ↔ p∈ids ∧ (c.nodes p).key=key) ∧
    (c.mp.keys.card : Int) ≤ c.cap

theorem Holds.repInvariant {c : LruCache} {ids : List Nat} {l : List (GoString × GoString)}
    (h : c.Holds false ids l) (small : l.length ≤ c.cap) : c.RepInvariant := by
  refine ⟨ids,h.linked.nodup,?_,?_,h.index,?_⟩
  · rw [visits_iff]
    refine ⟨h.linked.head,h.linked.nexts.frame ?_⟩
    intro x _ r leads
    simpa [LeadsNext] using leads
  · rw [visits_iff,List.head?_reverse]
    refine ⟨h.linked.tail,h.linked.prevs.frame ?_⟩
    intro x _ r leads
    simpa [LeadsPrev] using leads
  · rw [h.card]
    rw [h.contents,List.length_map] at small
    exact small

/-- Nothing comes before the head. -/
theorem RepInvariant.prev_head {c : LruCache} (h : c.RepInvariant) {p : Nat}
    (head : c.head=some p) : (c.nodes p).prev=none := by
  obtain ⟨ids,-,nexts,prevs,-⟩ := h
  rw [head,visits_iff] at nexts
  cases ids with
  | nil => cases nexts.1
  | cons x ids =>
    have same : p=x := Option.some.inj nexts.1
    subst same
    rw [visits_iff,List.reverse_cons,trail_append] at prevs
    exact prevs.2.2.1

/-- The head leads on to another node. -/
theorem RepInvariant.next_head {c : LruCache} (h : c.RepInvariant) {p : Nat}
    (head : c.head=some p) : (c.nodes p).next≠some p := by
  obtain ⟨ids,distinct,nexts,-⟩ := h
  intro loop
  rw [head] at nexts
  exact not_visits_loop _ p loop ids distinct nexts

theorem Linked.loosen {c : LruCache} {ids : List Nat} (h : c.Linked false ids) :
    c.Linked true ids := by
  refine ⟨h.nodup,h.old,h.head,h.tail,h.nexts.frame ?_,h.prevs.frame ?_⟩
  · intro x _ r leads
    exact Or.inl (by simpa [LeadsNext] using leads)
  · intro x _ r leads
    exact Or.inl (by simpa [LeadsPrev] using leads)

theorem Linked.next_ne {c : LruCache} {ids : List Nat} (h : c.Linked false ids) {p : Nat}
    (member : p∈ids) : (c.nodes p).next≠some p := by
  obtain ⟨a,b,rfl⟩ := List.append_of_mem member
  have nexts := h.nexts
  rw [trail_append] at nexts
  have leads : (c.nodes p).next=first b none := by simpa [LeadsNext] using nexts.2.1
  have distinct := h.nodup
  rw [List.nodup_middle,List.nodup_cons] at distinct
  intro loop
  rw [leads] at loop
  cases b with
  | nil => cases loop
  | cons x b =>
    have same : x=p := Option.some.inj loop
    exact distinct.1 (List.mem_append_right a (by simp [same]))

/-- The head gets a link to itself, and the tail takes its link to the node before it along. -/
theorem Linked.touch_ends {c d : LruCache} {ids : List Nat} {p : Nat} (h : c.Linked false ids)
    (ends : some p=c.head ∨ some p=c.tail) (hd : c.removeAndInsert p=some d) :
    ¬d.RepInvariant := by
  intro rep
  by_cases top : some p=c.head
  · cases ids with
    | nil =>
      rw [h.head] at top
      cases top
    | cons x t =>
      have same : p=x := Option.some.inj (top.trans h.head)
      subst same
      obtain ⟨e,he,-,-,head,next⟩ := h.loosen.insertHead
      have kept : c.remove p=some c := if_pos top
      rw [removeAndInsert,kept,Option.bind_some,he] at hd
      cases hd
      exact rep.next_head head next
  · have bottom := ends.resolve_left top
    rw [h.tail] at bottom
    rcases List.eq_nil_or_concat' ids with rfl|⟨front,x,rfl⟩
    · cases bottom
    rw [List.getLast?_concat] at bottom
    cases bottom
    rcases List.eq_nil_or_concat' front with rfl|⟨a,y,rfl⟩
    · exact top h.head.symm
    rw [List.append_assoc,List.singleton_append] at h
    have distinct := h.nodup
    rw [List.append_cons,List.nodup_append] at distinct
    have outside : p∉a++[y] := fun member => distinct.2.2 p member p (by simp) rfl
    obtain ⟨d',hd',rest,relinks,prev⟩ := h.loosen.removeTail
    obtain ⟨e,he,-,-,head,kept⟩ := Linked.reinsert hd' rest outside
      (relinks.fresh ▸ h.old p (by simp)) (Or.inr ⟨rfl,rfl⟩)
    rw [he] at hd
    cases hd
    have first := rep.prev_head head
    rw [kept,prev] at first
    cases first

end LruCache

namespace LruRun
open LruCache

/-- The call touches neither end of the list. -/
def Untouched (c : LruCache) (op : CacheOp GoString GoString) : Prop :=
  ∀ p∈c.mp.lookup op.key,some p≠c.head ∧ some p≠c.tail

instance (c : LruCache) (op : CacheOp GoString GoString) : Decidable (Untouched c op) :=
  inferInstanceAs (Decidable (∀ p∈c.mp.lookup op.key,some p≠c.head ∧ some p≠c.tail))

theorem Untouched.fits {c : LruCache} {ids : List Nat} {l : List (GoString × GoString)}
    (h : c.Holds false ids l) (large : 2 ≤ c.cap) {op : CacheOp GoString GoString}
    (untouched : Untouched c op) : Fits false c op := by
  constructor
  · intro p hp
    obtain ⟨top,bottom⟩ := untouched p hp
    refine ⟨fun ends => ?_,fun _ _ => ?_⟩
    · cases ends with
      | inl head => exact absurd head top
      | inr tail => exact absurd tail bottom
    · exact h.linked.next_ne ((h.index op.key p).mp hp).1
  · cases op with
    | get key => trivial
    | put key value => exact fun _ => Or.inr (by omega)

/-- A call that touches an end leaves a broken list. -/
theorem step_touched {s t : LruRun} {ids : List Nat} {l : List (GoString × GoString)}
    (h : s.cache.Holds false ids l) {op : CacheOp GoString GoString} (ht : s.step op=some t)
    (touched : ¬Untouched s.cache op) : ¬t.cache.RepInvariant := by
  have ends : ∃ p,s.cache.mp.lookup op.key=some p ∧
      (some p=s.cache.head ∨ some p=s.cache.tail) := by
    by_contra none'
    refine touched (fun p hp => ⟨fun top => none' ⟨p,hp,Or.inl top⟩,fun bottom => ?_⟩)
    exact none' ⟨p,hp,Or.inr bottom⟩
  obtain ⟨p,found,ends⟩ := ends
  cases op with
  | get key =>
    have present : s.cache.mp.lookup key=some p := found
    simp only [step,LruCache.get,present,Option.map_map,Option.map_eq_some_iff] at ht
    obtain ⟨d,hd,rfl⟩ := ht
    exact h.linked.touch_ends ends hd
  | put key value =>
    have present : s.cache.mp.lookup key=some p := found
    have some' : s.cache.head≠none := by
      intro empty
      have none' : ids=[] := List.head?_eq_none_iff.mp (h.linked.head.symm.trans empty)
      have member := ((h.index key p).mp present).1
      simp [none'] at member
    obtain ⟨x,head⟩ := Option.ne_none_iff_exists'.mp some'
    simp only [step,LruCache.put,head,present,Option.map_eq_some_iff] at ht
    obtain ⟨d,hd,rfl⟩ := ht
    exact (h.linked.setValue p value).touch_ends ends hd

/-- The runs that have touched no end so far. -/
theorem run_untouched (cap : Int) (large : 2 ≤ cap) (ops : List (CacheOp GoString GoString))
    (untouched : Along step (fun s op => Untouched s.cache op) (new cap) ops) :
    ∃ t ids,run step (new cap) ops=some t ∧ t.cache.cap=cap ∧
      t.cache.Holds false ids (Recency.run cap ops).entries := by
  have fits : Along step (fun s op => Fits false s.cache op) (new cap) ops := by
    induction ops using List.reverseRecOn with
    | nil => trivial
    | append_singleton ops op ih =>
      rw [along_snoc] at untouched ⊢
      have before := ih untouched.1
      refine ⟨before,fun s hs => ?_⟩
      obtain ⟨t,ids,ht,size,holds,-⟩ := run_fits false cap ops before
      have same : t=s := Option.some.inj (ht.symm.trans hs)
      subst same
      exact Untouched.fits holds (by omega) (untouched.2 t hs)
  obtain ⟨t,ids,ht,size,holds,-⟩ := run_fits false cap ops fits
  exact ⟨t,ids,ht,size,holds⟩

/-- The list and the map fit together after every call exactly when no call finds its key at
the head or at the tail of the list. -/
theorem repInvariant_iff (cap : Int) (large : 2 ≤ cap) (ops : List (CacheOp GoString GoString)) :
    (∀ done,done <+: ops → ∃ t,run step (new cap) done=some t ∧ t.cache.RepInvariant) ↔
      Along step (fun s op => Untouched s.cache op) (new cap) ops := by
  induction ops using List.reverseRecOn with
  | nil =>
    refine iff_of_true ?_ trivial
    intro done empty
    have none' : done=[] := List.prefix_nil.mp empty
    subst none'
    refine ⟨new cap,rfl,(holds_new false cap).repInvariant ?_⟩
    show (0 : Int) ≤ cap
    omega
  | append_singleton ops op ih =>
    constructor
    · intro all
      have before := ih.mp (fun done hd => all done (hd.trans (List.prefix_append ops [op])))
      refine (along_snoc step _ (new cap) ops op).mpr ⟨before,fun s hs => ?_⟩
      obtain ⟨s',ids,hs',-,holds⟩ := run_untouched cap large ops before
      have same : s'=s := Option.some.inj (hs'.symm.trans hs)
      subst same
      obtain ⟨t,ht,rep⟩ := all (ops++[op]) List.prefix_rfl
      obtain ⟨u,hu,last⟩ := (run_snoc step (new cap) t ops op).mp ht
      have same : u=s' := Option.some.inj (hu.symm.trans hs)
      subst same
      by_contra touched
      exact step_touched holds last touched rep
    · intro along done hd
      cases List.prefix_concat_iff.mp hd with
      | inr shorter =>
        exact ih.mpr ((along_snoc step _ (new cap) ops op).mp along).1 done shorter
      | inl whole =>
        subst whole
        obtain ⟨t,ids,ht,size,holds⟩ := run_untouched cap large (ops++[op]) along
        refine ⟨t,ht,holds.repInvariant ?_⟩
        rw [size]
        exact Recency.length_run (by omega) (ops++[op])

/-- Three entries, the middle one used again, then a fourth key that discards one. -/
theorem repInvariant_iff_middle :
    (2 : Int)≤3 ∧
    ∀ done,done <+: [.put [97] [1],.put [98] [2],.put [99] [3],.get [98],.put [100] [4]] →
      ∃ t,run step (new 3) done=some t ∧ t.cache.RepInvariant :=
  ⟨by decide,(repInvariant_iff 3 (by decide) _).mpr (by decide +kernel)⟩

/-- A Get of the only entry gives it links to itself. A Get of the last of two entries puts it in
front with a link to the node that was before it. -/
theorem repInvariant_broken :
    (∃ t,run step (new 2) [.put [97] [1],.get [97]]=some t ∧ ¬t.cache.RepInvariant) ∧
    ∃ t,run step (new 2) [.put [97] [1],.put [98] [2],.get [97]]=some t ∧
      ¬t.cache.RepInvariant := by
  constructor
  · have loop : (run step (new 2) [.put [97] [1],.get [97]]).map
        (fun t => (t.cache.head,(t.cache.nodes 0).next))=some (some 0,some 0) := by decide +kernel
    obtain ⟨t,ht,links⟩ := Option.map_eq_some_iff.mp loop
    obtain ⟨head,next⟩ := Prod.mk.inj links
    exact ⟨t,ht,fun rep => rep.next_head head next⟩
  · have stale : (run step (new 2) [.put [97] [1],.put [98] [2],.get [97]]).map
        (fun t => (t.cache.head,(t.cache.nodes 0).prev))=some (some 0,some 1) := by decide +kernel
    obtain ⟨t,ht,links⟩ := Option.map_eq_some_iff.mp stale
    obtain ⟨head,prev⟩ := Prod.mk.inj links
    refine ⟨t,ht,fun rep => ?_⟩
    have first := rep.prev_head head
    rw [prev] at first
    cases first

end LruRun

end StCache
