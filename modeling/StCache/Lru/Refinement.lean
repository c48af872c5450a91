import StCache.Lru.Order

namespace StCache

namespace LruCache

/-- The cache stores the entries of the reference, in the same order. -/
structure Holds (loose : Bool) (c : LruCache) (ids : List Nat) (l : List (GoString × GoString)) :
    Prop where
  linked : c.Linked loose ids
  index : ∀ key p,c.mp.lookup key=some p ↔ p∈ids ∧ (c.entryAt p).1=key
  contents : l=ids.map c.entryAt

theorem holds_new (loose : Bool) (cap : Int) : (new cap).Holds loose [] [] := by
  refine ⟨⟨List.nodup_nil,by simp,rfl,rfl,trivial,trivial⟩,?_,rfl⟩
  intro key p
  simp [new]

/-- The node of a key splits the list into entries of other keys. -/
theorem Holds.split {loose : Bool} {c : LruCache} {ids : List Nat} {l : List (GoString × GoString)}
    (h : c.Holds loose ids l) {key : GoString} {p : Nat} (found : c.mp.lookup key=some p) :
    ∃ a b,ids=a++p::b ∧ Recency.find? l key=some (c.entryAt p).2 ∧
      Recency.others l key=(a++b).map c.entryAt := by
  obtain ⟨member,own⟩ := (h.index key p).mp found
  obtain ⟨a,b,split⟩ := List.append_of_mem member
  have distinct := h.linked.nodup
  rw [split,List.nodup_append] at distinct
  have differ (q : Nat) (hq : q∈a ∨ q∈b) : (c.entryAt q).1≠key := by
    intro same
    have inside : q∈ids := by
      rw [split]
      simp [hq.imp_right Or.inr]
    have equal : p=q :=
      Option.some.inj (found.symm.trans ((h.index key q).mpr ⟨inside,same⟩))
    subst q
    cases hq with
    | inl ha => exact distinct.2.2 p ha p (by simp) rfl
    | inr hb => exact (List.nodup_cons.mp distinct.2.1).1 hb
  refine ⟨a,b,split,?_,?_⟩
  · have before : (a.map c.entryAt).find? (fun q => q.1=key)=none := by
      rw [List.find?_eq_none]
      intro q hq
      obtain ⟨x,hx,rfl⟩ := List.mem_map.mp hq
      simpa using differ x (Or.inl hx)
    rw [h.contents,split,Recency.find?,List.map_append,List.find?_append,before,Option.none_or,
      List.map_cons,List.find?_cons_of_pos (by simpa using own),Option.map_some]
  · have keep (xs : List Nat) (hx : ∀ q∈xs,q∈a ∨ q∈b) :
        (xs.map c.entryAt).filter (fun q => q.1≠key)=xs.map c.entryAt := by
      rw [List.filter_eq_self]
      intro q hq
      obtain ⟨x,mem,rfl⟩ := List.mem_map.mp hq
      simpa using differ x (hx x mem)
    rw [h.contents,split,Recency.others,List.map_append,List.filter_append,List.map_cons,
      List.filter_cons_of_neg (by simpa using own),keep a (fun q hq => Or.inl hq),
      keep b (fun q hq => Or.inr hq),List.map_append]

theorem Holds.absent {loose : Bool} {c : LruCache} {ids : List Nat} {l : List (GoString × GoString)}
    (h : c.Holds loose ids l) {key : GoString} (missing : c.mp.lookup key=none) :
    Recency.find? l key=none := by
  rw [Recency.find?,Option.map_eq_none_iff,List.find?_eq_none,h.contents]
  intro q hq
  obtain ⟨x,hx,rfl⟩ := List.mem_map.mp hq
  intro same
  have found := (h.index key x).mpr ⟨hx,by simpa using same⟩
  rw [missing] at found
  cases found

/-- The map has as many entries as the list. -/
theorem Holds.card {loose : Bool} {c : LruCache} {ids : List Nat} {l : List (GoString × GoString)}
    (h : c.Holds loose ids l) : c.mp.keys.card=ids.length := by
  have keys : c.mp.keys=(ids.map (fun p => (c.entryAt p).1)).toFinset := by
    ext key
    rw [Finmap.mem_keys,←Finmap.lookup_isSome,Option.isSome_iff_exists,List.mem_toFinset,
      List.mem_map]
    exact exists_congr (fun p => h.index key p)
  have distinct : (ids.map (fun p => (c.entryAt p).1)).Nodup := by
    refine h.linked.nodup.map_on ?_
    intro x hx y hy same
    have first := (h.index _ x).mpr ⟨hx,rfl⟩
    have second := (h.index _ y).mpr ⟨hy,same.symm⟩
    exact Option.some.inj (first.symm.trans second)
  rw [keys,List.toFinset_card_of_nodup distinct,List.length_map]

/-- New links over the same nodes. -/
theorem Holds.relink {loose : Bool} {c d : LruCache} {ids ids' : List Nat}
    {l : List (GoString × GoString)} (h : c.Holds loose ids l) (relinks : c.Relinks d)
    (linked : d.Linked loose ids') (same : ∀ p,p∈ids' ↔ p∈ids) :
    d.Holds loose ids' (ids'.map c.entryAt) := by
  refine ⟨linked,?_,?_⟩
  · intro key p
    rw [relinks.mp,relinks.entries,same]
    exact h.index key p
  · exact List.map_congr_left (fun p _ => (relinks.entries p).symm)

/-- The last of several nodes is removed; its own prev link stays. -/
theorem Linked.removeTail {loose : Bool} {c : LruCache} {a : List Nat} {y n : Nat}
    (linked : c.Linked loose (a++[y,n])) :
    ∃ d,c.remove n=some d ∧ d.Linked loose (a++[y]) ∧ c.Relinks d ∧ (d.nodes n).prev=some y := by
  have prev := linked.last.2.1
  have distinct := linked.nodup
  rw [List.nodup_append] at distinct
  have notHead : some n≠c.head := by
    rw [linked.head]
    cases a with
    | nil =>
      have yn : y≠n := by simpa using distinct.2.1
      simpa using Ne.symm yn
    | cons z a =>
      have apart := distinct.2.2 z (by simp) n (by simp)
      simpa using Ne.symm apart
  have tail : some n=c.tail := by
    rw [linked.tail]
    simp
  have result : c.remove n=some ({c with tail := some y}.setNext y none) := by
    simp only [remove,if_neg notHead,if_pos tail,prev]
  refine ⟨_,result,linked.cutTail,⟨rfl,rfl,rfl,?_⟩,?_⟩
  · intro p
    rw [entryAt_setNext]
    rfl
  · rw [prev_setNext]
    exact prev

/-- What removeAndInsert needs of a node: loose links at the ends, and in the middle a next
link that does not lead back to the node. -/
def Touchable (loose : Bool) (c : LruCache) (p : Nat) : Prop :=
  (some p=c.head ∨ some p=c.tail → loose=true) ∧
    (some p≠c.head → some p≠c.tail → (c.nodes p).next≠some p)

/-- The node that remove has taken out goes in front of the others. -/
theorem Linked.reinsert {loose : Bool} {c d : LruCache} {a b : List Nat} {y p : Nat}
    (hd : c.remove p=some d) (rest : d.Linked loose (a++y::b)) (outside : p∉a++y::b)
    (old : p<d.fresh) (prev : d.LeadsPrev loose p none) :
    ∃ e,c.removeAndInsert p=some e ∧ e.Linked loose (p::(a++y::b)) ∧ d.Relinks e ∧
      e.head=some p ∧ (e.nodes p).prev=(d.nodes p).prev := by
  have shape : ∃ h t,a++y::b=h::t := by
    cases a with
    | nil => exact ⟨y,b,rfl⟩
    | cons z a => exact ⟨z,a++y::b,rfl⟩
  obtain ⟨h,t,shape⟩ := shape
  rw [shape] at rest outside ⊢
  obtain ⟨e,he,final,relinks,head,kept⟩ := rest.insertAtHead outside old prev
  exact ⟨e,by rw [removeAndInsert,hd,Option.bind_some,he],final,relinks,head,kept⟩

/-- A touched node goes to the front, and the order of the others stays. -/
theorem Linked.touch {loose : Bool} {c : LruCache} {a b : List Nat} {p : Nat}
    (linked : c.Linked loose (a++p::b)) (fit : c.Touchable loose p) :
    ∃ d,c.removeAndInsert p=some d ∧ d.Linked loose (p::(a++b)) ∧ c.Relinks d := by
  have old : p<c.fresh := linked.old p (by simp)
  have outside : p∉a++b := by
    have distinct := linked.nodup
    rw [List.nodup_middle,List.nodup_cons] at distinct
    exact distinct.1
  rcases List.eq_nil_or_concat' a with rfl|⟨a,y,rfl⟩
  · have top : loose=true := fit.1 (Or.inl linked.head.symm)
    subst top
    have kept : c.remove p=some c := if_pos linked.head.symm
    obtain ⟨d,hd,again,relinks,-⟩ := linked.insertHead
    exact ⟨d,by rw [removeAndInsert,kept,Option.bind_some,hd],again,relinks⟩
  · rw [List.append_assoc,List.singleton_append] at linked outside ⊢
    cases b with
    | nil =>
      have last : some p=c.tail := by
        rw [linked.tail]
        simp
      obtain ⟨d,hd,rest,relinks,-⟩ := linked.removeTail
      obtain ⟨e,he,final,more,-⟩ := Linked.reinsert hd rest outside (relinks.fresh ▸ old)
        (Or.inr ⟨fit.1 (Or.inr last),rfl⟩)
      exact ⟨e,he,final,relinks.trans more⟩
    | cons x b =>
      have next : (c.nodes p).next=some x := by
        cases linked.middle.1.2.1 with
        | inl right => exact right
        | inr free =>
          cases free.2 with
          | inl ends => cases ends
          | inr loop => exact absurd loop (fit.2 linked.inside.1 linked.inside.2)
      obtain ⟨d,hd,rest,relinks,prev⟩ := linked.unlink next
      obtain ⟨e,he,final,more,-⟩ := Linked.reinsert hd rest outside (relinks.fresh ▸ old)
        (Or.inl prev)
      exact ⟨e,he,final,relinks.trans more⟩

/-- The links do not depend on the map. -/
theorem Linked.withMap {loose : Bool} {c : LruCache} {ids : List Nat} (h : c.Linked loose ids)
    (mp : Table GoString Nat) : Linked loose {c with mp := mp} ids :=
  ⟨h.nodup,h.old,h.head,h.tail,h.nexts,h.prevs⟩

theorem Linked.setValue {loose : Bool} {c : LruCache} {ids : List Nat} (h : c.Linked loose ids)
    (p : Nat) (value : GoString) : (c.setValue p value).Linked loose ids := by
  refine ⟨h.nodup,h.old,h.head,h.tail,h.nexts.frame ?_,h.prevs.frame ?_⟩
  · intro x _ r leads
    simpa [LeadsNext] using leads
  · intro x _ r leads
    simpa [LeadsPrev] using leads

theorem nodes_alloc (c : LruCache) (key value : GoString) {x : Nat} (old : x<c.fresh) :
    (c.alloc key value).nodes x=c.nodes x := by
  have differ : x≠c.fresh := Nat.ne_of_lt old
  simp [alloc,differ]

theorem Holds.alloc {loose : Bool} {c : LruCache} {ids : List Nat} {l : List (GoString × GoString)}
    (h : c.Holds loose ids l) (key value : GoString) : (c.alloc key value).Holds loose ids l := by
  have same (x : Nat) (hx : x∈ids) : (c.alloc key value).nodes x=c.nodes x :=
    c.nodes_alloc key value (h.linked.old x hx)
  refine ⟨⟨h.linked.nodup,?_,h.linked.head,h.linked.tail,h.linked.nexts.frame ?_,
    h.linked.prevs.frame ?_⟩,?_,?_⟩
  · intro p hp
    exact Nat.lt_succ_of_lt (h.linked.old p hp)
  · intro x hx r leads
    simpa only [LeadsNext,same x hx] using leads
  · intro x hx r leads
    simpa only [LeadsPrev,same x (List.mem_reverse.mp hx)] using leads
  · intro k p
    have index : c.mp.lookup k=some p ↔ p∈ids ∧ ((c.alloc key value).entryAt p).1=k := by
      rw [h.index]
      apply and_congr_right
      intro hp
      rw [entryAt,entryAt,same p hp]
    exact index
  · rw [h.contents]
    refine List.map_congr_left ?_
    intro p hp
    rw [entryAt,entryAt,same p hp]

/-- The map without the key of the last node knows the other nodes. -/
theorem Holds.lookup_erase {loose : Bool} {c : LruCache} {ids : List Nat} {x : Nat}
    {l : List (GoString × GoString)} (h : c.Holds loose (ids++[x]) l) (k : GoString) (p : Nat) :
    (c.mp.erase (c.entryAt x).1).lookup k=some p ↔ p∈ids ∧ (c.entryAt p).1=k := by
  have apart : x∉ids := by
    have distinct := h.linked.nodup
    rw [List.nodup_append] at distinct
    intro hx
    exact distinct.2.2 x hx x (by simp) rfl
  rw [lookup_erase_ite]
  split_ifs with hk
  · -- another node of the same key would be the last one
    simp only [false_iff]
    rintro ⟨hp,own⟩
    have here := (h.index k x).mpr ⟨by simp,hk.symm⟩
    have there := (h.index k p).mpr ⟨List.mem_append_left _ hp,own⟩
    have same : x=p := Option.some.inj (here.symm.trans there)
    exact apart (same ▸ hp)
  · rw [h.index,List.mem_append,List.mem_singleton]
    constructor
    · rintro ⟨hp,own⟩
      refine ⟨hp.resolve_right ?_,own⟩
      intro same
      exact hk (by rw [←own,same])
    · rintro ⟨hp,own⟩
      exact ⟨Or.inl hp,own⟩

/-- The last of several entries is discarded. -/
theorem Holds.delTail {loose : Bool} {c : LruCache} {a : List Nat} {y x : Nat}
    {l : List (GoString × GoString)} (h : c.Holds loose (a++[y,x]) l) :
    ∃ d,c.delTail=some d ∧ d.Holds loose (a++[y]) l.dropLast ∧ d.cap=c.cap ∧ d.fresh=c.fresh ∧
      (∀ p,d.entryAt p=c.entryAt p ∧ (d.nodes p).prev=(c.nodes p).prev) ∧
      ∀ k,c.mp.lookup k=none → d.mp.lookup k=none := by
  have prev := h.linked.last.2.1
  have tail : c.tail=some x := by
    rw [h.linked.tail]
    simp
  have result : c.delTail=
      some ({c with mp := c.mp.erase (c.entryAt x).1,tail := some y}.setNext y none) := by
    simp only [LruCache.delTail,tail,prev]
    rfl
  have order : a++[y,x]=(a++[y])++[x] := by simp
  have entries (p : Nat) :
      ({c with mp := c.mp.erase (c.entryAt x).1,tail := some y}.setNext y none).entryAt p=
        c.entryAt p := by
    rw [entryAt_setNext]
    rfl
  refine ⟨_,result,⟨h.linked.cutTail.withMap (c.mp.erase (c.entryAt x).1),?_,?_⟩,rfl,rfl,?_,?_⟩
  · intro k p
    rw [entries]
    exact (order ▸ h).lookup_erase k p
  · rw [h.contents,order,List.map_append,List.map_singleton,List.dropLast_concat]
    exact List.map_congr_left (fun p _ => (entries p).symm)
  · intro p
    refine ⟨entries p,?_⟩
    rw [prev_setNext]
  · intro k missing
    have erased : (c.mp.erase (c.entryAt x).1).lookup k=none := by
      rw [lookup_erase_ite,missing]
      split_ifs <;> rfl
    exact erased

/-- A new node is entered into the map and goes to the front. -/
theorem Holds.insertNew {loose : Bool} {c : LruCache} {ids : List Nat} {n : Nat}
    {l : List (GoString × GoString)} {key value : GoString} (h : c.Holds loose ids l)
    (some' : ids≠[]) (missing : c.mp.lookup key=none) (new : n∉ids) (old : n<c.fresh)
    (entry : c.entryAt n=(key,value)) (prev : (c.nodes n).prev=none) :
    ∃ d,insertAtHead {c with mp := c.mp.insert key n} n=some d ∧
      d.Holds loose (n::ids) ((key,value)::l) ∧ d.cap=c.cap := by
  cases ids with
  | nil => exact absurd rfl some'
  | cons first rest =>
    obtain ⟨d,hd,linked,relinks,-⟩ :=
      (h.linked.withMap (c.mp.insert key n)).insertAtHead new old (Or.inl prev)
    refine ⟨d,hd,⟨linked,?_,?_⟩,relinks.cap⟩
    · intro k p
      rw [relinks.mp,relinks.entries]
      have index : (c.mp.insert key n).lookup k=some p ↔
          p∈n::first::rest ∧ (c.entryAt p).1=k := by
        rw [lookup_insert_ite,List.mem_cons]
        split_ifs with hk
        · rw [Option.some.injEq]
          constructor
          · intro same
            subst p
            exact ⟨Or.inl rfl,by rw [entry,hk]⟩
          · rintro ⟨hp|hp,own⟩
            · exact hp.symm
            · have found := (h.index k p).mpr ⟨hp,own⟩
              rw [hk,missing] at found
              cases found
        · rw [h.index]
          constructor
          · rintro ⟨hp,own⟩
            exact ⟨Or.inr hp,own⟩
          · rintro ⟨hp|hp,own⟩
            · rw [hp,entry] at own
              exact absurd own.symm hk
            · exact ⟨hp,own⟩
      exact index
    · have entries : ∀ p,d.entryAt p=c.entryAt p := relinks.entries
      have same : (n::first::rest).map d.entryAt=(n::first::rest).map c.entryAt :=
        List.map_congr_left (fun p _ => entries p)
      rw [same,List.map_cons,entry,h.contents]

/-- The first Put. -/
theorem Holds.putFirst {loose : Bool} {c : LruCache} {l : List (GoString × GoString)}
    (h : c.Holds loose [] l) (key value : GoString) :
    ∃ d,c.put key value=some d ∧ d.Holds loose [c.fresh] [(key,value)] ∧ d.cap=c.cap := by
  have empty : c.head=none := h.linked.head
  have node : (c.alloc key value).nodes c.fresh=⟨key,value,none,none⟩ := by simp [LruCache.alloc]
  refine ⟨{c.alloc key value with
      head := some c.fresh,tail := some c.fresh,mp := c.mp.insert key c.fresh},
    by simp only [put,empty]; rfl,⟨⟨List.nodup_singleton _,?_,rfl,rfl,?_,?_⟩,?_,?_⟩,rfl⟩
  · intro p hp
    rw [List.mem_singleton.mp hp]
    exact Nat.lt_succ_self c.fresh
  · refine ⟨Or.inl ?_,trivial⟩
    show ((c.alloc key value).nodes c.fresh).next=none
    rw [node]
  · refine ⟨Or.inl ?_,trivial⟩
    show ((c.alloc key value).nodes c.fresh).prev=none
    rw [node]
  · intro k p
    show (c.mp.insert key c.fresh).lookup k=some p ↔
      p∈[c.fresh] ∧ ((c.alloc key value).nodes p).key=k
    have nothing : ∀ q,c.mp.lookup k≠some q := by
      intro q found
      exact List.not_mem_nil ((h.index k q).mp found).1
    rw [lookup_insert_ite,List.mem_singleton]
    constructor
    · intro found
      split_ifs at found with hk
      · cases found
        exact ⟨rfl,by rw [node,hk]⟩
      · exact absurd found (nothing p)
    · rintro ⟨rfl,own⟩
      rw [node] at own
      rw [if_pos own.symm]
  · show [(key,value)]=[(((c.alloc key value).nodes c.fresh).key,
      ((c.alloc key value).nodes c.fresh).value)]
    rw [node]

/-- Room for a new entry: the last one of a full cache is discarded, and another one is left. -/
theorem Holds.evict {loose : Bool} {c : LruCache} {ids : List Nat}
    {l : List (GoString × GoString)} (h : c.Holds loose ids l) (some' : ids≠[]) (large : 1<c.cap) :
    ∃ d ids',(if c.cap ≤ c.mp.keys.card then c.delTail else some c)=some d ∧
      d.Holds loose ids' (if c.cap≤l.length then l.dropLast else l) ∧ ids'≠[] ∧
      (∀ p∈ids',p∈ids) ∧ d.cap=c.cap ∧ d.fresh=c.fresh ∧
      (∀ p,d.entryAt p=c.entryAt p ∧ (d.nodes p).prev=(c.nodes p).prev) ∧
      ∀ k,c.mp.lookup k=none → d.mp.lookup k=none := by
  have size : l.length=ids.length := by rw [h.contents,List.length_map]
  rw [h.card,size]
  split_ifs with full
  · have two : 2 ≤ ids.length := by omega
    rcases List.eq_nil_or_concat' ids with rfl|⟨front,x,rfl⟩
    · exact absurd rfl some'
    rcases List.eq_nil_or_concat' front with rfl|⟨a,y,rfl⟩
    · simp at two
    · rw [List.append_assoc,List.singleton_append] at h ⊢
      obtain ⟨d,hd,holds,cap,fresh,same,gone⟩ := h.delTail
      refine ⟨d,a++[y],hd,holds,by simp,?_,cap,fresh,same,gone⟩
      intro p hp
      rw [List.mem_append,List.mem_singleton] at hp
      rw [List.mem_append,List.mem_cons]
      exact hp.imp_right Or.inl
  · exact ⟨c,ids,rfl,h,some',fun _ hp => hp,rfl,rfl,fun _ => ⟨rfl,rfl⟩,fun _ gone => gone⟩

/-- A Put of a new key, which has to leave an entry behind when it discards one. -/
theorem Holds.putNew {loose : Bool} {c : LruCache} {ids : List Nat}
    {l : List (GoString × GoString)} (h : c.Holds loose ids l) (key value : GoString)
    (missing : c.mp.lookup key=none) (room : c.head=none ∨ 1<c.cap) :
    ∃ d ids',c.put key value=some d ∧ d.Holds loose ids' (Recency.put c.cap l key value) ∧
      d.cap=c.cap := by
  have target : Recency.put c.cap l key value=
      (key,value)::(if c.cap≤l.length then l.dropLast else l) := by
    rw [Recency.put,h.absent missing]
  rw [target]
  cases ids with
  | nil =>
    have empty : l=[] := h.contents
    have same : (if c.cap≤l.length then l.dropLast else l)=[] := by
      rw [empty]
      split_ifs <;> rfl
    rw [same]
    obtain ⟨d,hd,holds,cap⟩ := h.putFirst key value
    exact ⟨d,[c.fresh],hd,holds,cap⟩
  | cons first rest =>
    have head : c.head=some first := h.linked.head
    have large : 1<c.cap := room.resolve_left (by simp [head])
    obtain ⟨d,ids',hd,holds,some',inside,cap,fresh,same,gone⟩ :=
      (h.alloc key value).evict (List.cons_ne_nil _ _) large
    have new : c.fresh∉ids' := by
      intro member
      exact Nat.lt_irrefl _ (h.linked.old c.fresh (inside c.fresh member))
    have node : (c.alloc key value).nodes c.fresh=⟨key,value,none,none⟩ := by simp [LruCache.alloc]
    obtain ⟨e,he,final,cap'⟩ := holds.insertNew some' (gone key missing) new
      (by rw [fresh]; exact Nat.lt_succ_self c.fresh)
      (by rw [(same c.fresh).1,entryAt,node]) (by rw [(same c.fresh).2,node])
    refine ⟨e,c.fresh::ids',?_,final,cap'.trans cap⟩
    simp only [put,head,missing]
    rw [hd,Option.bind_some,he]

/-- A touched entry goes to the front. -/
theorem Holds.touch {loose : Bool} {c : LruCache} {ids : List Nat}
    {l : List (GoString × GoString)} (h : c.Holds loose ids l) {key : GoString} {p : Nat}
    (found : c.mp.lookup key=some p) (fit : c.Touchable loose p) :
    ∃ d ids',c.removeAndInsert p=some d ∧
      d.Holds loose ids' (c.entryAt p::Recency.others l key) ∧ d.cap=c.cap := by
  obtain ⟨a,b,split,-,others⟩ := h.split found
  have linked := h.linked
  rw [split] at linked
  obtain ⟨d,hd,moved,relinks⟩ := linked.touch fit
  have holds := h.relink relinks moved (by
    intro q
    rw [split,List.mem_cons,List.mem_append,List.mem_append,List.mem_cons]
    tauto)
  rw [List.map_cons,←others] at holds
  exact ⟨d,p::(a++b),hd,holds,relinks.cap⟩

/-- A new value changes the entry of its own key only. -/
theorem Holds.setValue {loose : Bool} {c : LruCache} {ids : List Nat}
    {l : List (GoString × GoString)} (h : c.Holds loose ids l) {key : GoString} {p : Nat}
    (found : c.mp.lookup key=some p) (value : GoString) :
    ∃ l',(c.setValue p value).Holds loose ids l' ∧
      Recency.others l' key=Recency.others l key := by
  have keys (q : Nat) : ((c.setValue p value).entryAt q).1=(c.entryAt q).1 := by
    rw [entryAt_setValue]
    split_ifs with same
    · rw [same]
      rfl
    · rfl
  refine ⟨ids.map (c.setValue p value).entryAt,⟨h.linked.setValue p value,?_,rfl⟩,?_⟩
  · intro k q
    rw [keys]
    exact h.index k q
  · rw [h.contents,Recency.others,Recency.others,List.filter_map,List.filter_map]
    have tests : ((fun q : GoString × GoString => decide (q.1≠key)) ∘ (c.setValue p value).entryAt)=
        (fun q : GoString × GoString => decide (q.1≠key)) ∘ c.entryAt := by
      funext q
      rw [Function.comp_apply,Function.comp_apply,keys]
    rw [tests]
    refine List.map_congr_left ?_
    intro q hq
    have other : (c.entryAt q).1≠key := by simpa using (List.mem_filter.mp hq).2
    have differ : q≠p := by
      intro same
      exact other (same ▸ ((h.index key p).mp found).2)
    rw [entryAt_setValue,if_neg differ]

/-- A Put of a present key. -/
theorem Holds.putOld {loose : Bool} {c : LruCache} {ids : List Nat}
    {l : List (GoString × GoString)} (h : c.Holds loose ids l) {key : GoString} {p : Nat}
    (value : GoString) (found : c.mp.lookup key=some p) (fit : c.Touchable loose p) :
    ∃ d ids',c.put key value=some d ∧ d.Holds loose ids' (Recency.put c.cap l key value) ∧
      d.cap=c.cap := by
  obtain ⟨a,b,split,present,-⟩ := h.split found
  have head : ∃ x,c.head=some x := by
    rw [h.linked.head,split]
    cases a with
    | nil => exact ⟨p,rfl⟩
    | cons x a => exact ⟨x,rfl⟩
  obtain ⟨x,head⟩ := head
  obtain ⟨l',written,others⟩ := h.setValue found value
  have fit' : (c.setValue p value).Touchable loose p := by
    refine ⟨fit.1,?_⟩
    rw [next_setValue]
    exact fit.2
  obtain ⟨d,ids',hd,holds,cap⟩ := written.touch found fit'
  have front : (c.setValue p value).entryAt p=(key,value) := by
    rw [entryAt_setValue,if_pos rfl,←((h.index key p).mp found).2]
    rfl
  refine ⟨d,ids',by simp only [put,head,found,hd],?_,cap⟩
  rw [Recency.put,present]
  rw [front,others] at holds
  exact holds

end LruCache

namespace LruRun
open LruCache

/-- A Put that discards an entry leaves another one. -/
def LeavesEntry (c : LruCache) : CacheOp GoString GoString → Prop
  | .get _ => True
  | .put key _ => c.mp.lookup key=none → c.head=none ∨ 1<c.cap

/-- What a call needs of the state it finds. -/
def Fits (loose : Bool) (c : LruCache) (op : CacheOp GoString GoString) : Prop :=
  (∀ p∈c.mp.lookup op.key,c.Touchable loose p) ∧ LeavesEntry c op

instance (loose : Bool) (c : LruCache) (p : Nat) : Decidable (c.Touchable loose p) :=
  inferInstanceAs (Decidable (_ ∧ _))

instance (c : LruCache) : ∀ op,Decidable (LeavesEntry c op)
  | .get _ => isTrue trivial
  | .put key _ => inferInstanceAs (Decidable (c.mp.lookup key=none → c.head=none ∨ 1<c.cap))

instance (loose : Bool) (c : LruCache) (op : CacheOp GoString GoString) :
    Decidable (Fits loose c op) := inferInstanceAs (Decidable (_ ∧ _))

/-- A call answers as the reference does, and the entries stay those of the reference. -/
theorem step_fits {loose : Bool} {s : LruRun} {r : Recency GoString GoString} {ids : List Nat}
    (h : s.cache.Holds loose ids r.entries) (answers : s.answers=r.answers)
    (op : CacheOp GoString GoString) (fits : Fits loose s.cache op) :
    ∃ t ids',s.step op=some t ∧ t.cache.Holds loose ids' (Recency.step s.cache.cap r op).entries ∧
      t.answers=(Recency.step s.cache.cap r op).answers ∧ t.cache.cap=s.cache.cap := by
  cases op with
  | get key =>
    cases found : s.cache.mp.lookup key with
    | none =>
      refine ⟨⟨s.cache,s.answers++[none]⟩,ids,?_,?_,?_,rfl⟩
      · simp [step,LruCache.get,found]
      · simpa [Recency.step,Recency.get,h.absent found] using h
      · simp [Recency.step,h.absent found,answers]
    | some p =>
      obtain ⟨a,b,-,present,-⟩ := h.split found
      obtain ⟨d,ids',hd,holds,cap⟩ := h.touch found (fits.1 p found)
      have front : s.cache.entryAt p=(key,(s.cache.entryAt p).2) :=
        Prod.ext ((h.index key p).mp found).2 rfl
      refine ⟨⟨d,s.answers++[some (s.cache.entryAt p).2]⟩,ids',?_,?_,?_,cap⟩
      · simp only [step,LruCache.get,found,hd]
        rfl
      · rw [front] at holds
        simpa only [Recency.step,Recency.get,present] using holds
      · simp only [Recency.step,present,answers]
  | put key value =>
    have stored : ∃ d ids',s.cache.put key value=some d ∧
        d.Holds loose ids' (Recency.put s.cache.cap r.entries key value) ∧
        d.cap=s.cache.cap := by
      cases found : s.cache.mp.lookup key with
      | none => exact h.putNew key value found (fits.2 found)
      | some p => exact h.putOld value found (fits.1 p found)
    obtain ⟨d,ids',hd,holds,cap⟩ := stored
    exact ⟨⟨d,s.answers⟩,ids',by simp only [step,hd]; rfl,holds,answers,cap⟩

/-- The cache and the reference after the same calls. -/
theorem run_fits (loose : Bool) (cap : Int) (ops : List (CacheOp GoString GoString))
    (fits : Along step (fun s op => Fits loose s.cache op) (new cap) ops) :
    ∃ t ids,run step (new cap) ops=some t ∧ t.cache.cap=cap ∧
      t.cache.Holds loose ids (Recency.run cap ops).entries ∧
      t.answers=(Recency.run cap ops).answers := by
  induction ops using List.reverseRecOn with
  | nil => exact ⟨new cap,[],rfl,rfl,holds_new loose cap,rfl⟩
  | append_singleton ops op ih =>
    rw [along_snoc] at fits
    obtain ⟨s,ids,hs,size,holds,answers⟩ := ih fits.1
    obtain ⟨t,ids',ht,holds',answers',size'⟩ := step_fits holds answers op (fits.2 s hs)
    rw [size] at holds' answers' size'
    refine ⟨t,ids',(run_snoc step (new cap) t ops op).mpr ⟨s,hs,ht⟩,size',?_,?_⟩
    · rw [Recency.run_snoc]
      exact holds'
    · rw [Recency.run_snoc]
      exact answers'

/-- No call uses a nil pointer and every Get answers as the reference cache, as long as no call
touches a node between the ends whose next link leads back to the node, and no Put discards
the only entry. -/
theorem answers_reference (cap : Int) (ops : List (CacheOp GoString GoString))
    (fits : Along step (fun s op => Fits true s.cache op) (new cap) ops) :
    ∃ t,run step (new cap) ops=some t ∧ t.answers=(Recency.run cap ops).answers := by
  obtain ⟨t,ids,ht,-,-,answers⟩ := run_fits true cap ops fits
  exact ⟨t,ht,answers⟩

/-- Two entries, the older one used again, then a third key: the unused one is discarded. -/
theorem answers_reference_evicts :
    ∃ t,run step (new 2) [.put [97] [1],.put [98] [2],.get [97],.put [99] [3],.get [98],.get [97]]=
        some t ∧
      t.answers=(Recency.run 2 [.put [97] [1],.put [98] [2],.get [97],.put [99] [3],.get [98],
        .get [97]]).answers :=
  answers_reference 2 _ (by decide +kernel)

/-- With room for one entry the second Put uses a nil pointer. With room for three an entry that
was used twice in a row and then again from the middle is discarded too early. -/
theorem answers_not_reference :
    run step (new 1) [.put [97] [1],.put [98] [2]]=none ∧
    (run step (new 3) [.put [97] [1],.put [98] [2],.get [98],.put [99] [3],.get [98],
        .put [100] [4],.put [101] [5],.get [98]]).map LruRun.answers=
      some [some [2],some [2],none] ∧
    (Recency.run 3 [.put [97] [1],.put [98] [2],.get [98],.put [99] [3],.get [98],
        .put [100] [4],.put [101] [5],.get [98]] : Recency GoString GoString).answers=
      [some [2],some [2],some [2]] := by
  decide +kernel

end LruRun

end StCache
