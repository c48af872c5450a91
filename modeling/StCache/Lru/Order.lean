import StCache.Lru.Lru

namespace StCache

namespace LruCache

section Fields
variable (c : LruCache) (p x : Nat) (q : Option Nat) (value : GoString)

theorem nodes_update (write : LruNode → LruNode) :
    (c.update p write).nodes x=if x=p then write (c.nodes p) else c.nodes x := by
  by_cases h : x=p
  · subst x
    simp [update]
  · simp [update,h]

@[simp] theorem next_setNext :
    ((c.setNext p q).nodes x).next=if x=p then q else (c.nodes x).next := by
  rw [setNext,nodes_update]
  split_ifs <;> rfl

@[simp] theorem prev_setNext : ((c.setNext p q).nodes x).prev=(c.nodes x).prev := by
  rw [setNext,nodes_update]
  split_ifs with h
  · rw [h]
  · rfl

@[simp] theorem prev_setPrev :
    ((c.setPrev p q).nodes x).prev=if x=p then q else (c.nodes x).prev := by
  rw [setPrev,nodes_update]
  split_ifs <;> rfl

@[simp] theorem next_setPrev : ((c.setPrev p q).nodes x).next=(c.nodes x).next := by
  rw [setPrev,nodes_update]
  split_ifs with h
  · rw [h]
  · rfl

@[simp] theorem next_setValue : ((c.setValue p value).nodes x).next=(c.nodes x).next := by
  rw [setValue,nodes_update]
  split_ifs with h
  · rw [h]
  · rfl

@[simp] theorem prev_setValue : ((c.setValue p value).nodes x).prev=(c.nodes x).prev := by
  rw [setValue,nodes_update]
  split_ifs with h
  · rw [h]
  · rfl

end Fields

/-- What is stored at an address. -/
def entryAt (c : LruCache) (p : Nat) : GoString × GoString := ((c.nodes p).key,(c.nodes p).value)

@[simp] theorem entryAt_setNext (c : LruCache) (p x : Nat) (q : Option Nat) :
    (c.setNext p q).entryAt x=c.entryAt x := by
  rw [entryAt,setNext,nodes_update]
  split_ifs with h
  · rw [h]
    rfl
  · rfl

@[simp] theorem entryAt_setPrev (c : LruCache) (p x : Nat) (q : Option Nat) :
    (c.setPrev p q).entryAt x=c.entryAt x := by
  rw [entryAt,setPrev,nodes_update]
  split_ifs with h
  · rw [h]
    rfl
  · rfl

theorem entryAt_setValue (c : LruCache) (p x : Nat) (value : GoString) :
    (c.setValue p value).entryAt x=if x=p then ((c.nodes p).key,value) else c.entryAt x := by
  rw [entryAt,setValue,nodes_update]
  split_ifs <;> rfl

/-- The second cache differs from the first in its links only. -/
structure Relinks (c d : LruCache) : Prop where
  mp : d.mp=c.mp
  cap : d.cap=c.cap
  fresh : d.fresh=c.fresh
  entries : ∀ p,d.entryAt p=c.entryAt p

theorem Relinks.trans {c d e : LruCache} (h : c.Relinks d) (k : d.Relinks e) : c.Relinks e :=
  ⟨k.mp.trans h.mp,k.cap.trans h.cap,k.fresh.trans h.fresh,
    fun p => (k.entries p).trans (h.entries p)⟩

/-- A loose next link may lead back to its own node, and the last one anywhere. -/
def LeadsNext (loose : Bool) (c : LruCache) (x : Nat) (r : Option Nat) : Prop :=
  (c.nodes x).next=r ∨ loose=true ∧ (r=none ∨ (c.nodes x).next=some x)

/-- A loose prev link of the first node may lead anywhere. -/
def LeadsPrev (loose : Bool) (c : LruCache) (x : Nat) (r : Option Nat) : Prop :=
  (c.nodes x).prev=r ∨ loose=true ∧ r=none

/-- The nodes of the list, the head first. -/
structure Linked (loose : Bool) (c : LruCache) (ids : List Nat) : Prop where
  nodup : ids.Nodup
  old : ∀ p∈ids,p<c.fresh
  head : c.head=ids.head?
  tail : c.tail=ids.getLast?
  nexts : Trail (LeadsNext loose c) ids none
  prevs : Trail (LeadsPrev loose c) ids.reverse none

theorem LeadsPrev.eq {loose : Bool} {c : LruCache} {x y : Nat} (h : c.LeadsPrev loose x (some y)) :
    (c.nodes x).prev=some y := by
  cases h with
  | inl same => exact same
  | inr free => cases free.2

/-- Reading of the two directions at a node that is neither first nor last. -/
theorem Linked.middle {loose : Bool} {c : LruCache} {a b : List Nat} {y n x : Nat}
    (h : c.Linked loose (a++y::n::x::b)) :
    (Trail (LeadsNext loose c) a (some y) ∧ c.LeadsNext loose n (some x) ∧
      Trail (LeadsNext loose c) (x::b) none) ∧
    Trail (LeadsPrev loose c) b.reverse (some x) ∧ (c.nodes n).prev=some y ∧
      Trail (LeadsPrev loose c) (y::a.reverse) none := by
  have nexts := h.nexts
  rw [trail_append] at nexts
  have prevs := h.prevs
  have order : (a++y::n::x::b).reverse=b.reverse++(x::n::y::a.reverse) := by simp
  rw [order,trail_append] at prevs
  exact ⟨⟨nexts.1,nexts.2.2.1,nexts.2.2.2⟩,prevs.1,prevs.2.2.1.eq,prevs.2.2.2⟩

theorem Linked.inside {loose : Bool} {c : LruCache} {a b : List Nat} {y n x : Nat}
    (linked : c.Linked loose (a++y::n::x::b)) : some n≠c.head ∧ some n≠c.tail := by
  have distinct := linked.nodup
  have order : a++y::n::x::b=(a++[y])++n::(x::b) := by simp
  rw [order,List.nodup_middle,List.nodup_cons] at distinct
  constructor
  · rw [linked.head]
    intro same
    have member : n∈a++[y] := by
      have start : (a++y::n::x::b).head?=(a++[y]).head? := by cases a <;> rfl
      rw [start] at same
      exact List.mem_of_head? same.symm
    exact distinct.1 (List.mem_append_left _ member)
  · rw [linked.tail]
    intro same
    have ends : a++y::n::x::b=(a++[y,n])++x::b := by simp
    rw [ends,List.getLast?_append_of_ne_nil _ (by simp)] at same
    exact distinct.1 (List.mem_append_right _ (List.mem_of_getLast? same.symm))

/-- The two links at the end of a list of at least two nodes. -/
theorem Linked.last {loose : Bool} {c : LruCache} {a : List Nat} {y n : Nat}
    (h : c.Linked loose (a++[y,n])) :
    Trail (LeadsNext loose c) a (some y) ∧ (c.nodes n).prev=some y ∧
      Trail (LeadsPrev loose c) (y::a.reverse) none := by
  have nexts := h.nexts
  rw [trail_append] at nexts
  have prevs := h.prevs
  have order : (a++[y,n]).reverse=n::y::a.reverse := by simp
  rw [order] at prevs
  exact ⟨nexts.1,prevs.1.eq,prevs.2⟩

theorem insertAtHead_eq {c : LruCache} {h : Nat} (head : c.head=some h) (n : Nat) :
    c.insertAtHead n=
      some {(c.setNext n (some h)).setPrev h (some n) with head := some n} := by
  have kept : (c.setNext n c.head).head=some h := head
  simp only [insertAtHead,kept]
  rw [head]

theorem relinks_insertAtHead (c : LruCache) (h n : Nat) :
    c.Relinks {(c.setNext n (some h)).setPrev h (some n) with head := some n} := by
  refine ⟨rfl,rfl,rfl,?_⟩
  intro p
  have links : ((c.setNext n (some h)).setPrev h (some n)).entryAt p=c.entryAt p := by simp
  exact links

/-- The head again goes to the front: both its links then lead back to itself. -/
theorem Linked.insertHead {c : LruCache} {h : Nat} {t : List Nat} (linked : c.Linked true (h::t)) :
    ∃ d,c.insertAtHead h=some d ∧ d.Linked true (h::t) ∧ c.Relinks d ∧
      d.head=some h ∧ (d.nodes h).next=some h := by
  have below : h∉t := (List.nodup_cons.mp linked.nodup).1
  refine ⟨_,insertAtHead_eq linked.head h,⟨linked.nodup,linked.old,rfl,linked.tail,?_,?_⟩,
    c.relinks_insertAtHead h h,rfl,?_⟩
  · refine ⟨Or.inr ⟨rfl,Or.inr (by simp)⟩,linked.nexts.2.frame ?_⟩
    intro x hx r leads
    have differ : x≠h := fun same => below (same ▸ hx)
    simpa [LeadsNext,differ] using leads
  · have prevs := linked.prevs
    rw [List.reverse_cons,trail_append] at prevs ⊢
    refine ⟨prevs.1.frame ?_,Or.inr ⟨rfl,rfl⟩,trivial⟩
    intro x hx r leads
    have differ : x≠h := fun same => below (same ▸ List.mem_reverse.mp hx)
    simpa [LeadsPrev,differ] using leads
  · simp

/-- A node that is not in the list goes to its front. -/
theorem Linked.insertAtHead {loose : Bool} {c : LruCache} {h n : Nat} {t : List Nat}
    (linked : c.Linked loose (h::t)) (new : n∉h::t) (old : n<c.fresh)
    (prev : c.LeadsPrev loose n none) :
    ∃ d,c.insertAtHead n=some d ∧ d.Linked loose (n::h::t) ∧ c.Relinks d ∧
      d.head=some n ∧ (d.nodes n).prev=(c.nodes n).prev := by
  have other : n≠h := fun same => new (by simp [same])
  have below : h∉t := (List.nodup_cons.mp linked.nodup).1
  have prevs := linked.prevs
  have order : (n::h::t).reverse=t.reverse++[h,n] := by simp
  rw [List.reverse_cons,trail_append] at prevs
  refine ⟨_,insertAtHead_eq linked.head n,⟨?_,?_,rfl,?_,?_,?_⟩,c.relinks_insertAtHead h n,rfl,?_⟩
  · exact List.nodup_cons.mpr ⟨new,linked.nodup⟩
  · intro p hp
    cases List.mem_cons.mp hp with
    | inl same => exact same ▸ old
    | inr later => exact linked.old p later
  · have tail : c.tail=(n::h::t).getLast? := by
      rw [List.getLast?_cons_cons]
      exact linked.tail
    exact tail
  · refine ⟨Or.inl (by simp),linked.nexts.frame ?_⟩
    intro x hx r leads
    have differ : x≠n := fun same => new (same ▸ hx)
    simpa [LeadsNext,differ] using leads
  · rw [order,trail_append]
    refine ⟨prevs.1.frame ?_,Or.inl (by simp),?_,trivial⟩
    · intro x hx r leads
      have differ : x≠h := fun same => below (same ▸ List.mem_reverse.mp hx)
      simpa [LeadsPrev,differ] using leads
    · simpa [LeadsPrev,other] using prev
  · simp [other]

/-- The last node is cut off. -/
theorem Linked.cutTail {loose : Bool} {c : LruCache} {a : List Nat} {y n : Nat}
    (linked : c.Linked loose (a++[y,n])) :
    Linked loose ({c with tail := some y}.setNext y none) (a++[y]) := by
  obtain ⟨nexts,-,prevs⟩ := linked.last
  have distinct : (a++[y]).Nodup := by
    have all := linked.nodup
    rw [List.append_cons] at all
    exact (List.nodup_append.mp all).1
  have outside : y∉a := by
    intro hy
    have disjoint := (List.nodup_append.mp distinct).2.2
    exact disjoint y hy y (by simp) rfl
  refine ⟨distinct,?_,?_,?_,?_,?_⟩
  · intro p hp
    apply linked.old p
    rw [List.append_cons]
    exact List.mem_append_left [n] hp
  · have head : c.head=(a++[y]).head? := by
      rw [linked.head]
      cases a <;> rfl
    exact head
  · have tail : (a++[y]).getLast?=some y := by simp
    exact tail.symm
  · rw [trail_append]
    refine ⟨nexts.frame ?_,Or.inl (by simp),trivial⟩
    intro x hx r leads
    have differ : x≠y := fun same => outside (same ▸ hx)
    simpa [LeadsNext,differ] using leads
  · have order : (a++[y]).reverse=y::a.reverse := by simp
    rw [order]
    refine prevs.frame ?_
    intro x hx r leads
    simpa [LeadsPrev] using leads

/-- The cache when y and x lead to each other and no longer to n between them. -/
def unlinked (c : LruCache) (y n x : Nat) : LruCache :=
  (((c.setNext y (some x)).setPrev x (some y)).setPrev n none).setNext n none

theorem LeadsNext.unlinked {loose : Bool} {c : LruCache} {y n x z : Nat} {r : Option Nat}
    (leads : c.LeadsNext loose z r) (zy : z≠y) (zn : z≠n) :
    (c.unlinked y n x).LeadsNext loose z r := by
  simpa [LeadsNext,LruCache.unlinked,zy,zn] using leads

theorem LeadsPrev.unlinked {loose : Bool} {c : LruCache} {y n x z : Nat} {r : Option Nat}
    (leads : c.LeadsPrev loose z r) (zx : z≠x) (zn : z≠n) :
    (c.unlinked y n x).LeadsPrev loose z r := by
  simpa [LeadsPrev,LruCache.unlinked,zx,zn] using leads

theorem relinks_unlinked (c : LruCache) (y n x : Nat) : c.Relinks (c.unlinked y n x) := by
  refine ⟨rfl,rfl,rfl,?_⟩
  intro p
  simp [unlinked]

theorem Linked.remove_middle {loose : Bool} {c : LruCache} {a b : List Nat} {y n x : Nat}
    (linked : c.Linked loose (a++y::n::x::b)) (yn : y≠n) (next : (c.nodes n).next=some x) :
    c.remove n=some (c.unlinked y n x) := by
  obtain ⟨notHead,notTail⟩ := linked.inside
  have prev := linked.middle.2.2.1
  simp only [remove,if_neg notHead,if_neg notTail,prev,next,next_setNext,if_neg yn.symm,
    prev_setNext,unlinked]

/-- A node between two others is unlinked, if its next link is the right one. -/
theorem Linked.unlink {loose : Bool} {c : LruCache} {a b : List Nat} {y n x : Nat}
    (linked : c.Linked loose (a++y::n::x::b)) (next : (c.nodes n).next=some x) :
    ∃ d,c.remove n=some d ∧ d.Linked loose (a++y::x::b) ∧ c.Relinks d ∧ (d.nodes n).prev=none := by
  obtain ⟨⟨left,-,right⟩,below,-,above⟩ := linked.middle
  have rest : (a++y::x::b).Sublist (a++y::n::x::b) := by simp
  have distinct := linked.nodup.sublist rest
  have gone : n∉a++y::x::b := by
    have order : a++y::n::x::b=(a++[y])++n::(x::b) := by simp
    have all := linked.nodup
    rw [order,List.nodup_middle,List.nodup_cons] at all
    simpa using all.1
  have y_once : y∉a++x::b := (List.nodup_cons.mp (List.nodup_middle.mp distinct)).1
  have x_once : x∉(a++[y])++b := by
    have order : a++y::x::b=(a++[y])++x::b := by simp
    rw [order] at distinct
    exact (List.nodup_cons.mp (List.nodup_middle.mp distinct)).1
  have yn : y≠n := by
    rintro rfl
    exact gone (by simp)
  have nx : x≠n := by
    rintro rfl
    exact gone (by simp)
  refine ⟨_,linked.remove_middle yn next,⟨distinct,?_,?_,?_,?_,?_⟩,relinks_unlinked c y n x,?_⟩
  · intro p hp
    exact linked.old p (rest.subset hp)
  · have head : c.head=(a++y::x::b).head? := by
      rw [linked.head]
      cases a <;> rfl
    exact head
  · have tail : c.tail=(a++y::x::b).getLast? := by
      rw [linked.tail]
      simp
    exact tail
  · -- only the next links of y and n have changed
    rw [trail_append]
    refine ⟨left.frame ?_,Or.inl ?_,right.frame ?_⟩
    · intro z hz r leads
      exact leads.unlinked (fun same => y_once (by simp [←same,hz]))
        (fun same => gone (by simp [←same,hz]))
    · simp [unlinked,yn]
    · intro z hz r leads
      exact leads.unlinked (fun same => y_once (List.mem_append_right a (same ▸ hz)))
        (fun same => gone (List.mem_append_right a (List.mem_cons_of_mem y (same ▸ hz))))
  · -- and the prev links of x and n
    have order : (a++y::x::b).reverse=b.reverse++(x::y::a.reverse) := by simp
    rw [order,trail_append]
    refine ⟨below.frame ?_,Or.inl ?_,above.frame ?_⟩
    · intro z hz r leads
      rw [List.mem_reverse] at hz
      exact leads.unlinked (fun same => x_once (List.mem_append_right _ (same ▸ hz)))
        (fun same => gone (by simp [←same,hz]))
    · simp [unlinked,nx]
    · intro z hz r leads
      have member : z∈a++[y] := by
        simp only [List.mem_cons,List.mem_reverse] at hz
        simpa [or_comm] using hz
      refine leads.unlinked (fun same => x_once (List.mem_append_left b (same ▸ member))) ?_
      intro same
      have order' : a++y::x::b=(a++[y])++x::b := by simp
      rw [order'] at gone
      exact gone (List.mem_append_left _ (same ▸ member))
  · simp [unlinked]

end LruCache

end StCache
