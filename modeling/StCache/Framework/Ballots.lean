import Mathlib.Order.Nat

namespace StCache
namespace Ballots

/-- How to read a ledger of answers to requests for a vote: who answered which request, whether it
was granted and whether the voter's check had passed; and what a request asks for. -/
structure Reading (X V R C : Type) where
  voter : X → V
  request : X → R
  granted : X → Bool
  passed : X → Prop
  term : R → Nat
  candidate : R → C
  nobody : C

/-- The last vote on a voter's disk, and the term the voter has reached. -/
structure Disk (C : Type) where
  term : Nat
  candidate : C
  reached : Nat

variable {X V R C : Type}

namespace Reading

def Granted (p : Reading X V R C) (votes : List X) (v : V) (r : R) : Prop :=
  ∃ x∈votes,p.voter x=v ∧ p.request x=r ∧ p.granted x=true

/-- Granted by a voter whose check had passed. -/
def Checked (p : Reading X V R C) (votes : List X) (v : V) (r : R) : Prop :=
  ∃ x∈votes,p.voter x=v ∧ p.request x=r ∧ p.granted x=true ∧ p.passed x

/-- What the disk of voter n says about the votes it has granted. -/
structure Kept (p : Reading X V R C) (votes : List X) (torn : List (V × Nat)) (n : V)
    (d : Disk C) : Prop where
  voted : d.term≤d.reached
  kept : ∀ r,p.Granted votes n r → p.candidate r≠p.nobody ∧ p.term r≤d.term ∧
    (p.term r=d.term → d.candidate=p.candidate r)
  known : d.candidate≠p.nobody → (n,d.term)∈torn ∨
    ∃ r,p.Checked votes n r ∧ p.term r=d.term ∧ p.candidate r=d.candidate

/-- Here torn has the votes of which a disk has only the term. -/
structure Voting (p : Reading X V R C) (disk : V → Disk C) (votes : List X)
    (torn : List (V × Nat)) : Prop where
  kept : ∀ n,p.Kept votes torn n (disk n)
  single : ∀ v a b,p.Granted votes v a → p.Granted votes v b → p.term a=p.term b →
    p.candidate a=p.candidate b
  checked : ∀ v r,p.Granted votes v r → p.Checked votes v r ∨ (v,p.term r)∈torn

section Votes
variable {p : Reading X V R C} {disk : V → Disk C} {votes : List X} {torn : List (V × Nat)}
  {n v : V} {d : Disk C} {x : X} {r : R}

theorem Granted.append (h : p.Granted votes v r) (more : List X) :
    p.Granted (votes++more) v r := by
  obtain ⟨vote,there,rest⟩ := h
  exact ⟨vote,List.mem_append_left more there,rest⟩

theorem Checked.append (h : p.Checked votes v r) (more : List X) :
    p.Checked (votes++more) v r := by
  obtain ⟨vote,there,rest⟩ := h
  exact ⟨vote,List.mem_append_left more there,rest⟩

theorem Checked.granted (h : p.Checked votes v r) : p.Granted votes v r := by
  obtain ⟨vote,there,voter,request,granted,-⟩ := h
  exact ⟨vote,there,voter,request,granted⟩

theorem not_granted_nil (v : V) (r : R) : ¬p.Granted [] v r := by
  rintro ⟨vote,there,-⟩
  cases there

theorem granted_snoc : p.Granted (votes++[x]) v r ↔
    p.Granted votes v r ∨ (p.voter x=v ∧ p.request x=r ∧ p.granted x=true) := by
  constructor
  · rintro ⟨vote,there,rest⟩
    rcases List.mem_append.mp there with old|new
    · exact .inl ⟨vote,old,rest⟩
    · rw [List.mem_singleton.mp new] at rest
      exact .inr rest
  · rintro (old|new)
    · exact old.append [x]
    · exact ⟨x,List.mem_append_right votes (List.mem_singleton_self x),new⟩

/-- A fresh disk. -/
theorem kept_nil (n : V) (reached : Nat) : p.Kept [] [] n ⟨0,p.nobody,reached⟩ :=
  ⟨Nat.zero_le _,fun r granted => absurd granted (not_granted_nil n r),fun named => absurd rfl named⟩

theorem Kept.congr {d' : Disk C} (h : p.Kept votes torn n d) (term : d'.term=d.term)
    (candidate : d'.candidate=d.candidate) (later : d.reached≤d'.reached) :
    p.Kept votes torn n d' := by
  refine ⟨?_,?_,?_⟩
  · rw [term]
    exact h.voted.trans later
  · rw [term,candidate]
    exact h.kept
  · rw [term,candidate]
    exact h.known

/-- An answer of another voter, or one that grants nothing, is no news for a disk. -/
theorem Kept.snoc (h : p.Kept votes torn n d)
    (old : ∀ r,p.Granted (votes++[x]) n r → p.Granted votes n r) :
    p.Kept (votes++[x]) torn n d := by
  refine ⟨h.voted,fun r granted => h.kept r (old r granted),fun named => ?_⟩
  rcases h.known named with lost|⟨r,checked,rest⟩
  · exact .inl lost
  · exact .inr ⟨r,checked.append [x],rest⟩

theorem Kept.tear (h : p.Kept votes torn n d) (more : List (V × Nat)) :
    p.Kept votes (torn++more) n d :=
  ⟨h.voted,h.kept,fun named => (h.known named).imp_left (List.mem_append_left more)⟩

/-- An answer that grants nothing. -/
theorem Voting.refuse (h : p.Voting disk votes torn) (refused : p.granted x=false) :
    p.Voting disk (votes++[x]) torn := by
  have old : ∀ v r,p.Granted (votes++[x]) v r → p.Granted votes v r := by
    intro v r granted
    rcases granted_snoc.mp granted with old|⟨-,-,new⟩
    · exact old
    · rw [refused] at new
      cases new
  refine ⟨fun m => (h.kept m).snoc (old m),?_,?_⟩
  · intro v a b ha hb
    exact h.single v a b (old v a ha) (old v b hb)
  · intro v r granted
    exact (h.checked v r (old v r granted)).imp_left (fun c => c.append [x])

/-- While the vote of a term is free, all votes granted are of older terms. -/
theorem Voting.older {term : Nat} (h : p.Voting disk votes torn)
    (free : ¬((disk n).term=term ∧ (disk n).candidate≠p.nobody)) (late : (disk n).term≤term)
    (granted : p.Granted votes n r) : p.term r<term := by
  obtain ⟨named,below,same⟩ := (h.kept n).kept r granted
  refine Nat.lt_of_le_of_ne (below.trans late) ?_
  intro now
  have last : (disk n).term=term := Nat.le_antisymm late (now.symm.le.trans below)
  refine free ⟨last,?_⟩
  rw [same (now.trans last.symm)]
  exact named

theorem granted_other {m : V} (voter : p.voter x=n) (other : m≠n) (r : R)
    (granted : p.Granted (votes++[x]) m r) : p.Granted votes m r := by
  rcases granted_snoc.mp granted with old|⟨new,-⟩
  · exact old
  · exact absurd (new.symm.trans voter) other

section Update
variable [DecidableEq V]

theorem Voting.update (h : p.Voting disk votes torn) (term : d.term=(disk n).term)
    (candidate : d.candidate=(disk n).candidate) (later : (disk n).reached≤d.reached) :
    p.Voting (Function.update disk n d) votes torn :=
  ⟨(Function.forall_update_iff disk (p.Kept votes torn)).mpr
    ⟨(h.kept n).congr term candidate later,fun m _ => h.kept m⟩,h.single,h.checked⟩

/-- One more vote, for the only candidate that this voter has granted its vote in that term. -/
theorem Voting.grow (h : p.Voting disk votes torn) (voter : p.voter x=n)
    (kept : p.Kept (votes++[x]) torn n d)
    (alone : ∀ r,p.Granted votes n r → p.term r=p.term (p.request x) →
      p.candidate r=p.candidate (p.request x))
    (checked : p.Checked (votes++[x]) n (p.request x) ∨ (n,p.term (p.request x))∈torn) :
    p.Voting (Function.update disk n d) (votes++[x]) torn := by
  refine ⟨(Function.forall_update_iff disk (p.Kept (votes++[x]) torn)).mpr ⟨kept,?_⟩,?_,?_⟩
  · intro m other
    exact (h.kept m).snoc (granted_other voter other)
  · intro v a b ha hb same
    rcases granted_snoc.mp ha with ha|⟨rfl,rfl,-⟩ <;> rcases granted_snoc.mp hb with hb|⟨hv,rfl,-⟩
    · exact h.single v a b ha hb same
    · rw [←hv,voter] at ha
      exact alone a ha same
    · rw [voter] at hb
      exact (alone b hb same.symm).symm
    · rfl
  · intro v r granted
    rcases granted_snoc.mp granted with old|⟨rfl,rfl,-⟩
    · exact (h.checked v r old).imp_left (fun c => c.append [x])
    · rw [voter]
      exact checked

/-- A new vote, both parts of which are on the disk. -/
theorem Voting.cast (h : p.Voting disk votes torn) (voter : p.voter x=n)
    (granted : p.granted x=true) (passed : p.passed x)
    (named : p.candidate (p.request x)≠p.nobody) (term : d.term=p.term (p.request x))
    (candidate : d.candidate=p.candidate (p.request x)) (reached : p.term (p.request x)≤d.reached)
    (older : ∀ r,p.Granted votes n r → p.term r<p.term (p.request x)) :
    p.Voting (Function.update disk n d) (votes++[x]) torn := by
  have checked : p.Checked (votes++[x]) n (p.request x) :=
    ⟨x,List.mem_append_right votes (List.mem_singleton_self x),voter,rfl,granted,passed⟩
  refine h.grow voter ⟨?_,?_,?_⟩ (fun r old now => ?_) (.inl checked)
  · rw [term]
    exact reached
  · rw [term,candidate]
    intro r given
    rcases granted_snoc.mp given with old|⟨-,rfl,-⟩
    · have before := older r old
      exact ⟨((h.kept n).kept r old).1,before.le,fun now => absurd now before.ne⟩
    · exact ⟨named,Nat.le_refl _,fun _ => rfl⟩
  · intro _
    exact .inr ⟨p.request x,checked,term.symm,candidate.symm⟩
  · exact absurd now (older r old).ne

/-- The last vote is granted once more. -/
theorem Voting.again (h : p.Voting disk votes torn) (voter : p.voter x=n)
    (named : p.candidate (p.request x)≠p.nobody) (lastTerm : (disk n).term=p.term (p.request x))
    (lastCandidate : (disk n).candidate=p.candidate (p.request x))
    (term : d.term=(disk n).term) (candidate : d.candidate=(disk n).candidate)
    (later : (disk n).reached≤d.reached)
    (once : ∀ r,p.Granted votes n r → p.candidate r=p.candidate (p.request x) →
      p.term r=p.term (p.request x) → r=p.request x) :
    p.Voting (Function.update disk n d) (votes++[x]) torn := by
  have old := h.kept n
  have alone : ∀ r,p.Granted votes n r → p.term r=p.term (p.request x) →
      p.candidate r=p.candidate (p.request x) := by
    intro r given now
    rw [←lastCandidate]
    exact ((old.kept r given).2.2 (now.trans lastTerm.symm)).symm
  have known : (n,p.term (p.request x))∈torn ∨ p.Checked votes n (p.request x) := by
    rw [←lastCandidate] at named
    rcases old.known named with lost|⟨r,checked,hterm,hcandidate⟩
    · rw [lastTerm] at lost
      exact .inl lost
    · rw [once r checked.granted (hcandidate.trans lastCandidate) (hterm.trans lastTerm)] at checked
      exact .inr checked
  refine h.grow voter (Kept.congr ⟨old.voted,?_,?_⟩ term candidate later) alone
    (known.symm.imp_left (fun c => c.append [x]))
  · intro r given
    rcases granted_snoc.mp given with given|⟨-,rfl,-⟩
    · exact old.kept r given
    · exact ⟨named,lastTerm.ge,fun _ => lastCandidate⟩
  · intro _
    rw [lastTerm,lastCandidate]
    exact known.imp_right (fun checked => ⟨p.request x,checked.append [x],rfl,rfl⟩)

/-- Only the term of a new vote is written. -/
theorem Voting.tear {term : Nat} (h : p.Voting disk votes torn) (new : d.term=term)
    (reached : term≤d.reached) (older : ∀ r,p.Granted votes n r → p.term r<term) :
    p.Voting (Function.update disk n d) votes (torn++[(n,term)]) := by
  refine ⟨(Function.forall_update_iff disk (p.Kept votes (torn++[(n,term)]))).mpr
    ⟨⟨?_,?_,?_⟩,fun m _ => (h.kept m).tear _⟩,h.single,?_⟩
  · rw [new]
    exact reached
  · rw [new]
    intro r old
    have before := older r old
    exact ⟨((h.kept n).kept r old).1,before.le,fun now => absurd now before.ne⟩
  · intro _
    rw [new]
    exact .inl (List.mem_append_right torn (List.mem_singleton_self _))
  · intro v r granted
    exact (h.checked v r granted).imp_right (List.mem_append_left _)

end Update

end Votes

end Reading

end Ballots
end StCache
