import Mathlib.Data.List.Basic

namespace StCache

section Links
variable {A : Type}

/-- Where a path through these cells starts when it leads on to q. -/
def first (xs : List A) (q : Option A) : Option A := xs.head?.or q

/-- The link of every cell may lead to the cell after it, the last one's to q. -/
def Trail (leads : A → Option A → Prop) : List A → Option A → Prop
  | [],_ => True
  | x::xs,q => leads x (first xs q) ∧ Trail leads xs q

/-- Following the link from p visits these cells, one after the other, and ends with nil. -/
def Visits (link : A → Option A) : Option A → List A → Prop
  | p,[] => p=none
  | p,x::xs => p=some x ∧ Visits link (link x) xs

@[simp] theorem first_nil (q : Option A) : first [] q=q := rfl

@[simp] theorem first_cons (x : A) (xs : List A) (q : Option A) : first (x::xs) q=some x := rfl

theorem first_append (xs ys : List A) (q : Option A) : first (xs++ys) q=first xs (first ys q) := by
  cases xs <;> rfl

@[simp] theorem trail_nil (leads : A → Option A → Prop) (q : Option A) : Trail leads [] q := trivial

@[simp] theorem trail_cons (leads : A → Option A → Prop) (x : A) (xs : List A) (q : Option A) :
    Trail leads (x::xs) q ↔ leads x (first xs q) ∧ Trail leads xs q := Iff.rfl

theorem trail_append (leads : A → Option A → Prop) (xs ys : List A) (q : Option A) :
    Trail leads (xs++ys) q ↔ Trail leads xs (first ys q) ∧ Trail leads ys q := by
  induction xs with
  | nil => simp
  | cons x xs ih =>
    rw [List.cons_append,trail_cons,trail_cons,ih,first_append,and_assoc]

/-- A path stays where the links of its cells stay. -/
theorem Trail.frame {leads leads' : A → Option A → Prop} {xs : List A} {q : Option A}
    (h : Trail leads xs q) (same : ∀ x∈xs,∀ r,leads x r → leads' x r) : Trail leads' xs q := by
  induction xs with
  | nil => trivial
  | cons x xs ih =>
    exact ⟨same x (by simp) _ h.1,ih h.2 (fun y hy => same y (by simp [hy]))⟩

theorem visits_iff (link : A → Option A) (p : Option A) (xs : List A) :
    Visits link p xs ↔ p=xs.head? ∧ Trail (fun x r => link x=r) xs none := by
  induction xs generalizing p with
  | nil => simp [Visits]
  | cons x xs ih =>
    have start : first xs none=xs.head? := by simp [first]
    rw [Visits,ih,trail_cons,start,List.head?_cons]

/-- A cell that leads to itself lies on no path that visits it once. -/
theorem not_visits_loop (link : A → Option A) (x : A) (loop : link x=some x) (xs : List A)
    (distinct : xs.Nodup) : ¬Visits link (some x) xs := by
  intro h
  cases xs with
  | nil => cases h
  | cons y ys =>
    have here : x=y := Option.some.inj h.1
    subst y
    have next := h.2
    rw [loop] at next
    cases ys with
    | nil => cases next
    | cons z zs =>
      have again : x=z := Option.some.inj next.1
      subst z
      simp at distinct

end Links

end StCache
