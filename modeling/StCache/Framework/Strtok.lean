import Mathlib.Data.List.Basic

namespace StCache

section Strtok
variable {B : Type} (p : B → Bool)

/-- One call: the next token, and what the saved pointer is left at. -/
def strtok (s : List B) : Option (List B × List B) :=
  match s.dropWhile p with
  | [] => none
  | c::rest => some (c::rest.takeWhile (fun b => !p b),(rest.dropWhile (fun b => !p b)).tail)

/-- The tokens of at most n calls. -/
def strtoks : Nat → List B → List (List B)
  | 0,_ => []
  | n+1,s =>
    match strtok p s with
    | none => []
    | some (token,rest) => token::strtoks n rest

/-- The maximal runs without delimiters. -/
def wordsOf (s : List B) : List (List B) := (s.splitOnP p).filter (fun w => !w.isEmpty)

variable {p}

theorem wordsOf_delimiter {b : B} (hb : p b=true) (s : List B) : wordsOf p (b::s)=wordsOf p s := by
  rw [wordsOf,List.splitOnP_cons_eq_if_modifyHead,if_pos hb]
  rfl

theorem wordsOf_dropWhile (s : List B) : wordsOf p (s.dropWhile p)=wordsOf p s := by
  induction s with
  | nil => rfl
  | cons b s ih =>
    cases hb : p b with
    | true => rw [List.dropWhile_cons_of_pos hb,ih,wordsOf_delimiter hb]
    | false => rw [List.dropWhile_cons_of_neg (by simp [hb])]

theorem wordsOf_word {w : List B} (nonempty : w≠[]) (plain : ∀ b∈w,p b=false) : wordsOf p w=[w] := by
  have full : (!w.isEmpty)=true := by simpa using nonempty
  rw [wordsOf,List.splitOnP_eq_singleton plain]
  exact List.filter_cons_of_pos full

theorem wordsOf_word_cons {w : List B} (nonempty : w≠[]) (plain : ∀ b∈w,p b=false) {d : B}
    (hd : p d=true) (s : List B) : wordsOf p (w++d::s)=w::wordsOf p s := by
  have full : (!w.isEmpty)=true := by simpa using nonempty
  rw [wordsOf,List.splitOnP_append_cons_of_forall_mem plain d hd]
  exact List.filter_cons_of_pos full

/-- A call that returns no token leaves no word. -/
theorem wordsOf_of_strtok_none {s : List B} (h : strtok p s=none) : wordsOf p s=[] := by
  rw [←wordsOf_dropWhile]
  cases hs : s.dropWhile p with
  | nil => rfl
  | cons c rest => simp [strtok,hs] at h

/-- A call returns the first word and leaves the others. -/
theorem wordsOf_of_strtok {s token rest : List B} (h : strtok p s=some (token,rest)) :
    wordsOf p s=token::wordsOf p rest := by
  rw [←wordsOf_dropWhile]
  cases hs : s.dropWhile p with
  | nil => simp [strtok,hs] at h
  | cons c tail =>
    simp only [strtok,hs,Option.some.injEq,Prod.mk.injEq] at h
    obtain ⟨rfl,rfl⟩ := h
    have first : p c=false := by
      have stops := List.head?_dropWhile_not p s
      simpa [hs] using stops
    have plain : ∀ b∈c::tail.takeWhile (fun b => !p b),p b=false := by
      intro b hb
      rcases List.mem_cons.mp hb with rfl|hb
      · exact first
      · simpa using List.all_eq_true.mp List.all_takeWhile b hb
    have split : c::tail=(c::tail.takeWhile (fun b => !p b))++tail.dropWhile (fun b => !p b) := by
      rw [List.cons_append,List.takeWhile_append_dropWhile]
    cases hd : tail.dropWhile (fun b => !p b) with
    | nil =>
      rw [split,hd,List.append_nil]
      exact wordsOf_word (List.cons_ne_nil _ _) plain
    | cons d more =>
      have delimiter : p d=true := by
        have stops := List.head?_dropWhile_not (fun b => !p b) tail
        simpa [hd] using stops
      rw [split,hd]
      exact wordsOf_word_cons (List.cons_ne_nil _ _) plain delimiter more

/-- Calling until the end, or n times, gives the first n words. -/
theorem strtoks_eq (n : Nat) (s : List B) : strtoks p n s=(wordsOf p s).take n := by
  induction n generalizing s with
  | zero => rfl
  | succ n ih =>
    rw [strtoks]
    split
    · next h => rw [wordsOf_of_strtok_none h,List.take_nil]
    · next token rest h => rw [wordsOf_of_strtok h,List.take_succ_cons,ih]

/-- Words joined with a delimiter are read back. -/
theorem wordsOf_intercalate {d : B} (hd : p d=true) (ws : List (List B))
    (plain : ∀ w∈ws,w≠[] ∧ ∀ b∈w,p b=false) : wordsOf p ([d].intercalate ws)=ws := by
  induction ws with
  | nil => rfl
  | cons w ws ih =>
    obtain ⟨⟨nonempty,free⟩,rest⟩ := List.forall_mem_cons.mp plain
    cases ws with
    | nil =>
      rw [show [d].intercalate [w]=w by simp [List.intercalate]]
      exact wordsOf_word nonempty free
    | cons v vs =>
      have join : [d].intercalate (w::v::vs)=w++d::[d].intercalate (v::vs) := by
        simp [List.intercalate]
      rw [join,wordsOf_word_cons nonempty free hd,ih rest]

end Strtok

end StCache
