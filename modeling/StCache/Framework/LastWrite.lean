import StCache.Framework.Runs

namespace StCache

section LastWrite
variable {S E A : Type} (write : E → Option A)

/-- What the last event that writes a register put there. -/
def lastOf (es : List E) : Option A := es.foldl (fun acc e => (write e).or acc) none

theorem lastOf_snoc (es : List E) (e : E) :
    lastOf write (es++[e])=(write e).or (lastOf write es) := by
  simp [lastOf,List.foldl_append]

theorem lastOf_append (es fs : List E) :
    lastOf write (es++fs)=(lastOf write fs).or (lastOf write es) := by
  induction fs using List.reverseRecOn with
  | nil => simp [lastOf]
  | append_singleton fs e ih =>
    rw [←List.append_assoc,lastOf_snoc,lastOf_snoc,ih,Option.or_assoc]

/-- Events that took effect before may take effect again: where the whole list
leaves the register alone, so does its beginning. -/
theorem lastOf_absorb (es fs : List E) (x : A) :
    (lastOf write (es++fs)).getD ((lastOf write es).getD x)=(lastOf write (es++fs)).getD x := by
  rw [lastOf_append]
  cases lastOf write fs with
  | some y => rfl
  | none => cases lastOf write es <;> rfl

/-- A register that every step writes or leaves alone holds the last write. -/
theorem read_run (step : S → E → Option S) (read : S → A)
    (law : ∀ s e t,step s e=some t → read t=(write e).getD (read s))
    (s t : S) (es : List E) (hr : run step s es=some t) :
    read t=(lastOf write es).getD (read s) := by
  refine run_history step s (fun es t => read t=(lastOf write es).getD (read s)) rfl ?_ es t hr
  intro es e u t _ ih hs
  rw [law u e t hs,ih,lastOf_snoc]
  cases write e <;> rfl

end LastWrite

end StCache
