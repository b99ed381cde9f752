import Mathlib.Data.List.MinMax

/-!
Linear searches for the best element: loops that keep the best of the elements seen so
far and change it only for a strictly better one. They compute the first maximum (or
minimum) of a key over the elements that pass a test.
-/

namespace List

variable {α β : Type*} [LinearOrder β] {f : α → β} {l : List α} {m : α}

/-- The loop that skips the elements failing a test and keeps the first of least key. -/
lemma foldl_min_eq_argmin (p : α → Prop) [DecidablePred p] (f : α → β) (l : List α) :
    l.foldl (fun best e =>
      if p e then
        match best with
        | none => some e
        | some b => if f e < f b then some e else best
      else best) none = (l.filter (fun e => p e)).argmin f := by
  rw [argmin, foldl_filter]
  congr 1
  funext best e
  by_cases h : p e
  · cases best <;> simp [h, argAux]
  · simp [h]

/-- The loop that skips the elements failing a test and keeps the first of greatest key. -/
lemma foldl_max_eq_argmax (p : α → Prop) [DecidablePred p] (f : α → β) (l : List α) :
    l.foldl (fun best e =>
      if p e then
        match best with
        | none => some e
        | some b => if f b < f e then some e else best
      else best) none = (l.filter (fun e => p e)).argmax f := by
  rw [argmax, foldl_filter]
  congr 1
  funext best e
  by_cases h : p e
  · cases best <;> simp [h, argAux]
  · simp [h]

/-- Of two elements at the head of a list, the second counts only if it is strictly less. -/
lemma argmin_cons_cons (f : α → β) (a b : α) (l : List α) :
    (a :: b :: l).argmin f = ((if f b < f a then b else a) :: l).argmin f := by
  simp only [argmin, foldl_cons, argAux]
  split_ifs <;> rfl

/-- Of the elements with the greatest key it is the first. -/
lemma find?_of_mem_argmax (h : m ∈ argmax f l) : l.find? (fun a => f a = f m) = some m := by
  induction l with
  | nil => simp at h
  | cons a l ih =>
    rw [argmax_cons] at h
    cases hl : argmax f l with
    | none =>
      obtain rfl : a = m := by simpa [hl] using h
      simp
    | some c =>
      rw [hl] at h
      by_cases hac : f a < f c
      · obtain rfl : c = m := by simpa [hac] using h
        rw [find?_cons_of_neg (by simpa using hac.ne)]
        exact ih hl
      · obtain rfl : a = m := by simpa [hac] using h
        simp

/-- The first of the elements with a key that is at least every other key. -/
lemma mem_argmax_of_find? (hm : ∀ a ∈ l, f a ≤ f m)
    (h : l.find? (fun a => f a = f m) = some m) : m ∈ argmax f l := by
  have hml : m ∈ l := mem_of_find?_eq_some h
  cases hc : argmax f l with
  | none => exact absurd (argmax_eq_none.mp hc) (ne_nil_of_mem hml)
  | some c =>
    have hcm : f c = f m := le_antisymm (hm c (argmax_mem hc)) (le_of_mem_argmax hml hc)
    have hfirst := find?_of_mem_argmax hc
    rw [hcm] at hfirst
    exact hfirst.symm.trans h

end List
