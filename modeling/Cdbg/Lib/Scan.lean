import Mathlib.Tactic

/-!
Programs that read places and always return.

A scan is a value with the places read on the way to it, in order. `Within P m` says that
every place read satisfies `P`. Along a `do` block it is the conjunction of what it says of the
parts, each at the values that were read before, so it comes apart into a condition on what
lies at the places.
-/

/-- A value and the places read for it. -/
structure Scan (τ α : Type) where
  value : α
  reads : List τ

namespace Scan

variable {τ α β : Type} {P : τ → Prop}

instance : Monad (Scan τ) where
  pure a := ⟨a, []⟩
  bind m f := ⟨(f m.value).value, m.reads ++ (f m.value).reads⟩

@[simp] lemma value_pure (a : α) : (pure a : Scan τ α).value = a := rfl

@[simp] lemma value_bind (m : Scan τ α) (f : α → Scan τ β) :
    (m >>= f).value = (f m.value).value := rfl

@[simp] lemma value_map (f : α → β) (m : Scan τ α) : (f <$> m).value = f m.value := rfl

/-- All places read are as given. -/
def Within (P : τ → Prop) (m : Scan τ α) : Prop := ∀ t ∈ m.reads, P t

@[simp] lemma within_pure (a : α) : Within P (pure a : Scan τ α) := by
  intro t ht
  cases ht

@[simp] lemma within_bind {m : Scan τ α} {f : α → Scan τ β} :
    Within P (m >>= f) ↔ Within P m ∧ Within P (f m.value) := by
  have hreads : (m >>= f).reads = m.reads ++ (f m.value).reads := rfl
  rw [Within, hreads, List.forall_mem_append]
  rfl

@[simp] lemma within_map {m : Scan τ α} {f : α → β} : Within P (f <$> m) ↔ Within P m := by
  have hreads : (f <$> m).reads = m.reads ++ [] := rfl
  rw [Within, hreads, List.append_nil]
  rfl

end Scan
