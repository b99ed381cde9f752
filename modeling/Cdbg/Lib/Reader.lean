import Mathlib.Tactic

/-!
Readers of a text with an end behind which the text goes on.

A cursor stands in a text: the letters up to the end it was given, and those behind. A
reader takes some letters and may fail. `Reads m xs a` says that `m` reads exactly the
letters `xs`, whatever follows, and returns `a`; the rules compose it along `do` blocks,
repetitions and folds.
-/

/-- A position in a text: the letters up to the end, and those behind the end. -/
structure Cursor (τ : Type) where
  inside : List τ
  outside : List τ

/-- A function that reads from a cursor. -/
abbrev Reader (τ α : Type) : Type := StateT (Cursor τ) Option α

namespace Reader

variable {τ α β δ ε : Type}

/-- `m` reads the letters `xs` as `a`. -/
def Reads (m : Reader τ α) (xs : List τ) (a : α) : Prop :=
  ∀ rest out, m.run ⟨xs ++ rest, out⟩ = some (a, ⟨rest, out⟩)

/-- `m` as often as given. -/
def times : ℕ → Reader τ α → Reader τ (List α)
  | 0, _ => pure []
  | n + 1, m => do
      let a ← m
      let as ← times n m
      return a :: as

namespace Reads

lemma pure (a : α) : Reads (Pure.pure a : Reader τ α) [] a := fun _ _ => rfl

lemma bind {m : Reader τ α} {f : α → Reader τ β} {xs ys : List τ} {a : α} {b : β}
    (hm : Reads m xs a) (hf : Reads (f a) ys b) : Reads (m >>= f) (xs ++ ys) b := by
  intro rest out
  rw [StateT.run_bind, List.append_assoc, hm]
  exact hf rest out

/-- A reader followed by one that reads nothing. -/
lemma bind_nil {m : Reader τ α} {f : α → Reader τ β} {xs : List τ} {a : α} {b : β}
    (hm : Reads m xs a) (hf : Reads (f a) [] b) : Reads (m >>= f) xs b := by
  have h := hm.bind hf
  rwa [List.append_nil] at h

/-- A reader that is given at least as many rounds as there are letters to read. -/
lemma rounds {m : ℕ → Reader τ α} {xs : List τ} {a : α}
    (hm : ∀ n, xs.length ≤ n → Reads (m n) xs a) :
    Reads (do let c ← get; m c.inside.length) xs a := by
  intro rest out
  have hle : xs.length ≤ (xs ++ rest).length := by
    rw [List.length_append]
    exact Nat.le_add_right _ _
  exact hm _ hle rest out

/-- A reader that asks first whether the end is reached. -/
lemma unless_end [DecidableEq τ] {m : Reader τ α} {xs : List τ} {a b : α} (hne : xs ≠ [])
    (hm : Reads m xs a) :
    Reads (do
      if (← get).inside = [] then
        return b
      m) xs a := by
  intro rest out
  have hinside : ¬ xs ++ rest = [] := by
    simp [hne]
  rw [StateT.run_bind]
  show ((if xs ++ rest = [] then Pure.pure b else m : Reader τ α)).run ⟨xs ++ rest, out⟩ = _
  rw [if_neg hinside]
  exact hm rest out

/-- Reading a list of items, each as its value. -/
lemma times {m : Reader τ α} (text : ε → List τ) (value : ε → α) :
    ∀ items : List ε, (∀ v ∈ items, Reads m (text v) (value v)) →
      Reads (Reader.times items.length m) (items.flatMap text) (items.map value)
  | [], _ => pure []
  | v :: vs, h => by
      have hv := h v List.mem_cons_self
      have ih := times text value vs fun u hu => h u (List.mem_cons_of_mem v hu)
      rw [List.flatMap_cons]
      exact hv.bind (ih.bind_nil (pure _))

/-- Reading the items that the steps of a fold ask for. -/
lemma foldlM {f : β → δ → Reader τ β} (text : ε → List τ) (g : β → ε → β) :
    ∀ (ds : List δ) (items : List ε),
      List.Forall₂ (fun d v => ∀ b, Reads (f b d) (text v) (g b v)) ds items →
      ∀ b, Reads (ds.foldlM f b) (items.flatMap text) (items.foldl g b) := by
  intro ds items h
  induction h with
  | nil => exact fun b => pure b
  | cons hd _ ih =>
      intro b
      rw [List.foldlM_cons, List.flatMap_cons, List.foldl_cons]
      exact (hd b).bind (ih _)

end Reads

end Reader
