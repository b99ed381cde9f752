import Mathlib.Tactic

/-!
Collecting the first entry of every key, as far as there is room.

The list that is collected into has room for a number of entries, and an entry is appended
unless the list is full or has an entry of its key already. So an entry gets a place exactly if
none before it has its key and fewer keys than there are places occur before it
(`collected_concat`).
-/

namespace List

variable {α κ : Type} [DecidableEq κ] {key : α → κ} {room : ℕ} {as : List α} {a : α}

/-- Append an entry, unless the list is full or has its key. -/
def collect (key : α → κ) (room : ℕ) (l : List α) (a : α) : List α :=
  if room ≤ l.length ∨ key a ∈ l.map key then l else l ++ [a]

/-- Collect the entries of a list, one after the other. -/
def collected (key : α → κ) (room : ℕ) (as : List α) : List α :=
  as.foldl (collect key room) []

/-- An entry gets a place after the given ones. -/
def Fresh (key : α → κ) (room : ℕ) (before : List α) (a : α) : Prop :=
  key a ∉ before.map key ∧ (before.map key).toFinset.card < room

instance (before : List α) (a : α) : Decidable (Fresh key room before a) :=
  inferInstanceAs (Decidable (_ ∧ _))

lemma collected_concat_eq : collected key room (as ++ [a]) =
    collect key room (collected key room as) a := by
  rw [collected, foldl_append]
  rfl

/-- As long as there is room the keys collected are those that occur; then it is full. -/
lemma keys_collected (key : α → κ) (room : ℕ) (as : List α) :
    (collected key room as).length = min room (as.map key).toFinset.card ∧
      ((as.map key).toFinset.card ≤ room →
        ((collected key room as).map key).toFinset = (as.map key).toFinset) := by
  induction as using List.reverseRecOn with
  | nil => simp [collected]
  | append_singleton as a ih =>
      obtain ⟨hlen, hkeys⟩ := ih
      have hset : ((as ++ [a]).map key).toFinset = insert (key a) (as.map key).toFinset := by
        ext k
        simp
      rw [collected_concat_eq, collect, hset]
      -- a key that has been met is skipped, be it stored or not
      by_cases hmem : key a ∈ (as.map key).toFinset
      · rw [Finset.insert_eq_of_mem hmem]
        have hskip : room ≤ (collected key room as).length ∨
            key a ∈ (collected key room as).map key := by
          by_cases hroom : (as.map key).toFinset.card ≤ room
          · rw [← hkeys hroom] at hmem
            exact .inr (List.mem_toFinset.mp hmem)
          · exact .inl (by omega)
        rw [if_pos hskip]
        exact ⟨hlen, hkeys⟩
      · rw [Finset.card_insert_of_notMem hmem]
        -- a new one is stored as long as there is room
        by_cases hroom : room ≤ (as.map key).toFinset.card
        · rw [if_pos (.inl (by omega))]
          exact ⟨by omega, fun h => absurd h (by omega)⟩
        · have hnot : ¬ (room ≤ (collected key room as).length ∨
              key a ∈ (collected key room as).map key) := by
            rintro (h | h)
            · omega
            · rw [← hkeys (by omega)] at hmem
              exact hmem (List.mem_toFinset.mpr h)
          rw [if_neg hnot]
          refine ⟨by rw [length_append, length_singleton, hlen]; omega, fun _ => ?_⟩
          rw [← hkeys (by omega)]
          ext k
          simp

/-- An entry is collected exactly if it gets a place. -/
lemma collected_concat (as : List α) (a : α) : collected key room (as ++ [a]) =
    if Fresh key room as a then collected key room as ++ [a] else collected key room as := by
  obtain ⟨hlen, hkeys⟩ := keys_collected key room as
  rw [collected_concat_eq, collect]
  have hiff : (room ≤ (collected key room as).length ∨ key a ∈ (collected key room as).map key) ↔
      ¬ Fresh key room as a := by
    rw [Fresh, not_and_or, not_not, Nat.not_lt]
    by_cases hroom : room ≤ (as.map key).toFinset.card
    · exact ⟨fun _ => .inr hroom, fun _ => .inl (by omega)⟩
    · have hset := hkeys (by omega)
      rw [← List.mem_toFinset, hset, List.mem_toFinset]
      constructor
      · rintro (h | h)
        · omega
        · exact .inl h
      · rintro (h | h)
        · exact .inr h
        · exact absurd h hroom
  by_cases hfresh : Fresh key room as a
  · rw [if_neg fun h => hiff.mp h hfresh, if_pos hfresh]
  · rw [if_pos (hiff.mpr hfresh), if_neg hfresh]

lemma mem_collected {x : α} : x ∈ collected key room as ↔
    ∃ pre post, as = pre ++ x :: post ∧ Fresh key room pre x := by
  induction as using List.reverseRecOn with
  | nil => simp [collected]
  | append_singleton as a ih =>
      have hsplit : (∃ pre post, as ++ [a] = pre ++ x :: post ∧ Fresh key room pre x) ↔
          (∃ pre post, as = pre ++ x :: post ∧ Fresh key room pre x) ∨
            x = a ∧ Fresh key room as a := by
        constructor
        · rintro ⟨pre, post, heq, hfresh⟩
          rcases List.eq_nil_or_concat' post with rfl | ⟨post, b, rfl⟩
          · obtain ⟨rfl, hx⟩ := List.append_inj' heq rfl
            obtain rfl := List.singleton_inj.mp hx
            exact .inr ⟨rfl, hfresh⟩
          · rw [← List.cons_append, ← List.append_assoc] at heq
            obtain ⟨rfl, -⟩ := List.append_inj' heq rfl
            exact .inl ⟨pre, post, rfl, hfresh⟩
        · rintro (⟨pre, post, rfl, hfresh⟩ | ⟨rfl, hfresh⟩)
          · exact ⟨pre, post ++ [a], by simp, hfresh⟩
          · exact ⟨as, [], rfl, hfresh⟩
      rw [collected_concat, hsplit, ← ih]
      split_ifs with hfresh
      · simp [hfresh]
      · simp [hfresh]

/-- What holds between any two entries collected holds between any two that get a place. -/
theorem pairwise_collected {R : α → α → Prop} : (collected key room as).Pairwise R ↔
    ∀ pre x mid y post, as = pre ++ x :: (mid ++ y :: post) → Fresh key room pre x →
      Fresh key room (pre ++ x :: mid) y → R x y := by
  induction as using List.reverseRecOn with
  | nil => simp [collected]
  | append_singleton as a ih =>
      have hold : (∀ pre x mid y post, as = pre ++ x :: (mid ++ y :: post) →
          Fresh key room pre x → Fresh key room (pre ++ x :: mid) y → R x y) ∧
            (Fresh key room as a → ∀ x ∈ collected key room as, R x a) ↔
          ∀ pre x mid y post, as ++ [a] = pre ++ x :: (mid ++ y :: post) →
            Fresh key room pre x → Fresh key room (pre ++ x :: mid) y → R x y := by
        constructor
        · rintro ⟨hbefore, hlast⟩ pre x mid y post heq hx hy
          rcases List.eq_nil_or_concat' post with rfl | ⟨post, b, rfl⟩
          · have heq' : as ++ [a] = (pre ++ x :: mid) ++ [y] := by simpa using heq
            obtain ⟨rfl, hya⟩ := List.append_inj' heq' rfl
            obtain rfl := List.singleton_inj.mp hya
            exact hlast hy x (mem_collected.mpr ⟨pre, mid, rfl, hx⟩)
          · have heq' : as ++ [a] = (pre ++ x :: (mid ++ y :: post)) ++ [b] := by simpa using heq
            obtain ⟨rfl, -⟩ := List.append_inj' heq' rfl
            exact hbefore pre x mid y post rfl hx hy
        · intro h
          refine ⟨fun pre x mid y post heq => ?_, fun hfresh x hx => ?_⟩
          · exact h pre x mid y (post ++ [a]) (by simp [heq])
          · obtain ⟨pre, post, rfl, hpre⟩ := mem_collected.mp hx
            exact h pre x post a [] (by simp) hpre hfresh
      rw [collected_concat, ← hold, ← ih]
      split_ifs with hfresh
      · simp [List.pairwise_append, hfresh]
      · simp [hfresh]

/-- Changing the entries but not their keys changes the entries collected. -/
lemma collected_map {β : Type} (f : α → β) {key' : β → κ} (hf : ∀ a, key' (f a) = key a)
    (as : List α) : collected key' room (as.map f) = (collected key room as).map f := by
  have hkeys : ∀ l : List α, (l.map f).map key' = l.map key := fun l => by
    rw [map_map]
    exact map_congr_left fun a _ => hf a
  induction as using List.reverseRecOn with
  | nil => rfl
  | append_singleton as a ih =>
      rw [map_append, map_singleton, collected_concat_eq, collected_concat_eq, ih, collect,
        collect, length_map, hkeys, hf]
      split_ifs
      · rfl
      · rw [map_append, map_singleton]

end List
