import Mathlib.Tactic

/-!
Programs over a state that leave a trace and may fail to return.

A program takes a state to a run: the value it returns (`none` if it never
returns), the state it leaves, and the events it emitted, oldest first. The
trace is an output only, so no program can depend on it, and the trace of a
sequence is the concatenation of the traces.

Four judgements are built on it.

* `Moves R m`: every run of `m` is a chain of the labelled steps `R`, whose
  emitted events are the trace of the run. What each step preserves, every such
  program preserves (`Moves.spec`), also relative to the events so far
  (`Moves.along`).
* `Spec ok good P m Q`: from a state in `P`, if all events of the run are `ok`,
  then all of them are `good`, and a returned value and state satisfy `Q`. The
  rules compose along `do` blocks; `ok` is the condition under which a run is
  considered, `good` what is to be shown of its events.
* `Total s m Q`: the run of `m` from `s` returns, with `Q` of its value, state and events.
* `Track`: a specification at one state in which `ok`, `good` and the conclusion may speak
  of what has been gathered from the events so far.
-/

/-- What a run leaves behind: the value returned, if any, the last state, and the
events emitted, oldest first. -/
structure Run (E S α : Type) where
  value : Option α
  final : S
  trace : List E

/-- A program over the state `S` emitting events `E`. -/
def Prog (E S α : Type) : Type := S → Run E S α

namespace Prog

variable {E S α β : Type}

/-- Run `m`, then `f` on its value; a program that does not return ends the sequence. -/
def seq (m : Prog E S α) (f : α → Prog E S β) : Prog E S β := fun s =>
  match m s with
  | ⟨none, s', t⟩ => ⟨none, s', t⟩
  | ⟨some a, s', t⟩ => ⟨(f a s').value, (f a s').final, t ++ (f a s').trace⟩

instance : Monad (Prog E S) where
  pure a := fun s => ⟨some a, s, []⟩
  bind := seq

/-- The current state. -/
def get : Prog E S S := fun s => ⟨some s, s, []⟩

/-- Change the state. -/
def modify (f : S → S) : Prog E S Unit := fun s => ⟨some (), f s, []⟩

/-- Emit an event that records the current state. -/
def emit (e : S → E) : Prog E S Unit := fun s => ⟨some (), s, [e s]⟩

/-- Never return. -/
def hang : Prog E S α := fun s => ⟨none, s, []⟩

/-- `m` as often as given. -/
def times : ℕ → Prog E S α → Prog E S (List α)
  | 0, _ => pure []
  | n + 1, m => do
      let a ← m
      let as ← times n m
      return a :: as

@[simp] lemma pure_apply (a : α) (s : S) : (pure a : Prog E S α) s = ⟨some a, s, []⟩ := rfl

@[simp] lemma get_apply (s : S) : (get : Prog E S S) s = ⟨some s, s, []⟩ := rfl

@[simp] lemma modify_apply (f : S → S) (s : S) :
    (modify f : Prog E S Unit) s = ⟨some (), f s, []⟩ := rfl

@[simp] lemma emit_apply (e : S → E) (s : S) :
    (emit e : Prog E S Unit) s = ⟨some (), s, [e s]⟩ := rfl

@[simp] lemma hang_apply (s : S) : (hang : Prog E S α) s = ⟨none, s, []⟩ := rfl

lemma bind_apply (m : Prog E S α) (f : α → Prog E S β) (s : S) :
    (m >>= f) s = match m s with
      | ⟨none, s', t⟩ => ⟨none, s', t⟩
      | ⟨some a, s', t⟩ => ⟨(f a s').value, (f a s').final, t ++ (f a s').trace⟩ := rfl

/-- A sequence after a program known to return. -/
lemma bind_of_eq {m : Prog E S α} {f : α → Prog E S β} {s s' : S} {a : α} {t : List E}
    (h : m s = ⟨some a, s', t⟩) :
    (m >>= f) s = ⟨(f a s').value, (f a s').final, t ++ (f a s').trace⟩ := by
  rw [bind_apply, h]

/-- A sequence after a program that does not return. -/
lemma bind_of_none {m : Prog E S α} {f : α → Prog E S β} {s s' : S} {t : List E}
    (h : m s = ⟨none, s', t⟩) : (m >>= f) s = ⟨none, s', t⟩ := by
  rw [bind_apply, h]

/-- The two ways a sequence runs. -/
lemma bind_cases (m : Prog E S α) (f : α → Prog E S β) (s : S) :
    ((m s).value = none ∧ (m >>= f) s = ⟨none, (m s).final, (m s).trace⟩) ∨
      ∃ a, (m s).value = some a ∧
        (m >>= f) s = ⟨(f a (m s).final).value, (f a (m s).final).final,
          (m s).trace ++ (f a (m s).final).trace⟩ := by
  rcases h : m s with ⟨_ | a, s', t⟩
  · exact Or.inl ⟨rfl, bind_of_none h⟩
  · exact Or.inr ⟨a, rfl, bind_of_eq h⟩

/-- What follows a program need only agree where the program leads. -/
lemma bind_congr_at {m : Prog E S α} {f g : α → Prog E S β} {s : S}
    (h : ∀ a, (m s).value = some a → f a (m s).final = g a (m s).final) :
    (m >>= f) s = (m >>= g) s := by
  rcases hm : m s with ⟨_ | a, s', t⟩
  · rw [bind_of_none hm, bind_of_none hm]
  · rw [hm] at h
    have hfg : f a s' = g a s' := h a rfl
    rw [bind_of_eq hm, bind_of_eq hm, hfg]

/-- A sequence that returns has returned from its first part. -/
lemma exists_value_of_bind {m : Prog E S α} {f : α → Prog E S β} {s : S} {b : β}
    (h : ((m >>= f) s).value = some b) : ∃ a, (m s).value = some a := by
  rcases bind_cases m f s with ⟨_, hr⟩ | ⟨a, ha, _⟩
  · rw [hr] at h
    cases h
  · exact ⟨a, ha⟩

/-- The events of the first part are events of a sequence. -/
lemma mem_trace_bind {m : Prog E S α} (f : α → Prog E S β) {s : S} {e : E}
    (h : e ∈ (m s).trace) : e ∈ ((m >>= f) s).trace := by
  rcases bind_cases m f s with ⟨_, hr⟩ | ⟨a, _, hr⟩
  · rwa [hr]
  · rw [hr]
    exact List.mem_append_left _ h

@[simp] lemma get_bind (f : S → Prog E S β) (s : S) : (get >>= f) s = f s s := by
  rw [bind_of_eq (get_apply s)]
  simp

@[simp] lemma pure_bind' (a : α) (f : α → Prog E S β) : (pure a >>= f) = f a := by
  funext s
  rw [bind_of_eq (pure_apply a s)]
  simp

@[simp] lemma modify_bind (g : S → S) (f : Unit → Prog E S β) (s : S) :
    (modify g >>= f) s = f () (g s) := by
  rw [bind_of_eq (modify_apply g s)]
  simp

lemma emit_bind (e : S → E) (f : Unit → Prog E S β) (s : S) :
    (emit e >>= f) s = ⟨(f () s).value, (f () s).final, e s :: (f () s).trace⟩ := by
  rw [bind_of_eq (emit_apply e s)]
  rfl

private lemma prog_id_map (m : Prog E S α) : id <$> m = m := by
  funext s
  change (m >>= fun a => pure a) s = m s
  rcases h : m s with ⟨_ | a, s', t⟩
  · exact bind_of_none h
  · rw [bind_of_eq h]
    simp

private lemma prog_bind_assoc {γ : Type} (m : Prog E S α) (f : α → Prog E S β)
    (g : β → Prog E S γ) : m >>= f >>= g = m >>= fun a => f a >>= g := by
  funext s
  rcases h : m s with ⟨_ | a, s', t⟩
  · rw [bind_of_none (bind_of_none h), bind_of_none h]
  · rw [bind_of_eq h]
    rcases h' : f a s' with ⟨_ | b, s'', t'⟩
    · rw [bind_of_none (by rw [bind_of_eq h, h']), bind_of_none h']
    · rw [bind_of_eq (by rw [bind_of_eq h, h']), bind_of_eq h']
      simp

instance : LawfulMonad (Prog E S) :=
  LawfulMonad.mk' _ prog_id_map pure_bind' prog_bind_assoc

@[simp] lemma map_apply (f : α → β) (m : Prog E S α) (s : S) :
    (f <$> m) s = ⟨(m s).value.map f, (m s).final, (m s).trace⟩ := by
  rw [← bind_pure_comp]
  rcases h : m s with ⟨_ | a, s', t⟩
  · exact bind_of_none h
  · rw [bind_of_eq h]
    simp

/-! ### Chains of labelled steps -/

/-- A labelled step: a state, the events emitted, the next state. -/
abbrev Step (E S : Type) := S → List E → S → Prop

/-- A chain of steps, with the events of all of them. -/
inductive Chain (R : Step E S) : S → List E → S → Prop
  | refl (s : S) : Chain R s [] s
  | step {s s' s'' : S} {t t' : List E} (h : R s t s') (h' : Chain R s' t' s'') :
      Chain R s (t ++ t') s''

lemma Chain.single {R : Step E S} {s s' : S} {t : List E} (h : R s t s') :
    Chain R s t s' := by
  simpa using Chain.step h (Chain.refl s')

lemma Chain.trans {R : Step E S} {s s' s'' : S} {t t' : List E} (h : Chain R s t s')
    (h' : Chain R s' t' s'') : Chain R s (t ++ t') s'' := by
  induction h with
  | refl _ => simpa using h'
  | step h1 _ ih =>
      rw [List.append_assoc]
      exact Chain.step h1 (ih h')

lemma Chain.mono {R R' : Step E S} (hR : ∀ s t s', R s t s' → Chain R' s t s')
    {s s' : S} {t : List E} (h : Chain R s t s') : Chain R' s t s' := by
  induction h with
  | refl _ => exact Chain.refl _
  | step h1 _ ih => exact (hR _ _ _ h1).trans ih

/-- What every step preserves, a chain preserves, and what every step shows of
its events holds of all events of the chain. -/
lemma Chain.invariant {R : Step E S} {I : S → Prop} {ok good : E → Prop}
    (hR : ∀ s t s', R s t s' → I s → (∀ e ∈ t, ok e) → I s' ∧ ∀ e ∈ t, good e)
    {s s' : S} {t : List E} (h : Chain R s t s') (hs : I s) (hok : ∀ e ∈ t, ok e) :
    I s' ∧ ∀ e ∈ t, good e := by
  induction h with
  | refl _ => exact ⟨hs, by simp⟩
  | step h1 _ ih =>
      obtain ⟨hI, hg⟩ := hR _ _ _ h1 hs fun e he => hok e (List.mem_append_left _ he)
      obtain ⟨hI', hg'⟩ := ih hI fun e he => hok e (List.mem_append_right _ he)
      refine ⟨hI', fun e he => ?_⟩
      rcases List.mem_append.mp he with he | he
      · exact hg e he
      · exact hg' e he

/-- The run of `m` from `s` is a chain of `R`-steps: its events are those of the chain,
and if it returns, the chain ends where it does. -/
def MovesFrom (R : Step E S) (s : S) (m : Prog E S α) : Prop :=
  ∃ s', Chain R s (m s).trace s' ∧ ∀ a, (m s).value = some a → s' = (m s).final

/-- Every run of `m` is a chain of `R`-steps. -/
def Moves (R : Step E S) (m : Prog E S α) : Prop := ∀ s, MovesFrom R s m

/-- Where a run leads: the state it leaves if it returns, and else the one it started
from, because nothing comes after it. -/
def landing (m : Prog E S α) (s : S) : S := if (m s).value.isSome then (m s).final else s

section Moves

variable {R : Step E S}

lemma Moves.from {m : Prog E S α} (h : Moves R m) (s : S) : MovesFrom R s m := h s

/-- A run that is one step. -/
lemma MovesFrom.single {m : Prog E S α} {s : S} (h : R s (m s).trace (m s).final) :
    MovesFrom R s m := ⟨_, Chain.single h, fun _ _ => rfl⟩

/-- A program whose runs are single steps. -/
lemma Moves.of_landing {m : Prog E S α} (h : ∀ s, R s (m s).trace (landing m s)) :
    Moves R m := fun s => ⟨_, Chain.single (h s), fun a ha => by simp [landing, ha]⟩

lemma MovesFrom.pure (a : α) (s : S) : MovesFrom R s (pure a : Prog E S α) :=
  ⟨s, Chain.refl s, fun _ _ => rfl⟩

lemma Moves.pure (a : α) : Moves R (pure a : Prog E S α) := fun s => MovesFrom.pure a s

lemma Moves.hang : Moves R (hang : Prog E S α) := fun s => ⟨s, Chain.refl s, fun _ _ => rfl⟩

lemma MovesFrom.bind {m : Prog E S α} {f : α → Prog E S β} {s : S} (hm : MovesFrom R s m)
    (hf : ∀ a, (m s).value = some a → MovesFrom R (m s).final (f a)) :
    MovesFrom R s (m >>= f) := by
  obtain ⟨s', hc, hs'⟩ := hm
  rcases bind_cases m f s with ⟨_, h⟩ | ⟨a, ha, h⟩
  · rw [MovesFrom, h]
    exact ⟨s', hc, by simp⟩
  · obtain rfl := hs' a ha
    obtain ⟨s'', hc', hs''⟩ := hf a ha
    rw [MovesFrom, h]
    exact ⟨s'', hc.trans hc', hs''⟩

lemma Moves.bind {m : Prog E S α} {f : α → Prog E S β} (hm : Moves R m)
    (hf : ∀ a, Moves R (f a)) : Moves R (m >>= f) :=
  fun s => MovesFrom.bind (hm s) fun a _ => hf a _

lemma MovesFrom.get_bind {f : S → Prog E S β} {s : S} (h : MovesFrom R s (f s)) :
    MovesFrom R s (Prog.get >>= f) := by
  rw [MovesFrom, Prog.get_bind]
  exact h

lemma Moves.get_bind {f : S → Prog E S β} (h : ∀ s, MovesFrom R s (f s)) :
    Moves R (Prog.get >>= f) := fun s => MovesFrom.get_bind (h s)

/-- Reading the state is no step; use `Moves.get_bind` where what was read matters. -/
lemma Moves.get_bind' {f : S → Prog E S β} (h : ∀ s, Moves R (f s)) :
    Moves R (Prog.get >>= f) := Moves.get_bind fun s => h s s

lemma Moves.ite {c : Prop} [Decidable c] {m n : Prog E S α} (hm : Moves R m)
    (hn : Moves R n) : Moves R (if c then m else n) := by
  split <;> assumption

lemma MovesFrom.ite {c : Prop} [Decidable c] {m n : Prog E S α} {s : S}
    (hm : MovesFrom R s m) (hn : MovesFrom R s n) : MovesFrom R s (if c then m else n) := by
  split <;> assumption

lemma Moves.times {m : Prog E S α} (hm : Moves R m) : ∀ n, Moves R (Prog.times n m)
  | 0 => Moves.pure _
  | n + 1 => hm.bind fun _ => (Moves.times hm n).bind fun _ => Moves.pure _

lemma Moves.foldlM {f : β → α → Prog E S β} (hf : ∀ b a, Moves R (f b a)) :
    ∀ (as : List α) (b : β), Moves R (as.foldlM f b)
  | [], b => Moves.pure b
  | a :: as, b => by
      rw [List.foldlM_cons]
      exact (hf b a).bind fun b' => Moves.foldlM hf as b'

lemma MovesFrom.mono {R' : Step E S} {m : Prog E S α} {s : S} (h : MovesFrom R s m)
    (hR : ∀ s t s', R s t s' → R' s t s') : MovesFrom R' s m := by
  obtain ⟨s', hc, hs'⟩ := h
  exact ⟨s', hc.mono fun _ _ _ h => Chain.single (hR _ _ _ h), hs'⟩

lemma Moves.mono {R' : Step E S} {m : Prog E S α} (h : Moves R m)
    (hR : ∀ s t s', R s t s' → R' s t s') : Moves R' m := fun s => (h s).mono hR

end Moves

/-! ### Histories -/

/-- Every event of a trace is `good` for what has been gathered from the events before it. -/
def Along {C : Type} (gather : C → E → C) (good : C → E → Prop) : C → List E → Prop
  | _, [] => True
  | c, e :: t => good c e ∧ Along gather good (gather c e) t

section Along

variable {C : Type} {gather : C → E → C} {good : C → E → Prop}

lemma along_append {t t' : List E} {c : C} :
    Along gather good c (t ++ t') ↔
      Along gather good c t ∧ Along gather good (t.foldl gather c) t' := by
  induction t generalizing c with
  | nil => simp [Along]
  | cons e t ih => rw [List.cons_append, Along, Along, ih, List.foldl_cons, and_assoc]

/-- What is gathered from events keeps an invariant that makes every next event good. -/
lemma along_of_invariant {I : C → Prop} {ok : E → Prop} {t : List E}
    (h : ∀ c e, I c → ok e → good c e ∧ I (gather c e)) {c : C} (hc : I c)
    (hok : ∀ e ∈ t, ok e) : Along gather good c t := by
  induction t generalizing c with
  | nil => trivial
  | cons e t ih =>
      obtain ⟨hg, hI⟩ := h c e hc (hok e List.mem_cons_self)
      exact ⟨hg, ih hI fun e he => hok e (List.mem_cons_of_mem _ he)⟩

/-- What two judgements of the events entail. -/
lemma Along.imp₂ {good' good'' : C → E → Prop} (h : ∀ c e, good c e → good' c e → good'' c e)
    {t : List E} {c : C} (ht : Along gather good c t) (ht' : Along gather good' c t) :
    Along gather good'' c t := by
  induction t generalizing c with
  | nil => trivial
  | cons e t ih => exact ⟨h c e ht.1 ht'.1, ih ht.2 ht'.2⟩

/-- What two judgements of each event say together. -/
lemma Along.forall_of_imp {good' : C → E → Prop} {P : E → Prop}
    (h : ∀ c e, good c e → good' c e → P e) {t : List E} {c : C} (ht : Along gather good c t)
    (ht' : Along gather good' c t) : ∀ e ∈ t, P e := by
  induction t generalizing c with
  | nil => simp
  | cons e t ih =>
      intro e' he'
      rcases List.mem_cons.mp he' with rfl | he'
      · exact h c e' ht.1 ht'.1
      · exact ih ht.2 ht'.2 e' he'

instance Along.decidable [∀ c e, Decidable (good c e)] :
    ∀ (c : C) (t : List E), Decidable (Along gather good c t)
  | _, [] => isTrue trivial
  | c, e :: t =>
      have := Along.decidable (gather c e) t
      inferInstanceAs (Decidable (good c e ∧ Along gather good (gather c e) t))

/-- A chain keeps an invariant that speaks of what has been gathered from its events. -/
lemma Chain.along {R : Step E S} {I : C → S → Prop} {ok : E → Prop}
    (hR : ∀ s t s', R s t s' → ∀ c, I c s → (∀ e ∈ t, ok e) →
      I (t.foldl gather c) s' ∧ Along gather good c t)
    {s s' : S} {t : List E} (h : Chain R s t s') :
    ∀ c, I c s → (∀ e ∈ t, ok e) → I (t.foldl gather c) s' ∧ Along gather good c t := by
  induction h with
  | refl _ => exact fun _ hI _ => ⟨hI, trivial⟩
  | step h1 _ ih =>
      intro c hI hok
      obtain ⟨hI1, hg1⟩ := hR _ _ _ h1 c hI fun e he => hok e (List.mem_append_left _ he)
      obtain ⟨hI2, hg2⟩ := ih _ hI1 fun e he => hok e (List.mem_append_right _ he)
      rw [List.foldl_append]
      exact ⟨hI2, along_append.mpr ⟨hg1, hg2⟩⟩

/-- **The invariant rule with a history**: if every step of `R` keeps an invariant and shows
something of its events, both relative to the events before, then so does a run. -/
theorem Moves.along {R : Step E S} {I : C → S → Prop} {ok : E → Prop} {m : Prog E S α}
    (h : Moves R m)
    (hR : ∀ s t s', R s t s' → ∀ c, I c s → (∀ e ∈ t, ok e) →
      I (t.foldl gather c) s' ∧ Along gather good c t)
    {s : S} {c : C} (hs : I c s) (hok : ∀ e ∈ (m s).trace, ok e) :
    Along gather good c (m s).trace := by
  obtain ⟨s', hc, _⟩ := h s
  exact (hc.along hR c hs hok).2

end Along

/-! ### Specifications -/

/-- From a state in `P`, if all events of the run are `ok`, then all are `good`,
and a returned value and the state it leaves satisfy `Q`. -/
def Spec (ok good : E → Prop) (P : S → Prop) (m : Prog E S α) (Q : α → S → Prop) : Prop :=
  ∀ s, P s → (∀ e ∈ (m s).trace, ok e) →
    (∀ e ∈ (m s).trace, good e) ∧ ∀ a, (m s).value = some a → Q a (m s).final

section Spec

variable {ok good : E → Prop} {P : S → Prop}

lemma Spec.pure {Q : α → S → Prop} (a : α) (h : ∀ s, P s → Q a s) :
    Spec ok good P (pure a) Q := by
  intro s hs _
  refine ⟨by simp, fun b hb => ?_⟩
  obtain rfl : a = b := by simpa using hb
  exact h s hs

lemma Spec.hang {Q : α → S → Prop} : Spec ok good P (hang : Prog E S α) Q := by
  intro s _ _
  exact ⟨by simp, by simp⟩

lemma Spec.bind {m : Prog E S α} {f : α → Prog E S β} {Q : α → S → Prop}
    {Q' : β → S → Prop} (hm : Spec ok good P m Q)
    (hf : ∀ a, Spec ok good (Q a) (f a) Q') : Spec ok good P (m >>= f) Q' := by
  intro s hs hok
  rcases bind_cases m f s with ⟨_, h⟩ | ⟨a, ha, h⟩
  · rw [h] at hok ⊢
    exact ⟨(hm s hs hok).1, by simp⟩
  · rw [h] at hok ⊢
    obtain ⟨hg, hQ⟩ := hm s hs fun e he => hok e (List.mem_append_left _ he)
    obtain ⟨hg', hQ'⟩ := hf a _ (hQ a ha) fun e he => hok e (List.mem_append_right _ he)
    refine ⟨fun e he => ?_, hQ'⟩
    rcases List.mem_append.mp he with he | he
    · exact hg e he
    · exact hg' e he

lemma Spec.weaken {P' : S → Prop} {m : Prog E S α} {Q Q' : α → S → Prop}
    (h : Spec ok good P m Q) (hP : ∀ s, P' s → P s) (hQ : ∀ a s, Q a s → Q' a s) :
    Spec ok good P' m Q' := fun s hs hok =>
  ⟨(h s (hP s hs) hok).1, fun a ha => hQ a _ ((h s (hP s hs) hok).2 a ha)⟩

lemma Spec.pre {P' : S → Prop} {m : Prog E S α} {Q : α → S → Prop}
    (h : Spec ok good P m Q) (hP : ∀ s, P' s → P s) : Spec ok good P' m Q :=
  h.weaken hP fun _ _ hQ => hQ

lemma Spec.post {m : Prog E S α} {Q Q' : α → S → Prop} (h : Spec ok good P m Q)
    (hQ : ∀ a s, Q a s → Q' a s) : Spec ok good P m Q' :=
  h.weaken (fun _ hs => hs) hQ

/-- Asking for more of the events. -/
lemma Spec.demand {ok' : E → Prop} {m : Prog E S α} {Q : α → S → Prop}
    (h : Spec ok good P m Q) (hok : ∀ e, ok' e → ok e) : Spec ok' good P m Q :=
  fun s hs h' => h s hs fun e he => hok e (h' e he)

/-- A specification used at one state. -/
lemma Spec.from {m : Prog E S α} {Q : α → S → Prop} (h : Spec ok good P m Q) {s : S}
    (hs : P s) : Spec ok good (· = s) m Q := h.pre fun _ he => he ▸ hs

/-- Returning at one state. -/
lemma Spec.pure_from {Q : α → S → Prop} (a : α) {s : S} (h : Q a s) :
    Spec ok good (· = s) (Pure.pure a) Q := Spec.pure a fun _ he => he ▸ h

/-- A specification may be shown state by state. -/
lemma Spec.of_forall {m : Prog E S α} {Q : α → S → Prop}
    (h : ∀ s, P s → Spec ok good (· = s) m Q) : Spec ok good P m Q :=
  fun s hs => h s hs s rfl

lemma Spec.get_bind {f : S → Prog E S β} {Q : β → S → Prop}
    (h : ∀ s, P s → Spec ok good (· = s) (f s) Q) : Spec ok good P (Prog.get >>= f) Q := by
  intro s hs hok
  rw [Prog.get_bind] at hok ⊢
  exact h s hs s rfl hok

lemma Spec.modify {g : S → S} {Q : Unit → S → Prop} (h : ∀ s, P s → Q () (g s)) :
    Spec ok good P (modify g) Q := by
  intro s hs _
  exact ⟨by simp, fun _ _ => h s hs⟩

lemma Spec.emit {e : S → E} {Q : Unit → S → Prop} (hg : ∀ s, P s → ok (e s) → good (e s))
    (h : ∀ s, P s → ok (e s) → Q () s) : Spec ok good P (emit e) Q := by
  intro s hs hok
  have hes : ok (e s) := hok (e s) (by simp)
  exact ⟨by simpa using hg s hs hes, fun _ _ => h s hs hes⟩

lemma Spec.ite {c : Prop} [Decidable c] {m n : Prog E S α} {Q : α → S → Prop}
    (hm : c → Spec ok good P m Q) (hn : ¬ c → Spec ok good P n Q) :
    Spec ok good P (if c then m else n) Q := by
  split
  · exact hm ‹_›
  · exact hn ‹_›

/-- A program that is never reached. -/
lemma Spec.of_not {m : Prog E S α} {Q : α → S → Prop} (h : ∀ s, ¬ P s) :
    Spec ok good P m Q := fun s hs => absurd hs (h s)

/-- A result code that is checked against zero. -/
lemma Spec.bind_rc {m : Prog E S ℤ} {fail : ℤ → Prog E S β} {rest : Prog E S β}
    {Q : ℤ → S → Prop} {Q' : β → S → Prop} (hm : Spec ok good P m Q)
    (hfail : ∀ rc, rc ≠ 0 → Spec ok good (Q rc) (fail rc) Q')
    (hrest : Spec ok good (Q 0) rest Q') :
    Spec ok good P (m >>= fun rc => if rc ≠ 0 then fail rc else rest) Q' := by
  refine Spec.bind hm fun rc => Spec.ite (hfail rc) fun h => ?_
  obtain rfl : rc = 0 := not_not.mp h
  exact hrest

/-- A result code that is known to be zero. -/
lemma Spec.bind_ok {m : Prog E S ℤ} {fail : ℤ → Prog E S β} {rest : Prog E S β}
    {Q : S → Prop} {Q' : β → S → Prop} (hm : Spec ok good P m fun rc s => rc = 0 ∧ Q s)
    (hrest : Spec ok good Q rest Q') :
    Spec ok good P (m >>= fun rc => if rc ≠ 0 then fail rc else rest) Q' :=
  Spec.bind_rc hm (fun _ hrc => Spec.of_not fun _ h => hrc h.1) (hrest.pre fun _ h => h.2)

/-- An invariant specification holds of the run as a step. -/
lemma Spec.landing {I : S → Prop} {m : Prog E S α} (h : Spec ok good I m fun _ => I) {s : S}
    (hs : I s) (hok : ∀ e ∈ (m s).trace, ok e) :
    I (landing m s) ∧ ∀ e ∈ (m s).trace, good e := by
  obtain ⟨hg, hQ⟩ := h s hs hok
  refine ⟨?_, hg⟩
  rw [Prog.landing]
  split
  · next hv =>
    obtain ⟨a, ha⟩ := Option.isSome_iff_exists.mp hv
    exact hQ a ha
  · exact hs

/-- **The invariant rule**: what every step of `R` preserves and shows of its
events, every program that moves by `R` preserves and shows of its trace. -/
theorem Moves.spec {R : Step E S} {I : S → Prop} {m : Prog E S α} (h : Moves R m)
    (hR : ∀ s t s', R s t s' → I s → (∀ e ∈ t, ok e) → I s' ∧ ∀ e ∈ t, good e) :
    Spec ok good I m fun _ => I := by
  intro s hs hok
  obtain ⟨s', hc, hs'⟩ := h s
  obtain ⟨hI, hg⟩ := hc.invariant hR hs hok
  exact ⟨hg, fun a ha => hs' a ha ▸ hI⟩

/-- What every step of `R` shows of its events holds of all events of a run. -/
lemma Moves.events {R : Step E S} {m : Prog E S α} (h : Moves R m)
    (hR : ∀ s t s', R s t s' → ∀ e ∈ t, good e) (s : S) : ∀ e ∈ (m s).trace, good e := by
  have hspec : Spec (fun _ => True) good (fun _ => True) m fun _ _ => True :=
    h.spec fun _ _ _ hs _ _ => ⟨trivial, hR _ _ _ hs⟩
  exact (hspec s trivial fun _ _ => trivial).1

/-- The largest relation whose steps keep an invariant: from a state in `I`, if the events
are `ok`, they are `good`, and the step ends in `I`. -/
def Keeping (ok good : E → Prop) (I : S → Prop) : Step E S := fun s t s' =>
  I s → (∀ e ∈ t, ok e) → I s' ∧ ∀ e ∈ t, good e

/-- A program moves by the steps that keep an invariant if it is specified to keep it. -/
lemma Spec.moves {I : S → Prop} {m : Prog E S α} (h : Spec ok good I m fun _ => I) :
    Moves (Keeping ok good I) m := Moves.of_landing fun _ => h.landing

end Spec

/-! ### Runs that return -/

/-- The run of `m` from `s` returns, with `Q` of the value, the state it leaves and the
events. -/
def Total (s : S) (m : Prog E S α) (Q : α → S → List E → Prop) : Prop :=
  ∃ a, (m s).value = some a ∧ Q a (m s).final (m s).trace

section Total

variable {s : S}

lemma Total.of_eq {m : Prog E S α} {Q : α → S → List E → Prop} {a : α} {s' : S} {t : List E}
    (h : m s = ⟨some a, s', t⟩) (hQ : Q a s' t) : Total s m Q := by
  rw [Total, h]
  exact ⟨a, rfl, hQ⟩

lemma Total.pure {Q : α → S → List E → Prop} (a : α) (h : Q a s []) :
    Total s (Pure.pure a) Q := Total.of_eq rfl h

lemma Total.bind {m : Prog E S α} {f : α → Prog E S β} {Q : α → S → List E → Prop}
    {Q' : β → S → List E → Prop} (hm : Total s m Q)
    (hf : ∀ a s' t, Q a s' t → Total s' (f a) fun b s'' t' => Q' b s'' (t ++ t')) :
    Total s (m >>= f) Q' := by
  obtain ⟨a, ha, hQ⟩ := hm
  obtain ⟨b, hb, hQ'⟩ := hf a _ _ hQ
  rcases h : m s with ⟨v, s', t⟩
  rw [h] at ha hb hQ'
  obtain rfl : v = some a := ha
  exact ⟨b, by rw [bind_of_eq h]; exact hb, by rw [bind_of_eq h]; exact hQ'⟩

lemma Total.get_bind {f : S → Prog E S β} {Q : β → S → List E → Prop} (h : Total s (f s) Q) :
    Total s (Prog.get >>= f) Q := by
  rw [Total, Prog.get_bind]
  exact h

lemma Total.post {m : Prog E S α} {Q Q' : α → S → List E → Prop} (h : Total s m Q)
    (hQ : ∀ a s' t, Q a s' t → Q' a s' t) : Total s m Q' := by
  obtain ⟨a, ha, hq⟩ := h
  exact ⟨a, ha, hQ a _ _ hq⟩

/-- Every run of `m` returns. -/
def Returns (m : Prog E S α) : Prop := ∀ s, ∃ a, (m s).value = some a

lemma Returns.pure (a : α) : Returns (Pure.pure a : Prog E S α) := fun _ => ⟨a, rfl⟩

lemma Returns.bind {m : Prog E S α} {f : α → Prog E S β} (hm : Returns m)
    (hf : ∀ a, Returns (f a)) : Returns (m >>= f) := by
  intro s
  obtain ⟨a, ha⟩ := hm s
  obtain ⟨b, hb⟩ := hf a (m s).final
  rcases h : m s with ⟨v, s', t⟩
  rw [h] at ha hb
  obtain rfl : v = some a := ha
  exact ⟨b, by rw [bind_of_eq h]; exact hb⟩

lemma Returns.ite {c : Prop} [Decidable c] {m n : Prog E S α} (hm : Returns m)
    (hn : Returns n) : Returns (if c then m else n) := by
  split <;> assumption

/-- A result code that is zero. -/
lemma Total.bind_ok {m : Prog E S ℤ} {fail : ℤ → Prog E S β} {rest : Prog E S β}
    {Q : S → List E → Prop} {Q' : β → S → List E → Prop}
    (hm : Total s m fun rc s' t => rc = 0 ∧ Q s' t)
    (hrest : ∀ s' t, Q s' t → Total s' rest fun b s'' t' => Q' b s'' (t ++ t')) :
    Total s (m >>= fun rc => if rc ≠ 0 then fail rc else rest) Q' := by
  refine hm.bind fun rc s' t h => ?_
  rw [if_neg (not_not.mpr h.1)]
  exact hrest s' t h.2

end Total

/-! ### Specifications with a history -/

/-- If every event of the run of `m` from `s` is `ok` for what has been gathered before it,
starting from `c`, then every event is `good` for it; and what is gathered in the end is
`idle` if the run does not return, and else satisfies `Q` with the value and the state. -/
def Track {C : Type} (gather : C → E → C) (ok good : C → E → Prop) (idle : C → Prop) (c : C)
    (s : S) (m : Prog E S α) (Q : α → C → S → Prop) : Prop :=
  Along gather ok c (m s).trace → Along gather good c (m s).trace ∧
    ((m s).value = none → idle ((m s).trace.foldl gather c)) ∧
    ∀ a, (m s).value = some a → Q a ((m s).trace.foldl gather c) (m s).final

section Track

variable {C : Type} {gather : C → E → C} {ok good : C → E → Prop} {idle : C → Prop} {c : C} {s : S}

lemma Track.of_eq {m : Prog E S α} {Q : α → C → S → Prop} {a : α} {s' : S} {t : List E}
    (h : m s = ⟨some a, s', t⟩)
    (ht : Along gather ok c t → Along gather good c t ∧ Q a (t.foldl gather c) s') :
    Track gather ok good idle c s m Q := by
  rw [Track, h]
  intro hok
  obtain ⟨hg, hQ⟩ := ht hok
  refine ⟨hg, by simp, fun b hb => ?_⟩
  obtain rfl : a = b := Option.some.inj hb
  exact hQ

lemma Track.pure {Q : α → C → S → Prop} (a : α) (h : Q a c s) :
    Track gather ok good idle c s (Pure.pure a) Q := Track.of_eq rfl fun _ => ⟨trivial, h⟩

lemma Track.post {m : Prog E S α} {Q Q' : α → C → S → Prop}
    (h : Track gather ok good idle c s m Q) (hQ : ∀ a c' s', Q a c' s' → Q' a c' s') :
    Track gather ok good idle c s m Q' := by
  intro hok
  obtain ⟨hg, hi, hq⟩ := h hok
  exact ⟨hg, hi, fun a ha => hQ a _ _ (hq a ha)⟩

lemma Track.bind {m : Prog E S α} {f : α → Prog E S β} {Q : α → C → S → Prop}
    {Q' : β → C → S → Prop} (hm : Track gather ok good idle c s m Q)
    (hf : ∀ a c' s', Q a c' s' → Track gather ok good idle c' s' (f a) Q') :
    Track gather ok good idle c s (m >>= f) Q' := by
  intro hok
  rcases bind_cases m f s with ⟨hv, h⟩ | ⟨a, ha, h⟩
  · rw [h] at hok ⊢
    obtain ⟨hg, hi, _⟩ := hm hok
    exact ⟨hg, fun _ => hi hv, by simp⟩
  · rw [h] at hok ⊢
    obtain ⟨hok₁, hok₂⟩ := along_append.mp hok
    obtain ⟨hg₁, _, hQ⟩ := hm hok₁
    obtain ⟨hg₂, hi, hQ'⟩ := hf a _ _ (hQ a ha) hok₂
    rw [List.foldl_append]
    exact ⟨along_append.mpr ⟨hg₁, hg₂⟩, hi, hQ'⟩

lemma Track.get_bind {f : S → Prog E S β} {Q : β → C → S → Prop}
    (h : Track gather ok good idle c s (f s) Q) :
    Track gather ok good idle c s (Prog.get >>= f) Q := by
  rw [Track, Prog.get_bind]
  exact h

lemma Track.emit {e : S → E} {Q : Unit → C → S → Prop}
    (h : ok c (e s) → good c (e s) ∧ Q () (gather c (e s)) s) :
    Track gather ok good idle c s (Prog.emit e) Q :=
  Track.of_eq rfl fun hok => ⟨⟨(h hok.1).1, trivial⟩, (h hok.1).2⟩

/-- A result code that is checked against zero. -/
lemma Track.bind_rc {m : Prog E S ℤ} {fail : ℤ → Prog E S β} {rest : Prog E S β}
    {Q : ℤ → C → S → Prop} {Q' : β → C → S → Prop} (hm : Track gather ok good idle c s m Q)
    (hfail : ∀ rc c' s', rc ≠ 0 → Q rc c' s' → Track gather ok good idle c' s' (fail rc) Q')
    (hrest : ∀ c' s', Q 0 c' s' → Track gather ok good idle c' s' rest Q') :
    Track gather ok good idle c s (m >>= fun rc => if rc ≠ 0 then fail rc else rest) Q' := by
  refine hm.bind fun rc c' s' h => ?_
  by_cases h0 : rc = 0
  · obtain rfl := h0
    rw [if_neg (not_not.mpr rfl)]
    exact hrest c' s' h
  · rw [if_pos h0]
    exact hfail rc c' s' h0 h

end Track

end Prog
