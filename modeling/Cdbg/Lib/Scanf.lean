import Cdbg.Lib.Substring

/-!
`sscanf`: a format is a sequence of directives, each of which reads a part of the text and
leaves the rest, or ends the scan. A scan gives something if all its directives were
matched, that is, if `sscanf` returns the number of its conversions.

`Reads d t a` says that a directive reads the text `t` as `a`, if what follows is a blank
or nothing.
-/

namespace CString

/-- A directive, or several of them. -/
abbrev Directive (α : Type) := StateT Str Option α

namespace Directive

/-- White space in a format: any number of blanks. -/
def blanks : Directive Unit := fun s => some ((), s.dropWhile isspace)

/-- A character that has to be there. -/
def literal (c : Char) : Directive Unit := fun s =>
  match s with
  | [] => none
  | d :: s => if d = c then some ((), s) else none

/-- `%llx`. -/
def hex : Directive (BitVec 64) := strtoull 16

/-- `%u`. -/
def unsigned : Directive (BitVec 32) := fun s =>
  (strtoull 10 s).map fun r => (r.1.setWidth 32, r.2)

/-- `%c`. -/
def char : Directive Char := fun s =>
  match s with
  | [] => none
  | c :: s => some (c, s)

/-- `%ns`: at most `n` characters up to a blank. -/
def word (n : ℕ) : Directive Str := fun s =>
  let s := s.dropWhile isspace
  let w := (s.takeWhile fun c => ! isspace c).take n
  if w = [] then none else some (w, s.drop w.length)

variable {α β : Type}

@[simp] lemma bind_apply (d : Directive α) (f : α → Directive β) (s : Str) :
    (d >>= f) s = (d s).bind fun r => f r.1 r.2 := by
  change StateT.bind d f s = _
  rw [StateT.bind]
  cases d s <;> rfl

@[simp] lemma map_apply (f : α → β) (d : Directive α) (s : Str) :
    (f <$> d) s = (d s).map fun r => (f r.1, r.2) := by
  change StateT.map f d s = _
  rw [StateT.map]
  cases d s <;> rfl

@[simp] lemma pure_apply (a : α) (s : Str) : (pure a : Directive α) s = some (a, s) := rfl

/-- A text that goes on with a blank, if it goes on. -/
def AtSpace (s : Str) : Prop := ∀ c ∈ s.head?, isspace c = true

lemma all_isspace_iff (s : Str) : s.head?.all isspace = true ↔ AtSpace s := Option.all_eq_true _ _

instance (s : Str) : Decidable (AtSpace s) := decidable_of_iff _ (all_isspace_iff s)

lemma atSpace_cons {c : Char} (h : isspace c = true) (s : Str) : AtSpace (c :: s) := by
  intro d hd
  rwa [← Option.mem_some.mp hd]

lemma AtSpace.noDigit {s : Str} (h : AtSpace s) {base : ℕ} (hb : base ≤ 36) :
    NoDigit base s := by
  intro c hc
  by_contra hlt
  have hspace := h c hc
  rw [(not_isspace_of_digitValue (c := c) (by omega)).1] at hspace
  cases hspace

/-- The directive reads the text, whatever blank follows. -/
def Reads (d : Directive α) (t : Str) (a : α) : Prop :=
  ∀ rest, AtSpace rest → d (t ++ rest) = some (a, rest)

lemma reads_hex {width : ℕ} (hw : 2 ≤ width) (n : BitVec 64) :
    Reads hex (padHex width n.toNat) n :=
  fun _ hrest => strtoull_padHex hw n (hrest.noDigit (by decide))

lemma reads_unsigned (n : BitVec 32) : Reads unsigned (Nat.toDigits 10 n.toNat) n := by
  intro rest hrest
  have hlt := n.isLt
  rw [unsigned, strtoull_decimal n.toNat (hrest.noDigit (by decide)), if_neg (by omega),
    Option.map_some, BitVec.setWidth_ofNat_of_le (by decide), BitVec.ofNat_toNat,
    BitVec.setWidth_eq]

/-- Blanks before a text are passed over. -/
lemma blanks_append {t : Str} (ht : ∀ c ∈ t, isspace c = true) {c : Char}
    (hc : isspace c = false) (s : Str) : blanks (t ++ c :: s) = some ((), c :: s) := by
  rw [blanks, List.dropWhile_append_of_pos ht, List.dropWhile_cons_of_neg (by simp [hc])]

/-- A word is read up to its first blank and as far as it fits. -/
lemma word_cons {c : Char} (hc : isspace c = false) (n : ℕ) (s : Str) :
    ∃ rest, word (n + 1) (c :: s) =
      some (((c :: s).takeWhile fun d => ! isspace d).take (n + 1), rest) := by
  have hdrop : (c :: s).dropWhile isspace = c :: s :=
    List.dropWhile_cons_of_neg (by simp [hc])
  have hne : ((c :: s).takeWhile fun d => ! isspace d).take (n + 1) ≠ [] := by
    rw [List.takeWhile_cons_of_pos (by simp [hc]), List.take_succ_cons]
    exact List.cons_ne_nil _ _
  refine ⟨(c :: s).drop (((c :: s).takeWhile fun d => ! isspace d).take (n + 1)).length, ?_⟩
  rw [word, hdrop]
  exact if_neg hne

/-- The end of a line belongs to no word. -/
lemma takeWhile_ended (s : Str) :
    ((ended s).takeWhile fun d => ! isspace d) = s.takeWhile fun d => ! isspace d := by
  induction s with
  | nil => rfl
  | cons c s ih =>
      rw [ended, List.cons_append, List.takeWhile_cons, List.takeWhile_cons]
      exact congrArg (fun t => if (! isspace c) = true then c :: t else []) ih

end Directive

end CString
