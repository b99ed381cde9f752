import Mathlib.Data.Bool.AllAny
import Cdbg.Dwarf.Die

/-!
What the scanners see in the lines of a dump: which words occur in them, and which values they
read.
-/

namespace Cdbg

open CString

/-! ### Unmarked texts -/

/-- Every marker has a line break, an underscore or an `L` in it. -/
lemma unmarked_of_chars {s : Str} (h : ∀ c ∈ s, c ∉ "\n_L".toList) : Unmarked s := by
  have hchar : ∀ w ∈ lineMarkers, (w.any fun c => decide (c ∈ "\n_L".toList)) = true := by decide
  intro w hw
  obtain ⟨c, hcw, hc⟩ := List.any_eq_true.mp (hchar w hw)
  exact hasSubstr_eq_false hcw fun hcs => h c hcs (of_decide_eq_true hc)

/-- A text between characters that no marker has. -/
lemma Unmarked.append_cons {p s : Str} {c : Char} (hp : Unmarked p) (hs : Unmarked s)
    (hc : ∀ w ∈ lineMarkers, c ∉ w) : Unmarked (p ++ c :: s) := by
  have hne : ∀ w ∈ lineMarkers, w ≠ [] := by decide
  intro w hw
  rw [hasSubstr_append_cons (hc w hw) (hne w hw), hp w hw, hs w hw, Bool.or_false]

lemma unmarked_hexText (width n : ℕ) : Unmarked (hexText width n) := by
  refine unmarked_of_chars fun c hc => ?_
  have hall : ∀ c ∈ "0123456789abcdefx".toList, c ∉ "\n_L".toList :=
    List.all_iff_forall_prop.mp (by decide)
  exact hall c (mem_hexText hc)

lemma mem_signedText {n : BitVec 64} {c : Char} (h : c ∈ signedText n) :
    c ∈ "+-0123456789abcdef".toList := by
  rcases List.mem_cons.mp h with rfl | h
  · split <;> decide
  · have hsub : "0123456789abcdef".toList ⊆ "+-0123456789abcdef".toList := by decide
    exact hsub (mem_toDigits (by decide) (by decide) h)

lemma Place.unmarked_text (p : Place) : Unmarked p.text := by
  -- an operator, a blank, and what has no marker for want of letters
  have hop (op : Str) {s : Str} (hop : Unmarked op) (hs : ∀ c ∈ s, c ∉ "\n_L".toList) :
      Unmarked (op ++ ' ' :: s) := hop.append_cons (unmarked_of_chars hs) (by decide)
  have hsigned (reg : Str) (hreg : (reg.all fun c => decide (c ∉ "\n_L".toList)) = true)
      (n : BitVec 64) : ∀ c ∈ reg ++ signedText n, c ∉ "\n_L".toList := by
    have hall : ∀ c ∈ "+-0123456789abcdef".toList, c ∉ "\n_L".toList :=
      List.all_iff_forall_prop.mp (by decide)
    intro c hc
    rcases List.mem_append.mp hc with hc | hc
    · exact List.all_iff_forall_prop.mp hreg c hc
    · exact hall c (mem_signedText hc)
  cases p with
  | fbreg n => exact hop "DW_OP_fbreg".toList (by decide) (hsigned [] (by decide) n)
  | sp n => exact hop "DW_OP_breg31".toList (by decide) (hsigned "WSP".toList (by decide) n)
  | x29 n => exact hop "DW_OP_breg29".toList (by decide) (hsigned "W29".toList (by decide) n)
  | addr a =>
      have hall : ∀ c ∈ "0123456789abcdefx".toList, c ∉ "\n_L".toList :=
        List.all_iff_forall_prop.mp (by decide)
      exact hop "DW_OP_addr".toList (by decide) fun c hc => hall c (mem_hexText hc)
  | other text plain => exact plain.1

/-- A quoted text. -/
lemma unmarked_quoted {s : Str} (h : Unmarked s) : Unmarked ('"' :: (s ++ ['"'])) := by
  have hnil : Unmarked [] := by decide
  exact hnil.append_cons (h.append_cons hnil (by decide)) (by decide)

lemma AttrKind.text_mem (k : AttrKind) : k.text ∈ attrNames := by
  cases k <;> decide

namespace Attr

lemma unmarked_value {a : Attr} (h : a.Plain) : Unmarked a.value := by
  cases a with
  | name n => exact unmarked_quoted h.2
  | type ref t => exact (unmarked_hexText 8 ref.toNat).append_cons (unmarked_quoted h.2) (by decide)
  | byteSize n => exact unmarked_hexText 2 n.toNat
  | memberLocation n => exact unmarked_hexText 2 n.toNat
  | lowPc addr => exact unmarked_hexText 16 addr.toNat
  | highPc addr => exact unmarked_hexText 16 addr.toNat
  | location place => exact place.unmarked_text
  | other key value => exact h.2

/-- An attribute has a name that is looked for, or a foreign one. -/
lemma key_cases {a : Attr} (h : a.Plain) :
    (∃ k, a.kind = some k ∧ a.key = AttrKind.text k) ∨
      a.kind = none ∧ Foreign attrNames a.key := by
  cases a with
  | other key value => exact .inr ⟨rfl, h.1⟩
  | _ => exact .inl ⟨_, rfl, rfl⟩

lemma unmarked_key {a : Attr} (h : a.Plain) : Unmarked a.key := by
  rcases a.key_cases h with ⟨k, -, hk⟩ | ⟨-, hk⟩
  · rw [hk]
    cases k <;> decide
  · exact hk.1

/-- No attribute is mistaken for another. -/
lemma prefix_key_iff {a : Attr} (h : a.Plain) (k : AttrKind) :
    k.text <+: a.key ↔ a.kind = some k := by
  rcases a.key_cases h with ⟨k', hkind, hk⟩ | ⟨hkind, hk⟩
  · have hall : ∀ k ∈ attrNames, ∀ k' ∈ attrNames, k <+: k' → k = k' := by decide
    rw [hk, hkind, Option.some_inj]
    constructor
    · intro hpre
      have htext := hall _ k.text_mem _ k'.text_mem hpre
      cases k <;> cases k' <;> first | rfl | exact absurd htext (by decide)
    · rintro rfl
      exact List.prefix_refl _
  · exact iff_of_false (hk.2 _ k.text_mem) (by simp [hkind])

end Attr

namespace Tag

lemma unmarked_name (t : Tag) : Unmarked t.name := by
  cases t with
  | other name foreign => exact foreign.1
  | _ => decide

/-- No tag is mistaken for another. -/
lemma prefix_name_iff (t : Tag) {k : Tag} (hk : k.name ∈ tagNames) : k.name <+: t.name ↔ t = k := by
  have hall : ∀ n ∈ tagNames, ∀ n' ∈ tagNames, n <+: n' → n = n' := by decide
  have hforeign {name : Str} {foreign : Foreign tagNames name} :
      (other name foreign).name ∉ tagNames :=
    fun hmem => foreign.2 name hmem (List.prefix_refl name)
  constructor
  · intro h
    cases t with
    | other name foreign => exact absurd h (foreign.2 _ hk)
    | _ =>
        have hname := hall _ hk _ (by decide) h
        cases k with
        | other name foreign => exact absurd hk hforeign
        | _ => first | rfl | exact absurd hname (by decide)
  · rintro rfl
    exact List.prefix_refl _

end Tag

/-! ### The line that starts an entry -/

section headLine

variable (depth offset : ℕ)

/-- Offsets, colons and blanks are passed over. -/
lemma hasSubstr_headLine (word : Str) {w : Str} {d : Char} (hw : w.head? = some d)
    (hd : d ∉ "0123456789abcdefx: ".toList) (hnl : '\n' ∉ w) :
    hasSubstr (ended (headLine depth offset word)) w = hasSubstr word w := by
  have hsplit : headLine depth offset word =
      (hexText 8 offset ++ (':' :: List.replicate (2 * depth + 1) ' ')) ++ word := by
    simp [headLine]
  have hne : w ≠ [] := by
    rintro rfl
    cases hw
  rw [ended, hasSubstr_concat hnl hne, hsplit, hasSubstr_append_of_notMem hw]
  rw [List.mem_append, List.mem_cons, not_or, not_or]
  refine ⟨fun h => hd ?_, ?_, fun h => ?_⟩
  · exact (by decide : "0123456789abcdefx".toList ⊆ "0123456789abcdefx: ".toList) (mem_hexText h)
  · rintro rfl
    exact hd (by decide)
  · rw [List.eq_of_mem_replicate h] at hd
    exact hd (by decide)

/-- The depth of an entry is read off the blanks behind the colon. -/
lemma dwarfLineDepth_headLine {word : Str} {c : Char} (hc : word.head? = some c) (hne : c ≠ ' ') :
    dwarfLineDepth (ended (headLine depth offset word)) = 2 * depth + 1 := by
  obtain ⟨word, rfl⟩ := List.head?_eq_some_iff.mp hc
  have hcolon : ':' ∉ hexText 8 offset := fun h => absurd (mem_hexText h) (by decide)
  have hsplit : ended (headLine depth offset (c :: word)) = hexText 8 offset ++
      ':' :: (List.replicate (2 * depth + 1) ' ' ++ c :: (word ++ ['\n'])) := by
    simp [ended, headLine]
  rw [dwarfLineDepth, hsplit, strchr_append hcolon]
  dsimp only
  rw [List.tail_cons, List.takeWhile_append_of_pos (by simp), List.takeWhile_cons_of_neg (by simpa),
    List.append_nil, List.length_replicate]

variable (t : Tag)

/-- A tag occurs in the line of its entry and in no other. -/
lemma hasSubstr_tagLine {k : Tag} (hk : k.name ∈ tagNames) :
    hasSubstr (ended (headLine depth offset t.text)) k.text = decide (t = k) := by
  have hnl : ∀ n ∈ tagNames, '\n' ∉ "DW_TAG_".toList ++ n := by decide
  have hhead : k.text.head? = some 'D' := rfl
  rw [hasSubstr_headLine depth offset _ hhead (by decide) (hnl _ hk)]
  refine (hasSubstr_append_append (d := 'D') (p := "W_TAG_".toList) (by decide)
    (t.unmarked_name _ (by decide)) k.name).trans ?_
  exact decide_eq_decide.mpr (t.prefix_name_iff hk)

lemma hasSubstr_tagLine_null :
    hasSubstr (ended (headLine depth offset t.text)) "NULL".toList = false := by
  rw [hasSubstr_headLine depth offset _ (d := 'N') (by decide) (by decide) (by decide), Tag.text_eq,
    hasSubstr_append_of_notMem (d := 'N') (by decide) (by decide)]
  exact t.unmarked_name _ (by decide)

/-- The line of an entry gives no attribute. -/
lemma hasSubstr_tagLine_attr (k : Str) (hk : '\n' ∉ k) :
    hasSubstr (ended (headLine depth offset t.text)) ("DW_AT_".toList ++ k) = false := by
  have hnl : '\n' ∉ "DW_AT_".toList ++ k := by
    rw [List.mem_append, not_or]
    exact ⟨by decide, hk⟩
  have hhead : ("DW_AT_".toList ++ k).head? = some 'D' := rfl
  rw [hasSubstr_headLine depth offset _ hhead (by decide) hnl]
  refine hasSubstr_of_isInfix ?_ (List.prefix_append "DW_AT_".toList k).isInfix
  exact (hasSubstr_append_of_ne (d := 'D') (p := "W_TAG_".toList) (by decide) (by decide)
    (by decide)).trans (t.unmarked_name _ (by decide))

lemma startsDie_tagLine : dwarfStartsDie (ended (headLine depth offset t.text)) = true := by
  have h : hasSubstr (ended (headLine depth offset t.text)) "DW_TAG_".toList = true := by
    rw [hasSubstr_headLine depth offset _ (d := 'D') (by decide) (by decide) (by decide)]
    exact hasSubstr_self_append "DW_TAG_".toList t.name
  rw [dwarfStartsDie, h]
  rfl

/-- The line that closes a list has no other word in it. -/
lemma hasSubstr_nullLine {w : Str} (hw : w.head? = some 'D') (hnl : '\n' ∉ w) :
    hasSubstr (ended (headLine depth offset "NULL".toList)) w = false := by
  rw [hasSubstr_headLine depth offset _ hw (by decide) hnl]
  exact hasSubstr_eq_false (List.mem_of_mem_head? hw) (by decide)

lemma hasSubstr_nullLine_null :
    hasSubstr (ended (headLine depth offset "NULL".toList)) "NULL".toList = true := by
  rw [hasSubstr_headLine depth offset _ (d := 'N') (by decide) (by decide) (by decide)]
  rfl

lemma hasSubstr_nullLine_attr (w : Str) (hw : '\n' ∉ w) :
    hasSubstr (ended (headLine depth offset "NULL".toList)) ("DW_AT_".toList ++ w) = false := by
  refine hasSubstr_nullLine depth offset rfl ?_
  rw [List.mem_append, not_or]
  exact ⟨by decide, hw⟩

lemma startsDie_nullLine :
    dwarfStartsDie (ended (headLine depth offset "NULL".toList)) = true := by
  rw [dwarfStartsDie, hasSubstr_nullLine_null, Bool.or_true]

end headLine

/-! ### Other lines -/

/-- A line without markers. -/
lemma hasSubstr_note {l : Str} (h : Unmarked l) {p : Str} (hp : p ∈ lineMarkers.tail) (w : Str) :
    hasSubstr (ended l) (p ++ w) = false := by
  have hall : ∀ p ∈ lineMarkers.tail, '\n' ∉ p ∧ p ≠ [] := by decide
  obtain ⟨hnl, hne⟩ := hall p hp
  refine hasSubstr_of_isInfix ?_ (List.prefix_append p w).isInfix
  rw [ended, hasSubstr_concat hnl hne]
  exact h p (List.mem_of_mem_tail hp)

lemma startsDie_note {l : Str} (h : Unmarked l) : dwarfStartsDie (ended l) = false := by
  have htag := hasSubstr_note h (p := "DW_TAG_".toList) (by decide) []
  have hnull := hasSubstr_note h (p := "NULL".toList) (by decide) []
  rw [List.append_nil] at htag hnull
  rw [dwarfStartsDie, htag, hnull]
  rfl

namespace Attr

variable {a : Attr} (depth : ℕ)

/-- What is not in the name of an attribute is in its value. -/
lemma hasSubstr_line {w : Str} {d : Char} (hw : w.head? = some d)
    (hd : ∀ c ∈ "\t() \n".toList, c ∉ w) :
    hasSubstr (ended (a.line depth)) w =
      (hasSubstr ("DW_AT_".toList ++ a.key) w || hasSubstr a.value w) := by
  have hne : w ≠ [] := by
    rintro rfl
    cases hw
  have hblank : d ∉ List.replicate (2 * depth + 14) ' ' := by
    intro hmem
    rw [List.eq_of_mem_replicate hmem] at hw
    exact hd ' ' (by decide) (List.mem_of_mem_head? hw)
  have hopen : hasSubstr ('(' :: (a.value ++ [')'])) w = hasSubstr a.value w := by
    have h0 := hasSubstr_append_cons (hd '(' (by decide)) hne [] (a.value ++ [')'])
    rw [hasSubstr_concat (hd ')' (by decide)) hne] at h0
    refine h0.trans ?_
    rw [hasSubstr, strstr, if_neg hne]
    rfl
  rw [ended, hasSubstr_concat (hd '\n' (by decide)) hne, line,
    hasSubstr_append_of_notMem hw hblank, text_eq, ← List.append_assoc,
    hasSubstr_append_cons (hd '\t' (by decide)) hne, hopen]

variable (h : a.Plain)

include h

/-- An attribute is found in its own line and in no other. -/
lemma hasSubstr_attrLine (k : AttrKind) :
    hasSubstr (ended (a.line depth)) ("DW_AT_".toList ++ k.text) = decide (a.kind = some k) := by
  have hall : ∀ k ∈ attrNames,
      ("\t() \n".toList.all fun c => decide (c ∉ "DW_AT_".toList ++ k)) = true := by decide
  have hvalue : hasSubstr a.value ("DW_AT_".toList ++ k.text) = false :=
    hasSubstr_of_isInfix (unmarked_value h _ (by decide))
      (List.prefix_append "DW_AT_".toList k.text).isInfix
  have hhead : ("DW_AT_".toList ++ k.text).head? = some 'D' := rfl
  rw [hasSubstr_line depth hhead (List.all_iff_forall_prop.mp (hall _ k.text_mem)), hvalue,
    Bool.or_false]
  refine (hasSubstr_append_append (d := 'D') (p := "W_AT_".toList) (by decide)
    (unmarked_key h _ (by decide)) k.text).trans ?_
  exact decide_eq_decide.mpr (prefix_key_iff h k)

/-- An attribute starts no entry. -/
lemma startsDie_attrLine : dwarfStartsDie (ended (a.line depth)) = false := by
  have htag : hasSubstr (ended (a.line depth)) "DW_TAG_".toList = false := by
    rw [hasSubstr_line depth (d := 'D') (by decide) (List.all_iff_forall_prop.mp (by decide)),
      unmarked_value h _ (by decide), Bool.or_false]
    exact (hasSubstr_append_of_ne (d := 'D') (p := "W_AT_".toList) (by decide) (by decide)
      (by decide)).trans (unmarked_key h _ (by decide))
  have hnull : hasSubstr (ended (a.line depth)) "NULL".toList = false := by
    rw [hasSubstr_line depth (d := 'N') (by decide) (List.all_iff_forall_prop.mp (by decide)),
      unmarked_value h _ (by decide), Bool.or_false,
      hasSubstr_append_of_notMem (d := 'N') (by decide) (by decide)]
    exact unmarked_key h _ (by decide)
  rw [dwarfStartsDie, htag, hnull]
  rfl

end Attr

/-- A scanner that goes on with the attributes of a line unless an entry starts there reads the
lines of an entry behind the first as the attributes of the entry. -/
lemma run_attrs {σ β : Type} {run : σ → List Str → β} {attr : Str → σ → σ} {read : σ → Attr → σ}
    (hrun : ∀ s line rest, dwarfStartsDie line = false →
      run s (line :: rest) = run (attr line s) rest)
    (hattr : ∀ a : Attr, a.Plain → ∀ depth s, attr (ended (a.line depth)) s = read s a)
    (hblank : ∀ s, attr (ended []) s = s) (depth : ℕ) {as : List Attr}
    (has : ∀ a ∈ as, a.Plain) (s : σ) (rest : List Str) :
    run s ((as.map (Attr.line depth)).map ended ++ ended [] :: rest) =
      run (as.foldl read s) rest := by
  induction as generalizing s with
  | nil =>
      have hunmarked : Unmarked [] := by decide
      rw [List.map_nil, List.map_nil, List.nil_append, hrun _ _ _ (startsDie_note hunmarked),
        hblank]
      rfl
  | cons a as ih =>
      rw [List.map_cons, List.map_cons, List.cons_append,
        hrun _ _ _ (Attr.startsDie_attrLine depth (has a List.mem_cons_self)),
        hattr a (has a List.mem_cons_self)]
      exact ih (fun b hb => has b (List.mem_cons_of_mem a hb)) _

/-! ### Values -/

/-- A signed number is read back. -/
lemma strtoll_signedText (n : BitVec 64) {s : Str} (hs : NoDigit 10 s) :
    strtoll 10 (signedText n ++ s) = some (n.toInt, s) := by
  have hscan : scanNumber 10 (signedText n ++ s) =
      some (decide (n.toInt < 0), n.toInt.natAbs, s) := by
    have h := scanNumber_signed (decide (n.toInt < 0)) n.toInt.natAbs hs
    simpa only [signedText, decide_eq_true_eq, List.cons_append] using h
  have hlow := n.le_toInt
  have hhigh := n.toInt_lt
  rw [strtoll, hscan]
  dsimp only
  congr 2
  by_cases hneg : n.toInt < 0
  · rw [if_pos (decide_eq_true hneg)]
    omega
  · rw [if_neg (by simpa using hneg)]
    omega

/-- The first sign or digit of a signed number is its sign. -/
lemma parseFbregNumber_signedText {before : Str}
    (h : ∀ c ∈ before, (c = '+' || c = '-' || isdigit c) = false) (n : BitVec 64) {s : Str}
    (hs : NoDigit 10 s) : parseFbregNumber (before ++ (signedText n ++ s)) = some n.toInt := by
  have hfind : strpbrk (before ++ (signedText n ++ s)) (fun c => c = '+' || c = '-' || isdigit c) =
      some (signedText n ++ s) := by
    induction before with
    | nil =>
        rw [List.nil_append, signedText, List.cons_append, strpbrk, if_pos]
        split <;> rfl
    | cons c before ih =>
        rw [List.cons_append, strpbrk, if_neg (by rw [h c List.mem_cons_self]; decide)]
        exact ih fun d hd => h d (List.mem_cons_of_mem c hd)
  rw [parseFbregNumber, hfind]
  dsimp only
  rw [strtoll_signedText n hs, Option.map_some]

namespace Attr

/-- Where the value of an attribute begins. -/
lemma ended_line (a : Attr) (depth : ℕ) : ended (a.line depth) =
    List.replicate (2 * depth + 14) ' ' ++
      ("DW_AT_".toList ++ (a.key ++ '\t' :: '(' :: (a.value ++ [')', '\n']))) := by
  rw [ended, line, text_eq]
  simp only [List.append_assoc, List.cons_append, List.nil_append]

/-- A word that neither begins nor occurs before the value. -/
lemma strstr_line {a : Attr} (depth : ℕ) {w : Str} (hw : w.head? = some 'D')
    (hkey : 'D' ∉ a.key) (hne : ¬ w.take 6 <+: "DW_AT_".toList) :
    strstr (ended (a.line depth)) w = strstr (a.value ++ [')', '\n']) w := by
  have hsplit : "DW_AT_".toList ++ (a.key ++ '\t' :: '(' :: (a.value ++ [')', '\n'])) =
      'D' :: (("W_AT_".toList ++ (a.key ++ ['\t', '('])) ++ (a.value ++ [')', '\n'])) := by
    simp
  have hbefore : 'D' ∉ "W_AT_".toList ++ (a.key ++ ['\t', '(']) := by
    rw [List.mem_append, List.mem_append, not_or, not_or]
    exact ⟨by decide, hkey, by decide⟩
  have hne' : ¬ w.take ('D' :: ("W_AT_".toList ++ (a.key ++ ['\t', '(']))).length <+:
      'D' :: ("W_AT_".toList ++ (a.key ++ ['\t', '('])) := by
    intro h
    have htake : w.take 6 <+: 'D' :: ("W_AT_".toList ++ (a.key ++ ['\t', '('])) := by
      refine (List.take_prefix_take_left ?_).trans h
      simp
    exact hne (List.prefix_of_prefix_length_le htake (List.prefix_append "DW_AT_".toList _)
      (List.length_take_le _ _))
  rw [ended_line, strstr_append_of_notMem hw (by simp [List.mem_replicate]), hsplit,
    strstr_append_of_ne hw hbefore hne']

/-- The first number in a line is the value. -/
lemma parseHexValue_line {a : Attr} (depth : ℕ) (hkey : '0' ∉ a.key) {width : ℕ} {n : BitVec 64}
    (hvalue : a.value = hexText width n.toNat) :
    parseHexValue (ended (a.line depth)) = some n := by
  have hsplit : ended (a.line depth) = (List.replicate (2 * depth + 14) ' ' ++
      ("DW_AT_".toList ++ (a.key ++ ['\t', '(']))) ++ (hexText width n.toNat ++ [')', '\n']) := by
    rw [ended_line, hvalue]
    simp
  have hbefore : '0' ∉ List.replicate (2 * depth + 14) ' ' ++
      ("DW_AT_".toList ++ (a.key ++ ['\t', '('])) := by
    rw [List.mem_append, List.mem_append, List.mem_append, not_or, not_or, not_or]
    exact ⟨by simp [List.mem_replicate], by decide, hkey, by decide⟩
  have hfind : strstr (hexText width n.toNat ++ [')', '\n']) "0x".toList =
      some (hexText width n.toNat ++ [')', '\n']) := by
    rw [hexText]
    exact strstr_self_append "0x".toList (padHex width n.toNat ++ [')', '\n'])
  rw [parseHexValue, hsplit, strstr_append_of_notMem (d := '0') (by decide) hbefore, hfind]
  dsimp only
  rw [strtoull_hexText width n (noDigit_cons.mpr (by decide)), Option.map_some]

/-- Where the value begins. -/
lemma strchr_paren {a : Attr} (depth : ℕ) (h : '(' ∉ a.key) :
    strchr (ended (a.line depth)) '(' = some ('(' :: (a.value ++ [')', '\n'])) := by
  have hsplit : ended (a.line depth) = (List.replicate (2 * depth + 14) ' ' ++
      ("DW_AT_".toList ++ (a.key ++ ['\t']))) ++ '(' :: (a.value ++ [')', '\n']) := by
    rw [ended_line]
    simp
  have hbefore : '(' ∉ List.replicate (2 * depth + 14) ' ' ++
      ("DW_AT_".toList ++ (a.key ++ ['\t'])) := by
    rw [List.mem_append, List.mem_append, List.mem_append, not_or, not_or, not_or]
    exact ⟨by simp [List.mem_replicate], by decide, h, by decide⟩
  rw [hsplit, strchr_append hbefore]

/-- A quoted value is read as far as it fits. -/
lemma parseQuotedValue_line {a : Attr} (depth k : ℕ) {p v : Str}
    (hvalue : a.value = p ++ '"' :: (v ++ ['"'])) (hkey : '"' ∉ a.key) (hp : '"' ∉ p)
    (hv : '"' ∉ v) : parseQuotedValue (ended (a.line depth)) k = some (truncate k v) := by
  have hsplit : ended (a.line depth) = (List.replicate (2 * depth + 14) ' ' ++
      ("DW_AT_".toList ++ (a.key ++ '\t' :: '(' :: p))) ++ '"' :: (v ++ '"' :: [')', '\n']) := by
    rw [ended_line, hvalue]
    simp
  have hbefore : '"' ∉ List.replicate (2 * depth + 14) ' ' ++
      ("DW_AT_".toList ++ (a.key ++ '\t' :: '(' :: p)) := by
    simp only [List.mem_append, List.mem_cons, List.mem_replicate, not_or]
    exact ⟨by simp, by decide, hkey, by decide, by decide, hp⟩
  have hmem : '"' ∈ ('"' :: (v ++ '"' :: [')', '\n'])).tail := by simp
  rw [parseQuotedValue, hsplit, strchr_append hbefore]
  dsimp only
  rw [if_pos hmem, List.tail_cons, takeWhile_ne_append hv]

variable (depth : ℕ)

lemma parseQuotedValue_name {n : Str} (h : (name n).Plain) (k : ℕ) :
    parseQuotedValue (ended ((name n).line depth)) k = some (truncate k n) := by
  refine parseQuotedValue_line depth k (p := []) rfl ?_ (by decide) h.1
  change '"' ∉ "name".toList
  decide

lemma parseQuotedValue_type {ref : BitVec 64} {t : Str} (h : (type ref t).Plain) (k : ℕ) :
    parseQuotedValue (ended ((type ref t).line depth)) k = some (truncate k t) := by
  refine parseQuotedValue_line depth k (p := hexText 8 ref.toNat ++ [' ']) ?_ ?_ ?_ h.1
  · rw [List.append_assoc]
    rfl
  · change '"' ∉ "type".toList
    decide
  · rw [List.mem_append, not_or]
    exact ⟨fun hmem => absurd (mem_hexText hmem) (by decide), by decide⟩

lemma strtoull_byteSize (n : BitVec 64) :
    ((strchr (ended ((byteSize n).line depth)) '(').bind fun p => strtoull 16 p.tail) =
      some (n, [')', '\n']) := by
  have hkey : '(' ∉ (byteSize n).key := by
    change '(' ∉ "byte_size".toList
    decide
  rw [strchr_paren depth hkey, Option.bind_some, List.tail_cons]
  exact strtoull_hexText 2 n (noDigit_cons.mpr (by decide))

lemma parseMemberOffset_line (n : BitVec 64) :
    parseMemberOffset (ended ((memberLocation n).line depth)) = some n := by
  have hword : "DW_AT_data_member_location".toList =
      "DW_AT_".toList ++ "data_member_location".toList := by decide
  have hkey : (memberLocation n).key = "data_member_location".toList := rfl
  have hvalue : (memberLocation n).value = hexText 2 n.toNat := rfl
  have hfind : strstr (ended ((memberLocation n).line depth))
      "DW_AT_data_member_location".toList = some (("DW_AT_data_member_location".toList ++ ['\t']) ++
        '(' :: (hexText 2 n.toNat ++ [')', '\n'])) := by
    rw [ended_line, strstr_append_of_notMem (d := 'D') (by decide) (by simp [List.mem_replicate]),
      hkey, hvalue, ← List.append_assoc, ← hword, strstr_self_append, List.append_assoc]
    rfl
  rw [parseMemberOffset, hfind]
  dsimp only
  rw [strchr_append (by decide)]
  dsimp only
  rw [List.tail_cons, strtoull_hexText 2 n (noDigit_cons.mpr (by decide)), Option.map_some]

lemma parseHexValue_lowPc (addr : Addr) :
    parseHexValue (ended ((lowPc addr).line depth)) = some addr := by
  refine parseHexValue_line depth ?_ (rfl : (lowPc addr).value = hexText 16 addr.toNat)
  change '0' ∉ "low_pc".toList
  decide

lemma parseHexValue_highPc (addr : Addr) :
    parseHexValue (ended ((highPc addr).line depth)) = some addr := by
  refine parseHexValue_line depth ?_ (rfl : (highPc addr).value = hexText 16 addr.toNat)
  change '0' ∉ "high_pc".toList
  decide

/-- A word in the line of a location is looked for in the location. -/
lemma strstr_location (p : Place) {w : Str} (hw : w.head? = some 'D')
    (hne : ¬ w.take 6 <+: "DW_AT_".toList) :
    strstr (ended ((location p).line depth)) w = strstr (p.text ++ [')', '\n']) w := by
  refine strstr_line depth hw ?_ hne
  change 'D' ∉ "location".toList
  decide

/-- An operator is found at the start of a location, and no other one in it. -/
lemma strstr_operator (op rest : Str) : strstr ((op ++ ' ' :: rest) ++ [')', '\n']) op =
    some (op ++ ' ' :: (rest ++ [')', '\n'])) := by
  rw [List.append_assoc, List.cons_append]
  exact strstr_self_append op _

lemma strstr_operator_none {op rest w : Str} (hop : hasSubstr op w = false) (hrest : 'D' ∉ rest)
    (hw : 'D' ∈ w) (hblank : ' ' ∉ w) : strstr ((op ++ ' ' :: rest) ++ [')', '\n']) w = none := by
  have hne : w ≠ [] := List.ne_nil_of_mem hw
  have hend : 'D' ∉ rest ++ [')', '\n'] := by
    rw [List.mem_append, not_or]
    exact ⟨hrest, by decide⟩
  refine strstr_eq_none ?_
  rw [List.append_assoc, List.cons_append, hasSubstr_append_cons hblank hne, hop,
    hasSubstr_eq_false hw hend]
  rfl

end Attr

namespace Place

lemma notMem_signed {c : Char} (hc : c ∉ "+-0123456789abcdef".toList) {before : Str}
    (hb : c ∉ before) (n : BitVec 64) : c ∉ before ++ signedText n := by
  rw [List.mem_append, not_or]
  exact ⟨hb, fun h => hc (mem_signedText h)⟩

lemma parseFbregBase_read (p : Place) (depth : ℕ) :
    parseFbregBase (ended ((Attr.location p).line depth)) = match p with
      | fbreg n => some (.fb, ' ' :: (signedText n ++ [')', '\n']))
      | sp n => some (.sp, ' ' :: (("WSP".toList ++ signedText n) ++ [')', '\n']))
      | x29 n => some (.x29, ' ' :: (("W29".toList ++ signedText n) ++ [')', '\n']))
      | addr _ => none
      | other _ _ => none := by
  have hfb := Attr.strstr_location depth p (w := "DW_OP_fbreg".toList) (by decide) (by decide)
  have hreg := Attr.strstr_location depth p (w := "DW_OP_breg".toList) (by decide) (by decide)
  -- an operator with the number of a register
  have hnumber {op : Str} (rest : Str) {n : ℕ}
      (hop : op = "DW_OP_breg".toList ++ Nat.toDigits 10 n) :
      strstr ((op ++ ' ' :: rest) ++ [')', '\n']) "DW_OP_breg".toList =
          some (op ++ ' ' :: (rest ++ [')', '\n'])) ∧
        strtoll 10 ((op ++ ' ' :: (rest ++ [')', '\n'])).drop "DW_OP_breg".length) =
          some (min (n : ℤ) (2 ^ 63 - 1), ' ' :: (rest ++ [')', '\n'])) := by
    subst hop
    rw [List.append_assoc, List.append_assoc, List.append_assoc, drop_word, strtoll,
      scanNumber_decimal n (noDigit_cons.mpr (by decide))]
    exact ⟨strstr_self_append _ _, rfl⟩
  rw [parseFbregBase, hfb, hreg]
  cases p with
  | fbreg n =>
      rw [text_fbreg, Attr.strstr_operator]
      dsimp only
      rw [drop_word]
  | sp n =>
      obtain ⟨hfind, hread⟩ := hnumber ("WSP".toList ++ signedText n)
        (by decide : "DW_OP_breg31".toList = "DW_OP_breg".toList ++ Nat.toDigits 10 31)
      rw [text_sp, Attr.strstr_operator_none (by decide) (notMem_signed (by decide) (by decide) n)
        (by decide) (by decide), hfind]
      dsimp only
      rw [hread]
      rfl
  | x29 n =>
      obtain ⟨hfind, hread⟩ := hnumber ("W29".toList ++ signedText n)
        (by decide : "DW_OP_breg29".toList = "DW_OP_breg".toList ++ Nat.toDigits 10 29)
      rw [text_x29, Attr.strstr_operator_none (by decide) (notMem_signed (by decide) (by decide) n)
        (by decide) (by decide), hfind]
      dsimp only
      rw [hread]
      rfl
  | addr a =>
      have hno : 'D' ∉ hexText 0 a.toNat := fun h => absurd (mem_hexText h) (by decide)
      rw [text_addr, Attr.strstr_operator_none (by decide) hno (by decide) (by decide),
        Attr.strstr_operator_none (by decide) hno (by decide) (by decide)]
  | other text plain =>
      have hend {w : Str} (hw : ')' ∉ w) (hnl : '\n' ∉ w) (hne : w ≠ [])
          (h : hasSubstr text w = false) : strstr (text ++ [')', '\n']) w = none := by
        refine strstr_eq_none ?_
        rw [List.append_cons, hasSubstr_concat hnl hne, hasSubstr_concat hw hne, h]
      have hfb' := hend (by decide) (by decide) (by decide) plain.2.1
      have hreg' := hend (by decide) (by decide) (by decide) plain.2.2.1
      rw [text_other, hfb', hreg']

/-- What is read of a location. -/
lemma parseFbregOffset_read (p : Place) (depth : ℕ) (var : VarInfo) :
    parseFbregOffset (ended ((Attr.location p).line depth)) var = match p.read with
      | some (base, offset) => ({ var with base := base, fbregOffset := offset }, true)
      | none => (var, false) := by
  have hbase := p.parseFbregBase_read depth
  have hdigits (n : BitVec 64) (before : Str)
      (h : ∀ c ∈ ' ' :: before, (c = '+' || c = '-' || isdigit c) = false) :
      parseFbregNumber (' ' :: ((before ++ signedText n) ++ [')', '\n'])) = some n.toInt := by
    have hread := parseFbregNumber_signedText h n (noDigit_cons.mpr (by decide) :
      NoDigit 10 [')', '\n'])
    rwa [List.append_assoc]
  rw [parseFbregOffset, hbase]
  cases p with
  | fbreg n =>
      have hread := hdigits n [] (List.all_iff_forall_prop.mp (by decide))
      rw [List.nil_append] at hread
      dsimp only
      rw [hread]
      rfl
  | sp n =>
      have hread := hdigits n "WSP".toList (List.all_iff_forall_prop.mp (by decide))
      dsimp only
      rw [hread]
      rfl
  | x29 n =>
      -- the search for the offset stops at the number of the register
      have hread : parseFbregNumber (' ' :: (("W29".toList ++ signedText n) ++ [')', '\n'])) =
          some 29 := by
        have hno : NoDigit 10 (signedText n ++ [')', '\n']) := by
          rw [signedText, List.cons_append]
          exact noDigit_cons.mpr (by split <;> decide)
        have hfind : strpbrk (' ' :: (("W29".toList ++ signedText n) ++ [')', '\n']))
            (fun c => c = '+' || c = '-' || isdigit c) =
              some (Nat.toDigits 10 29 ++ (signedText n ++ [')', '\n'])) := rfl
        rw [parseFbregNumber, hfind]
        dsimp only
        rw [strtoll, scanNumber_decimal 29 hno]
        rfl
      dsimp only
      rw [hread]
      rfl
  | addr a => rfl
  | other text plain => rfl

end Place

/-! ### Attributes -/

lemma Attr.key_of_kind {a : Attr} {k : AttrKind} (h : a.kind = some k) : a.key = k.text := by
  cases a <;> cases h <;> rfl

section

variable {a : Attr}

lemma Attr.kind_of_name (h : a.name?.isSome = true) : a.kind = some .name := by
  cases a <;> first | rfl | cases h

lemma Attr.kind_of_type (h : a.type?.isSome = true) : a.kind = some .type := by
  cases a <;> first | rfl | cases h

lemma Attr.kind_of_byteSize (h : a.byteSize?.isSome = true) : a.kind = some .byteSize := by
  cases a <;> first | rfl | cases h

lemma Attr.kind_of_memberLocation (h : a.memberLocation?.isSome = true) :
    a.kind = some .memberLocation := by
  cases a <;> first | rfl | cases h

lemma Attr.kind_of_lowPc (h : a.lowPc?.isSome = true) : a.kind = some .lowPc := by
  cases a <;> first | rfl | cases h

lemma Attr.kind_of_highPc (h : a.highPc?.isSome = true) : a.kind = some .highPc := by
  cases a <;> first | rfl | cases h

lemma Attr.kind_of_place (h : a.place?.isSome = true) : a.kind = some .location := by
  cases a <;> first | rfl | cases h

end

/-- The value of an attribute that occurs once. -/
lemma Attrs.get_of_mem (as : Attrs) {α : Type} {f : Attr → Option α} {k : AttrKind}
    (hf : ∀ a, (f a).isSome = true → a.kind = some k) {a : Attr} (ha : a ∈ as.list) {v : α}
    (hv : f a = some v) : as.list.findSome? f = some v := by
  cases hfind : as.list.findSome? f with
  | none =>
      rw [List.findSome?_eq_none_iff.mp hfind a ha] at hv
      cases hv
  | some w =>
      obtain ⟨b, hb, hw⟩ := List.exists_of_findSome?_eq_some hfind
      have hkey : a.key = b.key := by
        rw [Attr.key_of_kind (hf a (Option.isSome_of_eq_some hv)),
          Attr.key_of_kind (hf b (Option.isSome_of_eq_some hw))]
      rw [← hw, ← hv, List.inj_on_of_nodup_map as.distinct ha hb hkey]

/-- An attribute that occurs once is read once: it finds what was there before. -/
lemma Attrs.foldl_get (as : Attrs) {σ α β : Type} (step : σ → Attr → σ) (field : σ → β)
    {f : Attr → Option α} {g : α → β → β} {k : AttrKind}
    (hf : ∀ a, (f a).isSome = true → a.kind = some k)
    {P : σ → Prop} (hP : ∀ s, ∀ a ∈ as.list, P s → P (step s a))
    (hstep : ∀ s, ∀ a ∈ as.list, P s →
      field (step s a) = (f a).elim (field s) fun v => g v (field s)) {s : σ} (hs : P s) :
    P (as.list.foldl step s) ∧
      field (as.list.foldl step s) =
        (as.list.findSome? f).elim (field s) fun v => g v (field s) := by
  obtain ⟨list, plain, distinct⟩ := as
  dsimp only at hP hstep ⊢
  clear plain
  induction list generalizing s with
  | nil => exact ⟨hs, rfl⟩
  | cons a as ih =>
      obtain ⟨hnot, hnodup⟩ := List.nodup_cons.mp distinct
      obtain ⟨hfold, hfield⟩ := ih (hP s a List.mem_cons_self hs) hnodup
        (fun s b hb => hP s b (List.mem_cons_of_mem a hb))
        (fun s b hb => hstep s b (List.mem_cons_of_mem a hb))
      rw [List.foldl_cons, hfield, hstep s a List.mem_cons_self hs, List.findSome?_cons]
      refine ⟨hfold, ?_⟩
      cases hfa : f a with
      | none => rfl
      | some v =>
          have hkey := Attr.key_of_kind (hf a (Option.isSome_of_eq_some hfa))
          have hrest : as.findSome? f = none := by
            refine List.findSome?_eq_none_iff.mpr fun b hb => Option.not_isSome_iff_eq_none.mp ?_
            intro hsome
            refine hnot (List.mem_map.mpr ⟨b, hb, ?_⟩)
            rw [hkey, Attr.key_of_kind (hf b hsome)]
          rw [hrest]
          rfl

lemma foreign_compileUnit : Foreign tagNames "compile_unit".toList := by decide

end Cdbg
