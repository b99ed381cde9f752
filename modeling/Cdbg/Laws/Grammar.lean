import Cdbg.Laws.Lexing

/-!
The grammar of expressions has the precedence of C: an expression that is printed with only
the parentheses it needs is parsed as itself.

`ReadsExpr` and its companions say what the parsers make of a list of tokens whenever their
fuel is at least twice the number of tokens; their rules are the productions of the grammar.
-/

namespace Cdbg

open CString

variable {ts ts' rest : List Token} {e lhs rhs x : ExprNode} {level p : ℕ} {t : Token}

/-! ### Productions -/

/-- `parseExpr` reads an expression off some tokens. -/
def ReadsExpr (level : ℕ) (ts : List Token) (e : ExprNode) (rest : List Token) : Prop :=
  ∀ n, 2 * ts.length + 2 ≤ n → parseExpr n level ts = some (e, rest)

/-- `parseOperators` goes on from an operand to an expression. -/
def ReadsOperators (level : ℕ) (lhs : ExprNode) (ts : List Token) (e : ExprNode)
    (rest : List Token) : Prop :=
  ∀ n, 2 * ts.length + 1 ≤ n → parseOperators n level lhs ts = some (e, rest)

/-- `parseUnary` reads an expression off some tokens. -/
def ReadsUnary (ts : List Token) (e : ExprNode) (rest : List Token) : Prop :=
  ∀ n, 2 * ts.length + 1 ≤ n → parseUnary n ts = some (e, rest)

/-- `parsePostfix` goes on from a base to an expression. -/
def ReadsPostfix (base : ExprNode) (ts : List Token) (e : ExprNode) (rest : List Token) : Prop :=
  ∀ n, 2 * ts.length + 1 ≤ n → parsePostfix n base ts = some (e, rest)

/-- Take a round of fuel. -/
lemma exists_succ {k n : ℕ} (h : k + 1 ≤ n) : ∃ m, n = m + 1 ∧ k ≤ m := ⟨n - 1, by omega, by omega⟩

lemma ReadsUnary.expr (hu : ReadsUnary ts lhs ts') (hlt : ts'.length < ts.length)
    (ho : ReadsOperators level lhs ts' e rest) : ReadsExpr level ts e rest := by
  intro n hn
  obtain ⟨m, rfl, hm⟩ := exists_succ hn
  rw [parseExpr, hu m hm]
  exact ho m (by omega)

lemma ReadsOperators.operator {op : ExprOp} {l : ℕ} (ht : t.binaryOp = some (op, l))
    (hl : level ≤ l) (hr : ReadsExpr (l + 1) ts rhs ts') (hlt : ts'.length < ts.length)
    (ho : ReadsOperators level (.binary op lhs rhs) ts' e rest) :
    ReadsOperators level lhs (t :: ts) e rest := by
  intro n hn
  rw [List.length_cons] at hn
  obtain ⟨m, rfl, hm⟩ := exists_succ hn
  rw [parseOperators, ht]
  refine (if_neg (Nat.not_lt.mpr hl)).trans ?_
  rw [hr m (by omega)]
  exact ho m (by omega)

/-- Tokens that end an expression of a level: no operator of the level follows. -/
def EndsOperators (level : ℕ) (ts : List Token) : Prop :=
  ∀ t ∈ ts.head?, ∀ op l, t.binaryOp = some (op, l) → l < level

lemma ReadsOperators.stop (h : EndsOperators level ts) : ReadsOperators level lhs ts lhs ts := by
  intro n hn
  obtain ⟨m, rfl, -⟩ := exists_succ hn
  rcases ts with _ | ⟨t, ts⟩
  · rfl
  · rw [parseOperators]
    cases ht : t.binaryOp with
    | none => rfl
    | some r =>
        obtain ⟨op, l⟩ := r
        exact if_pos (h t rfl op l ht)

lemma parseUnary_operator {make : ExprNode → ExprNode} (ht : t.prefixOp = some make) (m : ℕ)
    (ts : List Token) : parseUnary (m + 1) (t :: ts) =
      (parseUnary m ts).map fun r => (make r.1, r.2) := by
  unfold Token.prefixOp at ht
  split at ht <;> cases ht <;> rfl

lemma ReadsUnary.operator {make : ExprNode → ExprNode} (ht : t.prefixOp = some make)
    (hu : ReadsUnary ts e rest) : ReadsUnary (t :: ts) (make e) rest := by
  intro n hn
  rw [List.length_cons] at hn
  obtain ⟨m, rfl, hm⟩ := exists_succ hn
  rw [parseUnary_operator ht, hu m (by omega)]
  rfl

lemma ReadsPostfix.number {v : BitVec 64} {f : Bool} (h : ReadsPostfix (.num v f) ts e rest) :
    ReadsUnary (.number v f :: ts) e rest := by
  intro n hn
  rw [List.length_cons] at hn
  obtain ⟨m, rfl, hm⟩ := exists_succ hn
  exact h m (by omega)

lemma ReadsPostfix.ident {name : Str} (h : ReadsPostfix (.ident name) ts e rest) :
    ReadsUnary (.ident name :: ts) e rest := by
  intro n hn
  rw [List.length_cons] at hn
  obtain ⟨m, rfl, hm⟩ := exists_succ hn
  exact h m (by omega)

lemma parseUnary_paren (m : ℕ) (ts : List Token) : parseUnary (m + 1) (.char '(' :: ts) =
    match parseExpr m 0 ts with
    | some (e, .char ')' :: ts) => parsePostfix m e ts
    | _ => none := rfl

lemma ReadsPostfix.paren (hin : ReadsExpr 0 ts lhs (.char ')' :: ts'))
    (hle : ts'.length ≤ ts.length) (h : ReadsPostfix lhs ts' e rest) :
    ReadsUnary (.char '(' :: ts) e rest := by
  intro n hn
  rw [List.length_cons] at hn
  obtain ⟨m, rfl, hm⟩ := exists_succ hn
  rw [parseUnary_paren, hin m (by omega)]
  exact h m (by omega)

lemma ReadsPostfix.member {name : Str} (h : ReadsPostfix (.member lhs name) ts e rest) :
    ReadsPostfix lhs (.char '.' :: .ident name :: ts) e rest := by
  intro n hn
  rw [List.length_cons, List.length_cons] at hn
  obtain ⟨m, rfl, hm⟩ := exists_succ hn
  exact h m (by omega)

lemma ReadsPostfix.arrow {name : Str} (h : ReadsPostfix (.arrow lhs name) ts e rest) :
    ReadsPostfix lhs (.arrow :: .ident name :: ts) e rest := by
  intro n hn
  rw [List.length_cons, List.length_cons] at hn
  obtain ⟨m, rfl, hm⟩ := exists_succ hn
  exact h m (by omega)

lemma parsePostfix_index (m : ℕ) (e : ExprNode) (ts : List Token) :
    parsePostfix (m + 1) e (.char '[' :: ts) =
      match parseExpr m 0 ts with
      | some (i, .char ']' :: ts) => parsePostfix m (.index e i) ts
      | _ => none := rfl

lemma ReadsPostfix.index (hin : ReadsExpr 0 ts rhs (.char ']' :: ts'))
    (hle : ts'.length ≤ ts.length) (h : ReadsPostfix (.index lhs rhs) ts' e rest) :
    ReadsPostfix lhs (.char '[' :: ts) e rest := by
  intro n hn
  rw [List.length_cons] at hn
  obtain ⟨m, rfl, hm⟩ := exists_succ hn
  rw [parsePostfix_index, hin m (by omega)]
  exact h m (by omega)

/-- Tokens that end a postfix expression. -/
def EndsPostfix (ts : List Token) : Prop :=
  ∀ t ∈ ts.head?, t ≠ .char '.' ∧ t ≠ .arrow ∧ t ≠ .char '['

lemma ReadsPostfix.stop (h : EndsPostfix ts) : ReadsPostfix e ts e ts := by
  intro n hn
  obtain ⟨m, rfl, -⟩ := exists_succ hn
  rcases ts with _ | ⟨t, ts⟩
  · rfl
  · obtain ⟨hdot, harrow, hbracket⟩ := h t rfl
    rw [parsePostfix]
    all_goals
      intros
      simp_all

/-! ### Printed expressions -/

lemma binaryOp_token {op : ExprOp} (h : op.isUnary = false) :
    op.token.binaryOp = some (op, op.level) := by
  cases op <;> first | rfl | cases h

lemma prefixOp_token {op : ExprOp} (h : op.isUnary = true) :
    op.token.prefixOp = some (.unary op) := by
  cases op <;> first | rfl | cases h

lemma level_lt_of_binary {op : ExprOp} (h : op.isUnary = false) :
    op.level < ExprNode.prefixLevel := by
  cases op <;> first | decide | cases h

lemma endsPostfix_token (op : ExprOp) (ts : List Token) : EndsPostfix (op.token :: ts) := by
  intro t ht
  obtain rfl := Option.mem_some.mp ht
  cases op <;> decide

lemma endsPostfix_close {c : Char} (h : c = ')' ∨ c = ']') (ts : List Token) :
    EndsPostfix (.char c :: ts) := by
  intro t ht
  obtain rfl := Option.mem_some.mp ht
  rcases h with rfl | rfl <;> decide

lemma ends_close {c : Char} (h : c = ')' ∨ c = ']') (level : ℕ) (ts : List Token) :
    EndsOperators level (.char c :: ts) := by
  intro t ht op l hop
  obtain rfl := Option.mem_some.mp ht
  rcases h with rfl | rfl <;> cases hop

lemma EndsOperators.mono {level' : ℕ} (h : EndsOperators level ts) (hle : level ≤ level') :
    EndsOperators level' ts :=
  fun t ht op l hop => (h t ht op l hop).trans_le hle

lemma ends_token {op : ExprOp} (h : op.isUnary = false) (ts : List Token) :
    EndsOperators (op.level + 1) (op.token :: ts) := by
  intro t ht op' l hop
  obtain rfl := Option.mem_some.mp ht
  rw [binaryOp_token h] at hop
  obtain ⟨-, rfl⟩ := Prod.mk.inj (Option.some.inj hop)
  exact Nat.lt_succ_self _

lemma tokens_ne_nil (e : ExprNode) : e.tokens ≠ [] := by
  cases e <;> simp [ExprNode.tokens]

lemma length_lt_append {us : List Token} (h : us ≠ []) (ts : List Token) :
    ts.length < (us ++ ts).length := by
  have := List.length_pos_of_ne_nil h
  rw [List.length_append]
  omega

lemma enclosed_ne_nil (p : ℕ) (e : ExprNode) : ExprNode.enclosed p e.level e.tokens ≠ [] := by
  rw [ExprNode.enclosed]
  split
  · exact List.cons_ne_nil _ _
  · exact tokens_ne_nil e

/-- An expression is read back off its tokens: as a base if it is a postfix expression, as an
operand if it is a prefix expression, and as the first operand of what follows otherwise. -/
structure ReadBack (e : ExprNode) : Prop where
  base : e.level = ExprNode.postfixLevel → ∀ ts x rest, ReadsPostfix e ts x rest →
    ReadsUnary (e.tokens ++ ts) x rest
  operand : ExprNode.prefixLevel ≤ e.level → ∀ ts, EndsPostfix ts →
    ReadsUnary (e.tokens ++ ts) e ts
  expr : ∀ level ts x rest, level ≤ e.level → EndsPostfix ts → EndsOperators (e.level + 1) ts →
    ReadsOperators level e ts x rest → ReadsExpr level (e.tokens ++ ts) x rest

namespace ReadBack

/-- A prefix expression is read back if it is as an operand. -/
lemma of_operand (hlevel : e.level = ExprNode.prefixLevel)
    (h : ∀ ts, EndsPostfix ts → ReadsUnary (e.tokens ++ ts) e ts) : ReadBack e where
  base := fun hbase => absurd (hlevel.symm.trans hbase) (by decide)
  operand := fun _ => h
  expr := fun _ ts _ _ _ hpost _ ho =>
    (h ts hpost).expr (length_lt_append (tokens_ne_nil e) ts) ho

/-- A postfix expression is read back if it is as a base. -/
lemma of_base (h : ∀ ts x rest, ReadsPostfix e ts x rest → ReadsUnary (e.tokens ++ ts) x rest) :
    ReadBack e where
  base := fun _ => h
  operand := fun _ ts hpost => h ts e ts (.stop hpost)
  expr := fun _ ts _ _ _ hpost _ ho =>
    (h ts e ts (.stop hpost)).expr (length_lt_append (tokens_ne_nil e) ts) ho

/-- Between parentheses an expression is read back as a base. -/
lemma paren (he : ReadBack e) (h : ReadsPostfix e ts x rest) :
    ReadsUnary ((.char '(' :: (e.tokens ++ [.char ')'])) ++ ts) x rest := by
  have hin : ReadsExpr 0 (e.tokens ++ .char ')' :: ts) e (.char ')' :: ts) :=
    he.expr 0 _ _ _ (Nat.zero_le _) (endsPostfix_close (.inl rfl) ts) (ends_close (.inl rfl) _ ts)
      (.stop (ends_close (.inl rfl) 0 ts))
  have hle : ts.length ≤ (e.tokens ++ .char ')' :: ts).length := by
    rw [List.length_append, List.length_cons]
    omega
  have hread := ReadsPostfix.paren hin hle h
  rwa [List.cons_append, List.append_assoc]

lemma enclosed_base (he : ReadBack e) (h : ReadsPostfix e ts x rest) :
    ReadsUnary (ExprNode.enclosed ExprNode.postfixLevel e.level e.tokens ++ ts) x rest := by
  rw [ExprNode.enclosed]
  split
  · exact he.paren h
  · have hlevel : e.level = ExprNode.postfixLevel := by
      cases e with
      | binary op l r =>
          have : op.level ≤ 11 := by cases op <;> decide
          simp only [ExprNode.level, ExprNode.postfixLevel] at *
          omega
      | unary | addr | deref =>
          rename_i hle
          exact absurd (show ExprNode.prefixLevel < ExprNode.postfixLevel by decide) hle
      | num | ident | member | arrow | index => rfl
    exact he.base hlevel ts x rest h

lemma enclosed_operand (he : ReadBack e) (hts : EndsPostfix ts) :
    ReadsUnary (ExprNode.enclosed ExprNode.prefixLevel e.level e.tokens ++ ts) e ts := by
  rw [ExprNode.enclosed]
  split
  · exact he.paren (.stop hts)
  · exact he.operand (Nat.not_lt.mp ‹_›) ts hts

lemma enclosed_expr (he : ReadBack e) (hlevel : level ≤ p) (hpost : EndsPostfix ts)
    (hends : EndsOperators (p + 1) ts) (ho : ReadsOperators level e ts x rest) :
    ReadsExpr level (ExprNode.enclosed p e.level e.tokens ++ ts) x rest := by
  rw [ExprNode.enclosed]
  split
  · exact (he.paren (.stop hpost)).expr (length_lt_append (List.cons_ne_nil _ _) ts) ho
  · have hp := Nat.not_lt.mp ‹_›
    exact he.expr level ts x rest (hlevel.trans hp) hpost (hends.mono (Nat.succ_le_succ hp)) ho

/-- Operators associate to the left: the left operand may be of the same level. -/
lemma binary {op : ExprOp} (hop : op.isUnary = false) (hl : ReadBack lhs) (hr : ReadBack rhs) :
    ReadBack (.binary op lhs rhs) where
  base := by
    intro hbase
    have hlt := level_lt_of_binary hop
    rw [show op.level = ExprNode.postfixLevel from hbase] at hlt
    exact absurd hlt (by decide)
  operand := fun hle => absurd (level_lt_of_binary hop) (Nat.not_lt.mpr hle)
  expr := by
    intro level ts x rest hle hpost hends ho
    have hright : ReadsExpr (op.level + 1)
        (ExprNode.enclosed (op.level + 1) rhs.level rhs.tokens ++ ts) rhs ts :=
      hr.enclosed_expr le_rfl hpost (hends.mono (Nat.le_succ _)) (.stop hends)
    have hleft : ReadsOperators level lhs
        (op.token :: (ExprNode.enclosed (op.level + 1) rhs.level rhs.tokens ++ ts)) x rest :=
      .operator (binaryOp_token hop) hle hright (length_lt_append (enclosed_ne_nil _ rhs) ts) ho
    rw [ExprNode.tokens, List.append_assoc, List.cons_append]
    exact hl.enclosed_expr hle (endsPostfix_token op _) (ends_token hop _) hleft

end ReadBack

/-- Every printable expression is read back off its tokens. -/
lemma readBack {spell : BitVec 64 → Bool → Str} (e : ExprNode) (h : e.Printable spell) :
    ReadBack e := by
  induction e with
  | num number isFloat => exact .of_base fun _ _ _ hp => hp.number
  | ident name => exact .of_base fun _ _ _ hp => hp.ident
  | unary op e ih =>
      obtain ⟨hop, he⟩ := h
      exact .of_operand rfl fun _ hts =>
        ReadsUnary.operator (prefixOp_token hop) ((ih he).enclosed_operand hts)
  | addr e ih =>
      exact .of_operand rfl fun _ hts => ReadsUnary.operator rfl ((ih h).enclosed_operand hts)
  | deref e ih =>
      exact .of_operand rfl fun _ hts => ReadsUnary.operator rfl ((ih h).enclosed_operand hts)
  | binary op l r ihl ihr => exact .binary h.1 (ihl h.2.1) (ihr h.2.2)
  | member e name ih =>
      refine .of_base fun ts x rest hp => ?_
      rw [ExprNode.tokens, List.append_assoc]
      exact (ih h.1).enclosed_base hp.member
  | arrow e name ih =>
      refine .of_base fun ts x rest hp => ?_
      rw [ExprNode.tokens, List.append_assoc]
      exact (ih h.1).enclosed_base hp.arrow
  | index e i ihe ihi =>
      refine .of_base fun ts x rest hp => ?_
      have hin : ReadsExpr 0 (i.tokens ++ .char ']' :: ts) i (.char ']' :: ts) :=
        (ihi h.2).expr 0 _ _ _ (Nat.zero_le _) (endsPostfix_close (.inr rfl) ts)
          (ends_close (.inr rfl) _ ts) (.stop (ends_close (.inr rfl) 0 ts))
      have hle : ts.length ≤ (i.tokens ++ .char ']' :: ts).length := by
        rw [List.length_append, List.length_cons]
        omega
      rw [ExprNode.tokens, List.append_assoc, List.cons_append, List.append_assoc]
      exact (ihe h.1).enclosed_base (.index hin hle hp)

/-! ### The text of an expression -/

lemma valid_operator (op : ExprOp) (spell : BitVec 64 → Bool → Str) : op.token.Valid spell := by
  cases op <;> first | trivial | (show _ ∈ Token.symbols; decide)

lemma valid_enclosed {spell : BitVec 64 → Bool → Str} (p : ℕ)
    (h : ∀ t ∈ e.tokens, t.Valid spell) :
    ∀ t ∈ ExprNode.enclosed p e.level e.tokens, t.Valid spell := by
  intro t ht
  rw [ExprNode.enclosed] at ht
  split at ht
  · rcases List.mem_cons.mp ht with rfl | ht
    · exact (by decide : '(' ∈ Token.symbols)
    · rcases List.mem_append.mp ht with ht | ht
      · exact h t ht
      · rw [List.mem_singleton.mp ht]
        exact (by decide : ')' ∈ Token.symbols)
  · exact h t ht

/-- The tokens of a printable expression have a text. -/
lemma valid_tokens {spell : BitVec 64 → Bool → Str} (e : ExprNode) (h : e.Printable spell) :
    ∀ t ∈ e.tokens, t.Valid spell := by
  have hsymbol : ∀ c ∈ Token.symbols, (Token.char c).Valid spell := fun _ hc => hc
  induction e with
  | num number isFloat =>
      intro t ht
      rw [List.mem_singleton.mp ht]
      exact h
  | ident name =>
      intro t ht
      rw [List.mem_singleton.mp ht]
      exact h
  | unary op e ih =>
      exact List.forall_mem_cons.mpr ⟨valid_operator op spell, valid_enclosed _ (ih h.2)⟩
  | addr e ih =>
      exact List.forall_mem_cons.mpr ⟨hsymbol '&' (by decide), valid_enclosed _ (ih h)⟩
  | deref e ih =>
      exact List.forall_mem_cons.mpr ⟨hsymbol '*' (by decide), valid_enclosed _ (ih h)⟩
  | binary op l r ihl ihr =>
      refine List.forall_mem_append.mpr ⟨valid_enclosed _ (ihl h.2.1), ?_⟩
      exact List.forall_mem_cons.mpr ⟨valid_operator op spell, valid_enclosed _ (ihr h.2.2)⟩
  | member e name ih =>
      refine List.forall_mem_append.mpr ⟨valid_enclosed _ (ih h.1), ?_⟩
      exact List.forall_mem_cons.mpr ⟨hsymbol '.' (by decide), List.forall_mem_singleton.mpr h.2⟩
  | arrow e name ih =>
      refine List.forall_mem_append.mpr ⟨valid_enclosed _ (ih h.1), ?_⟩
      exact List.forall_mem_cons.mpr ⟨trivial, List.forall_mem_singleton.mpr h.2⟩
  | index e i ihe ihi =>
      refine List.forall_mem_append.mpr ⟨valid_enclosed _ (ihe h.1), ?_⟩
      refine List.forall_mem_cons.mpr ⟨hsymbol '[' (by decide), ?_⟩
      exact List.forall_mem_append.mpr
        ⟨ihi h.2, List.forall_mem_singleton.mpr (hsymbol ']' (by decide))⟩

/-- **The grammar has the precedence of C**: a printable expression is parsed back from its
text; and every integer can be spelled, in decimal. -/
theorem exprParse_text :
    (∀ (spell : BitVec 64 → Bool → Str) (e : ExprNode), e.Printable spell →
      exprParse (e.text spell) = some e) ∧
    ∀ n : BitVec 64, Token.IsLiteral n false (Nat.toDigits 10 n.toNat) := by
  refine ⟨fun spell e h => ?_, Token.isLiteral_decimal⟩
  have hlex : Token.lex (e.text spell) = e.tokens := Token.lex_join (valid_tokens e h)
  have hread : ReadsExpr 0 e.tokens e [] := by
    have hexpr := (readBack e h).expr 0 [] e [] (Nat.zero_le _) nofun nofun (.stop nofun)
    rwa [List.append_nil] at hexpr
  rw [exprParse, hlex]
  simp only [hread (4 * e.tokens.length + 4) (by omega)]

/-- A sum under a product keeps its parentheses, a product under a sum has none. -/
theorem exprParse_text_sample :
    exprParse "* p -> q [ - 1 ] * ( a + 2 * b )".toList =
      some (.binary .mul
        (.deref (.index (.arrow (.ident ['p']) ['q']) (.unary .neg (.num 1 false))))
        (.binary .add (.ident ['a']) (.binary .mul (.num 2 false) (.ident ['b'])))) := by
  let e : ExprNode :=
    .binary .mul (.deref (.index (.arrow (.ident ['p']) ['q']) (.unary .neg (.num 1 false))))
      (.binary .add (.ident ['a']) (.binary .mul (.num 2 false) (.ident ['b'])))
  have htext : e.text (fun n _ => Nat.toDigits 10 n.toNat) =
      "* p -> q [ - 1 ] * ( a + 2 * b )".toList := by
    decide +kernel
  rw [← htext]
  exact exprParse_text.1 (fun n _ => Nat.toDigits 10 n.toNat) e (by decide +kernel)

end Cdbg
