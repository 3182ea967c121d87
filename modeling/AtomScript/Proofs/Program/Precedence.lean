import AtomScript.Proofs.Program.Indifference

/-!
# Rows of operands

Operands with binary operators between them, and no parentheses, are grouped by a rule that does not
mention the readers: the row is split at the last operator of the weakest class that occurs, and the
parts to its left and to its right are grouped the same way (`Expr.grouped`).

The readers go about it from the other end.  There is one loop for each class, which reads what
stronger classes make of the operands and adds it on the right of what it has so far.  When such a
loop has passed some operands of a row, it holds their grouping (`Parser.gives_operations`): an
operator of its class is the last of the weakest class in what it has passed, because what was read
behind it has stronger operators only.

* `Expr.grouped_split` — the rule, for any place that satisfies its conditions;
* `Parser.Groups.operators` — from the operands of a level to its operations;
* `Row.parse_text` — a row is read as its grouping.
-/

namespace AtomScript

open AtomScript.Parser

/-! ### The rule -/

/-- The classes of operators, weakest first. -/
def Parser.Level.all : List Level := [.or, .and, .comparison, .sum, .product]

/-- The place of a class among them. -/
def Parser.Level.rank : Level → Nat
  | .or => 0
  | .and => 1
  | .comparison => 2
  | .sum => 3
  | .product => 4

/-- There are five levels. -/
theorem Parser.Level.rank_lt (level : Level) : level.rank < 5 := by
  cases level <;> decide

/-- Levels of one rank are one level. -/
theorem Parser.Level.rank_injective {level level' : Level} (h : level.rank = level'.rank) :
    level = level' := by
  cases level <;> cases level' <;> first | rfl | cases h

namespace Expr

/-- The last operator of the class, with the operand behind it, and what stands before and behind
these. -/
def splitLast (level : Level) : List (BinaryOp × Expr) →
    Option (List (BinaryOp × Expr) × (BinaryOp × Expr) × List (BinaryOp × Expr))
  | [] => none
  | q :: qs =>
    match splitLast level qs with
    | some (before, last, after) => some (q :: before, last, after)
    | none => if opLevel q.1 = level then some ([], q, qs) else none

/-- A split takes a row apart at one of its operators. -/
theorem eq_of_splitLast {level : Level} {qs before after : List (BinaryOp × Expr)}
    {last : BinaryOp × Expr} (h : splitLast level qs = some (before, last, after)) :
    qs = before ++ last :: after := by
  fun_induction splitLast level qs generalizing before with
  | case1 => cases h
  -- a later operator of the level was found: the split is that one, with `q` in front
  | case2 q qs before' last' after' heq ih =>
    cases h
    rw [ih heq, List.cons_append]
  -- no later one: the split is at `q` itself
  | case3 q qs hnone hlevel =>
    cases h
    rfl
  | case4 => cases h

/-- The operands of a row, grouped: an operand alone is itself, and a longer row is split at the
last operator of the weakest class in it. -/
def grouped (first : Expr) (rest : List (BinaryOp × Expr)) : Expr :=
  match h : Level.all.findSome? fun level => splitLast level rest with
  | none => first
  | some (before, (op, operand), after) =>
    have hrest : rest.length = before.length + (after.length + 1) := by
      obtain ⟨level, -, hsplit⟩ := List.exists_of_findSome?_eq_some h
      rw [eq_of_splitLast hsplit, List.length_append, List.length_cons]
    .binary op (grouped first before) (grouped operand after)
termination_by rest.length

/-- An operand alone is its own tree. -/
@[simp]
theorem grouped_nil (first : Expr) : grouped first [] = first := by
  rw [grouped]
  rfl

/-- There is nothing to split at exactly when no operator is of the level. -/
theorem splitLast_eq_none_iff {level : Level} {qs : List (BinaryOp × Expr)} :
    splitLast level qs = none ↔ ∀ q ∈ qs, opLevel q.1 ≠ level := by
  fun_induction splitLast level qs with
  | case1 => exact ⟨nofun, fun _ => rfl⟩
  | case2 q qs before last after heq ih =>
    rw [heq] at ih
    refine ⟨nofun, fun h => ?_⟩
    cases ih.2 (List.forall_mem_cons.1 h).2
  | case3 q qs hnone hlevel =>
    exact ⟨nofun, fun h => absurd hlevel (List.forall_mem_cons.1 h).1⟩
  | case4 q qs hnone hlevel ih =>
    exact ⟨fun _ => List.forall_mem_cons.2 ⟨hlevel, ih.1 hnone⟩, fun _ => rfl⟩

/-- The split is at the last operator of the level. -/
theorem splitLast_append {level : Level} {last : BinaryOp × Expr}
    (before after : List (BinaryOp × Expr)) (hlast : opLevel last.1 = level)
    (hafter : ∀ q ∈ after, opLevel q.1 ≠ level) :
    splitLast level (before ++ last :: after) = some (before, last, after) := by
  induction before with
  | nil =>
    rw [List.nil_append, splitLast, splitLast_eq_none_iff.2 hafter]
    exact if_pos hlast
  | cons q before ih =>
    rw [List.cons_append, splitLast, ih]

/-- **The rule of grouping.**  No operator before the place is weaker than the one at it, and all
behind are stronger. -/
theorem grouped_split (first operand : Expr) {op : BinaryOp}
    {before after : List (BinaryOp × Expr)}
    (hbefore : ∀ q ∈ before, (opLevel op).rank ≤ (opLevel q.1).rank)
    (hafter : ∀ q ∈ after, (opLevel op).rank < (opLevel q.1).rank) :
    grouped first (before ++ (op, operand) :: after) =
      .binary op (grouped first before) (grouped operand after) := by
  have hne : ∀ {level level' : Level}, level.rank < level'.rank → level' ≠ level := by
    rintro level _ hlt rfl
    exact absurd hlt (Nat.lt_irrefl _)
  -- the weaker classes do not occur
  have hweaker : ∀ level : Level, level.rank < (opLevel op).rank →
      splitLast level (before ++ (op, operand) :: after) = none := by
    intro level hlevel
    refine splitLast_eq_none_iff.2 fun q hq => ?_
    rcases List.mem_append.1 hq with hq | hq
    · exact hne (Nat.lt_of_lt_of_le hlevel (hbefore q hq))
    · rcases List.mem_cons.1 hq with rfl | hq
      · exact hne hlevel
      · exact hne (Nat.lt_trans hlevel (hafter q hq))
  have hhere : splitLast (opLevel op) (before ++ (op, operand) :: after) =
      some (before, (op, operand), after) :=
    splitLast_append before after rfl fun q hq => hne (hafter q hq)
  have hclasses : ∃ weaker stronger, Level.all = weaker ++ opLevel op :: stronger ∧
      ∀ level ∈ weaker, level.rank < (opLevel op).rank := by
    cases opLevel op with
    | or => exact ⟨[], _, rfl, by decide⟩
    | and => exact ⟨[.or], _, rfl, by decide⟩
    | comparison => exact ⟨[.or, .and], _, rfl, by decide⟩
    | sum => exact ⟨[.or, .and, .comparison], _, rfl, by decide⟩
    | product => exact ⟨[.or, .and, .comparison, .sum], _, rfl, by decide⟩
  obtain ⟨weaker, stronger, hall, hlower⟩ := hclasses
  have hfound : (Level.all.findSome? fun level =>
      splitLast level (before ++ (op, operand) :: after)) = some (before, (op, operand), after) :=
    List.findSome?_eq_some_iff.2
      ⟨weaker, opLevel op, stronger, hall, hhere, fun level h => hweaker level (hlower level h)⟩
  rw [grouped]
  split
  · next h =>
    rw [hfound] at h
    cases h
  · next h =>
    rw [hfound] at h
    cases h
    rfl

end Expr

/-! ### Rows -/

mutual

/-- What stands between operators: a name, an atom, or a row in parentheses. -/
inductive Operand where
  | name (text : String) (h : Lexer.Lexeme .identifier text.toList)
  | atom (name : String) (h : Lexer.Lexeme .atom (':' :: name.toList))
  | group (row : Row)

/-- Operands with binary operators between them. -/
inductive Row where
  | single (operand : Operand)
  | more (operand : Operand) (op : BinaryOp) (rest : Row)

end

mutual

/-- How the operand is written. -/
def Operand.text : Operand → String
  | .name text _ => text
  | .atom name _ => ":" ++ name
  | .group row => "(" ++ row.text ++ ")"

/-- How the row is written, with single blanks. -/
def Row.text : Row → String
  | .single operand => operand.text
  | .more operand op rest => operand.text ++ " " ++ op.symbol ++ " " ++ rest.text

end

mutual

/-- The expression that the operand is. -/
def Operand.tree : Operand → Expr
  | .name text _ => .identifier text
  | .atom name _ => .atom name
  | .group row => .grouped row.first row.others

/-- The first operand of the row. -/
def Row.first : Row → Expr
  | .single operand => operand.tree
  | .more operand _ _ => operand.tree

/-- The operators of the row, each with the operand behind it. -/
def Row.others : Row → List (BinaryOp × Expr)
  | .single _ => []
  | .more _ op rest => (op, rest.first) :: rest.others

end

/-- The expression that the row is. -/
def Row.tree (row : Row) : Expr := .grouped row.first row.others

mutual

/-- The tokens of which the operand is written. -/
def Operand.tokens : Operand → List Token
  | .name text _ => [.of .identifier text]
  | .atom name _ => [.of .atom (":" ++ name)]
  | .group row => .of .openParen "(" :: (row.tokens ++ [.of .closeParen ")"])

/-- The tokens of which the row is written.  No operand ends in a numeral. -/
def Row.tokens : Row → List Token
  | .single operand => operand.tokens
  | .more operand op rest =>
    operand.tokens ++ .of (op.tokenKind false) op.symbol :: rest.tokens

end

/-- The first operand, as it is written. -/
def Row.head : Row → Operand
  | .single operand => operand
  | .more operand _ _ => operand

/-- The operators, each with the operand behind it, as they are written. -/
def Row.tail : Row → List (BinaryOp × Operand)
  | .single _ => []
  | .more _ op rest => (op, rest.head) :: rest.tail

/-- The operands behind operators, as expressions. -/
def Row.trees (qs : List (BinaryOp × Operand)) : List (BinaryOp × Expr) :=
  qs.map fun q => (q.1, q.2.tree)

/-- The tokens of operators and the operands behind them. -/
def Row.joined (qs : List (BinaryOp × Operand)) : List Token :=
  qs.flatMap fun q => .of (q.1.tokenKind false) q.1.symbol :: q.2.tokens

namespace Row

/-- The first operand, as a tree. -/
theorem first_eq (row : Row) : row.first = row.head.tree := by
  cases row <;> simp only [first, head]

/-- The later operands with their operators, as trees. -/
theorem others_eq (row : Row) : row.others = trees row.tail := by
  induction row using Row.rec (motive_1 := fun _ => True) with
  | name | atom | group => trivial
  | single => rw [others, tail, trees, List.map_nil]
  | more operand op rest _ ih =>
    rw [others, tail, ih, first_eq]
    rfl

/-- The tokens of a row are those of its first operand and of the rest. -/
theorem tokens_eq (row : Row) : row.tokens = row.head.tokens ++ joined row.tail := by
  induction row using Row.rec (motive_1 := fun _ => True) with
  | name | atom | group => trivial
  | single operand => simp [tokens, head, tail, joined]
  | more operand op rest _ ih =>
    rw [tokens, ih, head, tail]
    rfl

end Row

/-! ### Reading with enough budget -/

namespace Parser

section Gives

variable {α β γ : Type} {x : Nat → Parser α} {y : Nat → Parser β} {z : Nat → Parser γ}
  {ts us vs rest rest' rest'' : List Token} {a : α} {b : β} {c : γ}

/-- With enough budget the reader takes the tokens before `rest`, and gives the result. -/
def Gives (x : Nat → Parser α) (ts : List Token) (a : α) (rest : List Token) : Prop :=
  ∃ k, ∀ n, k ≤ n → x n ts = .done a rest

/-- A parser that gives an answer with any budget above nothing gives it. -/
theorem gives_of_succ (h : ∀ n, x (n + 1) ts = .done a rest) : Gives x ts a rest := by
  refine ⟨1, fun n hn => ?_⟩
  obtain ⟨m, rfl⟩ : ∃ m, n = m + 1 := ⟨n - 1, by omega⟩
  exact h m

/-- A parser that calls another with one unit less gives what follows from its answer. -/
theorem Gives.call (h : Gives x ts a rest)
    (hcall : ∀ n, x n ts = .done a rest → y (n + 1) us = .done b rest') : Gives y us b rest' := by
  obtain ⟨k, hk⟩ := h
  refine ⟨k + 1, fun n hn => ?_⟩
  obtain ⟨m, rfl⟩ : ∃ m, n = m + 1 := ⟨n - 1, by omega⟩
  exact hcall m (hk m (by omega))

/-- A reader that calls two others. -/
theorem Gives.both (hx : Gives x ts a rest) (hy : Gives y us b rest')
    (hcall : ∀ n, x n ts = .done a rest → y n us = .done b rest' → z (n + 1) vs = .done c rest'') :
    Gives z vs c rest'' := by
  obtain ⟨k, hk⟩ := hx
  obtain ⟨l, hl⟩ := hy
  refine ⟨max k l + 1, fun n hn => ?_⟩
  obtain ⟨m, rfl⟩ : ∃ m, n = m + 1 := ⟨n - 1, by omega⟩
  exact hcall m (hk m (by omega)) (hl m (by omega))

end Gives

variable {n : Nat} {level : Level} {op : BinaryOp} {left right e : Expr}
  {ts us rest : List Token}

/-- A level stops where no operator of its own is next. -/
theorem operations_of_end (h : level.holds (front rest) = false) :
    operations (n + 1) level e rest = .done e rest := by
  rw [operations]
  exact congrFun (if_neg (Bool.eq_false_iff.1 h)) rest

/-- The operator and its right operand are added to what the loop has so far. -/
theorem operations_of_operand {b : Bool} (hright : operand n (opLevel op) us = .done right ts)
    (h : operations n (opLevel op) (.binary op left right) ts = .done e rest) :
    operations (n + 1) (opLevel op) left (.of (op.tokenKind b) op.symbol :: us) = .done e rest := by
  have hholds : (opLevel op).holds (.of (op.tokenKind b) op.symbol) = true := by
    rw [holds_tokenKind, decide_eq_true rfl]
  -- the text of an operator's token is its symbol, which names it
  have hoperator : operator (.of (op.tokenKind b) op.symbol) us = .done op us := by
    unfold operator
    have htext : BinaryOp.ofSymbol? (Token.of (op.tokenKind b) op.symbol).text = some op :=
      op.ofSymbol?_symbol
    rw [htext]
    rfl
  rw [operations]
  change (if (opLevel op).holds (.of (op.tokenKind b) op.symbol) = true then _ else _ :
    Parser Expr) _ = _
  rw [if_pos hholds]
  change (operator (.of (op.tokenKind b) op.symbol) >>= _) us = _
  rw [bind_of_done hoperator, bind_of_done hright]
  exact h

/-! ### Rows are read as they are grouped -/

/-- Nothing goes on at the front: there is no operator of a class from the one of rank `r` on, and
no suffix. -/
structure Stopped (r : Nat) (rest : List Token) : Prop where
  operator : ∀ level : Level, r ≤ level.rank → level.holds (front rest) = false
  paren : (front rest).kind ≠ .openParen
  dot : (front rest).kind ≠ .dot
  bracket : (front rest).kind ≠ .openBracket

/-- What stops the looser levels stops the tighter ones. -/
theorem Stopped.mono {r r' : Nat} (h : Stopped r rest) (hr : r ≤ r') : Stopped r' rest :=
  { h with operator := fun level hlevel => h.operator level (hr.trans hlevel) }

end Parser

/-- An operand starts at the front. -/
def Parser.AtOperand (ts : List Token) : Prop :=
  (front ts).kind = .identifier ∨ (front ts).kind = .atom ∨ (front ts).kind = .openParen

/-- Where an operand starts, no other kind of token is next. -/
theorem Parser.AtOperand.front_ne {ts : List Token} (h : AtOperand ts) {kind : TokenKind}
    (hkind : kind ≠ .identifier ∧ kind ≠ .atom ∧ kind ≠ .openParen) : (front ts).kind ≠ kind := by
  rintro rfl
  rcases h with h | h | h
  · exact hkind.1 h
  · exact hkind.2.1 h
  · exact hkind.2.2 h

/-- The operand is read as what it is, up to where nothing goes on with it. -/
def Operand.Reads (operand : Operand) : Prop :=
  ∀ rest, Stopped 5 rest → Gives unary (operand.tokens ++ rest) operand.tree rest

/-- An operand starts as operands do. -/
theorem Operand.atOperand (operand : Operand) (rest : List Token) :
    AtOperand (operand.tokens ++ rest) := by
  cases operand with
  | name => exact .inl rfl
  | atom => exact .inr (.inl rfl)
  | group => exact .inr (.inr rfl)

namespace Parser

open Row

variable {level : Level} {rest : List Token} {r : Nat} {x y : Nat → Parser Expr}

/-- Where the loop of a class takes over, the operands of stronger classes stop. -/
theorem stopped_joined {more : List (BinaryOp × Operand)}
    (hmore : ∀ q, more.head? = some q → opLevel q.1 = level) (h : Stopped level.rank rest) :
    Stopped (level.rank + 1) (joined more ++ rest) := by
  cases more with
  | nil => exact h.mono (Nat.le_succ _)
  | cons q more =>
    obtain ⟨op, operand⟩ := q
    -- the row stops at an operator of this level, so looser levels stop, and no suffix is an
    -- operator
    have hop : opLevel op = level := hmore _ rfl
    have hfront : front (joined ((op, operand) :: more) ++ rest) =
        .of (op.tokenKind false) op.symbol := rfl
    refine ⟨fun level' hlevel' => ?_, ?_, ?_, ?_⟩
    · have hne : level' ≠ opLevel op := by
        rintro rfl
        rw [hop] at hlevel'
        omega
      rw [hfront, holds_tokenKind, decide_eq_false hne]
    · rw [hfront]
      cases op <;> nofun
    · rw [hfront]
      cases op <;> nofun
    · rw [hfront]
      cases op <;> nofun

/-- The operands of stronger classes come first, and then an operator of the class. -/
theorem exists_stronger {qs : List (BinaryOp × Operand)}
    (hqs : ∀ q ∈ qs, level.rank ≤ (opLevel q.1).rank) :
    ∃ stronger more, qs = stronger ++ more ∧
      (∀ q ∈ stronger, level.rank + 1 ≤ (opLevel q.1).rank) ∧
      ∀ q, more.head? = some q → opLevel q.1 = level := by
  induction qs with
  | nil => exact ⟨[], [], rfl, nofun, nofun⟩
  | cons q qs ih =>
    obtain ⟨hq, hqs⟩ := List.forall_mem_cons.1 hqs
    -- the first operator of the level itself ends the stronger ones
    by_cases hlevel : opLevel q.1 = level
    · refine ⟨[], q :: qs, rfl, nofun, ?_⟩
      rintro _ ⟨⟩
      exact hlevel
    · obtain ⟨stronger, more, rfl, hstronger, hmore⟩ := ih hqs
      have hne : level.rank ≠ (opLevel q.1).rank := fun h => hlevel (Level.rank_injective h).symm
      exact ⟨q :: stronger, more, rfl, List.forall_mem_cons.2 ⟨by omega, hstronger⟩, hmore⟩

/-- Making trees of the operands leaves the operators. -/
theorem le_rank_of_mem_trees {qs : List (BinaryOp × Operand)}
    (h : ∀ q ∈ qs, r ≤ (opLevel q.1).rank) : ∀ q ∈ trees qs, r ≤ (opLevel q.1).rank :=
  List.forall_mem_map.2 h

/-- The reader makes of a row, with operators of the classes from rank `r` on, its grouping. -/
def Groups (r : Nat) (x : Nat → Parser Expr) : Prop :=
  ∀ (first : Operand) (qs : List (BinaryOp × Operand)) (rest : List Token), first.Reads →
    (∀ q ∈ qs, q.2.Reads) → (∀ q ∈ qs, r ≤ (opLevel q.1).rank) → Stopped r rest →
      Gives x (first.tokens ++ (joined qs ++ rest)) (.grouped first.tree (trees qs)) rest

/-- **The loop of a class.**  What it has is the grouping of what it has passed. -/
theorem gives_operations (h : Groups (level.rank + 1) (operand · level)) (first : Expr)
    (before : List (BinaryOp × Expr)) (more : List (BinaryOp × Operand))
    (hreads : ∀ q ∈ more, q.2.Reads) (hbefore : ∀ q ∈ before, level.rank ≤ (opLevel q.1).rank)
    (hranks : ∀ q ∈ more, level.rank ≤ (opLevel q.1).rank)
    (hmore : ∀ q, more.head? = some q → opLevel q.1 = level) (hrest : Stopped level.rank rest) :
    Gives (operations · level (.grouped first before)) (joined more ++ rest)
      (.grouped first (before ++ trees more)) rest := by
  -- by induction on what the loop has before it, which every round shortens
  induction hlength : more.length using Nat.strong_induction_on generalizing more before with
  | _ length ih =>
    subst hlength
    cases more with
    | nil =>
      have hend : level.holds (front rest) = false := hrest.operator level (Nat.le_refl _)
      rw [trees, List.map_nil, List.append_nil]
      exact gives_of_succ fun _ => operations_of_end hend
    | cons q more =>
      obtain ⟨op, next⟩ := q
      obtain rfl : opLevel op = level := hmore _ rfl
      obtain ⟨hnext, hreads⟩ := List.forall_mem_cons.1 hreads
      obtain ⟨-, hranks⟩ := List.forall_mem_cons.1 hranks
      -- the right operand is what the stronger classes make of the next operands
      obtain ⟨stronger, more, rfl, hstronger, hmore⟩ := exists_stronger hranks
      rw [List.forall_mem_append] at hreads hranks
      have hright := h next stronger (joined more ++ rest) hnext hreads.1 hstronger
        (stopped_joined hmore hrest)
      -- with it, the loop has passed all of them, and holds their grouping
      have hpassed : Expr.grouped first (before ++ (op, next.tree) :: trees stronger) =
          .binary op (.grouped first before) (.grouped next.tree (trees stronger)) :=
        Expr.grouped_split first next.tree hbefore (le_rank_of_mem_trees hstronger)
      have hbefore' : ∀ q ∈ before ++ (op, next.tree) :: trees stronger,
          (opLevel op).rank ≤ (opLevel q.1).rank := by
        refine List.forall_mem_append.2 ⟨hbefore, List.forall_mem_cons.2 ⟨Nat.le_refl _, ?_⟩⟩
        exact le_rank_of_mem_trees fun q hq => Nat.le_of_succ_le (hstronger q hq)
      have hshorter : more.length < ((op, next) :: (stronger ++ more)).length := by
        rw [List.length_cons, List.length_append]
        omega
      have hloop := ih _ hshorter _ more hreads.2 hbefore' hranks.2 hmore rfl
      have htokens : joined ((op, next) :: (stronger ++ more)) ++ rest =
          .of (op.tokenKind false) op.symbol ::
            (next.tokens ++ (joined stronger ++ (joined more ++ rest))) := by
        simp [joined]
      have htrees : before ++ trees ((op, next) :: (stronger ++ more)) =
          before ++ (op, next.tree) :: trees stronger ++ trees more := by
        simp [trees]
      rw [htokens, htrees]
      rw [hpassed] at hloop
      exact hright.both hloop fun n hoperand hmore => operations_of_operand hoperand hmore

/-- **From the operands of a level to its operations.** -/
theorem Groups.operators (level : Level) (h : Groups (level.rank + 1) (operand · level)) :
    Groups level.rank (operators · level) := by
  intro first qs rest hfirst hreads hranks hrest
  obtain ⟨stronger, more, rfl, hstronger, hmore⟩ := exists_stronger hranks
  rw [List.forall_mem_append] at hreads hranks
  -- what binds more strongly goes into the first operand, and the loop takes the rest
  have hleft := h first stronger (joined more ++ rest) hfirst hreads.1 hstronger
    (stopped_joined hmore hrest)
  have hbefore : ∀ q ∈ trees stronger, level.rank ≤ (opLevel q.1).rank :=
    le_rank_of_mem_trees fun q hq => Nat.le_of_succ_le (hstronger q hq)
  have hloop := gives_operations h first.tree (trees stronger) more hreads.2 hbefore hranks.2 hmore
    hrest
  have htokens : joined (stronger ++ more) ++ rest = joined stronger ++ (joined more ++ rest) := by
    simp [joined]
  have htrees : trees (stronger ++ more) = trees stronger ++ trees more := List.map_append
  rw [htokens, htrees]
  refine hleft.both hloop fun n hoperand hoperations => ?_
  rw [Parser.operators, bind_of_done hoperand]
  exact hoperations

/-- A reader that hands over to another, on tokens that start like an operand. -/
theorem Groups.call (h : Groups r x)
    (hcall : ∀ n ts e rest, (front ts).kind ≠ .keyword .notWord → x n ts = .done e rest →
      y (n + 1) ts = .done e rest) : Groups r y := by
  intro first qs rest hfirst hreads hranks hrest
  have hnot : (front (first.tokens ++ (joined qs ++ rest))).kind ≠ .keyword .notWord :=
    (first.atOperand _).front_ne ⟨nofun, nofun, nofun⟩
  exact (h first qs rest hfirst hreads hranks hrest).call fun n => hcall n _ _ _ hnot

/-- The operand of a level groups as the next tighter parser does. -/
theorem Groups.operand (h : Groups r x) (hx : ∀ n, Parser.operand (n + 1) level = x n) :
    Groups r (Parser.operand · level) := by
  refine h.call fun n ts e rest _ hdone => ?_
  rw [hx]
  exact hdone

/-- No class is stronger than products. -/
theorem groups_unary : Groups 5 unary := by
  intro first qs rest hfirst _ hranks hrest
  cases qs with
  | nil =>
    rw [trees, List.map_nil, Expr.grouped_nil]
    exact hfirst rest hrest
  | cons q qs =>
    have hq : 5 ≤ (opLevel q.1).rank := hranks q List.mem_cons_self
    exact absurd (opLevel q.1).rank_lt (Nat.not_lt_of_le hq)

/-- **All classes**, from the strongest to the weakest. -/
theorem groups_operators : Groups 0 (operators · .or) := by
  have hproduct : Groups 4 (operators · .product) :=
    .operators .product (groups_unary.operand fun n => by rw [operand])
  have hsum : Groups 3 (operators · .sum) :=
    .operators .sum (hproduct.operand fun n => by rw [operand])
  have hcomparison : Groups 2 (operators · .comparison) :=
    .operators .comparison (hsum.operand fun n => by rw [operand])
  -- between comparisons and conjunctions there is the negation, which no operand starts
  have hnegation : Groups 2 negation :=
    hcomparison.call fun n ts e rest hnot h => negation_of_operators h hnot
  have hand : Groups 1 (operators · .and) :=
    .operators .and (hnegation.operand fun n => by rw [operand])
  exact .operators .or (hand.operand fun n => by rw [operand])

/-- At the end of a text, or before a closing parenthesis, nothing goes on. -/
theorem stopped_of_close (h : (front rest).kind = .closeParen ∨ (front rest).kind = .eof) :
    Stopped 0 rest := by
  have hne : ∀ kind : TokenKind, kind ≠ .closeParen → kind ≠ .eof → (front rest).kind ≠ kind := by
    rintro kind hclose heof rfl
    rcases h with h | h
    · exact hclose h
    · exact heof h
  refine ⟨fun level _ => ?_, hne _ nofun nofun, hne _ nofun nofun, hne _ nofun nofun⟩
  -- neither a closing parenthesis nor the end is what a level looks for
  unfold Level.holds
  rcases h with h | h
  · rw [h]
    cases level <;> rfl
  · rw [h]
    cases level <;> rfl

end Parser

/-! ### Operands are read as what they are -/

/-- What is read as a closed expression is read as an operand, if nothing goes on with it. -/
theorem Operand.reads_of_primary {operand : Operand}
    (h : ∀ rest, Gives primary (operand.tokens ++ rest) operand.tree rest) : operand.Reads := by
  intro rest hrest
  have hsuffixes : Gives (suffixes · operand.tree) rest operand.tree rest :=
    gives_of_succ fun _ => suffixes_of_end hrest.paren hrest.dot hrest.bracket
  have hminus : (front (operand.tokens ++ rest)).kind ≠ .minus :=
    (operand.atOperand rest).front_ne ⟨nofun, nofun, nofun⟩
  exact (h rest).both hsuffixes fun n => unary_of_primary hminus

/-- A row whose operands are read is an expression. -/
theorem Row.gives_expression {row : Row} {rest : List Token} (hhead : row.head.Reads)
    (htail : ∀ q ∈ row.tail, q.2.Reads)
    (hrest : (front rest).kind = .closeParen ∨ (front rest).kind = .eof) :
    Gives expression (row.tokens ++ rest) row.tree rest := by
  have hassign : (front rest).kind ≠ .assign := by
    rcases hrest with h | h
    · rw [h]
      nofun
    · rw [h]
      nofun
  have hlet : (front (row.head.tokens ++ (joined row.tail ++ rest))).kind ≠ .keyword .letWord :=
    (row.head.atOperand _).front_ne ⟨nofun, nofun, nofun⟩
  -- the loosest level takes the whole row, for no operator binds more loosely
  have hgroups := groups_operators row.head row.tail rest hhead htail (fun _ _ => Nat.zero_le _)
    (stopped_of_close hrest)
  rw [tokens_eq, List.append_assoc, tree, first_eq, others_eq]
  have hmatching : Gives (matching · none) _ _ rest :=
    hgroups.call fun n h => matching_of_operators h hlet hassign
  exact hmatching.call fun n h => by rwa [expression_succ]

mutual

/-- **Every operand** is read as what it is. -/
theorem Operand.reads : ∀ operand : Operand, operand.Reads
  | .name _ _ => Operand.reads_of_primary fun _ => gives_of_succ fun _ => primary_name rfl
  | .atom _ h => Operand.reads_of_primary fun _ => gives_of_succ fun _ => primary_atom h
  | .group row => Operand.reads_of_primary fun rest => by
      obtain ⟨hhead, htail⟩ := row.reads
      have hclose : (front (.of .closeParen ")" :: rest)).kind = .closeParen := rfl
      have hrow := Row.gives_expression hhead htail (.inl hclose)
      have htokens : (Operand.group row).tokens ++ rest =
          .of .openParen "(" :: (row.tokens ++ .of .closeParen ")" :: rest) := by
        simp [Operand.tokens]
      rw [htokens]
      exact hrow.call fun n h => primary_group h

/-- The operands of a row are read as what they are. -/
theorem Row.reads : ∀ row : Row, row.head.Reads ∧ ∀ q ∈ row.tail, q.2.Reads
  | .single operand => ⟨operand.reads, nofun⟩
  | .more operand _ rest => ⟨operand.reads, List.forall_mem_cons.2 rest.reads⟩

end

/-! ### The text of a row -/

/-- The text is cut into the tokens, the last of which is no numeral. -/
def Lexer.Spells (text : List Char) (us : List Token) : Prop :=
  ∀ rest ts, Boundary rest → Scans false rest ts → ∀ b, Scans b (text ++ rest) (us ++ ts)

open Lexer

mutual

/-- The text of an operand is scanned to its tokens. -/
theorem Operand.spells : ∀ operand : Operand, Spells operand.text.toList operand.tokens
  | .name _ h => fun _ _ hb hrest _ => Scans.name h hb hrest
  | .atom name h => fun rest ts hb hrest b => by
      have htext : Lexeme .atom (":" ++ name).toList := by
        rw [String.toList_append]
        exact h
      exact Scans.atom htext hb hrest
  | .group row => fun rest ts _ hrest b => by
      -- from the inside outwards: the closing parenthesis, the row, the opening one
      have hclose := Scans.punctuation (b := false) ")" rfl rfl hrest
      have hboundary : Boundary (")".toList ++ rest) :=
        boundary_punctuation (c := ')') rfl rfl (by decide) rest
      have hinner := row.spells _ _ hboundary hclose false
      have hopen := Scans.punctuation (b := b) "(" rfl rfl hinner
      rw [Operand.text, Operand.tokens]
      simpa only [String.toList_append, List.append_assoc, List.cons_append, List.nil_append]
        using hopen

/-- The text of a row is scanned to its tokens. -/
theorem Row.spells : ∀ row : Row, Spells row.text.toList row.tokens
  | .single operand => operand.spells
  | .more operand op more => fun rest ts hb hrest b => by
      -- behind an operand a minus has the kind of a sign
      have hmore := more.spells rest ts hb hrest false
      have hoperator := Scans.operator (b := false) op hmore
      have hall := operand.spells _ _ (boundary_blank _) hoperator.blank b
      have hblank : " ".toList = [' '] := rfl
      rw [Row.text, Row.tokens]
      simpa only [String.toList_append, hblank, List.append_assoc, List.cons_append,
        List.nil_append] using hall

end

mutual

/-- The end of the text is not among the tokens of an operand. -/
theorem Operand.kind_ne_eof : ∀ operand : Operand, ∀ t ∈ operand.tokens, t.kind ≠ .eof
  | .name _ _ => List.forall_mem_singleton.2 nofun
  | .atom _ _ => List.forall_mem_singleton.2 nofun
  | .group row => List.forall_mem_cons.2 ⟨nofun, List.forall_mem_append.2
      ⟨row.kind_ne_eof, List.forall_mem_singleton.2 nofun⟩⟩

/-- The end of the text is not among the tokens of a row. -/
theorem Row.kind_ne_eof : ∀ row : Row, ∀ t ∈ row.tokens, t.kind ≠ .eof
  | .single operand => operand.kind_ne_eof
  | .more operand op rest => by
      have hop : op.tokenKind false ≠ .eof := by cases op <;> nofun
      exact List.forall_mem_append.2
        ⟨operand.kind_ne_eof, List.forall_mem_cons.2 ⟨hop, rest.kind_ne_eof⟩⟩

end

/-! ### From an expression to a program -/

namespace Parser

variable {source : String} {ts us rest : List Token} {e : Expr} {n k : Nat}

/-- Nothing blurs to nothing only. -/
theorem eq_nil_of_blurred {b : Bool} (h : Blurred b [] us) : us = [] := by
  cases h
  rfl

/-- Only nothing blurs to nothing. -/
theorem nil_eq_of_blurred {b : Bool} (h : Blurred b us []) : us = [] := by
  cases h
  rfl

/-- An expression that is read with any budget is read with the one of the text. -/
theorem expression_of_budget {last : Token} (hts : tokenize source = .ok ts)
    (hn : budget source.length ≤ n) (h : expression k ts = .done e [last]) :
    expression n ts = .done e [last] := by
  have hweight := weight_le_of_tokenize hts
  unfold budget at hn
  have hfinished := (sufficient n).expression ts trivial (by omega)
  have hmore := (indifferent (Nat.le_max_right n k)).expression ts ts (.refl false ts) trivial
  have hsame := (indifferent (Nat.le_max_left n k)).expression ts ts (.refl false ts) trivial
  -- both budgets agree with a larger one
  rw [h] at hmore
  obtain ⟨_, hmax, hlast⟩ := hmore
  cases hlast with
  | same hnil =>
  obtain rfl := eq_nil_of_blurred hnil
  cases hx : expression n ts with
  | done e' rest =>
    rw [hx] at hsame
    obtain ⟨_, hmax', hrest⟩ := hsame
    cases hmax.symm.trans hmax'
    cases hrest with
    | same hnil =>
      rw [nil_eq_of_blurred hnil]
  | refused error =>
    rw [hx] at hsame
    cases hmax.symm.trans hsame
  | exhausted =>
    rw [hx] at hfinished
    exact hfinished.elim
  | overflowed =>
    rw [hx] at hfinished
    exact hfinished.elim

/-- Where an operand starts, a statement is an expression. -/
theorem statement_of_expression (hts : AtOperand ts) (h : expression n ts = .done e rest) :
    statement (n + 1) ts = .done (.expression e) rest := by
  have hexpression : (expression n >>= fun e => pure (.expression e) : Parser Stmt) ts =
      .done (.expression e) rest := bind_of_done h
  rw [statement, peekKind_bind]
  rcases hts with hts | hts | hts
  · rw [hts]
    exact hexpression
  · rw [hts]
    exact hexpression
  · rw [hts]
    exact hexpression

/-- An expression up to the end is the only statement of its tokens. -/
theorem statements_of_expression {last : Token} (hlast : last.kind = .eof) (hts : AtOperand ts)
    (h : expression n ts = .done e [last]) :
    statements (n + 2) ts = .done [.expression e] [last] := by
  have hbehind : behindSeparators ts = ts :=
    behindSeparators_of_ne (hts.front_ne ⟨nofun, nofun, nofun⟩)
  have hfront : (front (behindSeparators ts)).kind ≠ .eof := by
    rw [hbehind]
    exact hts.front_ne ⟨nofun, nofun, nofun⟩
  rw [statements_of_front hfront, hbehind, bind_of_done (statement_of_expression hts h),
    bind_of_done (statements_singleton hlast)]
  rfl

end Parser

namespace Row

/-- The tokens of the text of a row, and what the row is read as, up to their end. -/
theorem exists_tokens (row : Row) : ∃ ts last k, tokenize row.text = .ok ts ∧ last.kind = .eof ∧
    AtOperand ts ∧ Parser.expression k ts = .done row.tree [last] := by
  have hscans := row.spells [] [.endOfInput .nowhere] boundary_nil (scans_end _ _) false
  obtain ⟨us, hus, halike⟩ := hscans .start none ⟨nofun, nofun⟩
  rw [List.append_nil] at hus
  obtain ⟨last, hlast, hjoined⟩ := joined_of_forall₂ row.kind_ne_eof rfl halike
  have hstop : Stops [last] := by
    unfold Stops Parser.front
    rw [List.headD_cons, hlast]
    rfl
  obtain ⟨hhead, htail⟩ := row.reads
  have hend : (Parser.front [.endOfInput .nowhere]).kind = .eof := rfl
  obtain ⟨k, hk⟩ := gives_expression hhead htail (.inr hend)
  have hread := (simulates (Nat.le_refl k)).expression [last] _ us hstop hjoined trivial _ _
    (hk k (Nat.le_refl k))
  obtain ⟨rest, hdone, hrest⟩ := hread
  -- the readers of both come to the end, which is at another place in the text
  obtain rfl : [last] = rest := by
    cases hrest with
    | stop _ => rfl
    | cons _ hne _ => exact absurd rfl hne
  refine ⟨us, last, k, hus, hlast, ?_, hdone⟩
  have hfront := row.head.atOperand (joined row.tail ++ [.endOfInput .nowhere])
  rw [← List.append_assoc, ← tokens_eq] at hfront
  exact hfront.imp (hjoined.front_kind_eq_iff hstop rfl).2
    (Or.imp (hjoined.front_kind_eq_iff hstop rfl).2 (hjoined.front_kind_eq_iff hstop rfl).2)

/-- **A row is read as its grouping**: as an expression, up to the end of its text, and as a text
that is one expression. -/
theorem parse_text (row : Row) :
    (∃ ts last, tokenize row.text = .ok ts ∧ last.kind = .eof ∧
      ∀ n, budget row.text.length ≤ n → Parser.expression n ts = .done row.tree [last]) ∧
    Expr.parse row.text = .ok row.tree := by
  obtain ⟨ts, last, k, hts, hlast, hfront, hread⟩ := row.exists_tokens
  refine ⟨⟨ts, last, hts, hlast, fun n hn => expression_of_budget hts hn hread⟩, ?_⟩
  have hstatements := statements_of_expression hlast hfront hread
  have hprogram := Program.parse_of_answer hts (by rw [hstatements]; rfl)
  unfold Expr.parse
  rw [hprogram]

-- the last of the two minuses is where the row is split
example (a b c d : Operand) :
    (Row.more a .subtract (.more b .multiply (.more c .subtract (.single d)))).tree =
      .binary .subtract (.binary .subtract a.tree (.binary .multiply b.tree c.tree)) d.tree := by
  cbv

end Row

end AtomScript
