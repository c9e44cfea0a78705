import ArchonSearch.Lib.Wildcard

/-!
# The condition of a query, as text

The condition of a `WHERE` is a text. It is cut into words, symbols and literals (`lex`): a literal
begins at a single quote and ends at the next one that is not doubled, and everything in between
stands for itself, a backslash too. What the tokens say is read by precedence (`parse`), and is
true, false or unknown of a row (`Expr.eval`): null is neither equal to a value nor different from
it.

Any text can be quoted: with its quotes doubled it is read back as one literal, whatever it is
(`Opens.quote`). Conditions that are read as what they are can be joined by `AND`, and are read as
their conjunction (`readCondition_join`).
-/

namespace ArchonSearch.Lib.Sql

open List Option

/-! ### Tokens -/

inductive Keyword where
  | and
  | or
  | like
  | escape
  /-- `IS`. -/
  | is
  | null
  | listHas

inductive Comparison where
  /-- `=`. -/
  | eq
  /-- `<`. -/
  | lt
  /-- `<=`. -/
  | le
  /-- `>`. -/
  | gt
  /-- `>=`. -/
  | ge

inductive Token where
  | keyword : Keyword → Token
  | word : String → Token
  | text : String → Token
  | compare : Comparison → Token
  /-- `(`. -/
  | lparen
  /-- `)`. -/
  | rparen
  /-- `,`. -/
  | comma

def wordToken (w : List Char) : Token :=
  match String.ofList w with
  | "AND" => .keyword .and
  | "OR" => .keyword .or
  | "LIKE" => .keyword .like
  | "ESCAPE" => .keyword .escape
  | "IS" => .keyword .is
  | "NULL" => .keyword .null
  | "list_has" => .keyword .listHas
  | w => .word w

/-! ### Reading characters -/

inductive Mode where
  | between
  | word : List Char → Mode
  /-- `<`, or the begin of `<=`. -/
  | less
  /-- `>`, or the begin of `>=`. -/
  | greater
  | text : List Char → Mode
  | quote : List Char → Mode

structure State where
  out : List Token
  mode : Mode

def State.close : State → Option (List Token)
  | ⟨out, .between⟩ => some out
  | ⟨out, .word w⟩ => some (wordToken w :: out)
  | ⟨out, .less⟩ => some (.compare .lt :: out)
  | ⟨out, .greater⟩ => some (.compare .gt :: out)
  | ⟨_, .text _⟩ => none
  | ⟨out, .quote s⟩ => some (.text (String.ofList s) :: out)

def isWordChar (c : Char) : Bool := c.isAlphanum || c = '_'

def start (out : List Token) (c : Char) : Option State :=
  if c = ' ' then some ⟨out, .between⟩
  else if c = '\'' then some ⟨out, .text []⟩
  else if isWordChar c then some ⟨out, .word [c]⟩
  else match c with
    | '=' => some ⟨.compare .eq :: out, .between⟩
    | '<' => some ⟨out, .less⟩
    | '>' => some ⟨out, .greater⟩
    | '(' => some ⟨.lparen :: out, .between⟩
    | ')' => some ⟨.rparen :: out, .between⟩
    | ',' => some ⟨.comma :: out, .between⟩
    | _ => none

def step (s : State) (c : Char) : Option State :=
  match s.mode with
  | .word w => if isWordChar c then some ⟨s.out, .word (w ++ [c])⟩ else s.close.bind (start · c)
  | .less => if c = '=' then some ⟨.compare .le :: s.out, .between⟩ else s.close.bind (start · c)
  | .greater =>
    if c = '=' then some ⟨.compare .ge :: s.out, .between⟩ else s.close.bind (start · c)
  | .text w => some ⟨s.out, if c = '\'' then .quote w else .text (w ++ [c])⟩
  | .quote w =>
    if c = '\'' then some ⟨s.out, .text (w ++ ['\''])⟩ else s.close.bind (start · c)
  | .between => start s.out c

def run (s : State) : List Char → Option State
  | [] => some s
  | c :: cs => (step s c).bind fun s => run s cs

def lex (cs : List Char) : Option (List Token) :=
  ((run ⟨[], .between⟩ cs).bind State.close).map List.reverse

/-! ### Reading tokens -/

inductive Expr where
  /-- `column = 'value'`, and the other comparisons. -/
  | compare : Comparison → (column value : String) → Expr
  /-- `column LIKE 'pattern' ESCAPE 'c'`. -/
  | like : (column pattern : String) → (escape : Option Char) → Expr
  /-- `column IS NULL`. -/
  | isNull : (column : String) → Expr
  /-- `list_has(column, 'value')`. -/
  | listHas : (column value : String) → Expr
  | and : Expr → Expr → Expr
  | or : Expr → Expr → Expr

def readPredicate : List Token → Option (Expr × List Token)
  | .word column :: .compare op :: .text value :: rest => some (.compare op column value, rest)
  | .word column :: .keyword .like :: .text pattern :: .keyword .escape :: .text c :: rest =>
    match c.toList with
    | [c] => some (.like column pattern (some c), rest)
    | _ => none
  | .word column :: .keyword .like :: .text pattern :: rest =>
    some (.like column pattern none, rest)
  | .word column :: .keyword .is :: .keyword .null :: rest => some (.isNull column, rest)
  | .keyword .listHas :: .lparen :: .word column :: .comma :: .text value :: .rparen :: rest =>
    some (.listHas column value, rest)
  | _ => none

inductive Level where
  /-- Conditions joined by `OR`. -/
  | disjunction
  /-- Conditions joined by `AND`. -/
  | conjunction
  | primary

def parse : (fuel : ℕ) → Level → List Token → Option (Expr × List Token)
  | 0, _, _ => none
  | fuel + 1, .disjunction, ts =>
    (parse fuel .conjunction ts).bind fun
      | (e, .keyword .or :: rest) =>
        (parse fuel .disjunction rest).map fun (f, rest) => (.or e f, rest)
      | (e, rest) => some (e, rest)
  | fuel + 1, .conjunction, ts =>
    (parse fuel .primary ts).bind fun
      | (e, .keyword .and :: rest) =>
        (parse fuel .conjunction rest).map fun (f, rest) => (.and e f, rest)
      | (e, rest) => some (e, rest)
  | fuel + 1, .primary, .lparen :: ts =>
    (parse fuel .disjunction ts).bind fun
      | (e, .rparen :: rest) => some (e, rest)
      | _ => none
  | _ + 1, .primary, ts => readPredicate ts

def Expr.conjuncts : Expr → List Expr
  | and e f => e.conjuncts ++ f.conjuncts
  | e => [e]

def readCondition (cs : List Char) : Option Expr :=
  (lex cs).bind fun ts =>
    match parse (8 * ts.length + 16) .disjunction ts with
    | some (e, []) => some e
    | _ => none

/-! ### What a condition says -/

inductive Value where
  | null
  | text : String → Value
  | list : List String → Value

def Comparison.holds : Comparison → String → String → Bool
  | eq, a, b => a = b
  | lt, a, b => a < b
  | le, a, b => a ≤ b
  | gt, a, b => b < a
  | ge, a, b => b ≤ a

/-- The tokens of a pattern of `LIKE`. -/
def likeTokens (escape : Option Char) : List Char → List Wildcard.Token
  | c :: d :: pattern =>
    if escape = some c then .literal d :: likeTokens escape pattern
    else (if c = '%' then .run else if c = '_' then .any else .literal c) ::
      likeTokens escape (d :: pattern)
  | [c] => [if c = '%' then .run else if c = '_' then .any else .literal c]
  | [] => []

def and₃ : Option Bool → Option Bool → Option Bool
  | some false, _ | _, some false => some false
  | some true, some true => some true
  | _, _ => none

def or₃ : Option Bool → Option Bool → Option Bool
  | some true, _ | _, some true => some true
  | some false, some false => some false
  | _, _ => none

/-- Whether a condition is true of a row; `none` is unknown. -/
def Expr.eval (column : String → Value) : Expr → Option Bool
  | compare op name value =>
    match column name with
    | .text a => some (op.holds a value)
    | _ => none
  | like name pattern escape =>
    match column name with
    | .text a => some (Wildcard.Matches (likeTokens escape pattern.toList) a.toList)
    | _ => none
  | isNull name =>
    match column name with
    | .null => some true
    | _ => some false
  | listHas name value =>
    match column name with
    | .list values => some (values.contains value)
    | _ => none
  | and e f => and₃ (e.eval column) (f.eval column)
  | or e f => or₃ (e.eval column) (f.eval column)

/-- It is true of the row. -/
def Expr.Holds (column : String → Value) (e : Expr) : Prop := e.eval column = some true

/-- **A condition is true if all that it is the conjunction of is.** -/
theorem Expr.holds_iff {column : String → Value} (e : Expr) :
    e.Holds column ↔ ∀ f ∈ e.conjuncts, f.Holds column := by
  induction e with
  | and e f ihe ihf =>
    have hand (a b : Option Bool) : and₃ a b = some true ↔ a = some true ∧ b = some true := by
      rcases a with _ | _ | _ <;> rcases b with _ | _ | _ <;> simp [and₃]
    rw [Holds, eval, hand, conjuncts, forall_mem_append, ← ihe, ← ihf]
    rfl
  | _ => simp [conjuncts]

/-! ### Texts that are read as what they are -/

section Reading

variable {cs ds : List Char} {ts us : List Token}

theorem run_append (s : State) (cs ds : List Char) :
    run s (cs ++ ds) = (run s cs).bind fun s => run s ds := by
  induction cs generalizing s with
  | nil => rfl
  | cons c cs ih =>
    rw [cons_append, run, run, bind_assoc]
    exact Option.bind_congr fun t _ => ih t

def Opens (cs : List Char) (ts : List Token) : Prop :=
  ∀ out, run ⟨out, .between⟩ cs = some ⟨ts.reverse ++ out, .between⟩

/-- The text is read as these tokens, if nothing follows, or a blank or a parenthesis. -/
def LexesAs (cs : List Char) (ts : List Token) : Prop :=
  ∀ out, ∃ s, run ⟨out, .between⟩ cs = some s ∧ s.close = some (ts.reverse ++ out) ∧
    ∀ c, c = ' ' ∨ c = ')' → step s c = start (ts.reverse ++ out) c

theorem Opens.append (h : Opens cs ts) (h' : Opens ds us) : Opens (cs ++ ds) (ts ++ us) := by
  intro out
  rw [run_append, h out, bind_some, h', reverse_append, append_assoc]

theorem Opens.append_lexesAs (h : Opens cs ts) (h' : LexesAs ds us) :
    LexesAs (cs ++ ds) (ts ++ us) := by
  intro out
  obtain ⟨s, hr, hclose, hs⟩ := h' (ts.reverse ++ out)
  rw [reverse_append, append_assoc]
  refine ⟨s, ?_, hclose, hs⟩
  rw [run_append, h out, bind_some, hr]

theorem Opens.lexesAs (h : Opens cs ts) : LexesAs cs ts :=
  fun out => ⟨_, h out, rfl, fun _ _ => rfl⟩

theorem LexesAs.blank (h : LexesAs cs ts) : Opens (cs ++ [' ']) ts := by
  intro out
  obtain ⟨s, hr, -, hs⟩ := h out
  rw [run_append, hr, bind_some, run, hs ' ' (Or.inl rfl)]
  rfl

theorem LexesAs.rparen (h : LexesAs cs ts) : Opens (cs ++ [')']) (ts ++ [.rparen]) := by
  intro out
  obtain ⟨s, hr, -, hs⟩ := h out
  rw [run_append, hr, bind_some, run, hs ')' (Or.inr rfl), reverse_append]
  rfl

/-! ### Quoted texts -/

/-- `s.replace("'", "''")`. -/
def doubleQuotes (s : List Char) : List Char :=
  s.flatMap fun c => if c = '\'' then ['\'', '\''] else [c]

def quote (s : List Char) : List Char := '\'' :: (doubleQuotes s ++ ['\''])

/-- A literal is read up to the quote that ends it. -/
theorem run_doubleQuotes (out : List Token) (w s : List Char) :
    run ⟨out, .text w⟩ (doubleQuotes s ++ ['\'']) = some ⟨out, .quote (w ++ s)⟩ := by
  induction s generalizing w with
  | nil =>
    rw [append_nil]
    rfl
  | cons c s ih =>
    have hw : w ++ c :: s = w ++ [c] ++ s := by simp
    by_cases hc : c = '\''
    · subst hc
      rw [hw, ← ih (w ++ ['\''])]
      rfl
    · rw [hw, ← ih (w ++ [c])]
      simp [doubleQuotes, hc, run, step]

/-- **A quoted text is read as the text**, whatever it is. -/
theorem Opens.quote (h : Opens cs ts) (s : List Char) :
    LexesAs (cs ++ Sql.quote s) (ts ++ [.text (String.ofList s)]) := by
  refine h.append_lexesAs fun out => ⟨⟨out, .quote s⟩, ?_, rfl, ?_⟩
  · exact run_doubleQuotes out [] s
  · rintro c (rfl | rfl) <;> rfl

/-! ### Conditions that are joined -/

def ParsesAs (ts : List Token) (e : Expr) : Prop :=
  e.conjuncts = [e] ∧ ∀ fuel rest, parse (fuel + 8) .primary (ts ++ rest) = some (e, rest)

def IsCondition (cs : List Char) (e : Expr) : Prop := ∃ ts, LexesAs cs ts ∧ ParsesAs ts e

/-- ` AND `. -/
def andText : List Char := [' ', 'A', 'N', 'D', ' ']

variable {css : List (List Char)} {es : List Expr}

/-- Conditions joined by `AND` are read one after the other. -/
theorem exists_parse_join
    (h : List.Forall₂ IsCondition css es) (hne : css ≠ []) :
    ∃ ts, LexesAs (andText.intercalate css) ts ∧ es.length ≤ ts.length + 1 ∧
      ∀ fuel, ∃ e, parse (fuel + 8 + es.length) .conjunction ts = some (e, []) ∧
        e.conjuncts = es := by
  induction h with
  | nil => exact absurd rfl hne
  | @cons cs e css es hcs h ih =>
    obtain ⟨ts, hlex, hconj, hpar⟩ := hcs
    cases css with
    | nil =>
      cases h
      rw [intercalate_singleton]
      refine ⟨ts, hlex, by simp, fun fuel => ⟨e, ?_, hconj⟩⟩
      have hts := hpar fuel []
      rw [append_nil] at hts
      rw [length_singleton, parse, hts]
      rfl
    | cons ds css =>
      obtain ⟨us, hlex', hlen, hpar'⟩ := ih (cons_ne_nil ds css)
      refine ⟨ts ++ [.keyword .and] ++ us, ?_, by simp; omega, fun fuel => ?_⟩
      · rw [intercalate_cons_cons]
        have hand : Opens ['A', 'N', 'D', ' '] [.keyword .and] := fun out => rfl
        have h := (hlex.blank.append hand).append_lexesAs hlex'
        simpa [andText] using h
      · obtain ⟨f, hf, hconj'⟩ := hpar' fuel
        refine ⟨.and e f, ?_, by rw [Expr.conjuncts, hconj, hconj']; rfl⟩
        have hts := hpar (fuel + es.length) (.keyword .and :: us)
        rw [Nat.add_right_comm] at hts
        rw [length_cons, ← Nat.add_assoc, parse, append_assoc, singleton_append, hts]
        simp [hf]

/-- **Conditions joined by `AND` are read as their conjunction.** -/
theorem readCondition_join
    (h : List.Forall₂ IsCondition css es) (hne : css ≠ []) :
    ∃ e, readCondition (andText.intercalate css) = some e ∧ e.conjuncts = es := by
  obtain ⟨ts, hlex, hlen, hpar⟩ := exists_parse_join h hne
  have htok : lex (andText.intercalate css) = some ts := by
    obtain ⟨s, hr, hclose, -⟩ := hlex []
    rw [lex, hr, bind_some, hclose]
    simp
  -- one step of the fuel is for the disjunction, and one for each condition
  obtain ⟨e, he, hconj⟩ := hpar (8 * ts.length + 7 - es.length)
  refine ⟨e, ?_, hconj⟩
  have hfuel : 8 * ts.length + 7 - es.length + 8 + es.length + 1 = 8 * ts.length + 16 := by omega
  rw [readCondition, htok, bind_some, ← hfuel, parse, he]
  rfl

end Reading

end ArchonSearch.Lib.Sql
