import Mathlib
import WeiCalc.Expr.Parser

/-!
# The grammar of expressions

The layered grammar as a relation between tokens and trees, said without the parser.
`Derives l ts e n`: the tokens `ts` are a phrase of the level `l`, `e` is its tree, and its innermost
place is `n` levels of nesting further in.  A place is one level further in for every pair of
parentheses, argument, `unchecked` and minus around it, and for every `**` it is on the right of.

* `Derives.noStop`: no phrase holds the token at the end of a line.
* `Level.StopsAt l t`: no phrase of the level `l` can be made longer by the token `t`.  A level that
  binds less stops at fewer tokens (`StopsAt.operand`, `stopsAt_of_subset`).
-/

namespace WeiCalc

namespace Grammar

/-- The levels whose operators associate to the left. -/
inductive Chained where
  | shift
  | sum
  | product
  deriving DecidableEq, Repr

/-- The levels of the grammar, from the one that binds least to the one that binds most. -/
inductive Level where
  | conversion
  | chained (c : Chained)
  | power
  | unary
  | measured
  | primary
  /-- A call up to one of its arguments, without the closing parenthesis. -/
  | opened
  deriving DecidableEq, Repr

namespace Chained

/-- The operators of a level. -/
def op? : Chained → TokenKind → Option BinaryOp
  | shift => Parser.shiftOp?
  | sum => Parser.sumOp?
  | product => Parser.productOp?

/-- The level of the operands. -/
def operand : Chained → Level
  | shift => .chained sum
  | sum => .chained product
  | product => .power

theorem ne_stop_of_op? {c : Chained} {k : TokenKind} {op : BinaryOp} (h : c.op? k = some op) :
    k ≠ .stop := by
  rintro rfl
  cases c <;> cases h

end Chained

/-! ### Phrases -/

/-- The phrases of a level, their trees, and how deep places nest in them. -/
inductive Derives : Level → List Token → Expr → Nat → Prop
  | number {t : Token} {l : NumberLiteral} :
      t.kind ∈ [.number, .hexNumber, .binaryNumber] → NumberLiteral.ofToken t = .ok l →
      Derives .primary [t] (.number l t.position) 0
  | text {t : Token} : t.kind = .text → Derives .primary [t] (.text t.text t.position) 0
  | identifier {t : Token} :
      t.kind = .identifier → Derives .primary [t] (.identifier t.text t.position) 0
  | parens {l r : Token} {ts : List Token} {e : Expr} {n : Nat} :
      l.kind = .leftParen → Derives .conversion ts e n → r.kind = .rightParen →
      Derives .primary ([l] ++ ts ++ [r]) e (n + 1)
  | unchecked {u l r : Token} {ts : List Token} {e : Expr} {n : Nat} :
      u.kind = .unchecked → l.kind = .leftParen → Derives .conversion ts e n →
      r.kind = .rightParen →
      Derives .primary ([u, l] ++ ts ++ [r]) (.unchecked e u.position) (n + 1)
  | first {f l : Token} {ts : List Token} {e : Expr} {n : Nat} :
      f.kind = .identifier → l.kind = .leftParen → Derives .conversion ts e n →
      Derives .opened ([f, l] ++ ts) (.call f.text [e] f.position) (n + 1)
  | next {ts us : List Token} {c : Token} {f : String} {es : List Expr} {p : Nat} {e : Expr}
      {m n : Nat} : Derives .opened ts (.call f es p) m → c.kind = .comma →
      Derives .conversion us e n →
      Derives .opened (ts ++ [c] ++ us) (.call f (es ++ [e]) p) (max m (n + 1))
  | call {ts : List Token} {r : Token} {e : Expr} {n : Nat} :
      Derives .opened ts e n → r.kind = .rightParen → Derives .primary (ts ++ [r]) e n
  | callBare {f l r : Token} : f.kind = .identifier → l.kind = .leftParen → r.kind = .rightParen →
      Derives .primary [f, l, r] (.call f.text [] f.position) 0
  | bare {ts : List Token} {e : Expr} {n : Nat} :
      Derives .primary ts e n → Derives .measured ts e n
  | measured {ts : List Token} {u : Token} {e : Expr} {n : Nat} :
      Derives .primary ts e n → u.kind = .identifier → MeasureUnit.isName u.text = true →
      Derives .measured (ts ++ [u]) (.measured e u.text e.position) n
  | term {ts : List Token} {e : Expr} {n : Nat} :
      Derives .measured ts e n → Derives .unary ts e n
  | negate {m : Token} {ts : List Token} {e : Expr} {n : Nat} :
      m.kind = .minus → Derives .unary ts e n →
      Derives .unary ([m] ++ ts) (.negate e m.position) (n + 1)
  | base {ts : List Token} {e : Expr} {n : Nat} :
      Derives .unary ts e n → Derives .power ts e n
  | power {ts us : List Token} {t : Token} {a b : Expr} {m n : Nat} :
      Derives .unary ts a m → t.kind = .starStar → Derives .power us b n →
      Derives .power (ts ++ [t] ++ us) (.binary a .pow b a.position) (max m (n + 1))
  | operand {c : Chained} {ts : List Token} {e : Expr} {n : Nat} :
      Derives c.operand ts e n → Derives (.chained c) ts e n
  | binary {c : Chained} {ts us : List Token} {t : Token} {op : BinaryOp} {a b : Expr}
      {m n : Nat} : Derives (.chained c) ts a m → c.op? t.kind = some op →
      Derives c.operand us b n →
      Derives (.chained c) (ts ++ [t] ++ us) (.binary a op b a.position) (max m n)
  | amount {ts : List Token} {e : Expr} {n : Nat} :
      Derives (.chained .shift) ts e n → Derives .conversion ts e n
  | converted {ts : List Token} {t u : Token} {e : Expr} {n : Nat} :
      Derives .conversion ts e n → t.kind = .to → u.kind = .identifier →
      Derives .conversion (ts ++ [t, u]) (.converted e u.text e.position) n

/-- A phrase without operators is one of every level. -/
theorem Derives.alone {ts : List Token} {e : Expr} {n : Nat} (h : Derives .unary ts e n) :
    Derives .conversion ts e n :=
  .amount (.operand (c := .shift) (.operand (c := .sum) (.operand (c := .product) (.base h))))

/-- None of the tokens is one that stands for the end of a line. -/
def NoStop (ts : List Token) : Prop := ∀ t ∈ ts, t.kind ≠ .stop

theorem noStop_append {ts us : List Token} (ht : NoStop ts) (hu : NoStop us) :
    NoStop (ts ++ us) := by
  intro t h
  rcases List.mem_append.mp h with h | h
  · exact ht t h
  · exact hu t h

theorem noStop_cons {t : Token} {ts : List Token} {k : TokenKind} (h : t.kind = k) (hk : k ≠ .stop)
    (ht : NoStop ts) : NoStop (t :: ts) := by
  intro u hu
  rcases List.mem_cons.mp hu with rfl | hu
  · rw [h]; exact hk
  · exact ht u hu

theorem noStop_one {t : Token} {k : TokenKind} (h : t.kind = k) (hk : k ≠ .stop) : NoStop [t] :=
  noStop_cons h hk (fun _ hu => absurd hu List.not_mem_nil)

/-- **The token at the end of a line is in no phrase.** -/
theorem Derives.noStop {l : Level} {ts : List Token} {e : Expr} {n : Nat}
    (h : Derives l ts e n) : NoStop ts := by
  induction h with
  | number hk _ =>
    refine noStop_one rfl ?_
    rintro hs
    rw [hs] at hk
    exact absurd hk (by decide)
  | text hk => exact noStop_one hk (by decide)
  | identifier hk => exact noStop_one hk (by decide)
  | parens hl _ hr ih =>
    exact noStop_append (noStop_append (noStop_one hl (by decide)) ih) (noStop_one hr (by decide))
  | unchecked hu hl _ hr ih =>
    exact noStop_append
      (noStop_append (noStop_cons hu (by decide) (noStop_one hl (by decide))) ih)
      (noStop_one hr (by decide))
  | first hf hl _ ih =>
    exact noStop_append (noStop_cons hf (by decide) (noStop_one hl (by decide))) ih
  | next _ hc _ ih ih' => exact noStop_append (noStop_append ih (noStop_one hc (by decide))) ih'
  | call _ hr ih => exact noStop_append ih (noStop_one hr (by decide))
  | callBare hf hl hr =>
    exact noStop_cons hf (by decide) (noStop_cons hl (by decide) (noStop_one hr (by decide)))
  | bare _ ih => exact ih
  | measured _ hu _ ih => exact noStop_append ih (noStop_one hu (by decide))
  | term _ ih => exact ih
  | negate hm _ ih => exact noStop_append (noStop_one hm (by decide)) ih
  | base _ ih => exact ih
  | power _ ht _ ih ih' => exact noStop_append (noStop_append ih (noStop_one ht (by decide))) ih'
  | operand _ ih => exact ih
  | binary _ ht _ ih ih' =>
    exact noStop_append (noStop_append ih (noStop_one rfl (Chained.ne_stop_of_op? ht))) ih'
  | amount _ ih => exact ih
  | converted _ ht hu ih =>
    exact noStop_append ih (noStop_cons ht (by decide) (noStop_one hu (by decide)))

/-! ### Where phrases stop -/

namespace Level

/-- The kinds of tokens that may follow a part of a phrase within the phrase, units aside. -/
def continuing : Level → List TokenKind
  | primary => [.leftParen]
  | measured => [.leftParen]
  | unary => [.leftParen]
  | power => [.leftParen, .starStar]
  | chained .product => [.leftParen, .starStar, .star, .slash, .percent]
  | chained .sum => [.leftParen, .starStar, .star, .slash, .percent, .plus, .minus]
  | chained .shift =>
    [
      .leftParen, .starStar, .star, .slash, .percent, .plus, .minus, .shiftLeft, .shiftRight]
  | conversion =>
    [
      .leftParen, .starStar, .star, .slash, .percent, .plus, .minus, .shiftLeft, .shiftRight, .to]
  | opened => []

/-- Does a token name a unit? -/
def IsUnit (t : Token) : Prop := t.kind = .identifier ∧ MeasureUnit.isName t.text = true

/-- No phrase of the level is made longer by the token. -/
def StopsAt (l : Level) (t : Token) : Prop :=
  t.kind ∉ l.continuing ∧ (l = .primary ∨ ¬IsUnit t)

theorem stopsAt_of_subset {l l' : Level} {t : Token} (hs : l'.continuing ⊆ l.continuing)
    (hl : l ≠ .primary) (h : l.StopsAt t) : l'.StopsAt t :=
  ⟨fun hm => h.1 (hs hm), Or.inr (h.2.resolve_left hl)⟩

theorem stopsAt_of_kind {l : Level} {t : Token} (hm : t.kind ∉ l.continuing)
    (hk : t.kind ≠ .identifier) : l.StopsAt t :=
  ⟨hm, Or.inr fun h => hk h.1⟩

theorem StopsAt.operand {c : Chained} {t : Token} (h : (chained c).StopsAt t) :
    c.operand.StopsAt t := by
  cases c <;> exact stopsAt_of_subset (by decide) (by decide) h

theorem StopsAt.op?_eq_none {c : Chained} {t : Token} (h : (chained c).StopsAt t) :
    c.op? t.kind = none := by
  have hm := h.1
  revert hm
  generalize t.kind = k
  cases c <;> cases k <;> decide

theorem operand_stopsAt {c : Chained} {t : Token} {op : BinaryOp} (h : c.op? t.kind = some op) :
    c.operand.StopsAt t := by
  refine stopsAt_of_kind ?_ ?_ <;> revert h <;> generalize t.kind = k <;> cases c <;> cases k <;>
    decide +revert

end Level

end Grammar

end WeiCalc
