import Mathlib
import WeiCalc.Proofs.Evaluation.Failure
import WeiCalc.Proofs.Grammar.Exact
import WeiCalc.Proofs.Grammar.Place
import WeiCalc.Proofs.Token.Place
import WeiCalc.Session

/-!
# Where errors stand

A line that ends with an error ends with one that has a position.  Where the lexer stops, it is the
offset of a character; else it is that of a token: an operation that does not know the line gets the
position of its call, and every node stands at a token.  The one exception is a number in a text that
a function reads as an integer: its error keeps the offset in the text.

* `Evaluation.placed_invariant`: **an expression that is placed on tokens fails at tokens.**
* `Expr.ofLine_pointsInto`: errors of the lexer and of the parser.
* `Environment.evaluate_pointsInto`: **the error of a line points into the line.**
-/

namespace WeiCalc

/-- A token is the name of a function that reads integers in texts. -/
def Token.NamesReader (ts : List Token) : Prop :=
  ∃ t ∈ ts, t.kind = .identifier ∧ ∃ b ∈ Builtin.textReaders, b.name = t.text

instance (ts : List Token) : Decidable (Token.NamesReader ts) :=
  inferInstanceAs (Decidable (∃ t ∈ ts, _ ∧ ∃ b ∈ Builtin.textReaders, _))

namespace EvalError

/-- The error of a number in a text, on a line that names a function which reads such texts. -/
def ReadOn (ts : List Token) (e : EvalError) : Prop := Token.NamesReader ts ∧ e.OfText

/-- The error stands at a token, or it is that of a number in a text. -/
def PlacedOn (ts : List Token) (e : EvalError) : Prop :=
  (∃ p, e.position = some p ∧ Token.StartsAt ts p) ∨ e.ReadOn ts

end EvalError

namespace Evaluation

variable {ts : List Token}

/-- An error that an operation leaves without a position gets that of a token. -/
theorem placedOn_locatedAt {e : EvalError} {position : Nat} (h : e.Unplaced ∨ e.ReadOn ts)
    (hp : Token.StartsAt ts position) : (e.locatedAt position).PlacedOn ts := by
  rcases h with hu | ⟨hn, text, us, t, hts, ht, hl⟩
  · refine Or.inl ⟨position, ?_, hp⟩
    show (e.position <|> some position) = some position
    rw [hu.position]
    rfl
  · obtain ⟨cause, rfl⟩ := NumberLiteral.ofToken_eq_error hl
    exact Or.inr ⟨hn, text, us, t, hts, ht, hl⟩

theorem namesReader_of_call {b : Builtin} {es : List Expr} {p : Nat}
    (h : (Expr.call b.name es p).Within ts) (hb : b ∈ Builtin.textReaders) :
    Token.NamesReader ts := by
  obtain ⟨⟨t, ht, hk, hname⟩, -⟩ := h.of_call
  exact ⟨t, ht, hk, b, hb, hname.symm⟩

/-- **An expression that is placed on tokens fails at tokens**, as its parts do.  Signed arguments,
which may be texts, are there for functions that read such texts. -/
theorem placed_invariant (env : Environment) (ts : List Token) :
    ErrorInvariant env (EvalError.PlacedOn ts) (fun _ e => e.Within ts)
      (fun _ e => Token.NamesReader ts ∧ e.Within ts) where
  admitted := fun {n e} h cause _ => Or.inl ⟨e.position, rfl, h.startsAt⟩
  refused := fun {e} h => Or.inl ⟨e.position, rfl, h.startsAt⟩
  negate := fun h => by
    cases h with
    | negate he _ => exact he
  left := fun h => by
    cases h with
    | binary ha _ _ =>
      split_ifs
      · exact ha
      · exact ha
  right := fun h => by
    cases h with
    | binary _ hb _ => exact hb
  measured := fun h => by
    cases h with
    | measured he _ => exact he
  converted := fun h => by
    cases h with
    | converted he _ => exact he
  unchecked := fun h => by
    cases h with
    | unchecked he _ => exact he
  argument := fun h => h.of_call.2
  signedArgument := fun h hb e he => ⟨namesReader_of_call h hb, h.of_call.2 e he⟩
  raised := fun h hr =>
    placedOn_locatedAt (hr.imp_right fun hr => ⟨namesReader_of_call h hr.1, hr.2⟩) h.startsAt
  plain := fun h => h.2
  signedNegate := fun ⟨hn, h⟩ => by
    cases h with
    | negate he _ => exact ⟨hn, he⟩
  signed := fun ⟨hn, h⟩ hr => placedOn_locatedAt (hr.imp_right fun hr => ⟨hn, hr⟩) h.startsAt

end Evaluation

/-! ### Lines -/

/-- The error points into the line: to what cannot be read on, or to where a token stands. -/
def EvalError.PointsInto (line : String) (e : EvalError) : Prop :=
  ∃ p ≤ line.toList.length, e.position = some p ∧
    ((Token.ofLine line = .error e ∧
        ∃ cause, e.cause = .grammar cause ∧ Lexeme.Obstacle line.toList p cause) ∨
      ∃ ts t, Token.ofLine line = .ok ts ∧ t ∈ ts ∧ t.Stands line.toList ∧ t.position = p)

theorem EvalError.PointsInto.isSome {line : String} {e : EvalError} (h : e.PointsInto line) :
    e.position.isSome := by
  obtain ⟨p, -, hp, -⟩ := h
  exact Option.isSome_of_mem hp

theorem EvalError.pointsInto_of_startsAt {line : String} {ts : List Token} {e : EvalError} {p : Nat}
    (ht : Token.ofLine line = .ok ts) (hp : e.position = some p) (hs : Token.StartsAt ts p) :
    e.PointsInto line := by
  obtain ⟨t, hmem, rfl⟩ := hs
  have hstands := Token.ofLine_stands ht hmem
  exact ⟨t.position, hstands.position_le, hp, Or.inr ⟨ts, t, ht, hmem, hstands, rfl⟩⟩

theorem Token.ofLine_ne_nil {line : String} {ts : List Token} (ht : Token.ofLine line = .ok ts) :
    ts ≠ [] := by
  obtain ⟨s, -, rfl⟩ := ofLine_eq_ok ht
  exact List.append_ne_nil_of_right_ne_nil _ (List.cons_ne_nil _ _)

/-- The errors of the lexer and of the parser point into the line. -/
theorem Expr.ofLine_pointsInto {maxDepth : Limit} {line : String} {e : EvalError}
    (h : Expr.ofLine maxDepth line = .error e) : e.PointsInto line := by
  cases ht : Token.ofLine line with
  | error e' =>
    rw [Expr.ofLine, ht] at h
    cases h
    obtain ⟨p, cause, rfl, ho⟩ := Token.ofLine_obstacle ht
    exact ⟨p, ho.position_lt.le, rfl, Or.inl ⟨ht, cause, rfl, ho⟩⟩
  | ok ts =>
    have hplaced := @Expr.ofTokens_placed maxDepth ts (Token.ofLine_ne_nil ht)
    rw [Expr.ofLine, ht] at h
    change Expr.ofTokens maxDepth ts = .error e at h
    rw [h] at hplaced
    obtain ⟨t, hmem, hp⟩ := hplaced
    exact EvalError.pointsInto_of_startsAt ht hp (Token.startsAt_of_mem hmem)

namespace Environment

variable {env : Environment} {line : String}

theorem value_placed {ts : List Token} {tree : Expr} (ht : Token.ofLine line = .ok ts)
    (ho : Expr.ofLine env.settings.maxDepth line = .ok tree) :
    Fails (EvalError.PlacedOn ts) (env.value line) := by
  have hplaced := @Expr.ofTokens_placed env.settings.maxDepth ts (Token.ofLine_ne_nil ht)
  rw [value, ho]
  rw [Expr.ofLine, ht] at ho
  change Expr.ofTokens env.settings.maxDepth ts = .ok tree at ho
  rw [ho] at hplaced
  exact ((Evaluation.placed_invariant env ts).fails _).value .checked tree hplaced

/-- **The error of a line has a position and points into the line**, unless the line can be read and
names a function that reads integers in texts, and the error is that of a number in a text. -/
theorem evaluate_pointsInto {e : EvalError} {ds ds' : Diagnostics}
    (h : env.evaluate line ds = .error (.error e) ds') :
    e.position.isSome ∧
      (e.PointsInto line ∨
        ∃ ts tree, Token.ofLine line = .ok ts ∧
          Expr.ofLine env.settings.maxDepth line = .ok tree ∧ e.ReadOn ts) := by
  cases ho : Expr.ofLine env.settings.maxDepth line with
  | error e' =>
    have hv : env.value line ds = .error (.error e') ds := by
      rw [value, ho]
      rfl
    have hr : env.evaluate line ds = .error (.error e') ds := bind_of_error hv
    rw [hr] at h
    cases h
    have hpoints := Expr.ofLine_pointsInto ho
    exact ⟨hpoints.isSome, Or.inl hpoints⟩
  | ok tree =>
    obtain ⟨ts, ht, -⟩ := except_bind_eq_ok ho
    have hp : Fails (EvalError.PlacedOn ts) (env.evaluate line) :=
      (value_placed ht ho).bind fun v => .pure _
    rcases hp _ _ _ h with ⟨p, hp, hs⟩ | hr
    · have hpoints := EvalError.pointsInto_of_startsAt ht hp hs
      exact ⟨hpoints.isSome, Or.inl hpoints⟩
    · refine ⟨?_, Or.inr ⟨ts, tree, ht, rfl, hr⟩⟩
      obtain ⟨-, _, _, _, _, _, hl⟩ := hr
      obtain ⟨cause, rfl⟩ := NumberLiteral.ofToken_eq_error hl
      rfl

open Grammar in
/-- A name that is not known is an error at the name. -/
theorem evaluate_pointsInto_fee :
    let env := Environment.mk (.standard 0) fun _ => Vector.replicate 32 0
    let e : EvalError := ⟨.unknownIdentifier "fee", some 4⟩
    env.evaluate "1 + fee" #[] = .error (.error e) #[] ∧ e.PointsInto "1 + fee" := by
  intro env e
  have ht : Token.ofLine "1 + fee" = .ok
      ([⟨.number, "1", 0⟩, ⟨.plus, "+", 2⟩, ⟨.identifier, "fee", 4⟩] ++ [⟨.stop, "", 7⟩]) := by
    decide +kernel
  have hone : NumberLiteral.ofToken ⟨.number, "1", 0⟩ = .ok ⟨1, "1", none⟩ := by decide +kernel
  have ha : Derives (.chained .product) [⟨.number, "1", 0⟩] (.number ⟨1, "1", none⟩ 0) 0 :=
    .operand (.base (.term (.bare (.number (List.mem_cons_self ..) hone))))
  have hb : Derives (.chained .product) [⟨.identifier, "fee", 4⟩] (.identifier "fee" 4) 0 :=
    .operand (.base (.term (.bare (.identifier rfl))))
  have hd : Derives .conversion [⟨.number, "1", 0⟩, ⟨.plus, "+", 2⟩, ⟨.identifier, "fee", 4⟩]
      (.binary (.number ⟨1, "1", none⟩ 0) .add (.identifier "fee" 4) 0) 0 :=
    .amount (.operand (c := .shift) (.binary (c := .sum) (.operand (c := .sum) ha) rfl hb))
  have ho : Expr.ofLine env.settings.maxDepth "1 + fee" =
      .ok (.binary (.number ⟨1, "1", none⟩ 0) .add (.identifier "fee" 4) 0) := by
    rw [Expr.ofLine, ht]
    exact ofTokens_of_derives (Token.kind_of_ofLine ht) hd (by decide)
  have hv : env.value "1 + fee" #[] = .error (.error e) #[] := by
    rw [value, ho]
    rfl
  have hr : env.evaluate "1 + fee" #[] = .error (.error e) #[] := bind_of_error hv
  refine ⟨hr, (evaluate_pointsInto hr).2.resolve_right ?_⟩
  rintro ⟨ts, tree, hts, -, hn, -⟩
  rw [ht] at hts
  cases hts
  exact absurd hn (by decide +kernel)

open Grammar in
/-- The error of a number in a text has the offset of the number in the text, and no token of the
line stands there. -/
theorem evaluate_tick_not_pointsInto :
    let env := Environment.mk (.standard 0) fun _ => Vector.replicate 32 0
    let e : EvalError := ⟨.literal (.noDigits "0x"), some 1⟩
    env.evaluate "get_sqrt_ratio_from_tick(\"-0x\")" #[] = .error (.error e) #[] ∧
      ¬ e.PointsInto "get_sqrt_ratio_from_tick(\"-0x\")" := by
  intro env e
  let name : Token := ⟨.identifier, "get_sqrt_ratio_from_tick", 0⟩
  have ht : Token.ofLine "get_sqrt_ratio_from_tick(\"-0x\")" =
      .ok ([name, ⟨.leftParen, "(", 24⟩, ⟨.text, "-0x", 25⟩, ⟨.rightParen, ")", 30⟩] ++
        [⟨.stop, "", 31⟩]) := by
    decide +kernel
  refine ⟨?_, ?_⟩
  · have hd : Derives .conversion
        [name, ⟨.leftParen, "(", 24⟩, ⟨.text, "-0x", 25⟩, ⟨.rightParen, ")", 30⟩]
        (.call name.text [.text "-0x" 25] 0) 1 :=
      .alone (.term (.bare (.call (.first rfl rfl (.alone (.term (.bare (.text rfl))))) rfl)))
    have ho : Expr.ofLine env.settings.maxDepth "get_sqrt_ratio_from_tick(\"-0x\")" =
        .ok (.call name.text [.text "-0x" 25] 0) := by
      have hdepth : 1 + 1 ≤ env.settings.maxDepth.value := by decide
      rw [Expr.ofLine, ht]
      exact ofTokens_of_derives (Token.kind_of_ofLine ht) hd hdepth
    let below : Below := ⟨Evaluation.value env 63, Evaluation.signed env 63⟩
    have hfun : Eval.placedAt 0 (liftM (Evaluation.functionFor name.text 1)) #[] =
        .ok .sqrtRatioOfTick #[] := by
      have hname : Evaluation.functionFor name.text 1 = .ok .sqrtRatioOfTick := by decide +kernel
      rw [hname]
      rfl
    have harg : below.signed .checked (.text "-0x" 25) #[] = .error (.error e) #[] := by
      have hread : Abi.integerOfText "-0x" = .error e := by decide +kernel
      show Eval.locatedAt 25 (liftM (Abi.integerOfText "-0x")) #[] = _
      rw [hread]
      rfl
    have hargs : Evaluation.arguments below .checked .sqrtRatioOfTick 1 0 [.text "-0x" 25] #[] =
        .error (.error e) #[] := by
      have hsigned : (Argument.signed <$> below.signed .checked (.text "-0x" 25)) #[] =
          .error (.error e) #[] := bind_of_error (f := fun i => pure (Argument.signed i)) harg
      exact bind_of_error hsigned
    have hv : env.value "get_sqrt_ratio_from_tick(\"-0x\")" #[] = .error (.error e) #[] := by
      rw [value, ho]
      show Evaluation.call env below .checked name.text [.text "-0x" 25] 0 #[] = _
      exact (bind_of_ok hfun).trans (bind_of_error hargs)
    exact bind_of_error hv
  · rintro ⟨p, -, hp, ⟨herror, -⟩ | ⟨ts, t, hts, hmem, -, rfl⟩⟩
    · rw [ht] at herror
      cases herror
    · rw [ht] at hts
      cases hts
      have hplaces : ∀ t ∈ [name, ⟨.leftParen, "(", 24⟩, ⟨.text, "-0x", 25⟩,
          ⟨.rightParen, ")", 30⟩] ++ [⟨.stop, "", 31⟩], some 1 ≠ some t.position := by decide
      exact hplaces t hmem hp

end Environment

end WeiCalc
