import Mathlib
import WeiCalc.Proofs.Grammar.Completeness

/-!
# The parser decides the grammar

A line is accepted exactly if the tokens before its end are a phrase that nests no deeper than the
limit, and the tree of the phrase is the answer.  Phrases have one tree, since the parser would
answer all of them.

* `line_eq_ok_iff`: what reading a whole line comes to.
* `ofTokens_of_derives`: phrases are read.
* `ofTokens_eq_ok_iff`: acceptance is derivability.
* `tree_unique`: the tokens of a phrase determine its tree.
-/

namespace WeiCalc

namespace Grammar

open WeiCalc.Parser

/-- A line is read if it is not empty, and an expression ends where it ends. -/
theorem line_eq_ok_iff {s s' : Parser} {e : Expr} :
    line s = .ok e s' ↔ s.next.kind ≠ .stop ∧
      nested (s.maxDepth.value - s.depth) .expression s = .ok e s' ∧ s'.next.kind = .stop := by
  rw [line, bind_of_ok (sees_one .stop s)]
  by_cases hk : s.next.kind = .stop
  · rw [if_pos (decide_eq_true hk)]
    constructor
    · intro h
      obtain ⟨_, _, h, _⟩ := bind_eq_ok h
      cases h
    · rintro ⟨h, _⟩
      exact absurd hk h
  · rw [if_neg (by simpa using hk)]
    change (expression >>= _) s = _ ↔ _
    have he : expression s = nested (s.maxDepth.value - s.depth) .expression s := rfl
    constructor
    · intro h
      obtain ⟨e', t, ht, h⟩ := bind_eq_ok h
      rw [bind_of_ok (current_run t)] at h
      by_cases hs : t.next.kind = .stop
      · rw [if_pos hs] at h
        cases h
        exact ⟨hk, he ▸ ht, hs⟩
      · rw [if_neg hs] at h
        cases h
    · rintro ⟨_, h, hs⟩
      rw [bind_of_ok (he.trans h), bind_of_ok (current_run s'), if_pos hs]
      rfl

theorem ofTokens_concat (maxDepth : Limit) (body : List Token) (stop : Token) :
    ofTokens maxDepth (body ++ [stop]) = ⟨body ++ [stop], stop, 0, 0, maxDepth⟩ := by
  rw [ofTokens, List.getLast?_concat]
  rfl

theorem ofTokens_eq_ok {maxDepth : Limit} {ts : List Token} {e : Expr} :
    Expr.ofTokens maxDepth ts = .ok e ↔ ∃ s, line (ofTokens maxDepth ts) = .ok e s := by
  rw [Expr.ofTokens]
  cases line (ofTokens maxDepth ts) <;> simp

theorem ofTokens_eq_error {maxDepth : Limit} {ts : List Token} {f : EvalError} :
    Expr.ofTokens maxDepth ts = .error f ↔ ∃ s, line (ofTokens maxDepth ts) = .error f s := by
  rw [Expr.ofTokens]
  cases line (ofTokens maxDepth ts) <;> simp

/-- Tokens up to a place in front of the only stop are all the tokens before it. -/
theorem eq_of_append_eq {ts us body : List Token} {stop : Token} (ht : NoStop ts)
    (hb : NoStop body) (hs : stop.kind = .stop) (hu : (us[0]?.getD stop).kind = .stop)
    (h : body ++ [stop] = ts ++ us) : body = ts := by
  rcases List.append_eq_append_iff.mp h with ⟨vs, hts, hv⟩ | ⟨vs, hbody, hv⟩
  · cases vs with
    | nil => rw [hts, List.append_nil]
    | cons v vs =>
      obtain ⟨rfl, -⟩ := List.cons.inj hv
      exact absurd hs (ht stop (by simp [hts]))
  · cases vs with
    | nil => rw [hbody, List.append_nil]
    | cons v vs =>
      rw [hv] at hu
      exact absurd hu (hb v (by simp [hbody]))

section

variable {body : List Token} {stop : Token}

/-- **A line that is read is a phrase.** -/
theorem derives_of_line {maxDepth : Limit} {e : Expr} {s : Parser} (hb : NoStop body)
    (hs : stop.kind = .stop) (h : line ⟨body ++ [stop], stop, 0, 0, maxDepth⟩ = .ok e s) :
    ∃ n, Derives .conversion body e n ∧ n + 1 ≤ maxDepth.value := by
  obtain ⟨_, hn, hk⟩ := line_eq_ok_iff.mp h
  obtain ⟨ts, n, hd, hm, hr⟩ := acceptsInner_nested _ .expression _ _ _ (by exact hs) hn
  have hu : (s.rest[0]?.getD stop).kind = .stop := by
    have he : s.stop = stop := hr.stop_eq
    rwa [next, he] at hk
  have hts : body = ts := eq_of_append_eq hd.noStop hb hs hu hr.1
  rw [hts]
  exact ⟨n, hd, hm⟩

/-- **A phrase is read as a line.** -/
theorem line_of_derives {maxDepth : Limit} {e : Expr} {n : Nat} (hs : stop.kind = .stop)
    (hd : Derives .conversion body e n) (hn : n + 1 ≤ maxDepth.value) :
    ∃ s, line ⟨body ++ [stop], stop, 0, 0, maxDepth⟩ = .ok e s := by
  have ha : Answers (levelOf .expression) body e n := answers_of_derives (by decide) hd
  have hr : (⟨body ++ [stop], stop, 0, 0, maxDepth⟩ : Parser).rest = body ++ stop :: [] := rfl
  refine ⟨_, line_eq_ok_iff.mpr ⟨?_, ha.nested hn hr (conversion_stopsAt_stop hs), ?_⟩⟩
  · intro hk
    have ho := hd.opening.next hr
    rw [hk] at ho
    exact absurd ho (by decide)
  · rw [next_of_rest (behind_rest_of_append hr)]
    exact hs

/-- The tokens of a phrase that nests within the limit have its tree. -/
theorem ofTokens_of_derives {maxDepth : Limit} {e : Expr} {n : Nat} (hs : stop.kind = .stop)
    (hd : Derives .conversion body e n) (hn : n + 1 ≤ maxDepth.value) :
    Expr.ofTokens maxDepth (body ++ [stop]) = .ok e := by
  obtain ⟨s, hl⟩ := line_of_derives hs hd hn
  exact ofTokens_eq_ok.mpr ⟨s, ofTokens_concat maxDepth body stop ▸ hl⟩

/-- The tokens of a phrase determine its tree: the parser answers every tree they have. -/
theorem tree_unique {e e' : Expr} {n n' : Nat} (h : Derives .conversion body e n)
    (h' : Derives .conversion body e' n') : e = e' := by
  have hs : (⟨.stop, "", 0⟩ : Token).kind = .stop := rfl
  have hn : n + 1 ≤ (Limit.count (max n n' + 1)).value := Nat.succ_le_succ (le_max_left n n')
  have hn' : n' + 1 ≤ (Limit.count (max n n' + 1)).value := Nat.succ_le_succ (le_max_right n n')
  obtain ⟨s, hl⟩ := line_of_derives hs h hn
  obtain ⟨s', hl'⟩ := line_of_derives hs h' hn'
  rw [hl] at hl'
  exact (EStateM.Result.ok.inj hl').1

/-- **The parser decides the grammar.**  Tokens before the end of a line are read exactly if they are
a phrase whose places nest no deeper than the limit, the whole line being the first place; its tree
is the answer, and it is the only tree they have. -/
theorem ofTokens_eq_ok_iff (hb : NoStop body) (hs : stop.kind = .stop) (maxDepth : Limit) :
    (∀ e, Expr.ofTokens maxDepth (body ++ [stop]) = .ok e ↔
      ∃ n, Derives .conversion body e n ∧ n + 1 ≤ maxDepth.value) ∧
    ∀ e e' n n', Derives .conversion body e n → Derives .conversion body e' n' → e = e' := by
  refine ⟨fun e => ?_, fun e e' n n' => tree_unique⟩
  rw [ofTokens_eq_ok, ofTokens_concat]
  constructor
  · rintro ⟨s, h⟩
    exact derives_of_line hb hs h
  · rintro ⟨n, hd, hn⟩
    exact line_of_derives hs hd hn

end

/-- Two levels of nesting are enough for a minus. -/
theorem ofTokens_negated :
    NoStop [⟨.minus, "-", 0⟩, ⟨.identifier, "x", 1⟩] ∧
    Expr.ofTokens (.count 2) ([⟨.minus, "-", 0⟩, ⟨.identifier, "x", 1⟩] ++ [⟨.stop, "", 2⟩]) =
      .ok (.negate (.identifier "x" 1) 0) := by
  have hb : NoStop [⟨.minus, "-", 0⟩, ⟨.identifier, "x", 1⟩] :=
    noStop_cons rfl (by decide) (noStop_one rfl (by decide))
  refine ⟨hb, ((ofTokens_eq_ok_iff hb rfl (.count 2)).1 _).mpr ⟨1, ?_, le_refl 2⟩⟩
  have hx : Derives .unary [⟨.identifier, "x", 1⟩] (.identifier "x" 1) 0 :=
    .term (.bare (.identifier rfl))
  have hp : Derives .power [⟨.minus, "-", 0⟩, ⟨.identifier, "x", 1⟩]
      (.negate (.identifier "x" 1) 0) 1 := .base (.negate rfl hx)
  exact .amount (.operand (c := .shift) (.operand (c := .sum) (.operand (c := .product) hp)))

end Grammar

end WeiCalc
