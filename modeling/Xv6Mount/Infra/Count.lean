import Mathlib.Algebra.BigOperators.Group.Finset.Basic
import Mathlib.Algebra.BigOperators.Group.Finset.Piecewise

/-!
# 表と slot 列の数え上げ

表 `t : ι → β` の各行から数を取り出して `Finset` の上で足したものと、slot の列の中の
`countP` が、書き換えでどう変わるか。

* `sum_frame`・`sum_frame₂` — 一行・二行の外で等しい表の和は、その行の分だけ違う
* `card_filter_frame` — 一行の外で等しい表で条件を満たす行の数も、その行の分だけ違う
* `countP_replace`・`pairwise_replace`・`mem_replace` — 列の中の一区間を置き換えたときの `countP`、
  `Pairwise` と要素

この file は数え上げる対象を知らない。
-/

namespace Infra

open Finset

section Table

variable {ι β : Type*} [DecidableEq ι]

/-- 行 `a` の外で `t` と等しい表 `t'` の和。 -/
theorem sum_frame (s : Finset ι) (g : β → ℕ) {t t' : ι → β} {a : ι} (ha : a ∈ s)
    (hframe : ∀ x, x ≠ a → t' x = t x) :
    ∑ x ∈ s, g (t' x) + g (t a) = ∑ x ∈ s, g (t x) + g (t' a) := by
  have h1 := add_sum_erase s (fun x => g (t' x)) ha
  have h2 := add_sum_erase s (fun x => g (t x)) ha
  have h3 : ∑ x ∈ s.erase a, g (t' x) = ∑ x ∈ s.erase a, g (t x) :=
    sum_congr rfl fun x hx => by rw [hframe x (ne_of_mem_erase hx)]
  omega

/-- 二行 `a`・`b` の外で `t` と等しい表 `t'` の和。行 `b` だけを書き換えた表を間に置く。 -/
theorem sum_frame₂ (s : Finset ι) (g : β → ℕ) {t t' : ι → β} {a b : ι} (ha : a ∈ s)
    (hb : b ∈ s) (hab : a ≠ b) (hframe : ∀ x, x ≠ a → x ≠ b → t' x = t x) :
    ∑ x ∈ s, g (t' x) + g (t a) + g (t b) = ∑ x ∈ s, g (t x) + g (t' a) + g (t' b) := by
  have hu : ∀ x, x ≠ a → t' x = Function.update t b (t' b) x := by
    intro x hx
    by_cases hxb : x = b
    · subst hxb; simp
    · rw [Function.update_of_ne hxb, hframe x hx hxb]
  have e1 := sum_frame s g ha hu
  have e2 : ∑ x ∈ s, g (Function.update t b (t' b) x) + g (t b) =
      ∑ x ∈ s, g (t x) + g (Function.update t b (t' b) b) :=
    sum_frame s g hb fun x hx => Function.update_of_ne hx _ _
  rw [Function.update_of_ne hab] at e1
  rw [Function.update_self] at e2
  omega

/-- 行 `a` の外で `t` と等しい表 `t'` で、`P` を満たす行の数。 -/
theorem card_filter_frame (s : Finset ι) (P : β → Prop) [DecidablePred P] (t t' : ι → β) {a : ι}
    (ha : a ∈ s) (hframe : ∀ x, x ≠ a → t' x = t x) :
    (s.filter fun x => P (t' x)).card + (if P (t a) then 1 else 0) =
      (s.filter fun x => P (t x)).card + (if P (t' a) then 1 else 0) := by
  rw [card_filter, card_filter]
  exact sum_frame s (fun b => if P b then 1 else 0) ha hframe

end Table

section Slots

variable {α : Type*}

/-- 列の一区間 `a` を `b` に置き換えると、`countP` はその区間の分だけ変わる。 -/
theorem countP_replace (p : α → Bool) (pre a b post : List α) :
    (pre ++ b ++ post).countP p + a.countP p = (pre ++ a ++ post).countP p + b.countP p := by
  simp only [List.countP_append]
  omega

/--
列の一区間 `a` を `b` に置き換えても `Pairwise R` は保たれる。`b` の中で `R` が成り立ち、
前後の要素との間でも成り立つとき。
-/
theorem pairwise_replace {R : α → α → Prop} {pre a b post : List α}
    (h : (pre ++ a ++ post).Pairwise R) (hb : b.Pairwise R)
    (hpre : ∀ x ∈ pre, ∀ y ∈ b, R x y) (hpost : ∀ x ∈ b, ∀ y ∈ post, R x y) :
    (pre ++ b ++ post).Pairwise R := by
  rw [List.pairwise_append, List.pairwise_append] at h ⊢
  obtain ⟨⟨hp, -, -⟩, hq, hcross⟩ := h
  refine ⟨⟨hp, hb, hpre⟩, hq, ?_⟩
  intro x hx y hy
  rcases List.mem_append.1 hx with hx | hx
  · exact hcross x (List.mem_append_left _ hx) y hy
  · exact hpost x hx y hy

/-- 区間 `a` を `b` に置き換えた列の要素は、元の列の要素か `b` の要素である。 -/
theorem mem_replace {x : α} {pre a b post : List α} (h : x ∈ pre ++ b ++ post) :
    x ∈ pre ++ a ++ post ∨ x ∈ b := by
  simp only [List.mem_append] at h ⊢
  rcases h with (h | h) | h
  · exact .inl (.inl (.inl h))
  · exact .inr h
  · exact .inl (.inr h)

/-- 置き換えた区間 `a` の外にあった要素は、置き換えた後にも残る。 -/
theorem mem_replace_of_not_mem {x : α} {pre a b post : List α} (h : x ∈ pre ++ a ++ post)
    (hx : x ∉ a) : x ∈ pre ++ b ++ post := by
  simp only [List.mem_append] at h ⊢
  rcases h with (h | h) | h
  · exact .inl (.inl h)
  · exact absurd h hx
  · exact .inr h

end Slots

end Infra
