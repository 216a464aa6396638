import Mathlib.Data.List.Nodup

/-!
# 配列の中の片方向リスト

配列の要素を `next` でつないだ、null 終端のリスト。`nxt c` は要素 `c` の `next` である。
`LinkedFrom nxt head l` は「`head` からたどると列 `l` を通って null に着く」ことを言う。
同じ要素を二度通らないので、循環しない。

* `LinkedFrom.unique` — たどった列は一つに決まる
* `LinkedFrom.push` — 新しい要素を先頭に足す
* `LinkedFrom.unlink_cons` — 要素を一つ外す（直前の要素の `next` を付け替える）
-/

namespace Infra

/-- `head` から `nxt` でたどると、ちょうど列 `l` を通って null に着く。 -/
inductive LinkedFrom (nxt : Nat → Option Nat) : Option Nat → List Nat → Prop
  | nil : LinkedFrom nxt none []
  | cons {c : Nat} {l : List Nat} :
      c ∉ l → LinkedFrom nxt (nxt c) l → LinkedFrom nxt (some c) (c :: l)

variable {nxt nxt' : Nat → Option Nat} {head : Option Nat} {l : List Nat}

theorem LinkedFrom.nodup (h : LinkedFrom nxt head l) : l.Nodup := by
  induction h with
  | nil => exact List.nodup_nil
  | cons hc _ ih => exact List.nodup_cons.mpr ⟨hc, ih⟩

/-- たどった列は一つに決まる。 -/
theorem LinkedFrom.unique {l₁ l₂ : List Nat} (h₁ : LinkedFrom nxt head l₁)
    (h₂ : LinkedFrom nxt head l₂) : l₁ = l₂ := by
  induction h₁ generalizing l₂ with
  | nil => cases h₂; rfl
  | cons _ _ ih =>
    cases h₂ with
    | cons _ h₂' => rw [ih h₂']

/-- 列の上で `next` が同じなら、同じ列をたどる。 -/
theorem LinkedFrom.congr (h : LinkedFrom nxt head l) (he : ∀ c ∈ l, nxt' c = nxt c) :
    LinkedFrom nxt' head l := by
  induction h with
  | nil => exact .nil
  | @cons c l hc _ ih =>
    refine .cons hc ?_
    rw [he c List.mem_cons_self]
    exact ih fun x hx => he x (List.mem_cons_of_mem c hx)

/-- 列にない要素 `c` の `next` を `head` にして、`c` を新しい先頭にする。 -/
theorem LinkedFrom.push {c : Nat} (h : LinkedFrom nxt head l) (hc : c ∉ l) (hn : nxt' c = head)
    (he : ∀ x ∈ l, nxt' x = nxt x) : LinkedFrom nxt' (some c) (c :: l) :=
  .cons hc (hn ▸ h.congr he)

/-- 先頭の要素を外すと、その `next` から残りの列をたどる。 -/
theorem LinkedFrom.tail {c : Nat} (h : LinkedFrom nxt (some c) (c :: l)) : LinkedFrom nxt (nxt c) l := by
  cases h with
  | cons _ h' => exact h'

/--
**要素を一つ外す。** 列 `l₁ ++ p :: c :: l₂` の `p` の `next` を `c` の `next` に付け替えると、
列 `l₁ ++ p :: l₂` をたどる。
-/
theorem LinkedFrom.unlink_cons {p c : Nat} :
    ∀ {head : Option Nat} (l₁ : List Nat) {l₂ : List Nat},
    LinkedFrom nxt head (l₁ ++ p :: c :: l₂) → nxt' p = nxt c →
    (∀ x ∈ l₁ ++ l₂, nxt' x = nxt x) → LinkedFrom nxt' head (l₁ ++ p :: l₂)
  | head, [], l₂, h, hp, he => by
    cases h with
    | cons hpn h' =>
      generalize hq : nxt p = q at h'
      cases h' with
      | cons _ h'' =>
        refine .cons (fun hm => hpn (List.mem_cons_of_mem c hm)) ?_
        rw [hp]
        exact h''.congr fun x hx => he x (by simpa using hx)
  | head, x :: l₁, l₂, h, hp, he => by
    have hsub : ∀ y, y ∈ l₁ ++ p :: l₂ → y ∈ l₁ ++ p :: c :: l₂ := by
      intro y hy
      simp only [List.mem_append, List.mem_cons] at hy ⊢
      tauto
    cases h with
    | cons hx h' =>
      refine .cons (fun hm => hx (hsub x hm)) ?_
      rw [he x List.mem_cons_self]
      exact LinkedFrom.unlink_cons l₁ h' hp fun y hy => he y (List.mem_cons_of_mem x hy)

end Infra
