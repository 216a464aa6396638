import Mathlib

/-!
# `next` でたどる列と輪

`Steps next l` は列 `l` の隣り合う二つが `next` で前から後ろへ結ばれていること
（`List.IsChain`）。`Steps next (a :: l ++ [a])` で `a :: l` に重なりがなければ、`a :: l` は
`next` の輪である。

* `steps_iterate` — 列の先頭から `k` 歩たどると `k` 番目の要素に着く
* `Steps.reach` — 重なりのない列のどの要素にも、それまでに同じ要素を通らずに着く
* `steps_rotate`・`Steps.reach_cycle` — 輪はどの要素からでも始められ、どの節点からどの節点にも着く
* `Steps.next_inj` — 輪の上で `next` は単射である
* `Steps.iterate_mem`・`Steps.reach_within` — 輪の節点から何歩進んでも輪の中にいて、戻るまでの間に
  輪のどの節点も通る
* `Steps.splice` — 二つの節点の間の節点をつなぎ替える
* `Steps.between_iff` — 昇順の輪で `free` の探索が止まる節点はただ一つ
* `loop_iterate`・`loop_exhaust` — 止まる条件を確かめてから一歩進む loop は、条件を満たす最初の
  要素で止まり、それより前に fuel が尽きれば fuel 0 の値になる

この file は kernel の何も知らない。
-/

namespace Infra

variable {α β : Type*} {next next' : α → α}

/-- 列 `l` の隣り合う二つは、`next` で前から後ろへ結ばれている。 -/
def Steps (next : α → α) (l : List α) : Prop := l.IsChain fun x y => next x = y

@[simp] theorem steps_nil : Steps next [] := List.IsChain.nil

@[simp] theorem steps_singleton (a : α) : Steps next [a] := List.isChain_singleton a

@[simp] theorem steps_cons_cons {a b : α} {l : List α} :
    Steps next (a :: b :: l) ↔ next a = b ∧ Steps next (b :: l) :=
  List.isChain_cons_cons

/-- 列を節点 `c` で二つに分ける。 -/
theorem steps_split {c : α} {l₁ l₂ : List α} :
    Steps next (l₁ ++ c :: l₂) ↔ Steps next (l₁ ++ [c]) ∧ Steps next (c :: l₂) :=
  List.isChain_split

/-- 列の前の部分も `next` で結ばれている。 -/
theorem Steps.of_append {l₁ l₂ : List α} (h : Steps next (l₁ ++ l₂)) : Steps next l₁ :=
  (List.isChain_append.mp h).1

/-- 列の最後の要素を除いて `next` が同じなら、同じ列をたどる。 -/
theorem Steps.congr {l : List α} (h : Steps next l) (he : ∀ y ∈ l.dropLast, next' y = next y) :
    Steps next' l := by
  induction l with
  | nil => exact steps_nil
  | cons a l ih =>
    cases l with
    | nil => exact steps_singleton a
    | cons b l =>
      obtain ⟨hab, hs⟩ := steps_cons_cons.mp h
      refine steps_cons_cons.mpr ⟨(he a (by simp)).trans hab, ih hs fun y hy => he y ?_⟩
      rw [List.dropLast_cons_cons]
      exact List.mem_cons_of_mem a hy

/-- 列の先頭から `k` 歩たどると、列の `k` 番目の要素に着く。 -/
theorem steps_iterate {a : α} {l : List α} (h : Steps next (a :: l)) :
    ∀ k (hk : k < (a :: l).length), next^[k] a = (a :: l)[k] := by
  induction l generalizing a with
  | nil =>
    intro k hk
    obtain rfl : k = 0 := by simpa using hk
    rfl
  | cons b l ih =>
    obtain ⟨hab, hs⟩ := steps_cons_cons.mp h
    intro k hk
    cases k with
    | zero => rfl
    | succ k =>
      rw [Function.iterate_succ_apply, hab, ih hs k (by simpa using hk)]
      rfl

/--
**着く歩数。** 重なりのない列 `a :: l` のどの要素 `y` にも、先頭から `l.length` 歩以内に着き、
それまでに通る節点は列の中の `y` でない節点である。
-/
theorem Steps.reach {a : α} {l : List α} (h : Steps next (a :: l)) (hnd : (a :: l).Nodup) {y : α}
    (hy : y ∈ a :: l) :
    ∃ d ≤ l.length, next^[d] a = y ∧ ∀ j < d, next^[j] a ∈ a :: l ∧ next^[j] a ≠ y := by
  induction l generalizing a with
  | nil =>
    obtain rfl : y = a := by simpa using hy
    exact ⟨0, le_refl _, rfl, fun j hj => absurd hj (Nat.not_lt_zero j)⟩
  | cons b l ih =>
    obtain ⟨hab, hs⟩ := steps_cons_cons.mp h
    obtain ⟨ha, hnd'⟩ := List.nodup_cons.mp hnd
    by_cases hya : y = a
    · subst hya
      exact ⟨0, Nat.zero_le _, rfl, fun j hj => absurd hj (Nat.not_lt_zero j)⟩
    · have hy' : y ∈ b :: l := by simpa [hya] using hy
      obtain ⟨d, hd, hnext, hbefore⟩ := ih hs hnd' hy'
      refine ⟨d + 1, by simpa using hd, by rw [Function.iterate_succ_apply, hab, hnext], ?_⟩
      intro j hj
      cases j with
      | zero => exact ⟨List.mem_cons_self, Ne.symm hya⟩
      | succ j =>
        rw [Function.iterate_succ_apply, hab]
        obtain ⟨hm, hne⟩ := hbefore j (by omega)
        exact ⟨List.mem_cons_of_mem a hm, hne⟩

/-- **輪を回す。** 輪 `a :: l₁ ++ m :: l₂` は `m` からも始められる。 -/
theorem steps_rotate {a m : α} {l₁ l₂ : List α} (h : Steps next (a :: l₁ ++ m :: l₂ ++ [a])) :
    Steps next (m :: l₂ ++ a :: l₁ ++ [m]) := by
  have e₁ : a :: l₁ ++ m :: l₂ ++ [a] = (a :: l₁) ++ m :: (l₂ ++ [a]) := by simp
  have e₂ : m :: l₂ ++ a :: l₁ ++ [m] = (m :: l₂) ++ a :: (l₁ ++ [m]) := by simp
  rw [e₁, steps_split] at h
  rw [e₂, steps_split]
  obtain ⟨h₁, h₂⟩ := h
  exact ⟨by simpa using h₂, by simpa using h₁⟩

/--
**輪の上で着く歩数。** 重なりのない輪 `a :: l` のどの節点 `x` からも、どの節点 `y` にも `l.length` 歩
以内に着き、それまでに通る節点は輪の中の `y` でない節点である。
-/
theorem Steps.reach_cycle {a x y : α} {l : List α} (h : Steps next (a :: l ++ [a]))
    (hnd : (a :: l).Nodup) (hx : x ∈ a :: l) (hy : y ∈ a :: l) :
    ∃ d ≤ l.length, next^[d] x = y ∧ ∀ j < d, next^[j] x ∈ a :: l ∧ next^[j] x ≠ y := by
  rcases List.mem_cons.mp hx with rfl | hx
  · exact Steps.reach h.of_append hnd hy
  · -- `x` から始まるように輪を回し、回した列で数える
    obtain ⟨l₁, l₂, rfl⟩ := List.append_of_mem hx
    have hrot : Steps next (x :: l₂ ++ a :: l₁ ++ [x]) := steps_rotate (by simpa using h)
    replace hrot : Steps next (x :: (l₂ ++ a :: l₁)) := by simpa using hrot.of_append
    have hperm : (x :: (l₂ ++ a :: l₁)).Perm (a :: (l₁ ++ x :: l₂)) := by
      simpa using @List.perm_append_comm _ (x :: l₂) (a :: l₁)
    obtain ⟨d, hd, hdy, hbefore⟩ :=
      hrot.reach (hperm.nodup_iff.mpr hnd) (hperm.mem_iff.mpr hy)
    refine ⟨d, by simp at hd ⊢; omega, hdy, fun j hj => ?_⟩
    obtain ⟨hm, hne⟩ := hbefore j hj
    exact ⟨hperm.mem_iff.mp hm, hne⟩

/-- **輪の上で `next` は単射である。** 重なりのない輪の二つの節点の `next` が同じなら、同じ節点である。 -/
theorem Steps.next_inj {a : α} {l : List α} (h : Steps next (a :: l ++ [a])) (hnd : (a :: l).Nodup)
    {x y : α} (hx : x ∈ a :: l) (hy : y ∈ a :: l) (hxy : next x = next y) : x = y := by
  -- 添字 `k` の節点の `next` は、輪を一つずらした列 `l ++ [a]` の添字 `k` の節点
  have hstep : ∀ k (hk : k < (a :: l).length) (hk' : k < (l ++ [a]).length),
      next (a :: l)[k] = (l ++ [a])[k] := by
    intro k hk hk'
    have h' : Steps next (a :: (l ++ [a])) := by simpa using h
    have e₁ := steps_iterate h' k (by simp at hk ⊢; omega)
    have e₂ := steps_iterate h' (k + 1) (by simp at hk ⊢; omega)
    rw [Function.iterate_succ_apply', e₁] at e₂
    simp only [← List.cons_append, List.getElem_append_left hk] at e₂
    simpa using e₂
  have hnd' : (l ++ [a]).Nodup := List.perm_append_singleton a l |>.nodup_iff.mpr hnd
  obtain ⟨i, hi, rfl⟩ := List.getElem_of_mem hx
  obtain ⟨j, hj, rfl⟩ := List.getElem_of_mem hy
  rw [hstep i hi (by simpa using hi), hstep j hj (by simpa using hj)] at hxy
  have hij := (hnd'.getElem_inj_iff).mp hxy
  subst hij
  rfl

/-- 列の中で隣り合う `x`、`y` は `next x = y` で結ばれる。 -/
theorem Steps.next_eq {l : List α} (h : Steps next l) (l₁ : List α) (x y : α) (l₂ : List α)
    (e : l = l₁ ++ x :: y :: l₂) : next x = y := by
  rw [e, steps_split] at h
  exact (steps_cons_cons.mp h.2).1

/-- 輪の節点の `next` は輪の節点である。 -/
theorem Steps.next_mem {a x : α} {l : List α} (h : Steps next (a :: l ++ [a])) (hx : x ∈ a :: l) :
    next x ∈ a :: l := by
  obtain ⟨l₁, l₂, e⟩ := List.append_of_mem hx
  cases l₂ with
  | nil =>
    rw [h.next_eq l₁ x a [] (by rw [e]; simp)]
    exact List.mem_cons_self
  | cons y l₂ =>
    rw [h.next_eq l₁ x y (l₂ ++ [a]) (by rw [e]; simp), e]
    simp

/-- 輪の節点から何歩進んでも、輪の節点である。 -/
theorem Steps.iterate_mem {a x : α} {l : List α} (h : Steps next (a :: l ++ [a])) (hx : x ∈ a :: l) :
    ∀ k, next^[k] x ∈ a :: l
  | 0 => hx
  | k + 1 => by
    rw [Function.iterate_succ_apply']
    exact h.next_mem (h.iterate_mem hx k)

/--
**戻るまでに輪を一周する。** 輪の節点 `x` から `d + 1` 歩で `x` に戻るなら、輪のどの節点にも、
1 歩以上 `d + 1` 歩以下で着く。
-/
theorem Steps.reach_within {a x y : α} {l : List α} (h : Steps next (a :: l ++ [a]))
    (hnd : (a :: l).Nodup) (hx : x ∈ a :: l) {d : Nat} (hret : next^[d + 1] x = x)
    (hy : y ∈ a :: l) : ∃ j ≤ d, next^[j + 1] x = y := by
  obtain ⟨e, -, hey, hmin⟩ := h.reach_cycle hnd hx hy
  cases e with
  | zero => exact ⟨d, Nat.le_refl d, by rw [hret]; exact hey⟩
  | succ j =>
    refine ⟨j, Nat.le_of_not_lt fun hjd => ?_, hey⟩
    -- `d + 1` 歩目で `x` に戻るので、`j + 1` 歩目の `y` には `j - d` 歩目で先に着いている
    have e : j + 1 = (j - d) + (d + 1) := by omega
    rw [e, Function.iterate_add_apply, hret] at hey
    exact (hmin (j - d) (by omega)).2 hey

/--
**輪の一部をつなぎ替える。** `p` と `q` の間の節点の列 `m` を `m'` に替える：`p` から `m'` を通って
`q` に着くように `next'` を変え、`p` より前と `q` から後ろの節点の `next` は変えない。節点を一つ入れる、
外す、替えるのはどれもこの形である。
-/
theorem Steps.splice {p q : α} {l₁ l₂ m m' : List α} (h : Steps next (l₁ ++ p :: m ++ q :: l₂))
    (hm : Steps next' (p :: m' ++ [q])) (h₁ : ∀ y ∈ l₁, next' y = next y)
    (h₂ : ∀ y ∈ (q :: l₂).dropLast, next' y = next y) : Steps next' (l₁ ++ p :: m' ++ q :: l₂) := by
  have e : l₁ ++ p :: m ++ q :: l₂ = l₁ ++ p :: (m ++ q :: l₂) := by simp
  rw [e, steps_split] at h
  obtain ⟨hl, hr⟩ := h
  rw [← List.cons_append, steps_split] at hr
  have hr' : Steps next' (p :: m' ++ q :: l₂) := steps_split.mpr ⟨hm, hr.2.congr h₂⟩
  have e' : l₁ ++ p :: m' ++ q :: l₂ = l₁ ++ p :: (m' ++ q :: l₂) := by simp
  rw [e', steps_split]
  refine ⟨hl.congr fun y hy => h₁ y ?_, hr'⟩
  simpa using hy

/--
**loop の止まる所。** 各歩で条件 `P` を確かめ、満たせば止まり、満たさなければ `next` へ進む
loop は、`x` から `d` 歩目で初めて `P` を満たすなら、`d` 歩より多い fuel でそこで止まる。
止まったときに残る fuel は `fuel - d - 1` である。
-/
theorem loop_iterate {P : α → Prop} [DecidablePred P] {loop : Nat → α → β} {done : Nat → α → β}
    (hloop : ∀ k x, loop (k + 1) x = if P x then done k x else loop k (next x)) :
    ∀ {d fuel : Nat} {x : α}, P (next^[d] x) → (∀ j < d, ¬ P (next^[j] x)) → d < fuel →
      loop fuel x = done (fuel - d - 1) (next^[d] x) := by
  intro d
  induction d with
  | zero =>
    intro fuel x hP _ hf
    obtain ⟨k, rfl⟩ : ∃ k, fuel = k + 1 := ⟨fuel - 1, by omega⟩
    have hx : P x := hP
    rw [hloop, if_pos hx]
    rfl
  | succ d ih =>
    intro fuel x hP hbefore hf
    obtain ⟨k, rfl⟩ : ∃ k, fuel = k + 1 := ⟨fuel - 1, by omega⟩
    have hx : ¬ P x := hbefore 0 (Nat.zero_lt_succ d)
    rw [hloop, if_neg hx]
    rw [Function.iterate_succ_apply] at hP ⊢
    rw [ih hP (fun j hj => by simpa [Function.iterate_succ_apply] using hbefore (j + 1) (by omega))
      (by omega)]
    congr 1
    omega

/-- 止まる所に着く前に fuel が尽きれば、loop は fuel 0 で着いた要素の値になる。 -/
theorem loop_exhaust {P : α → Prop} [DecidablePred P] {loop : Nat → α → β} {done : Nat → α → β}
    (hloop : ∀ k x, loop (k + 1) x = if P x then done k x else loop k (next x)) :
    ∀ {fuel : Nat} {x : α}, (∀ j < fuel, ¬ P (next^[j] x)) → loop fuel x = loop 0 (next^[fuel] x)
  | 0, _, _ => rfl
  | fuel + 1, x, hno => by
    have hx : ¬ P x := hno 0 (Nat.succ_pos fuel)
    rw [hloop, if_neg hx, Function.iterate_succ_apply]
    exact loop_exhaust hloop fun j hj => by
      simpa [Function.iterate_succ_apply] using hno (j + 1) (by omega)

/-! ## 昇順の輪の上の探索 -/

section Sorted

variable [LinearOrder α]

/--
`umalloc.c` の `free` が探索を止める条件。`b` が `x` と次の節点 `y` の間にあるか、`x` が輪の折り返し点
（`y ≤ x`）で `b` が輪の両端の外にある。
-/
def Between (x y b : α) : Prop := (x < b ∧ b < y) ∨ (y ≤ x ∧ (x < b ∨ b < y))

instance (x y b : α) : Decidable (Between x y b) :=
  inferInstanceAs (Decidable ((x < b ∧ b < y) ∨ (y ≤ x ∧ (x < b ∨ b < y))))

/--
**昇順の輪の上の探索。** 昇順の輪 `L ++ p :: R` で、`L ++ [p]` の節点はどれも `b` より小さく、
`R` の節点はどれも `b` より大きいとき、`Between x (next x) b` を満たす節点は `p` だけである。
輪の閉じる先 `a` は `L ++ [p]` のどれでもよい。
-/
theorem Steps.between_iff {a b p x : α} {L R : List α} (h : Steps next (L ++ p :: R ++ [a]))
    (hs : (L ++ p :: R).Pairwise (· < ·)) (ha : a ∈ L ++ [p]) (hL : ∀ y ∈ L ++ [p], y < b)
    (hR : ∀ y ∈ R, b < y) (hx : x ∈ L ++ p :: R) : Between x (next x) b ↔ x = p := by
  obtain ⟨hsL, hsR, hLR⟩ := List.pairwise_append.mp hs
  obtain ⟨hpR, hsR'⟩ := List.pairwise_cons.mp hsR
  have hab : a < b := hL a ha
  rcases List.mem_append.mp hx with hxL | hxR
  · -- `x` は `p` より前：次の節点も `b` より小さく、`x` より大きい
    obtain ⟨L₁, L₂, rfl⟩ := List.append_of_mem hxL
    have hxp : x < p := hLR x hxL p List.mem_cons_self
    have hnext : next x < b ∧ x < next x := by
      cases L₂ with
      | nil =>
        rw [h.next_eq L₁ x p (R ++ [a]) (by simp)]
        exact ⟨hL p (by simp), hxp⟩
      | cons y L₂ =>
        rw [h.next_eq L₁ x y (L₂ ++ p :: R ++ [a]) (by simp)]
        obtain ⟨-, hs₂, -⟩ := List.pairwise_append.mp hsL
        exact ⟨hL y (by simp), (List.pairwise_cons.mp hs₂).1 y List.mem_cons_self⟩
    simp only [Between, ne_of_lt hxp, iff_false]
    rintro (⟨-, hb⟩ | ⟨hle, -⟩)
    · exact lt_asymm hb hnext.1
    · exact absurd hnext.2 (not_lt_of_ge hle)
  · rcases List.mem_cons.mp hxR with rfl | hxR
    · -- `x = p`：次の節点は `R` の先頭か、`R` が空なら輪の閉じる先 `a`
      simp only [iff_true]
      have hxb : x < b := hL x (by simp)
      cases R with
      | nil =>
        rw [h.next_eq L x a [] (by simp)]
        have hax : a ≤ x := by
          rcases List.mem_append.mp ha with haL | hax
          · exact le_of_lt (hLR a haL x List.mem_cons_self)
          · exact le_of_eq (List.mem_singleton.mp hax)
        exact Or.inr ⟨hax, Or.inl hxb⟩
      | cons r R =>
        rw [h.next_eq L x r (R ++ [a]) (by simp)]
        exact Or.inl ⟨hxb, hR r List.mem_cons_self⟩
    · -- `x` は `p` より後ろ：`b` より大きく、次の節点は `x` より大きいか、折り返して `a`
      obtain ⟨R₁, R₂, rfl⟩ := List.append_of_mem hxR
      have hbx : b < x := hR x hxR
      simp only [Between, ne_of_gt (hpR x hxR), iff_false]
      cases R₂ with
      | nil =>
        rw [h.next_eq (L ++ p :: R₁) x a [] (by simp)]
        rintro (⟨hxb, -⟩ | ⟨-, hxb | hba⟩)
        · exact lt_asymm hxb hbx
        · exact lt_asymm hxb hbx
        · exact lt_asymm hba hab
      | cons y R₂ =>
        rw [h.next_eq (L ++ p :: R₁) x y (R₂ ++ [a]) (by simp)]
        obtain ⟨-, hs₂, -⟩ := List.pairwise_append.mp hsR'
        have hxy : x < y := (List.pairwise_cons.mp hs₂).1 y List.mem_cons_self
        rintro (⟨hxb, -⟩ | ⟨hyx, -⟩)
        · exact lt_asymm hxb hbx
        · exact absurd hxy (not_lt_of_ge hyx)

end Sorted

end Infra
