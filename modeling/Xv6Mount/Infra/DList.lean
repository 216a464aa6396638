import Mathlib.Data.List.Nodup

/-!
# 番兵を持つ環状の双方向リスト

節点の型 `α` の上の二つの関数 `next`・`prev` でつないだリスト。番兵 `h` から `next` でたどると
列 `l` を順に通って `h` に戻り、通る各節点の `prev` は一つ前の節点を指す（`Ring next prev h l`）。

* `seg_append` — 区間は途中の節点で二つに分かれる
* `Seg.congr` — 区間は、通る節点の `next` と `prev` だけで決まる
* `Seg.reverse` — `prev` でたどれば同じ節点を逆順に通る
* `Seg.prev_next`・`Seg.next_prev` — 各節点の `next` の `prev`、`prev` の `next` はその節点である
* `Ring.unique` — 環が通る列は `next` で一つに決まる
* `Ring.linkFront` — 番兵の直後に節点をつなぐ四つの代入
* `Ring.unlink` — 節点を外して前後をつなぐ二つの代入
* `ringFind_eq` — 番兵に戻るまでたどる探索は、列の上の `findSome?` である

この file は節点が何かを知らない。
-/

namespace Infra

variable {α β : Type*}

/-- `a` から `next` で列 `l` を順にたどって `z` に着き、通る各節点の `prev` は一つ前を指す。 -/
def Seg (next prev : α → α) : α → List α → α → Prop
  | a, [], z => next a = z ∧ prev z = a
  | a, x :: l, z => next a = x ∧ prev x = a ∧ Seg next prev x l z

/-- 番兵 `h` から始まる環状の双方向リストが、列 `l` を順に通って `h` に戻る。 -/
structure Ring (next prev : α → α) (h : α) (l : List α) : Prop where
  nodup : (h :: l).Nodup
  seg : Seg next prev h l h

variable {next prev next' prev' : α → α}

@[simp] theorem seg_nil {a z : α} : Seg next prev a [] z ↔ next a = z ∧ prev z = a := Iff.rfl

@[simp] theorem seg_cons {a x z : α} {l : List α} :
    Seg next prev a (x :: l) z ↔ next a = x ∧ prev x = a ∧ Seg next prev x l z := Iff.rfl

/-- 区間は途中の節点 `m` で二つに分かれる。 -/
theorem seg_append {a m z : α} {l₁ l₂ : List α} :
    Seg next prev a (l₁ ++ m :: l₂) z ↔ Seg next prev a l₁ m ∧ Seg next prev m l₂ z := by
  induction l₁ generalizing a with
  | nil => simp [and_assoc]
  | cons x l₁ ih => simp [ih, and_assoc]

/-- 区間は、通る節点の `next` と、着く節点の `prev` だけで決まる。 -/
theorem Seg.congr {a z : α} {l : List α} (hs : Seg next prev a l z)
    (hn : ∀ y ∈ a :: l, next' y = next y) (hp : ∀ y ∈ l ++ [z], prev' y = prev y) :
    Seg next' prev' a l z := by
  induction l generalizing a with
  | nil =>
    obtain ⟨h₁, h₂⟩ := hs
    exact ⟨(hn a (by simp)).trans h₁, (hp z (by simp)).trans h₂⟩
  | cons x l ih =>
    obtain ⟨h₁, h₂, hs⟩ := hs
    refine ⟨(hn a (by simp)).trans h₁, (hp x (by simp)).trans h₂, ih hs ?_ ?_⟩
    · intro y hy
      exact hn y (List.mem_cons_of_mem a hy)
    · intro y hy
      exact hp y (List.mem_cons_of_mem x hy)

/-- `prev` でたどれば、同じ区間を逆順に通る。 -/
theorem Seg.reverse {a z : α} {l : List α} (hs : Seg next prev a l z) : Seg prev next z l.reverse a := by
  induction l generalizing a with
  | nil => exact ⟨hs.2, hs.1⟩
  | cons x l ih =>
    obtain ⟨h₁, h₂, hs⟩ := hs
    rw [List.reverse_cons, seg_append]
    exact ⟨ih hs, h₂, h₁⟩

/-- 区間の各節点の `next` の `prev` は、その節点である（`b->next->prev == b`）。 -/
theorem Seg.prev_next {a z : α} {l : List α} (hs : Seg next prev a l z) :
    ∀ b ∈ a :: l, prev (next b) = b := by
  induction l generalizing a with
  | nil =>
    intro b hb
    rw [List.mem_singleton.mp hb, hs.1, hs.2]
  | cons x l ih =>
    obtain ⟨h₁, h₂, hs⟩ := hs
    intro b hb
    rcases List.mem_cons.mp hb with rfl | hb
    · rw [h₁, h₂]
    · exact ih hs b hb

/-- 区間の各節点の `prev` の `next` は、その節点である（`b->prev->next == b`）。 -/
theorem Seg.next_prev {a z : α} {l : List α} (hs : Seg next prev a l z) :
    ∀ b ∈ l ++ [z], next (prev b) = b := by
  induction l generalizing a with
  | nil =>
    intro b hb
    rw [List.nil_append, List.mem_singleton] at hb
    rw [hb, hs.2, hs.1]
  | cons x l ih =>
    obtain ⟨h₁, h₂, hs⟩ := hs
    intro b hb
    rcases List.mem_cons.mp hb with rfl | hb
    · rw [h₂, h₁]
    · exact ih hs b hb

/-- `z` を途中で通らない区間は、`next` だけで一つに決まる。 -/
theorem Seg.unique {a z : α} {l₁ l₂ : List α} (h₁ : Seg next prev a l₁ z) (h₂ : Seg next prev a l₂ z)
    (hz₁ : z ∉ l₁) (hz₂ : z ∉ l₂) : l₁ = l₂ := by
  induction l₁ generalizing a l₂ with
  | nil =>
    cases l₂ with
    | nil => rfl
    | cons y l₂ =>
      have hy : y = z := h₂.1.symm.trans h₁.1
      exact absurd (hy ▸ List.mem_cons_self) hz₂
  | cons x l₁ ih =>
    cases l₂ with
    | nil =>
      have hx : x = z := h₁.1.symm.trans h₂.1
      exact absurd (hx ▸ List.mem_cons_self) hz₁
    | cons y l₂ =>
      have hxy : x = y := h₁.1.symm.trans h₂.1
      subst hxy
      rw [ih h₁.2.2 h₂.2.2 (fun e => hz₁ (List.mem_cons_of_mem x e))
        (fun e => hz₂ (List.mem_cons_of_mem x e))]

/-- 環が通る列は一つに決まる。 -/
theorem Ring.unique {h : α} {l₁ l₂ : List α} (h₁ : Ring next prev h l₁) (h₂ : Ring next prev h l₂) :
    l₁ = l₂ :=
  h₁.seg.unique h₂.seg (List.nodup_cons.mp h₁.nodup).1 (List.nodup_cons.mp h₂.nodup).1

/-- 環の各節点で `next` と `prev` は互いに逆である（`b->next->prev == b`、`b->prev->next == b`）。 -/
theorem Ring.inverse {h : α} {l : List α} (hr : Ring next prev h l) :
    ∀ b ∈ h :: l, prev (next b) = b ∧ next (prev b) = b := by
  intro b hb
  refine ⟨hr.seg.prev_next b hb, hr.seg.next_prev b ?_⟩
  rcases List.mem_cons.mp hb with rfl | hb
  · exact List.mem_append_right _ (List.mem_singleton_self b)
  · exact List.mem_append_left _ hb

/-- 番兵だけの環。 -/
theorem ring_nil {h : α} (hn : next h = h) (hp : prev h = h) : Ring next prev h [] :=
  ⟨List.nodup_singleton h, hn, hp⟩

/--
`x` を外した後の、`x` の前の節点 `p` から `x` の後ろの区間。`p` の `next` と `next x` の `prev` が
つなぎ直され、区間の中の節点は元のままである。
-/
theorem Seg.bypass {p x z : α} {l : List α} (hs : Seg next prev x l z) (hnd : (l ++ [z]).Nodup)
    (hn' : next' p = next x) (hp' : prev' (next x) = p) (hn : ∀ y ∈ l, next' y = next y)
    (hp : ∀ y ∈ l ++ [z], y ≠ next x → prev' y = prev y) : Seg next' prev' p l z := by
  cases l with
  | nil => exact ⟨hn'.trans hs.1, hs.1 ▸ hp'⟩
  | cons y l =>
    obtain ⟨h₁, -, hs⟩ := hs
    subst h₁
    have hy : next x ∉ l ++ [z] := (List.nodup_cons.mp hnd).1
    refine ⟨hn', hp', hs.congr (fun w hw => hn w hw) fun w hw => hp w (List.mem_cons_of_mem _ hw) ?_⟩
    rintro rfl
    exact hy hw

/--
環の列 `h :: (pre ++ x :: post)` の部分の重なりのなさ。`x` を抜いた列、`x` の後ろの区間 `post ++ [h]`
に重なりはなく、`x` も `pre` の節点も `post ++ [h]` にない。
-/
theorem nodup_parts {h x : α} {pre post : List α} (hnd : (h :: (pre ++ x :: post)).Nodup) :
    (h :: (pre ++ post)).Nodup ∧ (post ++ [h]).Nodup ∧ x ∉ post ++ [h] ∧ ∀ y ∈ pre, y ∉ post ++ [h] := by
  -- `x` を先頭に、`h` を末尾に回した並べ替え
  have hp : (h :: (pre ++ x :: post)).Perm (x :: (pre ++ (post ++ [h]))) := by
    rw [← List.append_assoc]
    refine (List.perm_middle.cons h).trans ((List.Perm.swap x h _).trans ?_)
    exact (List.perm_append_singleton h (pre ++ post)).symm.cons x
  obtain ⟨hx, hrest⟩ := List.nodup_cons.mp (hp.nodup_iff.mp hnd)
  obtain ⟨-, hpz, hdisj⟩ := List.nodup_append.mp hrest
  refine ⟨hnd.sublist (((List.sublist_cons_self x post).append_left pre).cons_cons h), hpz,
    fun e => hx (List.mem_append_right _ e), fun y hy e => hdisj y hy y e rfl⟩

section update

variable [DecidableEq α] {h x : α} {l : List α}

/--
**番兵の直後につなぐ。** 環にない節点 `x` に対して、`x->next = h->next; x->prev = h;
h->next->prev = x; h->next = x;` をこの順に行うと、`x` が列の先頭に入る。
-/
theorem Ring.linkFront (hr : Ring next prev h l) (hx : x ∉ h :: l) :
    Ring (Function.update (Function.update next x (next h)) h x)
      (Function.update (Function.update prev x h) (Function.update next x (next h) h) x) h (x :: l) := by
  have hxh : x ≠ h := fun e => hx (e ▸ List.mem_cons_self)
  have hxl : x ∉ l := fun e => hx (List.mem_cons_of_mem h e)
  have hnh : Function.update next x (next h) h = next h := Function.update_of_ne hxh.symm _ _
  obtain ⟨hhl, hnd⟩ := List.nodup_cons.mp hr.nodup
  have hhx : h ∉ x :: l := by
    simp only [List.mem_cons, not_or]
    exact ⟨hxh.symm, hhl⟩
  refine ⟨List.nodup_cons.mpr ⟨hhx, List.nodup_cons.mpr ⟨hxl, hnd⟩⟩, ?_⟩
  rw [hnh]
  -- 元の環の最初の一歩 `h → next h` が、`h → x → next h` に替わる
  cases l with
  | nil =>
    obtain ⟨h₁, h₂⟩ := hr.seg
    simp [h₁, hxh]
  | cons y l =>
    obtain ⟨h₁, h₂, hs⟩ := hr.seg
    have hyh : y ≠ h := fun e => hhl (e ▸ List.mem_cons_self)
    have hxy : x ≠ y := fun e => hxl (e ▸ List.mem_cons_self)
    refine ⟨by simp, by simp [h₁, hxy], by simp [hxh, h₁], by simp [h₁], hs.congr ?_ ?_⟩
    · intro z hz
      have hzh : z ≠ h := fun e => hhl (e ▸ hz)
      have hzx : z ≠ x := fun e => hxl (e ▸ hz)
      simp [hzh, hzx]
    · intro z hz
      have hzx : z ≠ x := by
        rintro rfl
        simp only [List.mem_append, List.mem_singleton] at hz
        rcases hz with hz | hz
        · exact hxl (List.mem_cons_of_mem y hz)
        · exact hxh hz
      have hzy : z ≠ y := by
        rintro rfl
        simp only [List.mem_append, List.mem_singleton] at hz
        rcases hz with hz | hz
        · exact (List.nodup_cons.mp hnd).1 hz
        · exact hyh hz
      simp [hzx, hzy, h₁]

/--
**節点を外す。** 環の節点 `x` に対して、`x->next->prev = x->prev; x->prev->next = x->next;` を
この順に行うと、`x` が列から抜けて前後がつながる。
-/
theorem Ring.unlink {pre post : List α} (hr : Ring next prev h (pre ++ x :: post)) :
    Ring (Function.update next (Function.update prev (next x) (prev x) x) (next x))
      (Function.update prev (next x) (prev x)) h (pre ++ post) := by
  obtain ⟨hpre, hpost⟩ := seg_append.mp hr.seg
  obtain ⟨hnd', hpostz, hxz, hprez⟩ := nodup_parts hr.nodup
  have hhpost : h ∉ post := fun e => (List.nodup_append.mp hpostz).2.2 h e h (List.mem_singleton_self h) rfl
  refine ⟨hnd', ?_⟩
  -- `next x` は `post ++ [h]` の最初の節点
  have hnx : next x ∈ post ++ [h] := by
    cases post with
    | nil => simp [hpost.1]
    | cons y post => simp [hpost.1]
  rw [Function.update_of_ne fun e : x = next x => hxz (e ▸ hnx)]
  rcases List.eq_nil_or_concat' pre with rfl | ⟨pre', p, rfl⟩
  · -- `x` が先頭：前の節点は番兵
    have hp : prev x = h := hpre.2
    rw [List.nil_append, hp]
    refine hpost.bypass hpostz (by simp) (by simp) (fun y hy => ?_) (fun y _ hy => ?_)
    · have hyh : y ≠ h := fun e => hhpost (e ▸ hy)
      simp [hyh]
    · simp [hy]
  · rw [seg_append] at hpre
    obtain ⟨hpre', hp₁, hp₂⟩ := hpre
    rw [List.append_assoc, List.singleton_append, seg_append, hp₂]
    refine ⟨hpre'.congr (fun y hy => ?_) (fun y hy => ?_), hpost.bypass hpostz (by simp) (by simp)
      (fun y hy => ?_) (fun y _ hy => ?_)⟩
    · -- `pre'` の節点と番兵は `p` でない
      have hyp : y ≠ p := by
        rintro rfl
        have hnd₀ := List.nodup_cons.mp hnd'
        simp only [List.mem_cons] at hy
        rcases hy with rfl | hy
        · exact hnd₀.1 (by simp)
        · have := (List.nodup_append.mp (List.nodup_append.mp hnd₀.2).1).2.2 y hy
          exact this y (by simp) rfl
      simp [hyp]
    · have hyn : y ≠ next x := fun e => hprez y hy (e ▸ hnx)
      simp [hyn]
    · have hyp : y ≠ p := fun e => hprez y (by simp [e]) (by simp [hy])
      simp [hyp]
    · simp [hy]

end update

/-! ## 番兵に戻るまでの探索 -/

/--
`a` から `step` でたどり、番兵 `h` に戻るまでに `sel` が値を返す最初の節点の値。戻れば `some none`。
`fuel` 個の節点を見ても番兵に戻らなければ `none` で、探索は止まらない。
-/
def ringFind [DecidableEq α] (step : α → α) (h : α) (sel : α → Option β) : Nat → α → Option (Option β)
  | 0, a => if a = h then some none else none
  | k + 1, a =>
    if a = h then some none
    else match sel a with
      | some b => some (some b)
      | none => ringFind step h sel k (step a)

/-- 区間 `a … h` の節点の数だけ fuel があれば、探索は区間の上の `findSome?` を返す。 -/
theorem ringFind_eq [DecidableEq α] {sel : α → Option β} {a h : α} {l : List α} {k : Nat}
    (hs : Seg next prev a l h) (hl : h ∉ l) (hk : l.length ≤ k) :
    ringFind next h sel k (next a) = some (l.findSome? sel) := by
  induction l generalizing a k with
  | nil =>
    rw [hs.1]
    cases k <;> simp [ringFind]
  | cons x l ih =>
    obtain ⟨h₁, -, hs⟩ := hs
    have hxh : x ≠ h := fun e => hl (e ▸ List.mem_cons_self)
    obtain ⟨k, rfl⟩ : ∃ k', k = k' + 1 := ⟨k - 1, by simp at hk; omega⟩
    rw [h₁]
    simp only [ringFind, if_neg hxh, List.findSome?_cons]
    cases sel x with
    | some b => rfl
    | none => exact ih hs (fun e => hl (List.mem_cons_of_mem x e)) (by simp at hk; omega)

end Infra
