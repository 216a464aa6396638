import Mathlib

/-!
# 区切りで行に分ける

列を区切り `sep` で行に分ける。行の本体（区切りを除いたもの）の列と、最後の区切りの後に残る
区切りのない部分に分かれる。`Lines sep s bodies tail` はその分け方を述べ、`splitLines` が計算する。

* `Lines.unique`・`lines_splitLines`・`Lines.splitLines_eq` — 分け方は一つしかなく、`splitLines` が
  それを計算する
* `Lines.append` — 分けた残りに続きをつないで分ければ、全体を分けたことになる
* `Lines.prepend_line`・`Lines.prepend_tail` — 区切りのない塊を前につなぐと、最初の行か残りが延びる
* `Lines.bodies_eq_nil_iff` — 行が一つもないのは、区切りが現れないときだけ

この file は kernel の何も知らない。
-/

namespace Infra

variable {α : Type*} (sep : α)

/-- 行の本体に区切りを戻してつなぐ。 -/
def joinLines (bodies : List (List α)) : List α := bodies.flatMap (fun b => b ++ [sep])

/-- `s` を区切りで分けると、本体の列 `bodies` と残り `tail` になる。 -/
structure Lines (s : List α) (bodies : List (List α)) (tail : List α) : Prop where
  eq : s = joinLines sep bodies ++ tail
  bodies_sep : ∀ b ∈ bodies, sep ∉ b
  tail_sep : sep ∉ tail

/-- 区切りで行に分ける。先頭が区切りなら空の行が一つ終わり、そうでなければ先頭は最初の行（なければ残り）に入る。 -/
def splitLines [DecidableEq α] : List α → List (List α) × List α
  | [] => ([], [])
  | x :: xs =>
    let r := splitLines xs
    if x = sep then ([] :: r.1, r.2)
    else
      match r.1 with
      | [] => ([], x :: r.2)
      | b :: bs => ((x :: b) :: bs, r.2)

variable {sep}

/-! ## 分け方 -/

@[simp] theorem joinLines_nil : joinLines sep [] = [] := rfl

theorem joinLines_cons (b : List α) (bs : List (List α)) :
    joinLines sep (b :: bs) = b ++ sep :: joinLines sep bs := by
  simp [joinLines]

theorem joinLines_append (bs bs' : List (List α)) :
    joinLines sep (bs ++ bs') = joinLines sep bs ++ joinLines sep bs' := List.flatMap_append

/-- 行の区切りまでの長さは、各行の本体と区切りの長さの和。 -/
theorem length_joinLines (bs : List (List α)) :
    (joinLines sep bs).length = (bs.map (fun b => b.length + 1)).sum := by
  induction bs with
  | nil => rfl
  | cons b bs ih =>
    rw [joinLines_cons, List.length_append, List.length_cons, ih, List.map_cons, List.sum_cons]
    omega

/-- 行の数は、区切りまでの長さを越えない。 -/
theorem length_le_length_joinLines (bs : List (List α)) : bs.length ≤ (joinLines sep bs).length := by
  rw [length_joinLines]
  induction bs with
  | nil => simp
  | cons b bs ih =>
    rw [List.map_cons, List.sum_cons, List.length_cons]
    omega

/-- どの行の本体も、区切りまでの長さより短い。 -/
theorem length_lt_length_joinLines {b : List α} : ∀ {bs : List (List α)}, b ∈ bs →
    b.length < (joinLines sep bs).length
  | x :: bs, hb => by
    rw [joinLines_cons, List.length_append, List.length_cons]
    rcases List.mem_cons.mp hb with rfl | hb
    · omega
    · have := length_lt_length_joinLines hb
      omega

/-- 行が一つでもあれば、区切りまでの長さは正。 -/
theorem length_joinLines_pos {bs : List (List α)} (hbs : bs ≠ []) : 0 < (joinLines sep bs).length := by
  obtain ⟨b, bs', rfl⟩ := List.exists_cons_of_ne_nil hbs
  rw [joinLines_cons, List.length_append, List.length_cons]
  omega

/-- 区切りが現れなければ、行はなく全部が残りである。 -/
theorem Lines.of_not_mem {t : List α} (ht : sep ∉ t) : Lines sep t [] t :=
  ⟨rfl, by simp, ht⟩

/-- 区切りのない本体と区切りを前につなぐと、行が一つ増える。 -/
theorem Lines.cons {b r t : List α} {bs : List (List α)} (hb : sep ∉ b) (h : Lines sep r bs t) :
    Lines sep (b ++ sep :: r) (b :: bs) t := by
  refine ⟨?_, ?_, h.tail_sep⟩
  · rw [h.eq, joinLines_cons]
    simp
  · intro x hx
    rcases List.mem_cons.mp hx with rfl | hx
    · exact hb
    · exact h.bodies_sep x hx

/-- 区切りのない塊を前につなぐと、最初の行が延びる。 -/
theorem Lines.prepend_line {u r b t : List α} {bs : List (List α)} (hu : sep ∉ u)
    (h : Lines sep r (b :: bs) t) : Lines sep (u ++ r) ((u ++ b) :: bs) t := by
  refine ⟨?_, ?_, h.tail_sep⟩
  · rw [h.eq, joinLines_cons, joinLines_cons]
    simp
  · intro x hx
    rcases List.mem_cons.mp hx with rfl | hx
    · simp [hu, h.bodies_sep b (by simp)]
    · exact h.bodies_sep x (List.mem_cons_of_mem _ hx)

/-- 区切りのない塊を、行のない列の前につなぐと、残りが延びる。 -/
theorem Lines.prepend_tail {u r t : List α} (hu : sep ∉ u) (h : Lines sep r [] t) :
    Lines sep (u ++ r) [] (u ++ t) := by
  refine ⟨?_, by simp, ?_⟩
  · rw [h.eq]
    rfl
  · simp [hu, h.tail_sep]

/-- **分けた残りに続きをつないで分ければ、全体を分けたことになる。** -/
theorem Lines.append {u t r t' : List α} {bs bs' : List (List α)} (h : Lines sep u bs t)
    (h' : Lines sep (t ++ r) bs' t') : Lines sep (u ++ r) (bs ++ bs') t' := by
  refine ⟨?_, ?_, h'.tail_sep⟩
  · rw [h.eq, List.append_assoc, h'.eq, joinLines_append, List.append_assoc]
  · intro b hb
    rcases List.mem_append.mp hb with hb | hb
    · exact h.bodies_sep b hb
    · exact h'.bodies_sep b hb

/-- **行が一つもないのは、区切りが現れないときだけ。** -/
theorem Lines.bodies_eq_nil_iff {s t : List α} {bs : List (List α)} (h : Lines sep s bs t) :
    bs = [] ↔ sep ∉ s := by
  constructor
  · rintro rfl
    rw [h.eq]
    exact h.tail_sep
  · intro hs
    cases bs with
    | nil => rfl
    | cons b bs =>
      exfalso
      apply hs
      rw [h.eq, joinLines_cons]
      simp

/-- 最初の区切りの前と後は、区切りの位置で決まる。 -/
theorem append_sep_inj : ∀ {b b' r r' : List α}, sep ∉ b → sep ∉ b' →
    b ++ sep :: r = b' ++ sep :: r' → b = b' ∧ r = r'
  | [], [], _, _, _, _, h => ⟨rfl, by simpa using h⟩
  | [], x :: b', _, _, _, hb', h => by
    -- 右の先頭が区切りになってしまう
    simp only [List.nil_append, List.cons_append, List.cons.injEq] at h
    exact absurd (h.1 ▸ List.mem_cons_self) hb'
  | x :: b, [], _, _, hb, _, h => by
    simp only [List.nil_append, List.cons_append, List.cons.injEq] at h
    exact absurd (h.1 ▸ List.mem_cons_self) hb
  | x :: b, y :: b', _, _, hb, hb', h => by
    simp only [List.cons_append, List.cons.injEq] at h
    obtain ⟨rfl, h⟩ := h
    obtain ⟨rfl, rfl⟩ := append_sep_inj (fun hm => hb (List.mem_cons_of_mem _ hm))
      (fun hm => hb' (List.mem_cons_of_mem _ hm)) h
    exact ⟨rfl, rfl⟩

/-- **同じ列の分け方は一つしかない。** 帰納法は一つ目の分け方の行の列についてで、最初の行は最初の
区切りで決まる。 -/
theorem Lines.unique : ∀ {s t t' : List α} {bs bs' : List (List α)}, Lines sep s bs t →
    Lines sep s bs' t' → bs = bs' ∧ t = t'
  | s, t, t', [], [], h, h' => ⟨rfl, h.eq.symm.trans h'.eq⟩
  | s, t, t', [], _ :: _, h, h' => by
    -- 一方には区切りがなく、他方にはある
    exact absurd (h'.bodies_eq_nil_iff.mpr (h.bodies_eq_nil_iff.mp rfl)) (List.cons_ne_nil _ _)
  | s, t, t', _ :: _, [], h, h' => by
    exact absurd (h.bodies_eq_nil_iff.mpr (h'.bodies_eq_nil_iff.mp rfl)) (List.cons_ne_nil _ _)
  | s, t, t', b :: bs, b' :: bs', h, h' => by
    have e := h.eq.symm.trans h'.eq
    rw [joinLines_cons, joinLines_cons, List.append_assoc, List.append_assoc, List.cons_append,
      List.cons_append] at e
    obtain ⟨rfl, hr⟩ := append_sep_inj (h.bodies_sep b (by simp)) (h'.bodies_sep b' (by simp)) e
    -- 残りの分け方に帰納法を使う
    have hr₁ : Lines sep (joinLines sep bs ++ t) bs t :=
      ⟨rfl, fun x hx => h.bodies_sep x (List.mem_cons_of_mem _ hx), h.tail_sep⟩
    have hr₂ : Lines sep (joinLines sep bs ++ t) bs' t' :=
      ⟨hr, fun x hx => h'.bodies_sep x (List.mem_cons_of_mem _ hx), h'.tail_sep⟩
    obtain ⟨rfl, rfl⟩ := Lines.unique hr₁ hr₂
    exact ⟨rfl, rfl⟩

/-! ## `splitLines` -/

variable [DecidableEq α]

/-- `splitLines` の分け方は `Lines` を満たす。 -/
theorem lines_splitLines : ∀ s : List α, Lines sep s (splitLines sep s).1 (splitLines sep s).2
  | [] => Lines.of_not_mem (by simp)
  | x :: xs => by
    have ih := lines_splitLines xs
    unfold splitLines
    generalize splitLines sep xs = r at ih ⊢
    obtain ⟨bs, t⟩ := r
    by_cases hx : x = sep
    · -- 区切り：空の行が一つ終わる
      subst hx
      simpa using Lines.cons (b := []) (by simp) ih
    · have hu : sep ∉ [x] := by simp [Ne.symm hx]
      simp only [if_neg hx]
      cases bs with
      | nil => simpa using Lines.prepend_tail hu ih
      | cons b bs => simpa using Lines.prepend_line hu ih

/-- **`Lines` を満たす分け方は `splitLines` のものである。** -/
theorem Lines.splitLines_eq {s t : List α} {bs : List (List α)} (h : Lines sep s bs t) :
    splitLines sep s = (bs, t) := by
  obtain ⟨h₁, h₂⟩ := (lines_splitLines s).unique h
  rw [← h₁, ← h₂]

end Infra
