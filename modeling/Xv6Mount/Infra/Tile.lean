import Mathlib.Data.List.Pairwise

/-!
# 区間をすき間なく覆う block の列

`Tiled len a l z` は、番地の列 `l` の block が `a` から `z` までを前から順にすき間なく覆うこと。
番地 `x` の block の長さは `len x` で、0 でない。長さを block 自身の header から読む heap を
述べるのに使う。

* `tiled_append` — 列を二つに分けると、間の番地で分かれる
* `Tiled.congr` — 列の番地で長さが同じなら、同じ列が覆う
* `Tiled.bounds`・`Tiled.sorted`・`Tiled.end_le`・`Tiled.disjoint` — block は `[a, z)` の中にあり、
  前の block は後ろの block より前で終わる
* `Tiled.merge`・`Tiled.split`・`Tiled.snoc` — 隣り合う二つを一つにする、一つを二つに分ける、
  `z` から一つ伸ばす
* `Tiled.length_mul_le` — 長さがどれも `k` 以上なら、block は `(z - a) / k` 個以下

この file は kernel の何も知らない。
-/

namespace Infra

variable {len len' : Nat → Nat}

/-- 番地の列 `l` の block が、`a` から `z` までを前から順にすき間なく覆う。 -/
def Tiled (len : Nat → Nat) : Nat → List Nat → Nat → Prop
  | a, [], z => a = z
  | a, b :: l, z => b = a ∧ 0 < len a ∧ Tiled len (a + len a) l z

@[simp] theorem tiled_nil {a z : Nat} : Tiled len a [] z ↔ a = z := Iff.rfl

@[simp] theorem tiled_cons {a b z : Nat} {l : List Nat} :
    Tiled len a (b :: l) z ↔ b = a ∧ 0 < len a ∧ Tiled len (a + len a) l z := Iff.rfl

/-- 列を二つに分けると、前の列が覆い終わる番地で分かれる。 -/
theorem tiled_append {a z : Nat} {l₁ l₂ : List Nat} :
    Tiled len a (l₁ ++ l₂) z ↔ ∃ m, Tiled len a l₁ m ∧ Tiled len m l₂ z := by
  induction l₁ generalizing a with
  | nil => simp
  | cons b l₁ ih =>
    simp only [List.cons_append, tiled_cons, ih]
    constructor
    · rintro ⟨rfl, hpos, m, h₁, h₂⟩
      exact ⟨m, ⟨rfl, hpos, h₁⟩, h₂⟩
    · rintro ⟨m, ⟨rfl, hpos, h₁⟩, h₂⟩
      exact ⟨rfl, hpos, m, h₁, h₂⟩

/-- 列の番地で長さが同じなら、同じ列が同じ区間を覆う。 -/
theorem Tiled.congr {a z : Nat} {l : List Nat} (h : Tiled len a l z) (he : ∀ x ∈ l, len' x = len x) :
    Tiled len' a l z := by
  induction l generalizing a with
  | nil => exact h
  | cons b l ih =>
    obtain ⟨rfl, hpos, hl⟩ := tiled_cons.mp h
    have hb : len' b = len b := he b List.mem_cons_self
    refine tiled_cons.mpr ⟨rfl, hb ▸ hpos, ?_⟩
    rw [hb]
    exact ih hl fun x hx => he x (List.mem_cons_of_mem b hx)

/-- 覆う区間の始まりは終わりを越えない。 -/
theorem Tiled.le {a z : Nat} {l : List Nat} (h : Tiled len a l z) : a ≤ z := by
  induction l generalizing a with
  | nil => exact Nat.le_of_eq h
  | cons b l ih =>
    obtain ⟨-, -, hl⟩ := tiled_cons.mp h
    exact Nat.le_trans (Nat.le_add_right a (len a)) (ih hl)

/-- 列のどの block も `[a, z)` の中にある。 -/
theorem Tiled.bounds {a z x : Nat} {l : List Nat} (h : Tiled len a l z) (hx : x ∈ l) :
    a ≤ x ∧ x + len x ≤ z ∧ 0 < len x := by
  induction l generalizing a with
  | nil => exact absurd hx List.not_mem_nil
  | cons b l ih =>
    obtain ⟨rfl, hpos, hl⟩ := tiled_cons.mp h
    rcases List.mem_cons.mp hx with rfl | hx
    · exact ⟨Nat.le_refl x, hl.le, hpos⟩
    · obtain ⟨h₁, h₂, h₃⟩ := ih hl hx
      exact ⟨Nat.le_trans (Nat.le_add_right b (len b)) h₁, h₂, h₃⟩

/-- 前の列の block は、後ろの列のどの block よりも前で終わる。 -/
theorem Tiled.end_le {a z x y : Nat} {l₁ l₂ : List Nat} (h : Tiled len a (l₁ ++ l₂) z)
    (hx : x ∈ l₁) (hy : y ∈ l₂) : x + len x ≤ y := by
  obtain ⟨m, h₁, h₂⟩ := tiled_append.mp h
  exact Nat.le_trans (h₁.bounds hx).2.1 (h₂.bounds hy).1

/-- block の番地は昇順に並ぶ。 -/
theorem Tiled.sorted {a z : Nat} {l : List Nat} (h : Tiled len a l z) : l.Pairwise (· < ·) := by
  induction l generalizing a with
  | nil => exact List.Pairwise.nil
  | cons b l ih =>
    obtain ⟨rfl, hpos, hl⟩ := tiled_cons.mp h
    refine List.Pairwise.cons (fun y hy => ?_) (ih hl)
    have := (hl.bounds hy).1
    omega

/-- 番地の小さい block は、番地の大きい block が始まるまでに終わる。 -/
theorem Tiled.disjoint {a z x y : Nat} {l : List Nat} (h : Tiled len a l z) (hx : x ∈ l) (hy : y ∈ l)
    (hxy : x < y) : x + len x ≤ y := by
  obtain ⟨l₁, l₂, rfl⟩ := List.append_of_mem hx
  -- 昇順なので、`x` より大きい `y` は `x` より後ろにある
  have hy' : y ∈ l₂ := by
    rcases List.mem_append.mp hy with hy₁ | hy₂
    · exact absurd (List.pairwise_append.mp h.sorted |>.2.2 y hy₁ x List.mem_cons_self) (Nat.lt_asymm hxy)
    · rcases List.mem_cons.mp hy₂ with he | hy₂
      · exact absurd (he ▸ hxy) (Nat.lt_irrefl x)
      · exact hy₂
  have h' : Tiled len a ((l₁ ++ [x]) ++ l₂) z := by simpa using h
  exact h'.end_le (by simp) hy'

/-- 列の中で隣り合う block は、前の block の終わりから後ろの block が始まる。 -/
theorem Tiled.next_eq {a z x y : Nat} {l₁ l₂ : List Nat} (h : Tiled len a (l₁ ++ x :: y :: l₂) z) :
    y = x + len x := by
  obtain ⟨m, -, h₂⟩ := tiled_append.mp h
  obtain ⟨rfl, -, hy, -⟩ := tiled_cons.mp h₂
  exact hy

/-- 列の最後の block は `z` で終わる。 -/
theorem Tiled.last_eq {a z x : Nat} {l : List Nat} (h : Tiled len a (l ++ [x]) z) : z = x + len x := by
  obtain ⟨m, -, h₂⟩ := tiled_append.mp h
  obtain ⟨rfl, -, hz⟩ := tiled_cons.mp h₂
  exact hz.symm

/--
**隣り合う二つの block を一つにする。** `x` の長さを `x` と `y` の長さの和にし、ほかの block の長さを
変えなければ、`y` を除いた列が同じ区間を覆う。
-/
theorem Tiled.merge {a z x y : Nat} {l₁ l₂ : List Nat} (h : Tiled len a (l₁ ++ x :: y :: l₂) z)
    (hx : len' x = len x + len y) (he : ∀ w ∈ l₁ ++ l₂, len' w = len w) :
    Tiled len' a (l₁ ++ x :: l₂) z := by
  obtain ⟨m, h₁, h₂⟩ := tiled_append.mp h
  obtain ⟨rfl, hpos, rfl, hpos', h₃⟩ := by simpa only [tiled_cons] using h₂
  refine tiled_append.mpr ⟨x, h₁.congr fun w hw => he w (by simp [hw]), ?_⟩
  refine tiled_cons.mpr ⟨rfl, by omega, ?_⟩
  rw [hx, ← Nat.add_assoc]
  exact h₃.congr fun w hw => he w (by simp [hw])

/--
**block を二つに分ける。** `x` の長さを `k` に縮め、`x + k` に残りの長さの block を置き、ほかの
block の長さを変えなければ、二つに分けた列が同じ区間を覆う。
-/
theorem Tiled.split {a z x k : Nat} {l₁ l₂ : List Nat} (h : Tiled len a (l₁ ++ x :: l₂) z)
    (hk : 0 < k) (hkx : k < len x) (hx : len' x = k) (hy : len' (x + k) = len x - k)
    (he : ∀ w ∈ l₁ ++ l₂, len' w = len w) : Tiled len' a (l₁ ++ x :: (x + k) :: l₂) z := by
  obtain ⟨m, h₁, h₂⟩ := tiled_append.mp h
  obtain ⟨rfl, -, h₃⟩ := tiled_cons.mp h₂
  refine tiled_append.mpr ⟨x, h₁.congr fun w hw => he w (by simp [hw]), ?_⟩
  refine tiled_cons.mpr ⟨rfl, by omega, tiled_cons.mpr ⟨by rw [hx], by rw [hx, hy]; omega, ?_⟩⟩
  have e : x + len' x + len' (x + len' x) = x + len x := by
    rw [hx, hy]
    omega
  rw [e]
  exact h₃.congr fun w hw => he w (by simp [hw])

/-- **一つ伸ばす。** `z` に長さの正しい block を置けば、列は `z + len z` まで覆う。 -/
theorem Tiled.snoc {a z : Nat} {l : List Nat} (h : Tiled len a l z) (hz : 0 < len z) :
    Tiled len a (l ++ [z]) (z + len z) :=
  tiled_append.mpr ⟨z, h, tiled_cons.mpr ⟨rfl, hz, rfl⟩⟩

/-- 長さがどれも `k` 以上なら、block の数の `k` 倍は覆う区間の長さを越えない。 -/
theorem Tiled.length_mul_le {a z k : Nat} {l : List Nat} (h : Tiled len a l z)
    (hk : ∀ x ∈ l, k ≤ len x) : l.length * k ≤ z - a := by
  induction l generalizing a with
  | nil => simp
  | cons b l ih =>
    obtain ⟨rfl, -, hl⟩ := tiled_cons.mp h
    have ih' := ih hl fun x hx => hk x (List.mem_cons_of_mem b hx)
    have hb := hk b List.mem_cons_self
    have hle := hl.le
    rw [List.length_cons, Nat.succ_mul]
    omega

end Infra
