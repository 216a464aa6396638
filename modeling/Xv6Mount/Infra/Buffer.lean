import Mathlib.Data.List.Basic

/-!
# buffer への書き込みと C の文字列

buffer をリストで表し、範囲の外は既定値 `d` として読む（`getD`）。位置の列に同じ値を書いた後の
読み出しと、「ある条件の間だけ読む」ことが先頭から `n` 個を取ることになる条件。C の文字列では
既定値は NUL で、条件は「NUL でない」である。

byte の列を位置から値への関数で持つときは、範囲を上書きする `overwrite` を使う。続けて上書きした
隣り合う二つの範囲は一つの範囲の上書きになる（`overwrite_overwrite`）。
-/

namespace Infra

variable {α : Type}

/-- 位置 `i` に `x` を書いた後、位置 `j` を `x` を既定値として読む。 -/
theorem getD_set (l : List α) (i j : Nat) (x : α) :
    (l.set i x).getD j x = if i = j then x else l.getD j x := by
  simp only [List.getD_eq_getElem?_getD, List.getElem?_set]
  split_ifs <;> simp_all

/-- 範囲の中の位置 `i` に書いた後、位置 `j` を読む。 -/
theorem getD_set_of_lt {l : List α} {i : Nat} (hi : i < l.length) (j : Nat) (x d : α) :
    (l.set i x).getD j d = if i = j then x else l.getD j d := by
  simp only [List.getD_eq_getElem?_getD, List.getElem?_set]
  split_ifs <;> simp_all

theorem getD_drop (l : List α) (q i : Nat) (d : α) : (l.drop q).getD i d = l.getD (q + i) d := by
  simp [List.getD_eq_getElem?_getD, List.getElem?_drop]

/-- 位置の列 `ps` に順に `x` を書いた後の読み出し。 -/
theorem getD_foldl_set (ps : List Nat) (l : List α) (x : α) (i : Nat) :
    (ps.foldl (fun b p => b.set p x) l).getD i x = if i ∈ ps then x else l.getD i x := by
  induction ps generalizing l with
  | nil => simp
  | cons p ps ih =>
    rw [List.foldl_cons, ih, getD_set]
    by_cases hi : i ∈ ps
    · simp [hi]
    · by_cases hp : p = i
      · simp [hi, hp]
      · simp [hi, hp, Ne.symm hp]

/--
先頭の `n` 個が `l` と同じで条件 `p` を満たし、`n` 番目が満たさない列は、`p` の間だけ読むと
`l` の先頭の `n` 個になる。範囲の外の既定値 `d` は `p` を満たさない。
-/
theorem takeWhile_eq_take {p : α → Bool} {d : α} (hd : p d = false) :
    ∀ {n : Nat} {l l' : List α}, (∀ i < n, l'.getD i d = l.getD i d ∧ p (l.getD i d) = true) →
      p (l'.getD n d) = false → l'.takeWhile p = l.take n
  | 0, l, l', _, hn => by
    cases l' with
    | nil => rfl
    | cons a t =>
      rw [List.getD_cons_zero] at hn
      rw [List.takeWhile_cons, if_neg (by simp [hn]), List.take_zero]
  | n + 1, l, l', h, hn => by
    obtain ⟨h0, hp0⟩ := h 0 (Nat.succ_pos n)
    -- 先頭は範囲の中にある：範囲の外の既定値は `p` を満たさない
    cases l with
    | nil => simp [hd] at hp0
    | cons a t =>
      cases l' with
      | nil =>
        rw [List.getD_nil, List.getD_cons_zero] at h0
        rw [List.getD_cons_zero, ← h0, hd] at hp0
        exact absurd hp0 Bool.false_ne_true
      | cons a' t' =>
        rw [List.getD_cons_zero, List.getD_cons_zero] at h0
        rw [List.getD_cons_zero] at hp0
        subst h0
        have ih := @takeWhile_eq_take p d hd n t t'
          (fun i hi => by simpa using h (i + 1) (by omega)) (by simpa using hn)
        rw [List.takeWhile_cons, if_pos hp0, ih, List.take_succ_cons]

/-! ## 範囲の上書き -/

/-- 位置 `off` から `m` 個を `f` で上書きした列。`f` は範囲の先頭からの位置で読む。 -/
def overwrite (D : Nat → α) (off : Nat) (f : Nat → α) (m : Nat) : Nat → α := fun i =>
  if off ≤ i ∧ i < off + m then f (i - off) else D i

@[simp] theorem overwrite_zero (D : Nat → α) (off : Nat) (f : Nat → α) : overwrite D off f 0 = D := by
  funext i
  simp only [overwrite, Nat.add_zero]
  rw [if_neg (by omega)]

/-- 隣り合う二つの範囲を続けて上書きすると、合わせた範囲の上書きになる。 -/
theorem overwrite_overwrite (D : Nat → α) (off : Nat) (f : Nat → α) (m r : Nat) :
    overwrite (overwrite D off f m) (off + m) (fun j => f (m + j)) r = overwrite D off f (m + r) := by
  funext i
  simp only [overwrite]
  by_cases h₁ : off + m ≤ i ∧ i < off + m + r
  · rw [if_pos h₁, if_pos (by omega)]
    congr 1
    omega
  · rw [if_neg h₁]
    by_cases h₂ : off ≤ i ∧ i < off + m
    · rw [if_pos h₂, if_pos (by omega)]
    · rw [if_neg h₂, if_neg (by omega)]

end Infra
