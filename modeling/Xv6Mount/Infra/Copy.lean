import Mathlib.Logic.Function.Basic

/-!
# 番地の列を写す loop

memory を番地から値への関数 `Nat → α` とし、`s` から始まる `n` 個を `d` から始まる場所へ写す二つの
loop を考える。前から写す `copyFwd`（`*d++ = *s++`）と、後ろから写す `copyBwd`（`*--d = *--s`）である。
写した後のあるべき姿は `moved`：`[d, d + n)` に元の `s` からの `n` 個が入り、ほかは元のままである。

* `copyFwd_of_le`・`copyBwd_of_le` — 前から写すのは `d ≤ s` か重ならないとき、後ろから写すのは `s ≤ d` か
  重ならないとき、`moved` に等しい
* `copyFwd_of_lt` — `s < d` で前から写すと、まだ読んでいない `s` 側の値をすでに書き換えているので、
  `[d, d + n)` には `s` からの `d - s` 個がくり返し並ぶ
* `cells` — `s` から `n` 個を list として読む。`cells_moved` は写した先を読めば元が読めること

この file は kernel の何も知らない。
-/

namespace Infra

variable {α : Type*}

/-- 前から写す loop：`while(n-- > 0) *d++ = *s++;`。 -/
def copyFwd (m : Nat → α) (d s : Nat) : Nat → Nat → α
  | 0 => m
  | n + 1 => copyFwd (Function.update m d (m s)) (d + 1) (s + 1) n

/-- 後ろから写す loop：`s += n; d += n; while(n-- > 0) *--d = *--s;`。 -/
def copyBwd (m : Nat → α) (d s : Nat) : Nat → Nat → α
  | 0 => m
  | n + 1 => copyBwd (Function.update m (d + n) (m (s + n))) d s n

/-- 写した後のあるべき姿：`[d, d + n)` に元の `s` からの `n` 個が入り、ほかは元のまま。 -/
def moved (m : Nat → α) (d s n : Nat) : Nat → α :=
  fun a => if d ≤ a ∧ a < d + n then m (s + (a - d)) else m a

/-- 一つも写さなければ何も変わらない。 -/
@[simp] theorem moved_zero (m : Nat → α) (d s : Nat) : moved m d s 0 = m := by
  funext a
  simp only [moved]
  split
  · omega
  · rfl

/-- 写した範囲の外は元のまま。 -/
theorem moved_of_not_mem {m : Nat → α} {d s n a : Nat} (ha : ¬(d ≤ a ∧ a < d + n)) :
    moved m d s n a = m a := if_neg ha

/-- 写した範囲の中は、元の `s` の側の値。 -/
theorem moved_of_mem {m : Nat → α} {d s n a : Nat} (ha : d ≤ a ∧ a < d + n) :
    moved m d s n a = m (s + (a - d)) := if_pos ha

/--
**先頭の一つを写してから残りを写す。** 先頭の書き込みが、残りの読む場所 `[s + 1, s + 1 + n)` に
かからなければ、`moved` は先頭の一つと残りに分かれる。
-/
theorem moved_succ_fwd {m : Nat → α} {d s n : Nat} (h : d ≤ s ∨ s + n < d) :
    moved (Function.update m d (m s)) (d + 1) (s + 1) n = moved m d s (n + 1) := by
  funext a
  by_cases ha : d + 1 ≤ a ∧ a < d + 1 + n
  · -- 残りの範囲：読む場所 `s + (a - d)` は `d` でない
    have hne : s + 1 + (a - (d + 1)) ≠ d := by omega
    rw [moved_of_mem ha, moved_of_mem (by omega), Function.update_of_ne hne]
    congr 1
    omega
  · rw [moved_of_not_mem ha]
    by_cases hd : a = d
    · subst hd
      rw [Function.update_self, moved_of_mem (by omega), Nat.sub_self, Nat.add_zero]
    · rw [Function.update_of_ne hd, moved_of_not_mem (by omega)]

/--
**末尾の一つを写してから残りを写す。** 末尾の書き込みが、残りの読む場所 `[s, s + n)` にかからなければ、
`moved` は末尾の一つと残りに分かれる。
-/
theorem moved_succ_bwd {m : Nat → α} {d s n : Nat} (h : s ≤ d ∨ d + n < s) :
    moved (Function.update m (d + n) (m (s + n))) d s n = moved m d s (n + 1) := by
  funext a
  by_cases ha : d ≤ a ∧ a < d + n
  · -- 残りの範囲：読む場所 `s + (a - d)` は `d + n` でない
    have hne : s + (a - d) ≠ d + n := by omega
    rw [moved_of_mem ha, moved_of_mem (by omega), Function.update_of_ne hne]
  · rw [moved_of_not_mem ha]
    by_cases hd : a = d + n
    · subst hd
      rw [Function.update_self, moved_of_mem (by omega), Nat.add_sub_cancel_left]
    · rw [Function.update_of_ne hd, moved_of_not_mem (by omega)]

/-- **前から写すのは、`d ≤ s` か二つの範囲が重ならないとき、正しく写す。** -/
theorem copyFwd_of_le :
    ∀ {m : Nat → α} {d s n : Nat}, d ≤ s ∨ s + n ≤ d → copyFwd m d s n = moved m d s n
  | m, d, s, 0, _ => (moved_zero m d s).symm
  | m, d, s, n + 1, h => by
    -- 残りの範囲も同じ向きの関係にある
    have h' : d + 1 ≤ s + 1 ∨ s + 1 + n ≤ d + 1 := by omega
    rw [copyFwd, copyFwd_of_le h', moved_succ_fwd (by omega)]

/-- **後ろから写すのは、`s ≤ d` か二つの範囲が重ならないとき、正しく写す。** -/
theorem copyBwd_of_le :
    ∀ {m : Nat → α} {d s n : Nat}, s ≤ d ∨ d + n ≤ s → copyBwd m d s n = moved m d s n
  | m, d, s, 0, _ => (moved_zero m d s).symm
  | m, d, s, n + 1, h => by
    have h' : s ≤ d ∨ d + n ≤ s := by omega
    rw [copyBwd, copyBwd_of_le h', moved_succ_bwd (by omega)]

/-- `k` を法として一つ進める：余りが `k - 1` なら 0 に戻り、そうでなければ一つ増える。 -/
theorem succ_mod_eq {j k : Nat} (hk : 0 < k) :
    (j + 1) % k = if j % k + 1 = k then 0 else j % k + 1 := by
  have hlt := Nat.mod_lt j hk
  rw [← Nat.mod_add_mod]
  split
  · rename_i he
    rw [he, Nat.mod_self]
  · exact Nat.mod_eq_of_lt (by omega)

/--
**`s < d` で前から写すと、`s` からの `d - s` 個がくり返し並ぶ。** `[d, d + n)` の `a` には、元の
`s + (a - d) % (d - s)` の値が入る。
-/
theorem copyFwd_of_lt :
    ∀ {m : Nat → α} {d s n : Nat}, s < d →
      copyFwd m d s n = fun a => if d ≤ a ∧ a < d + n then m (s + (a - d) % (d - s)) else m a
  | m, d, s, 0, _ => by
    funext a
    simp only [copyFwd]
    split
    · omega
    · rfl
  | m, d, s, n + 1, h => by
    -- 残りは `d + 1` へ `s + 1` から写す。`d - s` は変わらない
    rw [copyFwd, copyFwd_of_lt (by omega)]
    funext a
    have hk : (d + 1) - (s + 1) = d - s := by omega
    rw [hk]
    by_cases ha : d + 1 ≤ a ∧ a < d + 1 + n
    · rw [if_pos ha, if_pos (by omega)]
      have hsucc := succ_mod_eq (j := a - (d + 1)) (k := d - s) (by omega)
      have he : a - d = a - (d + 1) + 1 := by omega
      have hlt := Nat.mod_lt (a - (d + 1)) (show 0 < d - s by omega)
      rw [he, hsucc]
      split
      · -- 読む場所がちょうど `d`：そこには先頭で `m s` を書いた
        rw [show s + 1 + (a - (d + 1)) % (d - s) = d by omega, Function.update_self, Nat.add_zero]
      · rw [Function.update_of_ne (by omega)]
        congr 1
        omega
    · rw [if_neg ha]
      by_cases hd : a = d
      · subst hd
        rw [Function.update_self, if_pos (by omega), Nat.sub_self, Nat.zero_mod, Nat.add_zero]
      · rw [Function.update_of_ne hd, if_neg (by omega)]

/-! ## 番地の列を読む -/

/-- `s` から `n` 個の値を順に読む。 -/
def cells (m : Nat → α) (s n : Nat) : List α := (List.range' s n).map m

@[simp] theorem cells_zero (m : Nat → α) (s : Nat) : cells m s 0 = [] := rfl

theorem cells_succ (m : Nat → α) (s n : Nat) : cells m s (n + 1) = m s :: cells m (s + 1) n := by
  simp [cells, List.range'_succ]

@[simp] theorem length_cells (m : Nat → α) (s n : Nat) : (cells m s n).length = n := by
  simp [cells]

/-- 続けて読むのは、つないで読むこと。 -/
theorem cells_add (m : Nat → α) (s a b : Nat) : cells m s (a + b) = cells m s a ++ cells m (s + a) b := by
  rw [cells, cells, cells, ← List.range'_append_1, List.map_append]

/-- 読む範囲で一致する memory からは、同じ列が読める。 -/
theorem cells_congr {m m' : Nat → α} {s n : Nat} (h : ∀ a, s ≤ a → a < s + n → m a = m' a) :
    cells m s n = cells m' s n := by
  apply List.map_congr_left
  intro a ha
  rw [List.mem_range'_1] at ha
  exact h a ha.1 ha.2

/-- 読む範囲の外に書いても、読める列は変わらない。 -/
theorem cells_update_of_not_mem {m : Nat → α} {s n a : Nat} (x : α) (ha : a < s ∨ s + n ≤ a) :
    cells (Function.update m a x) s n = cells m s n :=
  cells_congr fun _ h₁ h₂ => Function.update_of_ne (by omega) _ _

/-- 写した先 `[d, d + n)` を読めば、元の `[s, s + n)` が読める。 -/
theorem cells_moved (m : Nat → α) (d s n : Nat) : cells (moved m d s n) d n = cells m s n := by
  simp only [cells]
  rw [List.range'_eq_map_range, List.range'_eq_map_range, List.map_map, List.map_map]
  apply List.map_congr_left
  intro i hi
  rw [List.mem_range] at hi
  simp only [Function.comp_apply]
  rw [moved_of_mem (by omega), Nat.add_sub_cancel_left]

end Infra
