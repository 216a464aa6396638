import Mathlib.Logic.Function.Basic
import Mathlib.Data.List.Basic
import Mathlib.Algebra.Group.Nat.Defs

/-!
# 添字が `uint` で回る ring buffer

容量 `N` の配列 `data` と、`uint` の読み出し位置 `r`・書き込み位置 `w`。位置 `w` の要素は
`data[w % N]` にある。`N` が `2 ^ 32` を割り切るので、位置が `2 ^ 32` で一周しても `% N` の
位置はつながっている。

* `Ring.Holds N data r w q` — `r` から `w` までの中身が列 `q` で、`w - r` は `q` の長さ
* `Holds.put` — 位置 `w` に書いて `w` を進めると、`q` の末尾に足される
* `Holds.take` — 位置 `r` を読んで `r` を進めると、`q` の先頭が取れる
* `Holds.dropLast` — `w` を一つ戻すと、`q` の末尾が消える

この file はカーネルの何も知らない。
-/

namespace Infra

namespace Ring

variable {α : Type}

/-- 位置 `w` に `c` を置く（`data[w % N] = c`）。 -/
def put (N : Nat) (data : Nat → α) (w : UInt32) (c : α) : Nat → α :=
  Function.update data (w.toNat % N) c

/-- 位置 `r` から `k` 個の要素。 -/
def window (N : Nat) (data : Nat → α) (r : UInt32) (k : Nat) : List α :=
  (List.range k).map fun i => data ((r.toNat + i) % N)

/-- `r` から `w` までの中身が `q` である。 -/
structure Holds (N : Nat) (data : Nat → α) (r w : UInt32) (q : List α) : Prop where
  length_le : q.length ≤ N
  dist : (w - r).toNat = q.length
  window_eq : window N data r q.length = q

/-! ## `uint` の差 -/

section Dist

variable {r w : UInt32} {k : Nat}

theorem dist_self (r : UInt32) : (r - r).toNat = 0 := by
  simp

theorem dist_eq_zero_iff : (w - r).toNat = 0 ↔ w = r := by
  have hw := w.toNat_lt
  have hr := r.toNat_lt
  rw [UInt32.toNat_sub, ← UInt32.toNat_inj]
  omega

theorem dist_succ_right (h : (w - r).toNat = k) (hk : k + 1 < 2 ^ 32) : (w + 1 - r).toNat = k + 1 := by
  have hw := w.toNat_lt
  have hr := r.toNat_lt
  rw [UInt32.toNat_sub] at h
  rw [UInt32.toNat_sub, UInt32.toNat_add, UInt32.toNat_one]
  omega

theorem dist_succ_left (h : (w - r).toNat = k + 1) : (w - (r + 1)).toNat = k := by
  have hw := w.toNat_lt
  have hr := r.toNat_lt
  rw [UInt32.toNat_sub] at h
  rw [UInt32.toNat_sub, UInt32.toNat_add, UInt32.toNat_one]
  omega

theorem dist_pred_right (h : (w - r).toNat = k + 1) : (w - 1 - r).toNat = k := by
  have hw := w.toNat_lt
  have hr := r.toNat_lt
  rw [UInt32.toNat_sub] at h
  rw [UInt32.toNat_sub, UInt32.toNat_sub, UInt32.toNat_one]
  omega

/-- 読み出し位置と書き込み位置が違えば、長さ `w - r` の列は空でない。 -/
theorem exists_cons_of_dist {α : Type} {q : List α} (hd : (w - r).toNat = q.length) (hne : r ≠ w) :
    ∃ c q₀, q = c :: q₀ := by
  cases q with
  | nil => exact absurd (dist_eq_zero_iff.mp hd).symm hne
  | cons c q₀ => exact ⟨c, q₀, rfl⟩

theorem dist_inj {a b : UInt32} (h : (a - r).toNat = (b - r).toNat) : a = b := by
  have hA := a.toNat_lt
  have hB := b.toNat_lt
  have hr := r.toNat_lt
  rw [UInt32.toNat_sub, UInt32.toNat_sub] at h
  rw [← UInt32.toNat_inj]
  omega

/-- `r` から `a` まで `i`、`b` まで `j` なら、`a` から `b` までは `j - i` である。 -/
theorem dist_sub {a b : UInt32} {i j : Nat} (ha : (a - r).toNat = i) (hb : (b - r).toNat = j) (hij : i ≤ j) :
    (b - a).toNat = j - i := by
  have hA := a.toNat_lt
  have hB := b.toNat_lt
  have hr := r.toNat_lt
  rw [UInt32.toNat_sub] at ha hb
  rw [UInt32.toNat_sub]
  omega

end Dist

/-! ## `% N` の位置 -/

section Pos

variable {N : Nat}

/-- `N` が `2 ^ 32` を割り切るので、`% 2 ^ 32` してから `% N` しても同じである。 -/
theorem mod_add_mod (hN : N ∣ 2 ^ 32) (m i : Nat) : (m % 2 ^ 32 + i) % N = (m + i) % N := by
  rw [Nat.add_mod, Nat.mod_mod_of_dvd m hN, ← Nat.add_mod]

theorem succ_pos_mod (hN : N ∣ 2 ^ 32) (r : UInt32) (i : Nat) :
    ((r + 1).toNat + i) % N = (r.toNat + (i + 1)) % N := by
  rw [UInt32.toNat_add, UInt32.toNat_one, mod_add_mod hN, Nat.add_assoc, Nat.add_comm 1 i]

/-- `w - r` が `k` なら、`w` の位置は `r` から `k` 先である。 -/
theorem pos_of_dist (hN : N ∣ 2 ^ 32) {r w : UInt32} {k : Nat} (h : (w - r).toNat = k) :
    w.toNat % N = (r.toNat + k) % N := by
  have hw' : w.toNat = (r.toNat + k) % 2 ^ 32 := by
    have hw := w.toNat_lt
    have hr := r.toNat_lt
    rw [← h, UInt32.toNat_sub]
    omega
  rw [hw', Nat.mod_mod_of_dvd _ hN]

/-- 一周より短い窓の中の位置は、どれも違う。 -/
theorem pos_ne {a i k : Nat} (hk : k < N) (hi : i < k) : (a + i) % N ≠ (a + k) % N := by
  intro h
  have h0 : (a + k - (a + i)) % N = 0 := Nat.sub_mod_eq_zero_of_mod_eq h.symm
  rw [show a + k - (a + i) = k - i by omega, Nat.mod_eq_of_lt (by omega)] at h0
  omega

end Pos

/-! ## 窓 -/

section Window

variable {N : Nat} {data : Nat → α} {r w : UInt32} {k : Nat}

theorem window_succ (hN : N ∣ 2 ^ 32) (data : Nat → α) (r : UInt32) (k : Nat) :
    window N data r (k + 1) = data (r.toNat % N) :: window N data (r + 1) k := by
  unfold window
  rw [List.range_succ_eq_map, List.map_cons, List.map_map, Nat.add_zero]
  refine congrArg _ (List.map_congr_left fun i _ => ?_)
  show data ((r.toNat + (i + 1)) % N) = data (((r + 1).toNat + i) % N)
  rw [succ_pos_mod hN]

theorem window_concat (data : Nat → α) (r : UInt32) (k : Nat) :
    window N data r (k + 1) = window N data r k ++ [data ((r.toNat + k) % N)] := by
  simp [window, List.range_succ]

/-- 窓は、`r` から `m` までの窓と `m` からの窓に分かれる。 -/
theorem window_append (hN : N ∣ 2 ^ 32) {m : UInt32} (h : (m - r).toNat = k) (data : Nat → α) (j : Nat) :
    window N data r (k + j) = window N data r k ++ window N data m j := by
  unfold window
  rw [List.range_add, List.map_append, List.map_map]
  refine congrArg _ (List.map_congr_left fun i _ => ?_)
  -- `m` の位置は `r` から `k` 先
  show data ((r.toNat + (k + i)) % N) = data ((m.toNat + i) % N)
  rw [Nat.add_mod m.toNat, pos_of_dist hN h, ← Nat.add_mod, Nat.add_assoc]

/-- 窓の直後に書いても、窓の中身は変わらない。 -/
theorem window_put (hN : N ∣ 2 ^ 32) (hk : k < N) (h : (w - r).toNat = k) (c : α) :
    window N (put N data w c) r k = window N data r k := by
  unfold window put
  refine List.map_congr_left fun i hi => ?_
  rw [Function.update_of_ne]
  rw [pos_of_dist hN h]
  exact pos_ne hk (List.mem_range.mp hi)

end Window

/-! ## 中身の列 -/

namespace Holds

variable {N : Nat} {data : Nat → α} {r w : UInt32} {q : List α}

theorem empty (data : Nat → α) (r : UInt32) : Holds N data r r [] where
  length_le := Nat.zero_le N
  dist := dist_self r
  window_eq := rfl

/-- 中身が空なのは、読み出し位置と書き込み位置が一致するときである。 -/
theorem eq_iff_nil (h : Holds N data r w q) : w = r ↔ q = [] := by
  rw [← dist_eq_zero_iff, h.dist, List.length_eq_zero_iff]

/-- 満杯なのは、書き込み位置が読み出し位置の `N` 先にあるときである。 -/
theorem full_iff (hlt : N < 2 ^ 32) (h : Holds N data r w q) : w = r + N.toUInt32 ↔ q.length = N := by
  have hw := w.toNat_lt
  have hr := r.toNat_lt
  have hd := h.dist
  rw [UInt32.toNat_sub] at hd
  rw [← UInt32.toNat_inj, UInt32.toNat_add, UInt32.toNat_ofNat_of_lt' hlt]
  omega

/-- 中身の先頭部分は、同じ長さの窓である。 -/
theorem window_prefix {p : List α} (h : Holds N data r w (p ++ q)) : window N data r p.length = p := by
  have hwin := h.window_eq
  unfold window at hwin ⊢
  rw [List.length_append, List.range_add, List.map_append] at hwin
  exact (List.append_inj' hwin (by simp)).1

/-- 中身の途中の位置 `m` から先の窓は、中身の後半部分である。 -/
theorem window_mid (hN : N ∣ 2 ^ 32) {p p' : List α} {m : UInt32} (h : Holds N data r w (p ++ p' ++ q))
    (hm : (m - r).toNat = p.length) : window N data m p'.length = p' := by
  have hpre : window N data r (p ++ p').length = p ++ p' := window_prefix h
  rw [List.length_append, window_append hN hm, window_prefix (q := p' ++ q) (by rwa [← List.append_assoc])] at hpre
  exact List.append_cancel_left hpre

/-- 位置 `w` に書いて `w` を進めると、中身の末尾に足される。 -/
theorem put (hN : N ∣ 2 ^ 32) (hlt : N < 2 ^ 32) (h : Holds N data r w q) (hlen : q.length < N) (c : α) :
    Holds N (Ring.put N data w c) r (w + 1) (q ++ [c]) where
  length_le := by
    rw [List.length_append, List.length_singleton]
    exact hlen
  dist := by
    rw [List.length_append, List.length_singleton]
    exact dist_succ_right h.dist (by omega)
  window_eq := by
    rw [List.length_append, List.length_singleton, window_concat, window_put hN hlen h.dist, h.window_eq,
      ← pos_of_dist hN h.dist, Ring.put, Function.update_self]

/-- 位置 `r` を読んで `r` を進めると、中身の先頭が取れる。 -/
theorem take (hN : N ∣ 2 ^ 32) {c : α} (h : Holds N data r w (c :: q)) :
    data (r.toNat % N) = c ∧ Holds N data (r + 1) w q := by
  have hwin := h.window_eq
  rw [List.length_cons, window_succ hN, List.cons.injEq] at hwin
  obtain ⟨hc, hq⟩ := hwin
  refine ⟨hc, ⟨?_, dist_succ_left h.dist, hq⟩⟩
  have hlen := h.length_le
  rw [List.length_cons] at hlen
  omega

/-- `w` を一つ戻すと、中身の末尾が消える。消えた要素は位置 `w - 1` にある。 -/
theorem dropLast (hN : N ∣ 2 ^ 32) {c : α} (h : Holds N data r w (q ++ [c])) :
    data ((w - 1).toNat % N) = c ∧ Holds N data r (w - 1) q := by
  have hd : (w - 1 - r).toNat = q.length := by
    have hd := h.dist
    rw [List.length_append, List.length_singleton] at hd
    exact dist_pred_right hd
  have hwin := h.window_eq
  rw [List.length_append, List.length_singleton, window_concat] at hwin
  obtain ⟨hq, hc⟩ := List.append_inj' hwin rfl
  refine ⟨?_, ⟨?_, hd, hq⟩⟩
  · rw [pos_of_dist hN hd]
    exact List.singleton_inj.mp hc
  · have hlen := h.length_le
    rw [List.length_append, List.length_singleton] at hlen
    omega

end Holds

end Ring

end Infra
