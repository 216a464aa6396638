import Xv6Mount.Infra.Copy

/-!
# kernel の memmove（`string.c`）

`memmove(dst, src, n)` は、`src` の範囲が `dst` より前から始まって `dst` に重なるときだけ後ろから写し、
それ以外は前から写す。memory は番地から byte への関数で、番地は `Nat` である。

* `memmove_eq_moved` — どう重なっていても、`memmove` は `[dst, dst + n)` に元の `[src, src + n)` を
  写し、ほかの番地を変えない

返り値の `dst` は引数そのままなので、ここでは memory だけを返す。
-/

namespace Xv6

open Infra

variable {α : Type*}

/-- `memmove(dst, src, n)`：`s < d && s + n > d` なら後ろから、そうでなければ前から写す。 -/
def memmove (mem : Nat → α) (dst src n : Nat) : Nat → α :=
  if src < dst ∧ src + n > dst then copyBwd mem dst src n else copyFwd mem dst src n

/-- `memcpy(dst, src, n)`：`memmove` を呼ぶだけ。 -/
def memcpy (mem : Nat → α) (dst src n : Nat) : Nat → α := memmove mem dst src n

/--
**kernel の `memmove` は、どう重なっていても正しく写す。** 後ろから写すのは `src < dst` のときだけで、
前から写すのは `dst ≤ src` か重ならないときだけである。
-/
theorem memmove_eq_moved (mem : Nat → α) (dst src n : Nat) :
    memmove mem dst src n = moved mem dst src n := by
  unfold memmove
  split
  · -- `src < dst` で重なる：後ろから
    rename_i h
    exact copyBwd_of_le (Or.inl (Nat.le_of_lt h.1))
  · -- `dst ≤ src` か、`src` の範囲が `dst` の前で終わる：前から
    rename_i h
    exact copyFwd_of_le (by omega)

end Xv6
