import Mathlib.Data.Nat.Bitwise

/-!
# byte に詰めた bit 列

byte の列 `bytes : Nat → Nat` に詰めた bit の列。bit `i` は byte `i / 8` の `i % 8` 桁目で、
`bytes (i / 8) &&& 1 <<< (i % 8)` が 0 かどうかで読む。

* `Bitmap.get_set` — 一つの bit を立てると、その bit だけが変わる
* `Bitmap.get_ofPrefix` — 先頭 `n` bit を順に立てた列では、bit `i` が立つのは `i < n` のときだけ

この file はカーネルの何も知らない。
-/

namespace Infra

namespace Bitmap

/-- bit `i` が立っているか。 -/
def get (bytes : Nat → Nat) (i : Nat) : Bool := bytes (i / 8) &&& 1 <<< (i % 8) != 0

/-- bit `i` を立てる。 -/
def set (bytes : Nat → Nat) (i : Nat) : Nat → Nat :=
  Function.update bytes (i / 8) (bytes (i / 8) ||| 1 <<< (i % 8))

/-- bit `i` を落とす。byte は 8 bit なので、`~m` は `255 ^^^ m` である。 -/
def clear (bytes : Nat → Nat) (i : Nat) : Nat → Nat :=
  Function.update bytes (i / 8) (bytes (i / 8) &&& (255 ^^^ (1 <<< (i % 8))))

/-- 0 の列に先頭 `n` bit を順に立てた列。 -/
def ofPrefix (n : Nat) : Nat → Nat := (List.range n).foldl set fun _ => 0

variable (bytes : Nat → Nat)

/-- `x &&& 2^k` が 0 なのは、`x` の `k` 桁目が 0 のときである。 -/
theorem and_two_pow_eq_zero (x k : Nat) : x &&& 2 ^ k = 0 ↔ x.testBit k = false := by
  constructor
  · intro h
    have hk := congrArg (Nat.testBit · k) h
    simpa using hk
  · intro h
    refine Nat.zero_of_testBit_eq_false fun i => ?_
    rw [Nat.testBit_and, Nat.testBit_two_pow]
    by_cases hi : k = i
    · subst hi
      simp [h]
    · simp [hi]

theorem get_eq_testBit (i : Nat) : get bytes i = (bytes (i / 8)).testBit (i % 8) := by
  unfold get
  rw [Nat.one_shiftLeft]
  cases h : (bytes (i / 8)).testBit (i % 8)
  · simp [(and_two_pow_eq_zero _ _).mpr h]
  · have hne : bytes (i / 8) &&& 2 ^ (i % 8) ≠ 0 := fun h0 => by
      rw [and_two_pow_eq_zero] at h0
      rw [h] at h0
      cases h0
    simp [hne]

/-- bit `i` を立てても、ほかの bit は変わらない。 -/
@[simp] theorem get_set (i j : Nat) : get (set bytes i) j = (get bytes j || decide (i = j)) := by
  rw [get_eq_testBit, get_eq_testBit]
  unfold set
  by_cases hb : j / 8 = i / 8
  · -- 同じ byte の中では、桁が同じときだけ `i = j`
    rw [hb, Function.update_self, Nat.testBit_or, Nat.one_shiftLeft, Nat.testBit_two_pow]
    have hij : (i % 8 = j % 8) ↔ i = j := by omega
    simp only [hij]
  · rw [Function.update_of_ne hb]
    have hij : i ≠ j := fun h => hb (h ▸ rfl)
    simp [hij]

@[simp] theorem get_zero (i : Nat) : get (fun _ => 0) i = false := by
  simp [get]

/-- 先頭 `n` bit を立てた列では、bit `i` が立つのは `i < n` のときだけである。 -/
@[simp] theorem get_ofPrefix (n i : Nat) : get (ofPrefix n) i = decide (i < n) := by
  induction n with
  | zero => simp [ofPrefix]
  | succ n ih =>
    have hstep : ofPrefix (n + 1) = set (ofPrefix n) n := by
      simp [ofPrefix, List.range_succ, List.foldl_append]
    rw [hstep, get_set, ih]
    by_cases h : i < n
    · simp [h, show i < n + 1 by omega]
    · by_cases h' : n = i
      · subst h'; simp
      · simp [h, h', show ¬ i < n + 1 by omega]

end Bitmap

end Infra
