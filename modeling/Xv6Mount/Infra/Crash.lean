import Mathlib.Data.List.Basic

/-!
# 手順の列と、その途中で止まった状態

同期書き込みを一回ずつ施す手順は、状態の変換 `σ → σ` の列である。
crash は「先頭から `k` 段だけ施したところで止まる」ことで表す。

* `execSteps` — 列を順に施す
* `crashAt` — 先頭の `k` 段だけ施す
* `crashAt_append` — 列を二つつないだとき、crash 点はどちらかの列の中にある
* `crashAt_rec` — 各段で保たれる性質は、どの crash 点でも成り立つ
-/

namespace Infra

variable {σ : Type}

/-- 手順の列を順に施す。 -/
def execSteps (ps : List (σ → σ)) (s : σ) : σ := ps.foldl (fun s p => p s) s

@[simp] theorem execSteps_nil (s : σ) : execSteps [] s = s := rfl

@[simp] theorem execSteps_cons (p : σ → σ) (ps : List (σ → σ)) (s : σ) :
    execSteps (p :: ps) s = execSteps ps (p s) := rfl

@[simp] theorem execSteps_append (ps qs : List (σ → σ)) (s : σ) :
    execSteps (ps ++ qs) s = execSteps qs (execSteps ps s) := by
  simp [execSteps, List.foldl_append]

/-- 先頭の `k` 段だけ施したところで止まった状態。 -/
def crashAt (ps : List (σ → σ)) (k : Nat) (s : σ) : σ := execSteps (ps.take k) s

/-- 列の長さ以上の crash 点は、全部施したのと同じである。 -/
theorem crashAt_of_length_le {ps : List (σ → σ)} {k : Nat} (h : ps.length ≤ k) (s : σ) :
    crashAt ps k s = execSteps ps s := by
  rw [crashAt, List.take_of_length_le h]

theorem crashAt_cons_succ (p : σ → σ) (ps : List (σ → σ)) (k : Nat) (s : σ) :
    crashAt (p :: ps) (k + 1) s = crashAt ps k (p s) := rfl

/-- 二つの列をつないだ列の crash 点は、前の列の中か、前の列を施した後の列の中にある。 -/
theorem crashAt_append (ps qs : List (σ → σ)) (k : Nat) (s : σ) :
    crashAt (ps ++ qs) k s =
      if k ≤ ps.length then crashAt ps k s else crashAt qs (k - ps.length) (execSteps ps s) := by
  unfold crashAt
  rw [List.take_append]
  split
  · rename_i hk
    rw [Nat.sub_eq_zero_of_le hk, List.take_zero, List.append_nil]
  · rename_i hk
    rw [List.take_of_length_le (by omega), execSteps_append]

/-- **各段で保たれる性質は、どの crash 点でも成り立つ。** -/
theorem crashAt_rec (P : σ → Prop) {ps : List (σ → σ)} (hs : ∀ p ∈ ps, ∀ t, P t → P (p t)) :
    ∀ (k : Nat) {s : σ}, P s → P (crashAt ps k s) := by
  induction ps with
  | nil => intro k s h; simpa [crashAt] using h
  | cons p ps ih =>
    intro k s h
    cases k with
    | zero => simpa [crashAt] using h
    | succ k =>
      have hp : P (p s) := hs p List.mem_cons_self s h
      rw [crashAt_cons_succ]
      exact ih (fun q hq => hs q (List.mem_cons_of_mem p hq)) k hp

end Infra
