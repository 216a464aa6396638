import Mathlib.Logic.Basic

/-!
# 状態機械の実行と到達可能性

カーネルの各呼び出しは「状態を受けて、次の状態か、止まった理由を返す関数」である。
止まる理由は四つある。**sleep して待つ**（`begin_op` の待ち合わせ）、**panic する**、
**戻らない**（終わらない loop）、**null pointer を参照する**、である。

* `bind_eq_ok` — 成功した `do` を段に分ける
* `PanicOr` — 十分な fuel を与えた計算が、panic で止まるか条件を満たす値を返すこと
* `runList` — 呼び出しの列を順に回す。最初に止まったところで止まる
* `runList_inv`・`runList_error_inv` — 各段が保つ性質は列の後も成り立ち、列が止まった理由は
  ある段が止まった理由である
* `Reach` — 初期状態から段を重ねて到達できる状態
* `Reach.rec_inv` — 初期状態で成り立ち各段で保たれる性質は、到達できる状態すべてで成り立つ

この file はカーネルの何も知らない。状態・呼び出し・止まる理由は型の引数である。
-/

namespace Infra

/-- 呼び出しが止まった理由。 -/
inductive Stop where
  /-- 条件が整うまで sleep する。状態は変わらない。 -/
  | sleep
  /-- `panic` で止まる。 -/
  | panic (msg : String)
  /-- loop が終わらず、呼び出しが戻らない。 -/
  | hang
  /-- null pointer を参照する。 -/
  | fault
deriving DecidableEq, Repr

variable {σ α β ε : Type}

/-! ## `Except` の `do`

呼び出しは `Except` の `do` で書く。成功した呼び出しは、その各段が成功している。
-/

@[simp] theorem ok_bind (a : α) (f : α → Except ε β) : (Except.ok a >>= f) = f a := rfl

@[simp] theorem error_bind (e : ε) (f : α → Except ε β) : (Except.error e >>= f) = .error e := rfl

@[simp] theorem pure_eq_ok (a : α) : (pure a : Except ε α) = .ok a := rfl

@[simp] theorem throw_eq_error (e : ε) : (throw e : Except ε α) = .error e := rfl

/-- 成功した `do` の一段目は成功している。 -/
theorem bind_eq_ok {x : Except ε α} {f : α → Except ε β} {b : β} :
    x >>= f = .ok b ↔ ∃ a, x = .ok a ∧ f a = .ok b := by
  cases x <;> simp

/-- 成功した `map` は、元の計算の成功である。 -/
theorem map_eq_ok {x : Except ε α} {f : α → β} {b : β} :
    x.map f = .ok b ↔ ∃ a, x = .ok a ∧ f a = b := by
  cases x <;> simp [Except.map]

/-! ## panic か、条件を満たす成功か

fuel で深さを数える関数について、停止性と正しさを一度に言う。十分な fuel を与えれば、計算は panic で
止まるか、`P` を満たす値を返す。`hang` にはならない。
-/

/-- 計算 `x` が panic で止まるか、`P` を満たす値を返す。 -/
def PanicOr (P : α → Prop) : Except Stop α → Prop
  | .ok a => P a
  | .error (.panic _) => True
  | .error _ => False

section panicOr

variable {P : α → Prop} {Q : β → Prop}

@[simp] theorem panicOr_ok {a : α} : PanicOr P (.ok a) ↔ P a := Iff.rfl

@[simp] theorem panicOr_panic (msg : String) : PanicOr P (.error (.panic msg)) := trivial

/-- `do` の各段が panic か条件を満たす成功なら、全体もそうである。 -/
theorem PanicOr.bind {x : Except Stop α} {f : α → Except Stop β} (hx : PanicOr P x)
    (hf : ∀ a, P a → PanicOr Q (f a)) : PanicOr Q (x >>= f) := by
  cases x with
  | ok a => exact hf a hx
  | error e => cases e <;> exact hx

theorem PanicOr.mono {x : Except Stop α} {P' : α → Prop} (hx : PanicOr P x)
    (h : ∀ a, P a → P' a) : PanicOr P' x := by
  cases x with
  | ok a => exact h a hx
  | error e => cases e <;> exact hx

theorem PanicOr.ok_or_panic {x : Except Stop α} (hx : PanicOr P x) :
    (∃ a, x = .ok a ∧ P a) ∨ ∃ msg, x = .error (.panic msg) := by
  cases x with
  | ok a => exact .inl ⟨a, rfl, hx⟩
  | error e =>
    cases e with
    | panic msg => exact .inr ⟨msg, rfl⟩
    | _ => exact absurd hx id

end panicOr

/-! ## 呼び出しの列 -/

/-- 呼び出しの列を順に回す。途中で止まればそこで止まる。 -/
def runList (f : σ → α → Except ε σ) : σ → List α → Except ε σ
  | s, [] => .ok s
  | s, a :: as =>
    match f s a with
    | .ok s' => runList f s' as
    | .error e => .error e

@[simp] theorem runList_nil (f : σ → α → Except ε σ) (s : σ) : runList f s [] = .ok s := rfl

theorem runList_cons_ok {f : σ → α → Except ε σ} {s s' : σ} {a : α} (h : f s a = .ok s')
    (as : List α) : runList f s (a :: as) = runList f s' as := by
  simp [runList, h]

theorem runList_cons_error {f : σ → α → Except ε σ} {s : σ} {a : α} {e : ε}
    (h : f s a = .error e) (as : List α) : runList f s (a :: as) = .error e := by
  simp [runList, h]

/-- 列を二つに分けて回しても同じである。 -/
theorem runList_append (f : σ → α → Except ε σ) :
    ∀ (s : σ) (as bs : List α),
    runList f s (as ++ bs) = (runList f s as).bind (fun s' => runList f s' bs)
  | s, [], bs => rfl
  | s, a :: as, bs => by
    cases h : f s a with
    | ok s' => rw [List.cons_append, runList_cons_ok h, runList_cons_ok h, runList_append f s' as]
    | error e => rw [List.cons_append, runList_cons_error h, runList_cons_error h]; rfl

/-- 各段が保つ性質は、列を回した後も成り立つ。 -/
theorem runList_inv {f : σ → α → Except ε σ} (P : σ → Prop)
    (hf : ∀ s a s', P s → f s a = .ok s' → P s') :
    ∀ {s s' : σ} (as : List α), P s → runList f s as = .ok s' → P s'
  | s, s', [], hs, h => by cases h; exact hs
  | s, s', a :: as, hs, h => by
    cases hfa : f s a with
    | ok s₁ =>
      rw [runList_cons_ok hfa] at h
      exact runList_inv P hf as (hf s a s₁ hs hfa) h
    | error e => rw [runList_cons_error hfa] at h; cases h

/-- 列が止まった理由は、性質 `P` を保って進んだ後に、ある段が止まった理由である。 -/
theorem runList_error_inv {f : σ → α → Except ε σ} (P : σ → Prop) (Q : ε → Prop)
    (hf : ∀ s a s', P s → f s a = .ok s' → P s') (he : ∀ s a e, P s → f s a = .error e → Q e) :
    ∀ {s : σ} {e : ε} (as : List α), P s → runList f s as = .error e → Q e
  | s, e, [], _, h => by cases h
  | s, e, a :: as, hs, h => by
    cases hfa : f s a with
    | ok s₁ =>
      rw [runList_cons_ok hfa] at h
      exact runList_error_inv P Q hf he as (hf s a s₁ hs hfa) h
    | error e₁ =>
      rw [runList_cons_error hfa] at h
      cases h
      exact he s a _ hs hfa

/-! ## 到達できる状態 -/

/-- 初期状態から段 `step` を重ねて到達できる状態。 -/
inductive Reach (init : σ → Prop) (step : σ → σ → Prop) : σ → Prop
  | init {s : σ} : init s → Reach init step s
  | step {s s' : σ} : Reach init step s → step s s' → Reach init step s'

variable {init : σ → Prop} {step : σ → σ → Prop}

/-- **不変条件の規則。** 初期状態で成り立ち、各段で保たれる性質は、到達できる状態で成り立つ。 -/
theorem Reach.rec_inv (P : σ → Prop) (h0 : ∀ s, init s → P s)
    (hs : ∀ s s', P s → step s s' → P s') {s : σ} (h : Reach init step s) : P s := by
  induction h with
  | init hi => exact h0 _ hi
  | step _ hst ih => exact hs _ _ ih hst

/-- 到達できる状態から呼び出しの列を回して得た状態も、到達できる。 -/
theorem Reach.runList {f : σ → α → Except ε σ} (hf : ∀ s a s', f s a = .ok s' → step s s') :
    ∀ {s s' : σ} (as : List α), Reach init step s → runList f s as = .ok s' →
    Reach init step s'
  | s, s', [], hr, h => by cases h; exact hr
  | s, s', a :: as, hr, h => by
    cases hfa : f s a with
    | ok s₁ =>
      rw [runList_cons_ok hfa] at h
      exact Reach.runList hf as (hr.step (hf s a s₁ hfa)) h
    | error e => rw [runList_cons_error hfa] at h; cases h

end Infra
