import Xv6Mount.Param

/-!
# system call の引数

`syscall.c` の `fetchint`・`fetchstr`・`argint`・`argptr`・`argstr`。user の address は 32 bit の
`uint`、引数の番号と大きさは `int` で、足し算は 2^32 を法とする。

process の大きさ `sz` が `KERNBASE` 以下なら、`sz` より下の address に 4 や `size`（0 以上の
`int` なので 2^31 より小さい）を足しても 2^32 を越えない。したがって、成功した呼び出しが読む
byte と user に渡す範囲は、どれも `[0, sz)` の中にあり、結果は `[0, sz)` の byte だけから
決まる（`arg_checks_sound`・`args_depend_below_sz`）。`argint` の address
`esp + 4 + 4*n` は 2^32 を法として回り得るが、回った後の address が `fetchint` の検査を受ける。

## 停止性

`fetchstr` の loop は `sz - addr` byte を数え下ろす構造的な再帰である。
-/

namespace Xv6

/-- 引数を読むのに要る process の部分：大きさ `sz`、trap frame の `esp`、user memory の byte。 -/
structure UserMem where
  sz : UInt32
  esp : UInt32
  mem : Nat → UInt8

/-- `*(int*)addr`。`a` からの 4 byte を little endian で読む。 -/
def loadInt (mem : Nat → UInt8) (a : Nat) : Int32 :=
  ((mem a).toUInt32 ||| (mem (a + 1)).toUInt32 <<< 8 ||| (mem (a + 2)).toUInt32 <<< 16 |||
    (mem (a + 3)).toUInt32 <<< 24).toInt32

/-- `fetchint(addr, ip)`。`*ip` に入る値を返す。`none` は -1。 -/
def fetchint (p : UserMem) (addr : UInt32) : Option Int32 :=
  if addr ≥ p.sz || addr + 4 > p.sz then none else some (loadInt p.mem addr.toNat)

/-- `fetchstr` の loop。`s` から `n` byte の中で、最初の NUL までの長さ。 -/
def fetchstrLoop (mem : Nat → UInt8) (s : Nat) : Nat → Option Nat
  | 0 => none
  | n + 1 => if mem s = 0 then some 0 else (fetchstrLoop mem (s + 1) n).map (· + 1)

/-- `fetchstr(addr, pp)`。`*pp = addr` として、NUL の前までの長さを返す。`none` は -1。 -/
def fetchstr (p : UserMem) (addr : UInt32) : Option Nat :=
  if addr ≥ p.sz then none else fetchstrLoop p.mem addr.toNat (p.sz.toNat - addr.toNat)

/-- `argint(n, ip)`。`esp + 4 + 4*n` にある int。`4*n` は `int` で計算して `uint` に直す。 -/
def argint (p : UserMem) (n : Int32) : Option Int32 :=
  fetchint p (p.esp + 4 + (4 * n).toUInt32)

/-- `argptr(n, pp, size)`。`*pp` に入る pointer を返す。 -/
def argptr (p : UserMem) (n size : Int32) : Option UInt32 := do
  let i ← argint p n
  if size < 0 || i.toUInt32 ≥ p.sz || i.toUInt32 + size.toUInt32 > p.sz then none
  else some i.toUInt32

/-- `argstr(n, pp)`。`*pp` に入る pointer と、NUL の前までの長さを返す。 -/
def argstr (p : UserMem) (n : Int32) : Option (UInt32 × Nat) := do
  let addr ← argint p n
  let len ← fetchstr p addr.toUInt32
  pure (addr.toUInt32, len)

/-! ## 32 bit の足し算 -/

/-- 和が 2^32 より小さければ、`uint` の足し算は回らない。 -/
theorem toNat_add_of_lt {a b : UInt32} (h : a.toNat + b.toNat < 2 ^ 32) :
    (a + b).toNat = a.toNat + b.toNat := by
  rw [UInt32.toNat_add, Nat.mod_eq_of_lt h]

/-- 0 以上の `int` を `uint` に直した値は 2^31 より小さい。 -/
theorem toNat_toUInt32_of_nonneg {x : Int32} (hx : 0 ≤ x) :
    x.toUInt32.toNat = x.toNatClampNeg ∧ x.toNatClampNeg < 2 ^ 31 :=
  ⟨Int32.toNat_toUInt32_of_le hx, Int32.toNatClampNeg_lt x⟩

/-! ## 一つずつの仕様 -/

section spec

variable {p : UserMem}

/-- `fetchint` が通るのは、4 byte がすべて `sz` より下にあるときである。 -/
theorem fetchint_eq_some (hsz : p.sz.toNat ≤ KERNBASE) {addr : UInt32} {v : Int32} :
    fetchint p addr = some v ↔ addr.toNat + 4 ≤ p.sz.toNat ∧ v = loadInt p.mem addr.toNat := by
  -- 検査は、回らない足し算での `addr + 4 ≤ sz` と同じである
  have hcheck : (addr ≥ p.sz || addr + 4 > p.sz) = !decide (addr.toNat + 4 ≤ p.sz.toNat) := by
    by_cases ha : addr.toNat < p.sz.toNat
    · -- `addr < sz ≤ KERNBASE` なので `addr + 4` は回らない
      have h4 : (addr + 4).toNat = addr.toNat + 4 :=
        toNat_add_of_lt (by simp [KERNBASE] at hsz ⊢; omega)
      simp only [ge_iff_le, gt_iff_lt, UInt32.le_iff_toNat_le, UInt32.lt_iff_toNat_lt, h4]
      by_cases h : addr.toNat + 4 ≤ p.sz.toNat
      · simp [h, show ¬ p.sz.toNat ≤ addr.toNat by omega]
      · simp [h]
        omega
    · simp [UInt32.le_iff_toNat_le, show p.sz.toNat ≤ addr.toNat by omega]
      omega
  unfold fetchint
  rw [hcheck]
  by_cases h : addr.toNat + 4 ≤ p.sz.toNat
  · simp [h, eq_comm]
  · simp [h]

/-- `fetchstrLoop` が長さ `len` を返すのは、`s + len` が `n` byte の中で最初の NUL のときである。 -/
theorem fetchstrLoop_eq_some {mem : Nat → UInt8} :
    ∀ {n s len : Nat}, fetchstrLoop mem s n = some len ↔
      len < n ∧ mem (s + len) = 0 ∧ ∀ k < len, mem (s + k) ≠ 0
  | 0, s, len => by simp [fetchstrLoop]
  | n + 1, s, len => by
    unfold fetchstrLoop
    by_cases h0 : mem s = 0
    · simp only [h0, if_true, Option.some.injEq]
      constructor
      · rintro rfl
        simp [h0]
      · rintro ⟨-, -, hk⟩
        by_contra hne
        exact hk 0 (by omega) (by simpa using h0)
    · simp only [h0, if_false, Option.map_eq_some_iff]
      constructor
      · rintro ⟨m, hm, rfl⟩
        obtain ⟨hlt, hz, hk⟩ := fetchstrLoop_eq_some.1 hm
        refine ⟨by omega, by rw [← hz]; congr 1; omega, fun k hk' => ?_⟩
        -- 先頭の byte は `h0`、残りは帰納法の仮定
        cases k with
        | zero => simpa using h0
        | succ k =>
          have := hk k (by omega)
          rwa [show s + (k + 1) = s + 1 + k by omega]
      · rintro ⟨hlt, hz, hk⟩
        cases len with
        | zero => exact absurd (by simpa using hz) h0
        | succ m =>
          refine ⟨m, fetchstrLoop_eq_some.2 ⟨by omega, ?_, fun k hk' => ?_⟩, rfl⟩
          · rwa [show s + 1 + m = s + (m + 1) by omega]
          · have := hk (k + 1) (by omega)
            rwa [show s + (k + 1) = s + 1 + k by omega] at this

/-- `fetchstrLoop` が -1 になるのは、`n` byte の中に NUL がないときである。 -/
theorem fetchstrLoop_eq_none {mem : Nat → UInt8} :
    ∀ {n s : Nat}, fetchstrLoop mem s n = none ↔ ∀ k < n, mem (s + k) ≠ 0
  | 0, s => by simp [fetchstrLoop]
  | n + 1, s => by
    unfold fetchstrLoop
    by_cases h0 : mem s = 0
    · simp only [h0, if_true, reduceCtorEq, false_iff, not_forall, not_not]
      exact ⟨0, by omega, by simpa using h0⟩
    · simp only [h0, if_false, Option.map_eq_none_iff, fetchstrLoop_eq_none]
      constructor
      · intro hk k hk'
        cases k with
        | zero => simpa using h0
        | succ k =>
          have := hk k (by omega)
          rwa [show s + 1 + k = s + (k + 1) by omega] at this
      · intro hk k hk'
        have := hk (k + 1) (by omega)
        rwa [show s + (k + 1) = s + 1 + k by omega] at this

/-- `fetchstr` は `[addr, sz)` の中で最初の NUL までの長さを返す。 -/
theorem fetchstr_eq_some {addr : UInt32} {len : Nat} :
    fetchstr p addr = some len ↔
      addr.toNat + len < p.sz.toNat ∧ p.mem (addr.toNat + len) = 0 ∧
        ∀ k < len, p.mem (addr.toNat + k) ≠ 0 := by
  unfold fetchstr
  by_cases ha : addr.toNat < p.sz.toNat
  · simp only [ge_iff_le, UInt32.le_iff_toNat_le, show ¬ p.sz.toNat ≤ addr.toNat by omega,
      if_false, fetchstrLoop_eq_some]
    constructor
    · rintro ⟨h, hz, hk⟩
      exact ⟨by omega, hz, hk⟩
    · rintro ⟨h, hz, hk⟩
      exact ⟨by omega, hz, hk⟩
  · simp only [ge_iff_le, UInt32.le_iff_toNat_le, show p.sz.toNat ≤ addr.toNat by omega,
      if_true, reduceCtorEq, false_iff]
    rintro ⟨h, -⟩
    omega

/-- `fetchstr` が -1 を返すのは、`[addr, sz)` に NUL がないときである。 -/
theorem fetchstr_eq_none {addr : UInt32} :
    fetchstr p addr = none ↔ ∀ k, addr.toNat + k < p.sz.toNat → p.mem (addr.toNat + k) ≠ 0 := by
  unfold fetchstr
  by_cases ha : addr.toNat < p.sz.toNat
  · simp only [ge_iff_le, UInt32.le_iff_toNat_le, show ¬ p.sz.toNat ≤ addr.toNat by omega,
      if_false, fetchstrLoop_eq_none]
    constructor
    · intro h k hk
      exact h k (by omega)
    · intro h k hk
      exact h k (by omega)
  · simp only [ge_iff_le, UInt32.le_iff_toNat_le, show p.sz.toNat ≤ addr.toNat by omega,
      if_true, true_iff]
    intro k hk
    omega

/-- `argint` は `esp + 4 + 4*n`（2^32 を法とする）からの 4 byte が `sz` より下にあるときだけ通る。 -/
theorem argint_eq_some (hsz : p.sz.toNat ≤ KERNBASE) {n v : Int32} :
    argint p n = some v ↔
      (p.esp + 4 + (4 * n).toUInt32).toNat + 4 ≤ p.sz.toNat ∧
        v = loadInt p.mem (p.esp + 4 + (4 * n).toUInt32).toNat :=
  fetchint_eq_some hsz

/-- `argptr` が渡す範囲 `[ptr, ptr + size)` は `sz` より下にあり、`ptr` 自身も `sz` より小さい。 -/
theorem argptr_eq_some (hsz : p.sz.toNat ≤ KERNBASE) {n size : Int32} {ptr : UInt32} :
    argptr p n size = some ptr ↔ ∃ i, argint p n = some i ∧ ptr = i.toUInt32 ∧ 0 ≤ size ∧
      ptr.toNat < p.sz.toNat ∧ ptr.toNat + size.toNatClampNeg ≤ p.sz.toNat := by
  unfold argptr
  cases hi : argint p n with
  | none => simp
  | some i =>
    simp only [Option.bind_eq_bind, Option.bind_some, Option.some.injEq, exists_eq_left']
    by_cases hs : size < 0
    · simp only [hs, decide_true, Bool.true_or, if_true, reduceCtorEq, false_iff]
      rintro ⟨-, hs', -⟩
      exact absurd hs' (by simpa using hs)
    · have hs' : 0 ≤ size := by simpa using hs
      obtain ⟨hsize, hlt⟩ := toNat_toUInt32_of_nonneg hs'
      by_cases hp : i.toUInt32.toNat < p.sz.toNat
      · -- `i < sz ≤ KERNBASE` と `size < 2^31` なので `i + size` は回らない
        have hadd : (i.toUInt32 + size.toUInt32).toNat = i.toUInt32.toNat + size.toNatClampNeg := by
          rw [toNat_add_of_lt (by simp [KERNBASE] at hsz; omega), hsize]
        simp only [hs, decide_false, Bool.false_or, ge_iff_le, gt_iff_lt, UInt32.le_iff_toNat_le,
          UInt32.lt_iff_toNat_lt, hadd, show ¬ p.sz.toNat ≤ i.toUInt32.toNat by omega]
        by_cases hr : p.sz.toNat < i.toUInt32.toNat + size.toNatClampNeg
        · simp only [hr, decide_true, if_true, reduceCtorEq, false_iff]
          rintro ⟨rfl, -, -, h⟩
          omega
        · simp only [hr, decide_false, Bool.false_eq_true, if_false, Option.some.injEq]
          constructor
          · rintro rfl
            exact ⟨rfl, hs', hp, by omega⟩
          · rintro ⟨rfl, -⟩
            rfl
      · simp only [ge_iff_le, UInt32.le_iff_toNat_le, show p.sz.toNat ≤ i.toUInt32.toNat by omega,
          decide_true, Bool.or_true, Bool.true_or, if_true, reduceCtorEq, false_iff]
        rintro ⟨rfl, -, h, -⟩
        omega

/-- `argstr` は、`argint` で読んだ address から `fetchstr` した結果を返す。 -/
theorem argstr_eq_some {n : Int32} {addr : UInt32} {len : Nat} :
    argstr p n = some (addr, len) ↔
      ∃ i, argint p n = some i ∧ addr = i.toUInt32 ∧ fetchstr p addr = some len := by
  simp only [argstr, Option.bind_eq_bind, Option.bind_eq_some_iff, Option.pure_def,
    Option.some.injEq, Prod.mk.injEq]
  constructor
  · rintro ⟨i, hi, m, hm, rfl, rfl⟩
    exact ⟨i, hi, rfl, hm⟩
  · rintro ⟨i, hi, rfl, hm⟩
    exact ⟨i, hi, len, hm, rfl, rfl⟩

/-- `loadInt` は `a` から 4 byte しか読まない。 -/
theorem loadInt_congr {m m' : Nat → UInt8} {a : Nat} (h : ∀ k < 4, m' (a + k) = m (a + k)) :
    loadInt m' a = loadInt m a := by
  have h0 := h 0 (by omega)
  have h1 := h 1 (by omega)
  have h2 := h 2 (by omega)
  have h3 := h 3 (by omega)
  simp only [Nat.add_zero] at h0
  simp only [loadInt, h0, h1, h2, h3]

/--
**引数は `sz` より下の memory だけから決まる。** 大きさと `esp` が同じで、`[0, sz)` の byte が
等しい二つの process では、五つの関数はどれも同じ結果を返す。
-/
theorem args_depend_below_sz {q : UserMem} (hsz : p.sz.toNat ≤ KERNBASE) (hs : q.sz = p.sz)
    (he : q.esp = p.esp) (hm : ∀ a < p.sz.toNat, q.mem a = p.mem a) :
    fetchint q = fetchint p ∧ fetchstr q = fetchstr p ∧ argint q = argint p ∧
      argptr q = argptr p ∧ argstr q = argstr p := by
  have hsz' : q.sz.toNat ≤ KERNBASE := hs ▸ hsz
  have hint : fetchint q = fetchint p := by
    funext addr
    refine Option.ext fun v => ?_
    rw [fetchint_eq_some hsz', fetchint_eq_some hsz, hs]
    constructor
    · rintro ⟨hb, rfl⟩
      exact ⟨hb, loadInt_congr fun k hk => hm _ (by omega)⟩
    · rintro ⟨hb, rfl⟩
      exact ⟨hb, (loadInt_congr fun k hk => hm _ (by omega)).symm⟩
  have hstr : fetchstr q = fetchstr p := by
    funext addr
    refine Option.ext fun len => ?_
    rw [fetchstr_eq_some, fetchstr_eq_some, hs]
    constructor
    · rintro ⟨hb, hz, hk⟩
      refine ⟨hb, (hm _ hb) ▸ hz, fun k hk' => ?_⟩
      rw [← hm _ (by omega)]
      exact hk k hk'
    · rintro ⟨hb, hz, hk⟩
      refine ⟨hb, (hm _ hb).symm ▸ hz, fun k hk' => ?_⟩
      rw [hm _ (by omega)]
      exact hk k hk'
  have harg : argint q = argint p := by
    funext n
    unfold argint
    rw [hint, he]
  refine ⟨hint, hstr, harg, ?_, ?_⟩
  · funext n size
    unfold argptr
    rw [harg, hs]
  · funext n
    unfold argstr
    rw [harg, hstr]

end spec

/-! ## 検査の健全性 -/

/--
8 KiB の二つの process。memory は `sz` より上だけが違う（一方は 0、他方は 7）ので、引数はどれも同じに読める。
-/
theorem args_ignore_memory_above_sz :
    (⟨0x2000, 0x1000, fun _ => 0⟩ : UserMem).sz.toNat ≤ KERNBASE ∧
      (⟨0x2000, 0x1000, fun a => if a < 0x2000 then 0 else 7⟩ : UserMem).sz = (⟨0x2000, 0x1000, fun _ => 0⟩ : UserMem).sz ∧
      (⟨0x2000, 0x1000, fun a => if a < 0x2000 then 0 else 7⟩ : UserMem).esp =
        (⟨0x2000, 0x1000, fun _ => 0⟩ : UserMem).esp ∧
      (∀ a < (⟨0x2000, 0x1000, fun _ => 0⟩ : UserMem).sz.toNat,
        (⟨0x2000, 0x1000, fun a => if a < 0x2000 then 0 else 7⟩ : UserMem).mem a =
          (⟨0x2000, 0x1000, fun _ => 0⟩ : UserMem).mem a) ∧
      fetchint ⟨0x2000, 0x1000, fun a => if a < 0x2000 then 0 else 7⟩ = fetchint ⟨0x2000, 0x1000, fun _ => 0⟩ ∧
      fetchstr ⟨0x2000, 0x1000, fun a => if a < 0x2000 then 0 else 7⟩ = fetchstr ⟨0x2000, 0x1000, fun _ => 0⟩ ∧
      argint ⟨0x2000, 0x1000, fun a => if a < 0x2000 then 0 else 7⟩ = argint ⟨0x2000, 0x1000, fun _ => 0⟩ ∧
      argptr ⟨0x2000, 0x1000, fun a => if a < 0x2000 then 0 else 7⟩ = argptr ⟨0x2000, 0x1000, fun _ => 0⟩ ∧
      argstr ⟨0x2000, 0x1000, fun a => if a < 0x2000 then 0 else 7⟩ = argstr ⟨0x2000, 0x1000, fun _ => 0⟩ := by
  have hm : ∀ a < (⟨0x2000, 0x1000, fun _ => 0⟩ : UserMem).sz.toNat,
      (⟨0x2000, 0x1000, fun a => if a < 0x2000 then 0 else 7⟩ : UserMem).mem a =
        (⟨0x2000, 0x1000, fun _ => 0⟩ : UserMem).mem a := by
    intro a ha
    have ha' : a < 0x2000 := ha
    simp only [ha', if_true]
  exact ⟨by decide, rfl, rfl, hm, args_depend_below_sz (by decide) rfl rfl hm⟩

/--
**引数の検査は健全である。** process の大きさが `KERNBASE` 以下なら、どの `esp`・address・
引数の番号・大きさについても、成功した `fetchint`・`argint` が読む 4 byte、`argptr` が渡す
`size` byte、`fetchstr`・`argstr` が返す文字列とその NUL は、どれも `[0, sz)` の中にある。
`fetchstr` は `[addr, sz)` の最初の NUL までの長さを返し、NUL がなければ -1 を返す。
-/
theorem arg_checks_sound (p : UserMem) (hsz : p.sz.toNat ≤ KERNBASE) :
    (∀ addr v, fetchint p addr = some v → addr.toNat + 4 ≤ p.sz.toNat ∧ v = loadInt p.mem addr.toNat) ∧
    (∀ addr len, fetchstr p addr = some len ↔
      addr.toNat + len < p.sz.toNat ∧ p.mem (addr.toNat + len) = 0 ∧ ∀ k < len, p.mem (addr.toNat + k) ≠ 0) ∧
    (∀ addr, fetchstr p addr = none ↔ ∀ k, addr.toNat + k < p.sz.toNat → p.mem (addr.toNat + k) ≠ 0) ∧
    (∀ n v, argint p n = some v → (p.esp + 4 + (4 * n).toUInt32).toNat + 4 ≤ p.sz.toNat) ∧
    (∀ n size ptr, argptr p n size = some ptr →
      0 ≤ size ∧ ptr.toNat < p.sz.toNat ∧ ptr.toNat + size.toNatClampNeg ≤ p.sz.toNat) ∧
    (∀ n addr len, argstr p n = some (addr, len) →
      addr.toNat + len < p.sz.toNat ∧ p.mem (addr.toNat + len) = 0) := by
  refine ⟨fun addr v h => (fetchint_eq_some hsz).1 h, fun addr len => fetchstr_eq_some,
    fun addr => fetchstr_eq_none, fun n v h => ((argint_eq_some hsz).1 h).1, ?_, ?_⟩
  · intro n size ptr h
    obtain ⟨i, -, -, hs, hp, hr⟩ := (argptr_eq_some hsz).1 h
    exact ⟨hs, hp, hr⟩
  · intro n addr len h
    obtain ⟨i, -, -, hf⟩ := argstr_eq_some.1 h
    obtain ⟨hlt, hz, -⟩ := fetchstr_eq_some.1 hf
    exact ⟨hlt, hz⟩

/-- 8 KiB の process（`esp = 0x1000`）で、検査の健全性が成り立つ。 -/
theorem arg_checks_sound_8k :
    (⟨0x2000, 0x1000, fun _ => 0⟩ : UserMem).sz.toNat ≤ KERNBASE ∧
      ((∀ addr v, fetchint ⟨0x2000, 0x1000, fun _ => 0⟩ addr = some v →
          addr.toNat + 4 ≤ 0x2000 ∧ v = loadInt (fun _ => 0) addr.toNat) ∧
        (∀ addr len, fetchstr ⟨0x2000, 0x1000, fun _ => 0⟩ addr = some len ↔
          addr.toNat + len < 0x2000 ∧ (0 : UInt8) = 0 ∧ ∀ k < len, (0 : UInt8) ≠ 0) ∧
        (∀ addr, fetchstr ⟨0x2000, 0x1000, fun _ => 0⟩ addr = none ↔
          ∀ k, addr.toNat + k < 0x2000 → (0 : UInt8) ≠ 0) ∧
        (∀ n v, argint ⟨0x2000, 0x1000, fun _ => 0⟩ n = some v →
          ((0x1000 : UInt32) + 4 + (4 * n).toUInt32).toNat + 4 ≤ 0x2000) ∧
        (∀ n size ptr, argptr ⟨0x2000, 0x1000, fun _ => 0⟩ n size = some ptr →
          0 ≤ size ∧ ptr.toNat < 0x2000 ∧ ptr.toNat + size.toNatClampNeg ≤ 0x2000) ∧
        (∀ n addr len, argstr ⟨0x2000, 0x1000, fun _ => 0⟩ n = some (addr, len) →
          addr.toNat + len < 0x2000 ∧ (0 : UInt8) = 0)) :=
  ⟨by decide, arg_checks_sound ⟨0x2000, 0x1000, fun _ => 0⟩ (by decide)⟩

end Xv6
