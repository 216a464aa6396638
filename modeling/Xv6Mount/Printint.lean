import Mathlib.Data.Nat.Digits.Defs

/-!
# 整数の表示と読み込み（`console.c`・`printf.c` の `printint`、`ulib.c` の `atoi`）

`printint` は kernel（`cprintf`）と user（`printf`）に一つずつある。どちらも `x % base` の桁を
下の桁から `buf` に入れ、負なら `-` を足して、`buf` を後ろから出す。違いは二つある。

* 桁の表。kernel は `"0123456789abcdef"`、user は `"0123456789ABCDEF"` である
* 符号の判定。kernel は `if(sign && (sign = xx < 0))` と `sign` 自身に書き、user は `neg` に書く

`-xx` は `int` の否定で、`INT_MIN` では桁あふれする。このモデルは `Int32` の否定（2^32 を法とする）
で書く。生成される機械語もそう動く。`-INT_MIN` は `INT_MIN` で、`uint` に直すと 2^31 である。

`atoi` の `n*10 + *s++ - '0'` も `Int32` の演算で書く。`xx ≥ 2147483600` の表示を読むと、
最後の段の `n*10 + *s` は `INT_MAX` を越える（C では未定義）。2^32 を法として戻り、
結果は `xx` になる。

呼び出し元が渡す `base` は 10（`%d`）と 16（`%x`・`%p`）だけである。`base` は 2 以上 16 以下の
値として受ける（`Radix`）。0 なら 0 除算、1 なら止まらない loop、17 以上なら表の外を読む。

## 停止性

桁の loop は `x` で止まる。`x / base ≠ 0` のとき `base ≥ 2` から `x / base < x` である。
-/

namespace Xv6

/-- `printint` の `base`。2 以上 16 以下。 -/
structure Radix where
  val : Nat
  two_le : 2 ≤ val
  le_sixteen : val ≤ 16

/-- `%d` の 10。 -/
def Radix.ten : Radix := ⟨10, by decide, by decide⟩

/-- `%x`・`%p` の 16。 -/
def Radix.sixteen : Radix := ⟨16, by decide, by decide⟩

/-- 桁の loop。`do { buf[i++] = digits[x % base]; } while((x /= base) != 0);`。下の桁から並べる。 -/
def digitLoop (digits : List Char) (base : Radix) (x : Nat) : List Char :=
  digits.getD (x % base.val) ' ' :: if x / base.val ≠ 0 then digitLoop digits base (x / base.val) else []
termination_by x
decreasing_by exact Nat.div_lt_self (Nat.pos_of_ne_zero fun h => by simp_all) (by have := base.two_le; omega)

namespace Console

/-- kernel の `digits[]`。 -/
def digits : List Char := "0123456789abcdef".toList

/-- kernel の `printint(xx, base, sign)`。`consputc` に出す文字の列。 -/
def printint (xx : Int32) (base : Radix) (sign : Bool) : List Char :=
  let sign := sign && decide (xx < 0)
  let x : UInt32 := if sign then (-xx).toUInt32 else xx.toUInt32
  let buf := digitLoop digits base x.toNat
  let buf := if sign then buf ++ ['-'] else buf
  buf.reverse

end Console

namespace Ulib

/-- user の `digits[]`。 -/
def digits : List Char := "0123456789ABCDEF".toList

/-- user の `printint(fd, xx, base, sgn)`。`putc` に出す文字の列。 -/
def printint (xx : Int32) (base : Radix) (sgn : Bool) : List Char :=
  let neg := sgn && decide (xx < 0)
  let x : UInt32 := if neg then (-xx).toUInt32 else xx.toUInt32
  let buf := digitLoop digits base x.toNat
  let buf := if neg then buf ++ ['-'] else buf
  buf.reverse

/-- `atoi` の loop。数字が続く間 `n = n*10 + *s++ - '0'`。 -/
def atoiLoop (n : Int32) : List Char → Int32
  | c :: s => if '0' ≤ c ∧ c ≤ '9' then atoiLoop (n * 10 + Int32.ofNat c.toNat - 48) s else n
  | [] => n

/-- `atoi(s)`。 -/
def atoi (s : List Char) : Int32 := atoiLoop 0 s

end Ulib

/-! ## 桁の loop -/

/--
桁の表が `Nat.digitChar` を `f` で写したものなら、桁の loop は `Nat.toDigits` を `f` で写して
逆に並べたものである。
-/
theorem digitLoop_eq {digits : List Char} {f : Char → Char}
    (hf : ∀ d < 16, digits.getD d ' ' = f (Nat.digitChar d)) (base : Radix) (x : Nat) :
    digitLoop digits base x = ((Nat.toDigits base.val x).map f).reverse := by
  have hb := base.two_le
  fun_induction digitLoop digits base x with
  | case1 x ih =>
    by_cases h : x / base.val ≠ 0
    · -- 上の桁が続く
      have hle : base.val ≤ x := by
        by_contra hlt
        exact h (Nat.div_eq_of_lt (Nat.lt_of_not_le hlt))
      rw [if_pos h, ih h, Nat.toDigits_of_base_le (by omega) hle,
        hf _ (Nat.lt_of_lt_of_le (Nat.mod_lt _ (by omega)) base.le_sixteen)]
      simp
    · -- 最後の桁
      have hlt : x < base.val := by
        rcases Nat.lt_or_ge x base.val with hlt | hle
        · exact hlt
        · exact absurd (Nat.div_pos hle (by omega)) (by simp only [ne_eq, not_not] at h; omega)
      rw [if_neg h, Nat.toDigits_of_lt_base hlt, Nat.mod_eq_of_lt hlt,
        hf _ (Nat.lt_of_lt_of_le hlt base.le_sixteen)]
      simp

theorem Console.digits_getD : ∀ d < 16, Console.digits.getD d ' ' = Nat.digitChar d := by decide

theorem Ulib.digits_getD : ∀ d < 16, Ulib.digits.getD d ' ' = (Nat.digitChar d).toUpper := by decide

/-! ## 表示される値 -/

/-- 負の `int` の否定を `uint` に直すと、絶対値である。`INT_MIN` では 2^31 になる。 -/
theorem toNat_toUInt32_neg {xx : Int32} (h : xx < 0) : (-xx).toUInt32.toNat = xx.toInt.natAbs := by
  have hlt : xx.toInt < 0 := Int32.lt_iff_toInt_lt.mp h
  -- `int` の値は、`uint` として読んだ値か、それから 2^32 を引いた値である
  have hc : xx.toInt = if 2 * xx.toUInt32.toNat < 2 ^ 32 then (xx.toUInt32.toNat : Int)
      else (xx.toUInt32.toNat : Int) - (2 ^ 32 : Nat) := BitVec.toInt_eq_toNat_cond xx.toBitVec
  have hn : (-xx).toUInt32.toNat = (2 ^ 32 - xx.toUInt32.toNat) % 2 ^ 32 := by
    simp
  have hb := xx.toUInt32.toNat_lt
  rw [hn]
  split at hc <;> omega

/-- 0 以上の `int` を `uint` に直しても値は変わらない。 -/
theorem toNat_toUInt32_eq_natAbs {xx : Int32} (h : 0 ≤ xx) : xx.toUInt32.toNat = xx.toInt.natAbs := by
  rw [Int32.toNat_toUInt32_of_le h, Int32.toNatClampNeg]
  have := Int32.le_iff_toInt_le.mp h
  simp only [Int32.toInt_zero] at this
  omega

/-- `printint` が `uint` に直す値。符号を付けるなら絶対値、付けないなら `uint` として読んだ値。 -/
theorem printint_value (xx : Int32) (sign : Bool) :
    (if (sign && decide (xx < 0)) = true then (-xx).toUInt32 else xx.toUInt32).toNat =
      if (sign && decide (xx < 0)) = true then xx.toInt.natAbs else xx.toUInt32.toNat := by
  split
  · rename_i h
    simp only [Bool.and_eq_true, decide_eq_true_eq] at h
    exact toNat_toUInt32_neg h.2
  · rfl

/-- kernel の `printint` は、符号と、値の `base` 進表記である。 -/
theorem Console.printint_eq (xx : Int32) (base : Radix) (sign : Bool) :
    Console.printint xx base sign =
      (if (sign && decide (xx < 0)) = true then ['-'] else []) ++
        Nat.toDigits base.val (if (sign && decide (xx < 0)) = true then xx.toInt.natAbs
          else xx.toUInt32.toNat) := by
  unfold Console.printint
  dsimp only
  rw [digitLoop_eq (f := id) Console.digits_getD, List.map_id, printint_value]
  split <;> simp

/-- user の `printint` は、kernel のものの英字を大文字にしたものである。 -/
theorem Ulib.printint_eq_map_toUpper (xx : Int32) (base : Radix) (sgn : Bool) :
    Ulib.printint xx base sgn = (Console.printint xx base sgn).map Char.toUpper := by
  unfold Ulib.printint Console.printint
  dsimp only
  rw [digitLoop_eq Ulib.digits_getD, digitLoop_eq (f := id) Console.digits_getD, List.map_id]
  split <;> simp

/-! ## 10 進表記 -/

theorem toUpper_of_isDigit {c : Char} (h : c.isDigit) : c.toUpper = c := by
  simp only [Char.isDigit, Bool.and_eq_true, decide_eq_true_eq] at h
  unfold Char.toUpper
  rw [dif_neg]
  -- 数字は `'9'` 以下なので、`'a'` 以上ではない
  rintro ⟨ha, -⟩
  exact absurd (UInt32.le_trans ha h.2) (by decide)

theorem map_toUpper_toDigits_ten (n : Nat) : (Nat.toDigits 10 n).map Char.toUpper = Nat.toDigits 10 n :=
  (List.map_congr_left fun _ hc => toUpper_of_isDigit (Nat.isDigit_of_mem_toDigits (by decide) le_rfl hc)).trans
    (List.map_id _)

/-- `Int.repr` は、負なら `-` を付けた絶対値の 10 進表記である。 -/
theorem toList_repr_int (z : Int) :
    z.repr.toList = (if z < 0 then ['-'] else []) ++ Nat.toDigits 10 z.natAbs := by
  cases z with
  | ofNat m => simp [Int.repr, Nat.toList_repr]
  | negSucc m => simp [Int.repr, Nat.toList_repr]

/-- `%d` の表示は `Int.repr` である。`INT_MIN` も含む。 -/
theorem Console.printint_ten (xx : Int32) : Console.printint xx Radix.ten true = xx.toInt.repr.toList := by
  rw [Console.printint_eq, toList_repr_int]
  by_cases h : xx < 0
  · have hz : xx.toInt < 0 := Int32.lt_iff_toInt_lt.mp h
    simp [h, hz, Radix.ten]
  · have hz : ¬xx.toInt < 0 := fun hz => h (Int32.lt_iff_toInt_lt.mpr hz)
    simp [h, hz, Radix.ten, toNat_toUInt32_eq_natAbs (Int32.not_lt.mp h)]

example : Console.printint (-2147483648) Radix.ten true = "-2147483648".toList := by
  rw [Console.printint_eq]
  decide

/-- user の `%d` も同じ文字を出す。 -/
theorem Ulib.printint_ten (xx : Int32) : Ulib.printint xx Radix.ten true = xx.toInt.repr.toList := by
  rw [Ulib.printint_eq_map_toUpper, Console.printint_ten, toList_repr_int, List.map_append,
    map_toUpper_toDigits_ten]
  split <;> rfl

/-- 0 でない数の 10 進表記は `0` で始まらない。 -/
theorem head?_toDigits_ten_ne_zero {n : Nat} (hn : 0 < n) : (Nat.toDigits 10 n).head? ≠ some '0' := by
  induction n using Nat.strong_induction_on with
  | _ n ih =>
    rcases Nat.lt_or_ge n 10 with hlt | hle
    · rw [Nat.toDigits_of_lt_base hlt]
      intro h
      have h₀ : (Nat.digitChar n).toNat = 48 := by simp only [List.head?_cons, Option.some.injEq] at h; rw [h]; rfl
      rw [Nat.toNat_digitChar_of_lt_ten hlt] at h₀
      omega
    · -- 上の桁が先頭に来る
      have ih' := ih (n / 10) (Nat.div_lt_self hn (by decide)) (Nat.div_pos hle (by decide))
      obtain ⟨c, cs, hc⟩ := List.exists_cons_of_ne_nil (Nat.toDigits_ne_nil (n := n / 10) (b := 10))
      rw [hc] at ih'
      rw [Nat.toDigits_of_base_le (by decide) hle, hc, List.cons_append]
      exact ih'

/-- `%d` の表示が `0` で始まるのは、値が 0 のときだけである。 -/
theorem Console.eq_zero_of_printint_ten_head? {xx : Int32}
    (h : (Console.printint xx Radix.ten true).head? = some '0') : xx = 0 := by
  rw [Console.printint_ten, toList_repr_int] at h
  split at h
  · simp at h
  · rcases Nat.eq_zero_or_pos xx.toInt.natAbs with h₀ | hpos
    · exact Int32.toInt_inj.mp (by simpa using Int.natAbs_eq_zero.mp h₀)
    · exact absurd h (head?_toDigits_ten_ne_zero hpos)

/-! ## 16 進表記 -/

/-- `%x` の表示は `uint` として読んだ値の 16 進表記である。 -/
theorem Console.printint_sixteen (xx : Int32) :
    Console.printint xx Radix.sixteen false = Nat.toDigits 16 xx.toUInt32.toNat := by
  rw [Console.printint_eq]
  simp [Radix.sixteen]

/-! ## buffer の大きさ -/

/-- `base^k` が 2^32 以上なら、出す文字は `k + 1` 個以下である。 -/
theorem Console.length_printint_le (xx : Int32) (sign : Bool) {base : Radix} {k : Nat} (hk : 0 < k)
    (hb : 2 ^ 32 ≤ base.val ^ k) : (Console.printint xx base sign).length ≤ k + 1 := by
  have hlt : xx.toUInt32.toNat < 2 ^ 32 := xx.toUInt32.toNat_lt
  have habs : xx.toInt.natAbs ≤ 2 ^ 31 := by
    have := xx.le_toInt
    have := xx.toInt_lt
    omega
  -- 値は 2^32 未満なので、桁は `k` 個以下
  have hd : ∀ v < 2 ^ 32, (Nat.toDigits base.val v).length ≤ k := fun v hv =>
    (Nat.length_toDigits_le_iff (by have := base.two_le; omega) hk).mpr (by omega)
  rw [Console.printint_eq, List.length_append]
  split
  · simpa [Nat.add_comm] using hd _ (by omega)
  · simpa using Nat.le_succ_of_le (hd _ hlt)

theorem Console.length_printint_ten_le (xx : Int32) (sign : Bool) :
    (Console.printint xx Radix.ten sign).length ≤ 11 :=
  Console.length_printint_le xx sign (k := 10) (by decide) (by decide)

theorem Console.length_printint_sixteen_le (xx : Int32) (sign : Bool) :
    (Console.printint xx Radix.sixteen sign).length ≤ 9 :=
  Console.length_printint_le xx sign (k := 8) (by decide) (by decide)

/-! ## `atoi` -/

theorem le_and_le_of_isDigit {c : Char} (h : c.isDigit) : '0' ≤ c ∧ c ≤ '9' := by
  simp only [Char.isDigit, Bool.and_eq_true, decide_eq_true_eq] at h
  exact ⟨h.1, h.2⟩

theorem Ulib.atoiLoop_append {cs : List Char} (hcs : ∀ c ∈ cs, c.isDigit) (n : Int32) (s : List Char) :
    Ulib.atoiLoop n (cs ++ s) = Ulib.atoiLoop (Ulib.atoiLoop n cs) s := by
  induction cs generalizing n with
  | nil => rfl
  | cons c cs ih =>
    have hc := le_and_le_of_isDigit (hcs c List.mem_cons_self)
    simp only [List.cons_append, Ulib.atoiLoop, hc, and_self, if_true]
    exact ih (fun c h => hcs c (List.mem_cons_of_mem _ h)) _

theorem Ulib.atoiLoop_digitChar (n : Int32) {d : Nat} (hd : d < 10) :
    Ulib.atoiLoop n [Nat.digitChar d] = n * 10 + Int32.ofNat d := by
  have hc : (Nat.digitChar d).isDigit := by simp [Nat.isDigit_digitChar, hd]
  simp only [Ulib.atoiLoop, le_and_le_of_isDigit hc, and_self, if_true, Nat.toNat_digitChar_of_lt_ten hd,
    Int32.ofNat_add]
  grind

/--
`atoi` は 10 進表記を読み戻す。途中の `n*10 + c` は `Int32` の演算（2^32 を法とする）で、
結果は表記した値を 2^32 を法として戻したものである。
-/
theorem Ulib.atoiLoop_toDigits (v : Nat) : Ulib.atoiLoop 0 (Nat.toDigits 10 v) = Int32.ofNat v := by
  induction v using Nat.strong_induction_on with
  | _ v ih =>
    rcases Nat.lt_or_ge v 10 with hlt | hle
    · rw [Nat.toDigits_of_lt_base hlt, Ulib.atoiLoop_digitChar 0 hlt]
      grind
    · -- 上の桁を読んだ値に、最後の桁を足す
      have hds : ∀ c ∈ Nat.toDigits 10 (v / 10), c.isDigit := fun _ hc =>
        Nat.isDigit_of_mem_toDigits (by decide) le_rfl hc
      rw [Nat.toDigits_of_base_le (by decide) hle, Ulib.atoiLoop_append hds,
        ih (v / 10) (Nat.div_lt_self (by omega) (by decide)),
        Ulib.atoiLoop_digitChar _ (Nat.mod_lt _ (by decide))]
      have hv : Int32.ofNat v = Int32.ofNat (v / 10) * Int32.ofNat 10 + Int32.ofNat (v % 10) := by
        rw [← Int32.ofNat_mul, ← Int32.ofNat_add, Nat.div_add_mod']
      rw [hv]
      rfl

/-- 0 以上の値の `%d` の表示を `atoi` で読むと、元の値に戻る。 -/
theorem Ulib.atoi_printint_ten {xx : Int32} (h : 0 ≤ xx) : Ulib.atoi (Ulib.printint xx Radix.ten true) = xx := by
  have hz : ¬xx.toInt < 0 := fun hz => Int32.not_lt.mpr h (Int32.lt_iff_toInt_lt.mpr hz)
  rw [Ulib.printint_ten, toList_repr_int, if_neg hz, List.nil_append, Ulib.atoi, Ulib.atoiLoop_toDigits,
    ← toNat_toUInt32_eq_natAbs h, Int32.toNat_toUInt32_of_le h, Int32.ofNat_toNatClampNeg _ h]

/-! ## 表示と読み込み -/

/--
`%d` は `INT_MIN` を含むどの `int` も標準の 10 進表記（`Int.repr`）で出し、`%x` は `uint` として
読んだ値の 16 進表記を出す。kernel と user の違いは英字の大小だけで、`buf[16]` を越えない。
0 以上の値の表示は `atoi` で元に戻る。
-/
theorem printint_decimal_hex_atoi (xx : Int32) :
    Console.printint xx Radix.ten true = xx.toInt.repr.toList ∧
    Ulib.printint xx Radix.ten true = xx.toInt.repr.toList ∧
    ((Console.printint xx Radix.ten true).head? = some '0' → xx = 0) ∧
    Console.printint xx Radix.sixteen false = Nat.toDigits 16 xx.toUInt32.toNat ∧
    Ulib.printint xx Radix.sixteen false = (Nat.toDigits 16 xx.toUInt32.toNat).map Char.toUpper ∧
    (∀ base sign, Ulib.printint xx base sign = (Console.printint xx base sign).map Char.toUpper) ∧
    (∀ sign, (Console.printint xx Radix.ten sign).length ≤ 16 ∧
      (Console.printint xx Radix.sixteen sign).length ≤ 16 ∧
      (Ulib.printint xx Radix.ten sign).length ≤ 16 ∧
      (Ulib.printint xx Radix.sixteen sign).length ≤ 16) ∧
    (0 ≤ xx → Ulib.atoi (Ulib.printint xx Radix.ten true) = xx) := by
  refine ⟨Console.printint_ten xx, Ulib.printint_ten xx, Console.eq_zero_of_printint_ten_head?,
    Console.printint_sixteen xx, ?_, Ulib.printint_eq_map_toUpper xx, fun sign => ?_, Ulib.atoi_printint_ten⟩
  · rw [Ulib.printint_eq_map_toUpper, Console.printint_sixteen]
  · have hten := Console.length_printint_ten_le xx sign
    have hsix := Console.length_printint_sixteen_le xx sign
    simp only [Ulib.printint_eq_map_toUpper, List.length_map]
    exact ⟨by omega, by omega, by omega, by omega⟩

end Xv6
