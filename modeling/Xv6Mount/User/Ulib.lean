import Xv6Mount.String

/-!
# user の memmove と strchr（`ulib.c`）

user の `memmove` は前からしか写さない。`n` は `int` で、0 以下なら何も写さない。`strchr` は
NUL で終わる文字列の中で文字を探す。user の memory は番地から文字への関数である。

* `memmove_eq_moved_of_le` — `vdst ≤ vsrc` か重ならなければ、user の `memmove` は正しく写す
* `memmove_agrees_iff` — user の `memmove` がどの memory でも kernel の `memmove` と同じに写すのは、
  `vsrc < vdst < vsrc + n` でないときだけである。`vsrc < vdst` なら `vsrc` からの `vdst - vsrc` 個が
  くり返し並ぶ
* `strchr_hit`・`strchr_miss` — NUL の前に `c` があれば最初の `c` の番地、なければ 0
* `cstr_eq` — `match` が読む文字列は NUL の前まで

`strchr` と `cstr` は NUL まで読み進む。読んでよい番地の数を `fuel` として渡し、NUL に着く前に
それが尽きれば NUL に着いたのと同じに扱う。grep の `buf` では NUL がいつも `buf` の中にある。
-/

namespace Xv6.Ulib

open Infra

variable {α : Type*}

/-- `memmove(vdst, vsrc, n)`：`while(n-- > 0) *dst++ = *src++;`。 -/
def memmove (mem : Nat → α) (vdst vsrc : Nat) (n : Int) : Nat → α := copyFwd mem vdst vsrc n.toNat

/-- `strchr(s, c)`：`for(; *s; s++) if(*s == c) return (char*)s; return 0;`。0 を返すのは `none`。 -/
def strchr (mem : Nat → Char) (c : Char) : Nat → Nat → Option Nat
  | 0, _ => none
  | fuel + 1, s => if mem s = '\x00' then none else if mem s = c then some s else strchr mem c fuel (s + 1)

/-- `s` から NUL の前までの文字列。`match(pattern, p)` が `p` から読むもの。 -/
def cstr (mem : Nat → Char) : Nat → Nat → List Char
  | 0, _ => []
  | fuel + 1, s => if mem s = '\x00' then [] else mem s :: cstr mem fuel (s + 1)

/-! ## memmove -/

/-- 前から写すので、`vdst ≤ vsrc` か重ならなければ正しく写す。 -/
theorem memmove_eq_moved_of_le (mem : Nat → α) {vdst vsrc : Nat} (n : Int)
    (h : vdst ≤ vsrc ∨ vsrc + n.toNat ≤ vdst) : memmove mem vdst vsrc n = moved mem vdst vsrc n.toNat :=
  copyFwd_of_le h

/--
**user の `memmove` が kernel の `memmove` と同じに写すのは、`vsrc < vdst < vsrc + n` でないときだけ。**
重なるときは、`vdst + (vdst - vsrc)` に、kernel なら元の `vdst` の文字が、user なら元の `vsrc` の文字が入る。
`vsrc < vdst` なら、user の `memmove` は `[vdst, vdst + n)` に `vsrc` からの `vdst - vsrc` 文字を
くり返し並べる。
-/
theorem memmove_agrees_iff (vdst vsrc : Nat) (n : Int) :
    ((∀ mem : Nat → Char, memmove mem vdst vsrc n = Xv6.memmove mem vdst vsrc n.toNat) ↔
      ¬(vsrc < vdst ∧ vdst < vsrc + n.toNat)) ∧
    (vsrc < vdst → ∀ mem : Nat → Char, memmove mem vdst vsrc n =
      fun a => if vdst ≤ a ∧ a < vdst + n.toNat then mem (vsrc + (a - vdst) % (vdst - vsrc)) else mem a) := by
  refine ⟨⟨?_, ?_⟩, fun h mem => copyFwd_of_lt h⟩
  · -- 重なるなら、`vsrc` にだけ `a` のある memory で食い違う
    rintro hall ⟨h₁, h₂⟩
    have e := congrFun (hall fun a => if a = vsrc then 'a' else 'b') (vdst + (vdst - vsrc))
    have hoff : vdst + (vdst - vsrc) - vdst = vdst - vsrc := by omega
    rw [memmove, copyFwd_of_lt h₁, Xv6.memmove_eq_moved, moved_of_mem (by omega)] at e
    simp only [if_pos (show vdst ≤ vdst + (vdst - vsrc) ∧ vdst + (vdst - vsrc) < vdst + n.toNat by omega),
      hoff, Nat.mod_self, Nat.add_zero, show vsrc + (vdst - vsrc) = vdst by omega,
      if_neg (Nat.ne_of_gt h₁)] at e
    exact absurd e (by decide)
  · intro h mem
    rw [memmove, Xv6.memmove_eq_moved, copyFwd_of_le (by omega)]

/-! ## strchr と cstr -/

section cstring

variable {mem : Nat → Char} {c : Char}

/-- NUL も `c` もない文字列 `l` は、`strchr` が読み飛ばす。 -/
theorem strchr_skip : ∀ {l : List Char} {s fuel : Nat}, cells mem s l.length = l → '\x00' ∉ l → c ∉ l →
    strchr mem c (fuel + l.length) s = strchr mem c fuel (s + l.length)
  | [], _, _, _, _, _ => rfl
  | x :: l, s, fuel, hl, h0, hc => by
    rw [List.length_cons] at hl ⊢
    rw [cells_succ, List.cons.injEq] at hl
    have hx0 : mem s ≠ '\x00' := hl.1 ▸ fun h => h0 (h ▸ List.mem_cons_self)
    have hxc : mem s ≠ c := hl.1 ▸ fun h => hc (h ▸ List.mem_cons_self)
    rw [show fuel + (l.length + 1) = (fuel + l.length) + 1 by omega, strchr, if_neg hx0, if_neg hxc,
      strchr_skip hl.2 (fun h => h0 (List.mem_cons_of_mem _ h)) (fun h => hc (List.mem_cons_of_mem _ h))]
    congr 1
    omega

/-- NUL も `c` もない `b` の次が `c` なら、`strchr` はその番地を返す。 -/
theorem strchr_hit {b : List Char} {s fuel : Nat} (hb : cells mem s b.length = b) (h0 : '\x00' ∉ b)
    (hc : c ∉ b) (hq : mem (s + b.length) = c) (hc0 : c ≠ '\x00') (hf : b.length < fuel) :
    strchr mem c fuel s = some (s + b.length) := by
  obtain ⟨k, rfl⟩ : ∃ k, fuel = (k + 1) + b.length := ⟨fuel - b.length - 1, by omega⟩
  rw [strchr_skip hb h0 hc, strchr, if_neg (hq ▸ hc0), if_pos hq]

/-- NUL も `c` もない `l` の次が NUL なら、`strchr` は 0 を返す。 -/
theorem strchr_miss {l : List Char} {s fuel : Nat} (hl : cells mem s l.length = l) (h0 : '\x00' ∉ l)
    (hc : c ∉ l) (hz : mem (s + l.length) = '\x00') (hf : l.length < fuel) :
    strchr mem c fuel s = none := by
  obtain ⟨k, rfl⟩ : ∃ k, fuel = (k + 1) + l.length := ⟨fuel - l.length - 1, by omega⟩
  rw [strchr_skip hl h0 hc, strchr, if_pos hz]

/-- NUL のない `l` の次が NUL なら、`s` からの文字列は `l` である。 -/
theorem cstr_eq : ∀ {l : List Char} {s fuel : Nat}, cells mem s l.length = l → '\x00' ∉ l →
    mem (s + l.length) = '\x00' → l.length < fuel → cstr mem fuel s = l
  | [], s, fuel, _, _, hz, hf => by
    obtain ⟨k, rfl⟩ : ∃ k, fuel = k + 1 := ⟨fuel - 1, by omega⟩
    rw [cstr, if_pos (by simpa using hz)]
  | x :: l, s, fuel, hl, h0, hz, hf => by
    obtain ⟨k, rfl⟩ : ∃ k, fuel = k + 1 := ⟨fuel - 1, by omega⟩
    rw [List.length_cons, cells_succ, List.cons.injEq] at hl
    have hx0 : mem s ≠ '\x00' := hl.1 ▸ fun h => h0 (h ▸ List.mem_cons_self)
    rw [cstr, if_neg hx0, hl.1, cstr_eq hl.2 (fun h => h0 (List.mem_cons_of_mem _ h))
      (by rw [← hz]; congr 1; simp; omega) (by simp at hf; omega)]

end cstring

end Xv6.Ulib
