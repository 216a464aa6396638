import Xv6Mount.User.Grep
import Xv6Mount.User.Ulib
import Xv6Mount.Infra.Lines

/-!
# grep の読み込み loop（`grep.c` の `grep`）

`grep(pattern, fd)` は 1024 byte の `buf` に読み足し、`strchr` で改行を探して一行ずつ `match` にかけ、
合った行を書き出す。最後の改行の後の残りは `memmove` で `buf` の先頭へ寄せ、次の `read` はその後ろへ
読み足す。ただし改行が一つも見つからなければ（`p == buf`）、読んだものを全部捨てる。

## 二つの段

* **buffer の段**（`grepStep`・`grepRun`）。`buf` は番地から文字への関数で、`strchr`・`*q = 0`・
  `match`・`write`・`memmove` を source のとおりに書く。
* **行の段**（`lineStep`・`lineRun`）。残りは文字の列 `pend` で、読んだ塊をつないで `Infra.splitLines`
  で行に分け、終わった行のうち合うものを表示して残りを持ち越す。改行がなければ全部捨てる。

`grepRun_refines`・`grep_refines_lineRun` — 入力に NUL がなければ、どの `read` の返し方でも、buffer の段は
行の段と同じものを書き、`buf` の先頭には行の段の `pend` が残る。一歩ずつの対応は `grepStep_refines` で、
その中心は内側の loop が `buf` の上で行を一つずつ処理すること（`scanLoop_lines`）である。

## 行の段で分かること

* `grep_reads_file` — `read` がいつも求めた分だけ返す（file のとき）なら、書き出すのは改行で終わる
  行のうち合うものである。ただし 1023 文字以上の行は、1023 文字ずつ捨てた残り（`visible`）が一行として
  扱われる。最後の改行のない行は書かれない
* `grep_drops_partial_read` — 最初の `read` が改行を含まない塊を返すと、その塊はなかったことになる。
  pipe から読むとき、書き手が一行を何回かに分けて書けば起こる
-/

namespace Xv6.Grep

open Infra

/-! ## buffer の段 -/

/-- `sizeof(buf)`。 -/
def BUFSIZE : Nat := 1024

/-- grep の状態：`buf` の中身、`buf` に読んである byte の数 `m`、`write(1, …)` で書いた byte。 -/
structure GrepState where
  buf : Nat → Char
  m : Nat
  out : List Char

/-- `read(fd, buf+m, n)` が `buf + off` から並べる byte。 -/
def readInto (buf : Nat → Char) (off : Nat) : List Char → Nat → Char
  | [] => buf
  | c :: cs => readInto (Function.update buf off c) (off + 1) cs

/--
内側の loop：`while((q = strchr(p, '\n')) != 0){ *q = 0; if(match(pattern, p)){ *q = '\n';
write(1, p, q+1 - p); } p = q+1; }`。結果は `buf` と `p` と書いた byte。`p` は回るごとに進むので、
回る回数 `fuel` は `BUFSIZE` で足りる。
-/
def scanLoop (pat : List Char) : Nat → (Nat → Char) → Nat → List Char → (Nat → Char) × Nat × List Char
  | 0, buf, p, out => (buf, p, out)
  | fuel + 1, buf, p, out =>
    match Ulib.strchr buf '\n' (BUFSIZE - p) p with
    | none => (buf, p, out)
    | some q =>
      let buf := Function.update buf q '\x00'
      if «match» pat (Ulib.cstr buf (BUFSIZE - p) p) then
        let buf := Function.update buf q '\n'
        scanLoop pat fuel buf (q + 1) (out ++ cells buf p (q + 1 - p))
      else scanLoop pat fuel buf (q + 1) out

/--
外側の loop の一回。`read` が `chunk` を返した後の `m += n; buf[m] = '\0'; p = buf;`、内側の loop、
`if(p == buf) m = 0; if(m > 0){ m -= p - buf; memmove(buf, p, m); }`。
-/
def grepStep (pat : List Char) (st : GrepState) (chunk : List Char) : GrepState :=
  let m := st.m + chunk.length
  let buf := Function.update (readInto st.buf st.m chunk) m '\x00'
  let r := scanLoop pat BUFSIZE buf 0 st.out
  let p := r.2.1
  let m := if p = 0 then 0 else m
  if m > 0 then ⟨Ulib.memmove r.1 0 p ((m - p : Nat) : Int), m - p, r.2.2⟩ else ⟨r.1, m, r.2.2⟩

/--
外側の loop：`while((n = read(fd, buf+m, sizeof(buf)-m-1)) > 0)`。`inp` はまだ読んでいない byte で、
`ks` の各数はその回の `read` までに届いている byte の数である。`read` はそれと求めた数の小さいほうだけ
返す（file ならいつも求めた分、pipe なら書き手が書いた分）。`read` が 0 を返せば loop を出る。
-/
def grepRun (pat : List Char) : GrepState → List Nat → List Char → GrepState
  | st, [], _ => st
  | st, k :: ks, inp =>
    let chunk := inp.take (min k (BUFSIZE - st.m - 1))
    if chunk = [] then st else grepRun pat (grepStep pat st chunk) ks (inp.drop chunk.length)

/-- `grep(pattern, fd)`：`m = 0` から読み始め、書いた byte を返す。`buf` は前の file の残りのままでよい。 -/
def grep (pat : List Char) (buf : Nat → Char) (ks : List Nat) (inp : List Char) : List Char :=
  (grepRun pat ⟨buf, 0, []⟩ ks inp).out

/-! ## 行の段 -/

/-- 表示される行：`match` する本体に改行を戻して並べる。 -/
def printed (pat : List Char) (bodies : List (List Char)) : List Char :=
  joinLines '\n' (bodies.filter fun b => «match» pat b)

/--
行の段の一回：残っていた `pend` に `chunk` をつなぐ。改行があれば、終わった行のうち合うものを表示して
最後の改行の後を残す。なければ何も表示せず、全部捨てる。
-/
def lineStep (pat pend chunk : List Char) : List Char × List Char :=
  let s := pend ++ chunk
  if '\n' ∈ s then (printed pat (splitLines '\n' s).1, (splitLines '\n' s).2) else ([], [])

/-- 行の段の loop。`read` の返す数は buffer の段と同じく、残りの長さから決まる。 -/
def lineRun (pat : List Char) : List Char → List Nat → List Char → List Char × List Char
  | pend, [], _ => ([], pend)
  | pend, k :: ks, inp =>
    let chunk := inp.take (min k (BUFSIZE - pend.length - 1))
    if chunk = [] then ([], pend)
    else
      let r := lineStep pat pend chunk
      let r' := lineRun pat r.2 ks (inp.drop chunk.length)
      (r.1 ++ r'.1, r'.2)

/-- 長い行のうち grep が一行として扱う部分：`BUFSIZE - 1` 文字ずつ捨てた残り。 -/
def visible (b : List Char) : List Char := b.drop ((BUFSIZE - 1) * (b.length / (BUFSIZE - 1)))

/-! ## 表示 -/

@[simp] theorem printed_nil (pat : List Char) : printed pat [] = [] := rfl

theorem printed_cons (pat b : List Char) (bs : List (List Char)) :
    printed pat (b :: bs) = (if «match» pat b then b ++ ['\n'] else []) ++ printed pat bs := by
  unfold printed
  by_cases h : «match» pat b
  · rw [List.filter_cons_of_pos h, joinLines_cons, if_pos h]
    simp
  · rw [List.filter_cons_of_neg h, if_neg h, List.nil_append]

theorem printed_append (pat : List Char) (bs bs' : List (List Char)) :
    printed pat (bs ++ bs') = printed pat bs ++ printed pat bs' := by
  rw [printed, List.filter_append, joinLines_append]
  rfl

/-! ## `read` と内側の loop -/

section buffer

variable (pat : List Char)

/-- `read` は `off` より前を変えない。 -/
theorem readInto_of_lt : ∀ {buf : Nat → Char} {off a : Nat} {cs : List Char}, a < off →
    readInto buf off cs a = buf a
  | _, _, _, [], _ => rfl
  | buf, off, a, c :: cs, h => by
    rw [readInto, readInto_of_lt (Nat.lt_succ_of_lt h), Function.update_of_ne (Nat.ne_of_lt h)]

/-- `read` は `[off, off + cs.length)` に `cs` を並べる。 -/
theorem cells_readInto : ∀ (buf : Nat → Char) (off : Nat) (cs : List Char),
    cells (readInto buf off cs) off cs.length = cs
  | _, _, [] => rfl
  | buf, off, c :: cs => by
    rw [readInto, List.length_cons, cells_succ, readInto_of_lt (Nat.lt_succ_self off), Function.update_self,
      cells_readInto]

/-- 改行のない `t` の次が NUL なら、内側の loop は何もせずに終わる。 -/
theorem scanLoop_tail {buf : Nat → Char} {p : Nat} {t out : List Char} (fuel : Nat)
    (ht : cells buf p t.length = t) (h0 : '\x00' ∉ t) (hn : '\n' ∉ t) (hz : buf (p + t.length) = '\x00')
    (hf : p + t.length < BUFSIZE) : scanLoop pat fuel buf p out = (buf, p, out) := by
  cases fuel with
  | zero => rfl
  | succ fuel =>
    rw [scanLoop, Ulib.strchr_miss ht h0 hn hz (by omega)]

/--
**内側の loop の一回。** `p` から NUL も改行もない本体 `b` と改行が並んでいれば、その行を処理して
`p + b.length + 1` へ進む。`buf` が変わるのは改行の番地だけで、出力には合ったときだけ行が加わる。
-/
theorem scanLoop_line {buf : Nat → Char} {p : Nat} {b : List Char} (out : List Char) (fuel : Nat)
    (hb : cells buf p (b.length + 1) = b ++ ['\n']) (h0 : '\x00' ∉ b) (hn : '\n' ∉ b)
    (hf : p + b.length < BUFSIZE) :
    ∃ buf₁ : Nat → Char, (∀ a, p + b.length < a → buf₁ a = buf a) ∧
      scanLoop pat (fuel + 1) buf p out =
        scanLoop pat fuel buf₁ (p + b.length + 1) (out ++ if «match» pat b then b ++ ['\n'] else []) := by
  rw [cells_add, cells_succ, cells_zero] at hb
  obtain ⟨hbody, hq⟩ := List.append_inj' hb rfl
  simp only [List.cons.injEq, and_true] at hq
  have hstr : Ulib.strchr buf '\n' (BUFSIZE - p) p = some (p + b.length) :=
    Ulib.strchr_hit hbody h0 hn hq (by decide) (by omega)
  -- `*q = 0` の後、`p` からの文字列はちょうど本体
  have hcstr : Ulib.cstr (Function.update buf (p + b.length) '\x00') (BUFSIZE - p) p = b :=
    Ulib.cstr_eq (by rw [cells_update_of_not_mem _ (by omega), hbody]) h0 (Function.update_self _ _ _) (by omega)
  by_cases hm : «match» pat b
  · -- 合った：`*q = '\n'` で元の `buf` に戻り、行を書く
    refine ⟨buf, fun _ _ => rfl, ?_⟩
    have hback : Function.update (Function.update buf (p + b.length) '\x00') (p + b.length) '\n' = buf := by
      rw [Function.update_idem, ← hq, Function.update_eq_self]
    rw [scanLoop, hstr]
    simp only [hcstr, hm, if_true, hback]
    rw [show p + b.length + 1 - p = b.length + 1 by omega, cells_add, cells_succ, cells_zero, hbody, hq]
  · -- 合わない：改行は NUL のまま残る
    refine ⟨Function.update buf (p + b.length) '\x00', fun a ha => Function.update_of_ne (by omega) _ _, ?_⟩
    rw [scanLoop, hstr]
    simp only [hcstr, hm, if_false, Bool.false_eq_true, List.append_nil]

/--
**内側の loop は `buf` の上で行を一つずつ処理する。** `p` から NUL のない `s` と NUL が並び、`s` を
改行で分けると `bodies` と `t` なら、loop は合う行を書いて `t` の先頭で止まる。帰納法は `bodies` に
ついてで、一回ごとに `scanLoop_line` を使う。`buf` の、止まった番地から後は変わらない。
-/
theorem scanLoop_lines : ∀ {bodies : List (List Char)} {s t : List Char}, Lines '\n' s bodies t →
    ∀ {buf : Nat → Char} {p fuel : Nat} (out : List Char), cells buf p s.length = s → '\x00' ∉ s →
      buf (p + s.length) = '\x00' → p + s.length < BUFSIZE → bodies.length ≤ fuel →
      ∃ buf' : Nat → Char, (∀ a, p + (joinLines '\n' bodies).length ≤ a → buf' a = buf a) ∧
        scanLoop pat fuel buf p out = (buf', p + (joinLines '\n' bodies).length, out ++ printed pat bodies)
  | [], s, t, h, buf, p, fuel, out, hs, h0, hz, hf, _ => by
    obtain rfl : s = t := by simpa using h.eq
    refine ⟨buf, fun _ _ => rfl, ?_⟩
    rw [scanLoop_tail pat fuel hs h0 h.tail_sep hz hf]
    simp
  | b :: bs, s, t, h, buf, p, fuel, out, hs, h0, hz, hf, hfuel => by
    obtain ⟨fuel, rfl⟩ : ∃ f, fuel = f + 1 := ⟨fuel - 1, by simp at hfuel; omega⟩
    -- `s` は本体 `b`、改行、残り `r` に分かれる
    set r := joinLines '\n' bs ++ t with hr
    have hsplit : s = (b ++ ['\n']) ++ r := by rw [h.eq, joinLines_cons]; simp [r]
    have hlen : s.length = (b.length + 1) + r.length := by rw [hsplit]; simp; omega
    have hcells := hs
    rw [hlen, cells_add] at hcells
    rw [hsplit] at hcells
    obtain ⟨hb, hrest⟩ := List.append_inj hcells (by simp)
    have h0b : '\x00' ∉ b := fun hm => h0 (hsplit ▸ by simp [hm])
    have h0r : '\x00' ∉ r := fun hm => h0 (hsplit ▸ by simp [hm])
    obtain ⟨buf₁, hframe, hstep⟩ := scanLoop_line pat out fuel hb h0b
      (h.bodies_sep b (by simp)) (by omega)
    have hr' : Lines '\n' r bs t :=
      ⟨rfl, fun x hx => h.bodies_sep x (List.mem_cons_of_mem _ hx), h.tail_sep⟩
    -- 残りは `p + b.length + 1` から、`buf₁` でも元のまま
    have hs₁ : cells buf₁ (p + b.length + 1) r.length = r := by
      have hc : cells buf₁ (p + b.length + 1) r.length = cells buf (p + b.length + 1) r.length :=
        cells_congr fun a ha _ => hframe a (by omega)
      rw [hc, Nat.add_assoc, hrest]
    have hz₁ : buf₁ (p + b.length + 1 + r.length) = '\x00' := by
      rw [hframe _ (by omega), ← hz, hlen]
      congr 1
      omega
    obtain ⟨buf', hframe', hrun⟩ := scanLoop_lines hr' (out ++ if «match» pat b then b ++ ['\n'] else [])
      hs₁ h0r hz₁ (by omega) (show bs.length ≤ fuel by simp at hfuel; omega)
    refine ⟨buf', fun a ha => ?_, ?_⟩
    · rw [joinLines_cons] at ha
      simp only [List.length_append, List.length_cons] at ha
      rw [hframe' a (by omega), hframe a (by omega)]
    · rw [hstep, hrun, joinLines_cons, printed_cons, List.append_assoc]
      simp only [List.length_append, List.length_cons]
      congr 2
      omega

end buffer

/-! ## 二つの段の対応 -/

/-- buffer の段の状態が、行の段の残り `pend` を表す：`buf` の先頭 `m` byte が `pend` である。 -/
structure Holds (st : GrepState) (pend : List Char) : Prop where
  m : st.m = pend.length
  buf : cells st.buf 0 pend.length = pend
  nul : '\x00' ∉ pend

/-- 何も残っていない状態は、空の `pend` を表す。 -/
theorem holds_start (buf : Nat → Char) (out : List Char) : Holds ⟨buf, 0, out⟩ [] :=
  ⟨rfl, rfl, List.not_mem_nil⟩

/-- `read` が `chunk` を読み足して `buf[m] = '\0'` とした後、`buf` の先頭には `pend ++ chunk` がある。 -/
theorem Holds.cells_read {st : GrepState} {pend chunk : List Char} (hst : Holds st pend) :
    cells (Function.update (readInto st.buf st.m chunk) (st.m + chunk.length) '\x00') 0
      (pend ++ chunk).length = pend ++ chunk := by
  -- `read` は `m` より前を変えない
  have hpre : cells (readInto st.buf st.m chunk) 0 st.m = cells st.buf 0 st.m :=
    cells_congr fun a _ ha => readInto_of_lt (by omega)
  rw [List.length_append, ← hst.m, cells_update_of_not_mem _ (by omega), cells_add, Nat.zero_add,
    cells_readInto, hpre, hst.m, hst.buf]

/--
**外側の loop の一回は、行の段の一回と同じものを書き、同じものを残す。** `read` した後の `buf` には
`pend ++ chunk` と NUL が並ぶ。内側の loop が終わった行を処理し（`scanLoop_lines`）、改行があれば
最後の改行の後を先頭へ寄せ、なければ `m = 0` で捨てる。
-/
theorem grepStep_refines (pat : List Char) {pend chunk : List Char} {st : GrepState} (hst : Holds st pend)
    (hcap : st.m + chunk.length < BUFSIZE) (h0 : '\x00' ∉ chunk) :
    (grepStep pat st chunk).out = st.out ++ (lineStep pat pend chunk).1 ∧
      Holds (grepStep pat st chunk) (lineStep pat pend chunk).2 := by
  set s := pend ++ chunk with hs
  set buf₀ := Function.update (readInto st.buf st.m chunk) (st.m + chunk.length) '\x00' with hbuf₀
  have hslen : s.length = st.m + chunk.length := by simp [s, hst.m]
  -- `read` と `buf[m] = '\0'` の後、`buf` の先頭に `s` と NUL が並ぶ
  have hcells : cells buf₀ 0 s.length = s := hst.cells_read
  have h0s : '\x00' ∉ s := by simp [s, hst.nul, h0]
  have hz : buf₀ (0 + s.length) = '\x00' := by rw [Nat.zero_add, hslen]; exact Function.update_self ..
  set bs := (splitLines '\n' s).1
  set t := (splitLines '\n' s).2
  have hl : Lines '\n' s bs t := lines_splitLines s
  obtain ⟨buf', hframe, hscan⟩ := scanLoop_lines pat hl st.out hcells h0s hz
    (by omega) (show bs.length ≤ BUFSIZE by
      have : bs.length ≤ (joinLines '\n' bs).length := length_le_length_joinLines bs
      have : s.length = (joinLines '\n' bs).length + t.length := by rw [hl.eq, List.length_append]
      omega)
  have hstep : grepStep pat st chunk =
      let p := (joinLines '\n' bs).length
      let m := if p = 0 then 0 else st.m + chunk.length
      if m > 0 then ⟨Ulib.memmove buf' 0 p ((m - p : Nat) : Int), m - p, st.out ++ printed pat bs⟩
      else ⟨buf', m, st.out ++ printed pat bs⟩ := by
    simp only [grepStep, ← hbuf₀, hscan, Nat.zero_add]
  have htlen : (joinLines '\n' bs).length + t.length = s.length := by rw [hl.eq, List.length_append]
  by_cases hn : '\n' ∈ s
  · -- 改行がある：`p > 0` で、最後の改行の後の `t` を先頭へ寄せる
    have hbs : bs ≠ [] := fun he => (hl.bodies_eq_nil_iff.mp he) hn
    have hp : 0 < (joinLines '\n' bs).length := length_joinLines_pos hbs
    have hline : lineStep pat pend chunk = (printed pat bs, t) := by
      simp only [lineStep, ← hs, if_pos hn]
      rfl
    have hm : st.m + chunk.length - (joinLines '\n' bs).length = t.length := by omega
    have hres : grepStep pat st chunk =
        ⟨Ulib.memmove buf' 0 (joinLines '\n' bs).length (t.length : Int), t.length, st.out ++ printed pat bs⟩ := by
      rw [hstep]
      simp only [if_neg (Nat.ne_of_gt hp), if_pos (show st.m + chunk.length > 0 by omega), hm]
    have h0t : '\x00' ∉ t := fun hm => h0s (hl.eq ▸ List.mem_append_right _ hm)
    -- `t` は `buf` の `p` からにあり、`memmove` で先頭へ来る
    have hsplit : cells buf₀ 0 ((joinLines '\n' bs).length + t.length) = joinLines '\n' bs ++ t := by
      rw [htlen, hcells]
      exact hl.eq
    rw [cells_add, Nat.zero_add] at hsplit
    rw [hline, hres]
    refine ⟨rfl, ⟨rfl, ?_, h0t⟩⟩
    rw [Ulib.memmove_eq_moved_of_le _ _ (Or.inl (Nat.zero_le _)), Int.toNat_natCast, cells_moved,
      cells_congr fun a ha _ => hframe a (by omega)]
    exact (List.append_inj' hsplit (by simp)).2
  · -- 改行がない：`p == buf` なので `m = 0`。何も書かない
    have hbs : bs = [] := hl.bodies_eq_nil_iff.mpr hn
    have hline : lineStep pat pend chunk = ([], []) := by
      simp only [lineStep, ← hs, if_neg hn]
    have hres : grepStep pat st chunk = ⟨buf', 0, st.out⟩ := by
      rw [hstep]
      simp only [hbs, joinLines_nil, List.length_nil, printed_nil, List.append_nil]
      rfl
    rw [hline, hres]
    exact ⟨(List.append_nil _).symm, holds_start buf' st.out⟩

/--
**buffer の段は行の段を実現する。** 入力に NUL がなければ、どの `read` の返し方 `ks` でも、buffer の段が
書くものは行の段が表示するものであり、終わったとき `buf` の先頭には行の段の残りがある。帰納法は `ks`
についてで、一回ごとに `grepStep_refines` を使う。二つの段の `read` は同じ数を返す。
-/
theorem grepRun_refines (pat : List Char) : ∀ (ks : List Nat) {st : GrepState} {pend inp : List Char},
    Holds st pend → '\x00' ∉ inp →
      (grepRun pat st ks inp).out = st.out ++ (lineRun pat pend ks inp).1 ∧
        Holds (grepRun pat st ks inp) (lineRun pat pend ks inp).2
  | [], st, pend, _, hst, _ => by simpa [grepRun, lineRun] using hst
  | k :: ks, st, pend, inp, hst, h0 => by
    -- 二つの段の `read` は同じ塊を返す
    have hchunk : inp.take (min k (BUFSIZE - st.m - 1)) = inp.take (min k (BUFSIZE - pend.length - 1)) := by
      rw [hst.m]
    simp only [grepRun, lineRun, hchunk]
    generalize hc : inp.take (min k (BUFSIZE - pend.length - 1)) = chunk
    by_cases he : chunk = []
    · -- `read` が 0 を返す：どちらも loop を出る
      simp only [he, if_true]
      exact ⟨(List.append_nil _).symm, hst⟩
    · have hlen : chunk.length ≤ BUFSIZE - pend.length - 1 := by
        rw [← hc, List.length_take]
        omega
      have hpos : 0 < chunk.length := List.length_pos_iff.mpr he
      have h0c : '\x00' ∉ chunk := hc ▸ fun hm => h0 (List.mem_of_mem_take hm)
      have h0d : '\x00' ∉ inp.drop chunk.length := fun hm => h0 (List.mem_of_mem_drop hm)
      obtain ⟨hout, hst'⟩ := grepStep_refines pat hst (by rw [hst.m]; omega) h0c
      obtain ⟨hout', hst''⟩ := grepRun_refines pat ks hst' h0d
      simp only [if_neg he]
      refine ⟨?_, hst''⟩
      rw [hout', hout, List.append_assoc]

/-- `grep` は、何も残っていない状態から行の段を走らせたもの。 -/
theorem grep_eq_lineRun (pat : List Char) (buf : Nat → Char) (ks : List Nat) {inp : List Char}
    (h0 : '\x00' ∉ inp) : grep pat buf ks inp = (lineRun pat [] ks inp).1 := by
  rw [grep, (grepRun_refines pat ks (holds_start buf []) h0).1, List.nil_append]

/--
**grep の buffer の loop は行の段を実現する。** 入力に NUL がなければ、`read` がどう返しても、grep が
書くものは行の段が表示するものであり、終わったとき `buf` の先頭には行の段が持ち越した残りがある。
-/
theorem grep_refines_lineRun (pat : List Char) (buf : Nat → Char) (ks : List Nat) {inp : List Char}
    (h0 : '\x00' ∉ inp) :
    grep pat buf ks inp = (lineRun pat [] ks inp).1 ∧
      Holds (grepRun pat ⟨buf, 0, []⟩ ks inp) (lineRun pat [] ks inp).2 := by
  obtain ⟨hout, hst⟩ := grepRun_refines pat ks (holds_start buf []) h0
  refine ⟨?_, hst⟩
  rw [grep, hout, List.nil_append]

/-- `echo hello | grep hello` で、`read` が 1 byte、5 byte と返すとき。 -/
theorem grep_refines_lineRun_echo :
    '\x00' ∉ ['h', 'e', 'l', 'l', 'o', '\n'] ∧
      (grep ['h', 'e', 'l', 'l', 'o'] (fun _ => '\x00') [1, 5] ['h', 'e', 'l', 'l', 'o', '\n'] =
          (lineRun ['h', 'e', 'l', 'l', 'o'] [] [1, 5] ['h', 'e', 'l', 'l', 'o', '\n']).1 ∧
        Holds (grepRun ['h', 'e', 'l', 'l', 'o'] ⟨fun _ => '\x00', 0, []⟩ [1, 5] ['h', 'e', 'l', 'l', 'o', '\n'])
          (lineRun ['h', 'e', 'l', 'l', 'o'] [] [1, 5] ['h', 'e', 'l', 'l', 'o', '\n']).2) :=
  ⟨by decide, grep_refines_lineRun _ _ _ (by decide)⟩

/-! ## 行の段：file から読むとき -/

/-- 1023 文字に足りない行は、そのまま一行として扱われる。 -/
theorem visible_of_lt {b : List Char} (h : b.length < BUFSIZE - 1) : visible b = b := by
  rw [visible, Nat.div_eq_of_lt h, Nat.mul_zero, List.drop_zero]

/-- ちょうど 1023 文字の塊を前につないでも、扱われる部分は変わらない。 -/
theorem visible_append_of_length {u b : List Char} (hu : u.length = BUFSIZE - 1) :
    visible (u ++ b) = visible b := by
  rw [visible, visible, List.length_append, hu, Nat.add_div_left _ (by decide), Nat.mul_add, Nat.mul_one,
    Nat.add_comm, ← hu, List.drop_length_add_append]

-- 1025 文字の行は、最後の 2 文字だけが一行として扱われる
example : visible (List.replicate 1023 'a' ++ ['b', 'c']) = ['b', 'c'] := by
  rw [visible_append_of_length (by rw [List.length_replicate]; rfl), visible_of_lt (by decide)]

/-- 改行のない 1023 文字の塊を前につないでも、各行の扱われる部分は変わらない。 -/
theorem visible_splitLines_prepend {u : List Char} (r : List Char) (hu : '\n' ∉ u)
    (hlen : u.length = BUFSIZE - 1) :
    (splitLines '\n' (u ++ r)).1.map visible = (splitLines '\n' r).1.map visible := by
  have hr : Lines '\n' r (splitLines '\n' r).1 (splitLines '\n' r).2 := lines_splitLines r
  generalize splitLines '\n' r = q at hr
  obtain ⟨bs, t⟩ := q
  cases bs with
  | nil => rw [(hr.prepend_tail hu).splitLines_eq]
  | cons b bs =>
    rw [(hr.prepend_line hu).splitLines_eq]
    simp only [List.map_cons, visible_append_of_length hlen]

/-- 読んだ塊の長さだけ落とすのは、求めた数だけ落とすのと同じ。 -/
theorem drop_length_take {α : Type*} (n : Nat) (l : List α) : l.drop (l.take n).length = l.drop n := by
  rw [List.length_take]
  rcases Nat.le_total n l.length with h | h
  · rw [Nat.min_eq_left h]
  · rw [Nat.min_eq_right h, List.drop_length, List.drop_eq_nil_of_le h]

/-- 改行のない列には終わった行がなく、何も表示されない。 -/
theorem printed_visible_of_not_mem (pat : List Char) {s : List Char} (h : '\n' ∉ s) :
    printed pat ((splitLines '\n' s).1.map visible) = [] := by
  rw [(Lines.of_not_mem h).splitLines_eq]
  rfl

/-- 読むものがなければ、行の段は何も表示しない。 -/
theorem lineRun_nil (pat pend : List Char) : ∀ ks : List Nat, (lineRun pat pend ks []).1 = []
  | [] => rfl
  | _ :: _ => by simp [lineRun]

/--
**file から読むとき、行の段が表示するのは改行で終わる行のうち合うもので、長い行は `visible` の部分。**
`read` がいつも求めた分だけ返し、回数が足りるとき。残り `pend` は行の途中から始まってよく、そこから
数えて `visible` をとる。帰納法は `ks` についてで、一回ごとに、読んだ塊に改行があるか、なければ 1023
文字に達したか（捨てた 1023 文字は `visible` も捨てる）、入力が尽きたかで分ける。
-/
theorem lineRun_file (pat : List Char) : ∀ {ks : List Nat} {pend rest : List Char},
    (∀ k ∈ ks, BUFSIZE - 1 ≤ k) → rest.length ≤ ks.length → '\n' ∉ pend → pend.length < BUFSIZE - 1 →
      (lineRun pat pend ks rest).1 = printed pat ((splitLines '\n' (pend ++ rest)).1.map visible)
  | [], pend, rest, _, hlen, hp, _ => by
    -- 入力は尽きていて、`pend` に改行はない
    obtain rfl : rest = [] := List.eq_nil_of_length_eq_zero (by simpa using hlen)
    rw [List.append_nil, printed_visible_of_not_mem pat hp]
    rfl
  | k :: ks, pend, rest, hks, hlen, hp, hpl => by
    have hk : min k (BUFSIZE - pend.length - 1) = BUFSIZE - 1 - pend.length := by
      have := hks k (by simp)
      omega
    simp only [lineRun, hk]
    set n := BUFSIZE - 1 - pend.length
    by_cases he : rest.take n = []
    · -- 何も読めない：入力は尽きている
      obtain rfl : rest = [] := (List.take_eq_nil_iff.mp he).resolve_left (by omega)
      rw [if_pos he, List.append_nil, printed_visible_of_not_mem pat hp]
    rw [if_neg he, drop_length_take]
    have hrest := List.take_append_drop n rest
    set chunk := rest.take n
    set rest' := rest.drop n
    have hclen : chunk.length ≤ n := List.length_take_le _ _
    have hlen' : rest'.length ≤ ks.length := by
      have h1 := List.length_pos_iff.mpr he
      have h2 := congrArg List.length hrest
      rw [List.length_append] at h2
      simp only [List.length_cons] at hlen
      omega
    have hks' : ∀ k ∈ ks, BUFSIZE - 1 ≤ k := fun k hk => hks k (List.mem_cons_of_mem _ hk)
    have hu : pend ++ rest = (pend ++ chunk) ++ rest' := by rw [List.append_assoc, hrest]
    have hl : Lines '\n' (pend ++ chunk) (splitLines '\n' (pend ++ chunk)).1 (splitLines '\n' (pend ++ chunk)).2 :=
      lines_splitLines (pend ++ chunk)
    set bs := (splitLines '\n' (pend ++ chunk)).1
    set t := (splitLines '\n' (pend ++ chunk)).2
    have hsum : pend.length + chunk.length = (joinLines '\n' bs).length + t.length := by
      simpa using congrArg List.length hl.eq
    by_cases hn : '\n' ∈ pend ++ chunk
    · -- 改行がある：終わった行はどれも 1023 文字に足りず、最後の改行の後を持ち越す
      have hbs : bs ≠ [] := fun h => (hl.bodies_eq_nil_iff.mp h) hn
      have htlen : t.length < BUFSIZE - 1 := by
        have : 0 < (joinLines '\n' bs).length := length_joinLines_pos hbs
        omega
      have hshort : bs.map visible = bs := by
        rw [List.map_congr_left (g := id), List.map_id]
        intro b hb
        have : b.length < (joinLines '\n' bs).length := length_lt_length_joinLines hb
        exact visible_of_lt (by omega)
      have ih := lineRun_file pat hks' hlen' hl.tail_sep htlen
      rw [hu, (hl.append (lines_splitLines _)).splitLines_eq, List.map_append, printed_append, hshort,
        lineStep, if_pos hn, ih]
    · -- 改行がない：全部捨てる
      have ih := lineRun_file pat hks' hlen' List.not_mem_nil (by decide)
      rw [lineStep, if_neg hn, List.nil_append, ih, List.nil_append, hu]
      rcases Nat.lt_or_ge (pend.length + chunk.length) (BUFSIZE - 1) with hshort | hfull
      · -- 1023 文字に足りない：入力は尽きている
        have hempty : rest' = [] := by
          have h2 := congrArg List.length hrest
          rw [List.length_append] at h2
          have : chunk.length = min n rest.length := List.length_take
          apply List.eq_nil_of_length_eq_zero
          omega
        rw [hempty, List.append_nil, printed_visible_of_not_mem pat hn,
          printed_visible_of_not_mem pat List.not_mem_nil]
      · -- ちょうど 1023 文字：捨てた分は `visible` も捨てる
        rw [visible_splitLines_prepend rest' hn (by rw [List.length_append]; omega)]

/--
**file から読む grep が書くもの。** 入力に NUL がなく、`read` がいつも求めた分だけ返し、回数が足りれば、
grep は改行で終わる行のうち合うものを書く。1023 文字以上の行は `visible` の部分が一行として扱われ、
最後の改行のない行は書かれない。
-/
theorem grep_reads_file (pat : List Char) (buf : Nat → Char) {ks : List Nat} {inp : List Char}
    (h0 : '\x00' ∉ inp) (hks : ∀ k ∈ ks, BUFSIZE - 1 ≤ k) (hlen : inp.length ≤ ks.length) :
    grep pat buf ks inp = printed pat ((splitLines '\n' inp).1.map visible) := by
  rw [grep_eq_lineRun pat buf ks h0, lineRun_file pat hks hlen List.not_mem_nil (by decide), List.nil_append]

/-- 1023 文字の `a` の後に `b` と改行が続く一行を、`^b` で探すとき。 -/
theorem grep_reads_file_long_line :
    '\x00' ∉ List.replicate 1023 'a' ++ ['b', '\n'] ∧ (∀ k ∈ List.replicate 1025 1024, BUFSIZE - 1 ≤ k) ∧
      (List.replicate 1023 'a' ++ ['b', '\n']).length ≤ (List.replicate 1025 1024).length ∧
      grep ['^', 'b'] (fun _ => '\x00') (List.replicate 1025 1024) (List.replicate 1023 'a' ++ ['b', '\n']) =
        printed ['^', 'b'] ((splitLines '\n' (List.replicate 1023 'a' ++ ['b', '\n'])).1.map visible) := by
  have h0 : '\x00' ∉ List.replicate 1023 'a' ++ ['b', '\n'] := by
    simp only [List.mem_append, List.mem_replicate]
    decide
  have hks : ∀ k ∈ List.replicate 1025 1024, BUFSIZE - 1 ≤ k := by
    intro k hk
    rw [(List.mem_replicate.mp hk).2]
    decide
  have hlen : (List.replicate 1023 'a' ++ ['b', '\n']).length ≤ (List.replicate 1025 1024).length := by
    simp only [List.length_append, List.length_replicate, List.length_cons, List.length_nil]
    omega
  exact ⟨h0, hks, hlen, grep_reads_file _ _ h0 hks hlen⟩

/-! ## 行の段：pipe から読むとき -/

/--
**改行のない塊を返した最初の `read` は、なかったことになる。** 入力に NUL がなく、最初の `read` が
`k` byte（1 以上 1023 以下）を返してそこに改行がなければ、grep が書くものは、その `k` byte を除いた入力を
残りの `read` で読んだときと同じである。
-/
theorem grep_drops_partial_read (pat : List Char) (buf : Nat → Char) {k : Nat} {ks : List Nat}
    {inp : List Char} (h0 : '\x00' ∉ inp) (hk : 0 < k) (hk' : k ≤ BUFSIZE - 1) (hn : '\n' ∉ inp.take k) :
    grep pat buf (k :: ks) inp = grep pat buf ks (inp.drop k) := by
  have h0' : '\x00' ∉ inp.drop k := fun hm => h0 (List.mem_of_mem_drop hm)
  rw [grep_eq_lineRun pat buf _ h0, grep_eq_lineRun pat buf _ h0']
  have hmin : min k (BUFSIZE - ([] : List Char).length - 1) = k := by
    rw [List.length_nil, Nat.sub_zero]
    omega
  simp only [lineRun, hmin]
  by_cases he : inp.take k = []
  · -- 入力が空：どちらも何も書かない
    obtain rfl : inp = [] := (List.take_eq_nil_iff.mp he).resolve_left (by omega)
    rw [if_pos he, List.drop_nil, lineRun_nil]
  · -- 改行がないので、読んだ塊は捨てられる
    have hn' : '\n' ∉ [] ++ inp.take k := by rwa [List.nil_append]
    rw [if_neg he, lineStep, if_neg hn', List.nil_append, drop_length_take]

/-- `echo hello | grep hello` で、最初の `read` が `h` の 1 byte だけ返すとき。 -/
theorem grep_drops_partial_read_echo :
    '\x00' ∉ ['h', 'e', 'l', 'l', 'o', '\n'] ∧ 0 < 1 ∧ 1 ≤ BUFSIZE - 1 ∧ '\n' ∉ ['h', 'e', 'l', 'l', 'o', '\n'].take 1 ∧
      grep ['h', 'e', 'l', 'l', 'o'] (fun _ => '\x00') [1, 1023] ['h', 'e', 'l', 'l', 'o', '\n'] =
        grep ['h', 'e', 'l', 'l', 'o'] (fun _ => '\x00') [1023] (['h', 'e', 'l', 'l', 'o', '\n'].drop 1) :=
  ⟨by decide, by decide, by decide, by decide, grep_drops_partial_read _ _ (by decide) (by decide) (by decide) (by decide)⟩

end Xv6.Grep
