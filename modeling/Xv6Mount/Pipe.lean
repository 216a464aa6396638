import Xv6Mount.Infra.Ring

/-!
# pipe（`pipe.c`）

`struct pipe` は容量 `PIPESIZE` の ring buffer で、`nread`・`nwrite` は `uint` のまま
回り続ける。`pipewrite` と `piperead` は `p->lock` を握って進み、`sleep` の間だけ手放す。
そこで一回の呼び出しを、lock を握っている間に進む一段（`PipeCall`）の列に分ける。
眠った `pipewrite` は、起きると残りの byte から同じ loop を続ける。どの段がいつ走るかは
`wakeup` によらず自由とし、段の列すべてについて証明する。

* `Pipe.Holds p q` — ring の `nread` から `nwrite` までの中身が `q`
* `pipewriteLoop_holds` / `pipereadCopy_holds` — 書いた byte は `q` の末尾に付き、読んだ byte は
  `q` の先頭から取れる
* `PipeLog.Inv` — `pipewrite` が置いた byte の列は、`piperead` が写した byte の列に `q` を
  続けたものである
* `pipe_fifo` — どの段の列の後でも `nwrite - nread ≤ PIPESIZE`、置いた列は読んだ列に ring の中身を
  続けたもの（`PipeLog.Inv`）で、書き口が閉じて読み尽くした後の `piperead` は 0 を返す
-/

namespace Xv6

open Infra

/-- pipe の容量。 -/
def PIPESIZE : Nat := 512

theorem PIPESIZE_dvd : PIPESIZE ∣ 2 ^ 32 := ⟨2 ^ 23, rfl⟩

theorem PIPESIZE_lt : PIPESIZE < 2 ^ 32 := by
  decide

/-- `struct pipe`。`data[PIPESIZE]` は添字から byte への関数とする。 -/
structure Pipe where
  data : Nat → UInt8
  nread : UInt32
  nwrite : UInt32
  readopen : Bool
  writeopen : Bool

/-- `pipealloc` が初期化する pipe。`data` は `kalloc` した page の中身のままである。 -/
def pipealloc (data : Nat → UInt8) : Pipe :=
  { data := data, nread := 0, nwrite := 0, readopen := true, writeopen := true }

/-- `pipeclose`。両方閉じたときの `kfree` は、pipe がどの file からも参照されなくなるだけである。 -/
def pipeclose (p : Pipe) (writable : Bool) : Pipe :=
  if writable then { p with writeopen := false } else { p with readopen := false }

/-! ## `pipewrite` -/

/-- `pipewrite` の一段が終わる形。 -/
inductive PipeWrite
  /-- 全部置いて `n` を返す。 -/
  | done
  /-- 読み口が閉じているか kill されていて `-1` を返す。 -/
  | fail (rest : List UInt8)
  /-- 満杯で `sleep` する。起きると `rest` の先頭から続ける。 -/
  | sleep (rest : List UInt8)

/-- まだ置いていない byte。 -/
def PipeWrite.rest : PipeWrite → List UInt8
  | .done => []
  | .fail rest => rest
  | .sleep rest => rest

/-- `pipewrite` の `for` loop のうち、lock を握っている間に進む分。 -/
def pipewriteLoop (killed : Bool) : Pipe → List UInt8 → Pipe × PipeWrite
  | p, [] => (p, .done)
  | p, c :: cs =>
    if p.nwrite = p.nread + PIPESIZE.toUInt32 then
      if !p.readopen || killed then (p, .fail (c :: cs)) else (p, .sleep (c :: cs))
    else
      -- `p->data[p->nwrite++ % PIPESIZE] = addr[i]`
      pipewriteLoop killed { p with data := Ring.put PIPESIZE p.data p.nwrite c, nwrite := p.nwrite + 1 } cs

/-! ## `piperead` -/

/-- `piperead` の一段が終わる形。 -/
inductive PipeRead
  /-- 写した byte。その個数を返す。 -/
  | done (bytes : List UInt8)
  /-- 空で kill されていて `-1` を返す。 -/
  | fail
  /-- 空で書き口が開いていて `sleep` する。 -/
  | sleep

/-- `piperead` が写した byte。 -/
def PipeRead.bytes : PipeRead → List UInt8
  | .done bytes => bytes
  | .fail => []
  | .sleep => []

/-- `piperead` の写す loop。空になるか `n` 個写すと止まる。 -/
def pipereadCopy (p : Pipe) : Nat → Pipe × List UInt8
  | 0 => (p, [])
  | n + 1 =>
    if p.nread = p.nwrite then (p, [])
    else
      -- `addr[i] = p->data[p->nread++ % PIPESIZE]`
      let r := pipereadCopy { p with nread := p.nread + 1 } n
      (r.1, p.data (p.nread.toNat % PIPESIZE) :: r.2)

/-- `piperead`。待つ loop を抜けると、写す loop は lock を握ったまま終わる。 -/
def piperead (p : Pipe) (killed : Bool) (n : Int) : Pipe × PipeRead :=
  if p.nread = p.nwrite ∧ p.writeopen = true then
    if killed then (p, .fail) else (p, .sleep)
  else
    let r := pipereadCopy p n.toNat
    (r.1, .done r.2)

/-! ## 中身 -/

/-- ring の `nread` から `nwrite` までの中身が `q` である。 -/
def Pipe.Holds (p : Pipe) (q : List UInt8) : Prop :=
  Ring.Holds PIPESIZE p.data p.nread p.nwrite q

theorem pipewriteLoop_full (killed : Bool) {p : Pipe} (c : UInt8) (cs : List UInt8)
    (hfull : p.nwrite = p.nread + PIPESIZE.toUInt32) :
    (pipewriteLoop killed p (c :: cs)).1 = p ∧ (pipewriteLoop killed p (c :: cs)).2.rest = c :: cs := by
  simp only [pipewriteLoop, if_pos hfull]
  split <;> exact ⟨rfl, rfl⟩

/-- `pipewrite` の一段は、置いた byte `w` を中身の末尾に足し、`src` の残りを返す。 -/
theorem pipewriteLoop_holds (killed : Bool) (src : List UInt8) {p : Pipe} {q : List UInt8} (h : p.Holds q) :
    ∃ w, src = w ++ (pipewriteLoop killed p src).2.rest ∧ (pipewriteLoop killed p src).1.Holds (q ++ w) := by
  -- 帰納法は残りの byte について。満杯でなければ一つ置いて次へ進む
  induction src generalizing p q with
  | nil => exact ⟨[], rfl, by rw [List.append_nil]; exact h⟩
  | cons c cs ih =>
    by_cases hfull : p.nwrite = p.nread + PIPESIZE.toUInt32
    · obtain ⟨hp, hrest⟩ := pipewriteLoop_full killed c cs hfull
      refine ⟨[], ?_, ?_⟩
      · rw [hrest, List.nil_append]
      · rw [hp, List.append_nil]
        exact h
    · have hlen : q.length < PIPESIZE :=
        Nat.lt_of_le_of_ne h.length_le fun he => hfull ((h.full_iff PIPESIZE_lt).mpr he)
      have hput : Pipe.Holds { p with data := Ring.put PIPESIZE p.data p.nwrite c, nwrite := p.nwrite + 1 }
          (q ++ [c]) := Ring.Holds.put PIPESIZE_dvd PIPESIZE_lt h hlen c
      obtain ⟨w, hw, hh⟩ := ih hput
      have heq : pipewriteLoop killed p (c :: cs) =
          pipewriteLoop killed { p with data := Ring.put PIPESIZE p.data p.nwrite c, nwrite := p.nwrite + 1 } cs := by
        rw [pipewriteLoop, if_neg hfull]
      refine ⟨c :: w, ?_, ?_⟩
      · rw [heq, List.cons_append, ← hw]
      · rw [heq, ← List.singleton_append, ← List.append_assoc]
        exact hh

/-- `piperead` の写す loop は、中身の先頭から写した byte を取り除く。 -/
theorem pipereadCopy_holds (n : Nat) {p : Pipe} {q : List UInt8} (h : p.Holds q) :
    ∃ q', q = (pipereadCopy p n).2 ++ q' ∧ (pipereadCopy p n).1.Holds q' := by
  -- 帰納法は写せる残りの個数について
  induction n generalizing p q with
  | zero => exact ⟨q, rfl, h⟩
  | succ n ih =>
    by_cases he : p.nread = p.nwrite
    · -- 空：何も写さない
      have hq : pipereadCopy p (n + 1) = (p, []) := by
        rw [pipereadCopy, if_pos he]
      exact ⟨q, by rw [hq, List.nil_append], by rw [hq]; exact h⟩
    · -- 空でなければ中身は `c :: q₀` で、位置 `nread` に `c` がある
      obtain ⟨c, q₀, rfl⟩ := Ring.exists_cons_of_dist h.dist he
      obtain ⟨hc, htake⟩ := Ring.Holds.take PIPESIZE_dvd h
      have htake' : Pipe.Holds { p with nread := p.nread + 1 } q₀ := htake
      obtain ⟨q', hq₀, hh⟩ := ih htake'
      have hq : pipereadCopy p (n + 1) =
          ((pipereadCopy { p with nread := p.nread + 1 } n).1,
            p.data (p.nread.toNat % PIPESIZE) :: (pipereadCopy { p with nread := p.nread + 1 } n).2) := by
        rw [pipereadCopy, if_neg he]
      refine ⟨q', ?_, ?_⟩
      · rw [hq, hc, List.cons_append, ← hq₀]
      · rw [hq]
        exact hh

/-- `piperead` の一段は、中身の先頭から写した byte を取り除く。眠るか `-1` なら何も変えない。 -/
theorem piperead_holds (killed : Bool) (n : Int) {p : Pipe} {q : List UInt8} (h : p.Holds q) :
    ∃ q', q = (piperead p killed n).2.bytes ++ q' ∧ (piperead p killed n).1.Holds q' := by
  unfold piperead
  split
  · split
    · exact ⟨q, rfl, h⟩
    · exact ⟨q, rfl, h⟩
  · exact pipereadCopy_holds n.toNat h

/-! ## 段の列 -/

/-- lock を握って進む一段。 -/
inductive PipeCall
  /-- `pipewrite` の一段。`src` はまだ置いていない byte。 -/
  | write (killed : Bool) (src : List UInt8)
  | read (killed : Bool) (n : Int)
  | close (writable : Bool)

/-- pipe と、それまでに `pipewrite` が置いた byte の列・`piperead` が写した byte の列。 -/
structure PipeLog where
  pipe : Pipe
  accepted : List UInt8
  delivered : List UInt8

/-- 一段進める。`pipewrite` の段が置いたのは、`src` のうち残りより前の部分である。 -/
def PipeLog.step (l : PipeLog) : PipeCall → PipeLog
  | .write killed src =>
    let r := pipewriteLoop killed l.pipe src
    { l with pipe := r.1, accepted := l.accepted ++ src.take (src.length - r.2.rest.length) }
  | .read killed n =>
    let r := piperead l.pipe killed n
    { l with pipe := r.1, delivered := l.delivered ++ r.2.bytes }
  | .close writable => { l with pipe := pipeclose l.pipe writable }

/-- 段の列を順に進める。 -/
def pipeRun (l : PipeLog) (cs : List PipeCall) : PipeLog :=
  cs.foldl PipeLog.step l

/-- `pipealloc` の直後。 -/
def PipeLog.init (data : Nat → UInt8) : PipeLog :=
  { pipe := pipealloc data, accepted := [], delivered := [] }

/-- 置いた byte の列は、写した byte の列に ring の中身を続けたものである。 -/
def PipeLog.Inv (l : PipeLog) : Prop :=
  ∃ q, l.pipe.Holds q ∧ l.accepted = l.delivered ++ q

theorem PipeLog.Inv.init (data : Nat → UInt8) : (PipeLog.init data).Inv :=
  ⟨[], Ring.Holds.empty data 0, rfl⟩

theorem PipeLog.Inv.step {l : PipeLog} (h : l.Inv) (c : PipeCall) : (l.step c).Inv := by
  obtain ⟨q, hq, hacc⟩ := h
  cases c with
  | write killed src =>
    obtain ⟨w, hw, hh⟩ := pipewriteLoop_holds killed src hq
    -- `src = w ++ rest` なので、置いた部分は `w` である
    have htake : src.take (src.length - (pipewriteLoop killed l.pipe src).2.rest.length) = w := by
      generalize (pipewriteLoop killed l.pipe src).2.rest = rest at hw ⊢
      subst hw
      rw [List.length_append, Nat.add_sub_cancel, List.take_left]
    refine ⟨q ++ w, hh, ?_⟩
    show l.accepted ++ src.take (src.length - (pipewriteLoop killed l.pipe src).2.rest.length) =
      l.delivered ++ (q ++ w)
    rw [htake, hacc, List.append_assoc]
  | read killed n =>
    obtain ⟨q', hq', hh⟩ := piperead_holds killed n hq
    refine ⟨q', hh, ?_⟩
    show l.accepted = (l.delivered ++ (piperead l.pipe killed n).2.bytes) ++ q'
    rw [hacc, hq', List.append_assoc]
  | close writable =>
    -- 中身に触れない
    have hc : (pipeclose l.pipe writable).Holds q := by
      unfold pipeclose
      split
      · exact hq
      · exact hq
    exact ⟨q, hc, hacc⟩

theorem PipeLog.Inv.run {l : PipeLog} (h : l.Inv) (cs : List PipeCall) : (pipeRun l cs).Inv := by
  induction cs generalizing l with
  | nil => exact h
  | cons c cs ih => exact ih (h.step c)

/-- 書き口が閉じて中身が空なら、`piperead` は何も写さずに 0 を返す。 -/
theorem piperead_closed_empty {p : Pipe} (hw : p.writeopen = false) (he : p.nread = p.nwrite)
    (killed : Bool) (n : Int) : piperead p killed n = (p, .done []) := by
  have hcopy : pipereadCopy p n.toNat = (p, []) := by
    cases n.toNat with
    | zero => rfl
    | succ k => rw [pipereadCopy, if_pos he]
  simp [piperead, hw, hcopy]

/--
pipe の FIFO。`pipealloc` の後のどの段の列でも、`nwrite - nread` は `uint` の差として
`PIPESIZE` 以下で、`pipewrite` が置いた byte の列は、`piperead` が写した byte の列に ring の
`nread` から `nwrite` までの中身を続けたものである。したがって写した列は置いた列の先頭部分で、
置いた byte はその順に出てくる。書き口が閉じて、置いた byte をすべて読んだ後の `piperead` は 0 を返す。
-/
theorem pipe_fifo (data : Nat → UInt8) (cs : List PipeCall) :
    ((pipeRun (PipeLog.init data) cs).pipe.nwrite - (pipeRun (PipeLog.init data) cs).pipe.nread).toNat ≤ PIPESIZE ∧
    (∃ q, (pipeRun (PipeLog.init data) cs).pipe.Holds q ∧
      (pipeRun (PipeLog.init data) cs).accepted = (pipeRun (PipeLog.init data) cs).delivered ++ q) ∧
    (pipeRun (PipeLog.init data) cs).delivered <+: (pipeRun (PipeLog.init data) cs).accepted ∧
    ((pipeRun (PipeLog.init data) cs).pipe.writeopen = false →
      (pipeRun (PipeLog.init data) cs).delivered = (pipeRun (PipeLog.init data) cs).accepted →
      ∀ killed n, piperead (pipeRun (PipeLog.init data) cs).pipe killed n =
        ((pipeRun (PipeLog.init data) cs).pipe, .done [])) := by
  obtain ⟨q, hq, hacc⟩ := (PipeLog.Inv.init data).run cs
  refine ⟨?_, ⟨q, hq, hacc⟩, ⟨q, hacc.symm⟩, fun hw hall killed n => ?_⟩
  · rw [hq.dist]
    exact hq.length_le
  · -- 全部読んだので中身は空、つまり `nread = nwrite`
    have hnil : q = [] := by
      rw [hall] at hacc
      exact List.append_right_eq_self.mp hacc.symm
    exact piperead_closed_empty hw ((hq.eq_iff_nil).mpr hnil).symm killed n

end Xv6
