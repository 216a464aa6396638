import Mathlib.Data.List.Nodup
import Xv6Mount.Infra.Trace
import Xv6Mount.Param

/-!
# log 層（`log.c`）の header と呼び出し

root disk の `log` と loop device の `loop_log` は同じ `struct log` である。
ここでは block の中身を持たず、header（`lh.block[0..lh.n)`）と
`outstanding`・`committing` だけを追う。中身と crash は `Xv6Mount/Log/Crash.lean`。

## 呼び出しの単位

各呼び出しは `log.lock` の下で一度に動くとみなす。`commit` は lock を外して走るが、
その間 `committing` が立っているので `begin_op` はすべて sleep し、
`outstanding` が 0 なので `log_write` も `end_op` も来ない。
したがって `end_op` と `commit` を一つの段にしてよい（crash の途中点は別に扱う）。

## loop device への `bwrite`

loop device の block を `bwrite` すると `loopdev_write` が走り、
`log.outstanding` を一時的に 1 にして backing file に `writei` する。
`writei` が root log に `log_write` する block は backing file の `bmap` で決まるので、
それを引数 `imgBlocks` として受ける（`imgBlocks b` は loop device の block `b` を
書いたとき root log に入る block の列）。
-/

namespace Xv6

open Infra

/-- `struct log`。`lh.block[0..lh.n)` を長さ `lh.n` の列 `lh` で表す。 -/
structure Log where
  start : Nat
  size : Nat
  outstanding : Int
  committing : Bool
  dev : Nat
  lh : List Nat
deriving DecidableEq, Repr

/-- log 層の大域変数。`log`・`loop_log`・`is_loop_mounted`。 -/
structure LogSys where
  log : Log
  loop_log : Log
  is_loop_mounted : Bool
deriving DecidableEq, Repr

/-! ## log absorption -/

/--
`log_write` の探索ループ。

`block[i] == blockno` となる最初の `i` を探し、`block[i] = blockno` と書く。
見つからなければ `i == n` なので末尾に足して `n` を一つ増やす。
-/
def absorb (block : List Nat) (blockno : Nat) : List Nat :=
  match block.findIdx? (· == blockno) with
  | some i => block.set i blockno
  | none => block ++ [blockno]

/-- 吸収は「すでにあれば何もしない、なければ末尾に足す」である。 -/
theorem absorb_eq (block : List Nat) (blockno : Nat) :
    absorb block blockno = if blockno ∈ block then block else block ++ [blockno] := by
  unfold absorb
  cases h : block.findIdx? (· == blockno) with
  | some i =>
    obtain ⟨hi, hp, -⟩ := List.findIdx?_eq_some_iff_getElem.mp h
    have he : block[i] = blockno := by simpa using hp
    have hm : blockno ∈ block := he ▸ List.getElem_mem hi
    rw [if_pos hm]
    dsimp only
    rw [← he, List.set_getElem_self]
  | none =>
    have hm : blockno ∉ block := by
      intro hm
      have := List.findIdx?_eq_none_iff.mp h blockno hm
      simp at this
    rw [if_neg hm]

@[simp] theorem mem_absorb {block : List Nat} {b blockno : Nat} :
    b ∈ absorb block blockno ↔ b ∈ block ∨ b = blockno := by
  rw [absorb_eq]
  split
  · constructor
    · exact Or.inl
    · rintro (h | rfl) <;> assumption
  · simp

theorem absorb_nodup {block : List Nat} (h : block.Nodup) (blockno : Nat) :
    (absorb block blockno).Nodup := by
  rw [absorb_eq]
  split
  · exact h
  · rename_i hm
    rw [← List.concat_eq_append]
    exact (List.nodup_concat _ _).mpr ⟨hm, h⟩

theorem length_absorb (block : List Nat) (blockno : Nat) :
    (absorb block blockno).length = if blockno ∈ block then block.length else block.length + 1 := by
  rw [absorb_eq]
  split <;> simp

/-! ## 初期化 -/

/--
`initlog` の後の状態。superblock の `logstart` と `nlog` を受ける。

`recover_from_log` が最後に `log.lh.n = 0`、`loop_log.lh.n = 0` とするので、
どちらの header も空である。`is_loop_mounted` は大域変数の初期値 0 である。
-/
def initlog (dev logstart nlog : Nat) : LogSys where
  log := { start := logstart, size := nlog, outstanding := 0, committing := false, dev := dev,
           lh := [] }
  loop_log := { start := logstart, size := nlog, outstanding := 0, committing := false,
                dev := 0 ||| LOOPDEV_MASK, lh := [] }
  is_loop_mounted := false

/-! ## `begin_op` -/

/-- `begin_op` の「この操作で log が溢れうる」の判定。 -/
def mightExhaust (l : Log) : Bool :=
  decide ((l.lh.length : Int) + (l.outstanding + 1) * MAXOPBLOCKS > LOGSIZE)

/-- `outstanding` を `d` だけ動かす。 -/
def Log.addOutstanding (l : Log) (d : Int) : Log := { l with outstanding := l.outstanding + d }

/--
`begin_op`。commit 中か、log が溢れうるなら sleep する。
そうでなければ二つの log の `outstanding` を一緒に増やす。
-/
def beginOp (s : LogSys) : Except Stop LogSys :=
  if s.log.committing || (s.is_loop_mounted && s.loop_log.committing) then .error .sleep
  else if mightExhaust s.log || (s.is_loop_mounted && mightExhaust s.loop_log) then .error .sleep
  else .ok { s with log := s.log.addOutstanding 1, loop_log := s.loop_log.addOutstanding 1 }

/-! ## `log_write` -/

/--
`log_write` の片方の枝。root log の枝と loop_log の枝は、触る `struct log` だけが違う。

`log.size - 1` は `int` の引き算である。
-/
def logWriteTo (l : Log) (blockno : Nat) : Except Stop Log :=
  if LOGSIZE ≤ l.lh.length ∨ (l.size : Int) - 1 ≤ l.lh.length then
    .error (.panic "too big a transaction")
  else if l.outstanding < 1 then .error (.panic "log_write outside of trans")
  else .ok { l with lh := absorb l.lh blockno }

/-- `log_write`。device が loop device なら `loop_log`、そうでなければ `log` に記録する。 -/
def logWrite (s : LogSys) (dev blockno : Nat) : Except Stop LogSys :=
  if !isloopdev dev then (logWriteTo s.log blockno).map fun l => { s with log := l }
  else (logWriteTo s.loop_log blockno).map fun l => { s with loop_log := l }

/-! ## `commit` -/

/--
一つの log の commit が順に `bwrite` する block 番号。

`write_log`（log の各 slot）、`write_head`、`install_trans`（各 home block）、
もう一度の `write_head` の順である。
-/
def commitBlocks (l : Log) : List Nat :=
  (List.range l.lh.length).map (fun tail => l.start + tail + 1) ++ [l.start] ++ l.lh ++ [l.start]

/--
`loopdev_write`。`log.outstanding` を 1 増やしてから backing file に `writei` し、
戻して 0 でなければ panic する。`writei` の `log_write` は root log に入る。
-/
def loopdevWrite (imgBlocks : Nat → List Nat) (s : LogSys) (blockno : Nat) :
    Except Stop LogSys := do
  let s1 := { s with log := s.log.addOutstanding 1 }
  let s2 ← runList (fun s b => logWrite s ROOTDEV b) s1 (imgBlocks blockno)
  let s3 := { s2 with log := s2.log.addOutstanding (-1) }
  if s3.log.outstanding ≠ 0 then .error (.panic "[loopdev_write] trick failed") else .ok s3

/-- header を空にする（`log.lh.n = 0`）。 -/
def Log.clear (l : Log) : Log := { l with lh := [] }

/--
`commit`。返す列は発行した `bwrite` の (device, block) の順である。

1. `is_loop_mounted` で `loop_log` が空でなければ、loop device に四段の commit をする。
   各 `bwrite` は `loopdev_write` を通り、root log を伸ばす。
2. loop_log を書いたのに root log が空なら panic する。
3. root log が空でなければ四段の commit をする。
4. 最後に、どちらの header も空にする。`is_loop_mounted` が 0 でも `loop_log` は空になる。
-/
def commit (imgBlocks : Nat → List Nat) (s : LogSys) :
    Except Stop (LogSys × List (Nat × Nat)) := do
  let loopPart := s.is_loop_mounted && decide (0 < s.loop_log.lh.length)
  let s1 ← if loopPart then runList (loopdevWrite imgBlocks) s (commitBlocks s.loop_log)
    else .ok s
  let w1 := if loopPart then (commitBlocks s.loop_log).map (s.loop_log.dev, ·) else []
  if s1.is_loop_mounted && decide (0 < s1.loop_log.lh.length) && s1.log.lh.length == 0 then
    .error (.panic "[commit] loop_log is written but log is not written!")
  else
    let w2 := if 0 < s1.log.lh.length then (commitBlocks s1.log).map (s1.log.dev, ·) else []
    .ok ({ s1 with log := s1.log.clear, loop_log := s1.loop_log.clear }, w1 ++ w2)

/-! ## `end_op` -/

/-- 二つの log の `committing` をそろえて書く。 -/
def LogSys.setCommitting (s : LogSys) (c : Bool) : LogSys :=
  { s with log := { s.log with committing := c }, loop_log := { s.loop_log with committing := c } }

/--
`end_op`。二つの `outstanding` を減らし、どちらも 0 になれば commit する。
返す列は commit が発行した `bwrite` である（commit しなければ空）。
-/
def endOp (imgBlocks : Nat → List Nat) (s : LogSys) :
    Except Stop (LogSys × List (Nat × Nat)) :=
  let s1 := { s with log := s.log.addOutstanding (-1), loop_log := s.loop_log.addOutstanding (-1) }
  if s1.log.committing || s1.loop_log.committing then .error (.panic "log is committing")
  else if s1.log.outstanding = 0 ∧ s1.loop_log.outstanding = 0 then
    (commit imgBlocks (s1.setCommitting true)).map fun r => (r.1.setCommitting false, r.2)
  else .ok (s1, [])

/-! ## 呼び出しの列 -/

/--
log 層から見た FS 操作の呼び出し。

`setLoopMounted` は `sys_mount`（1 にする）と `sys_umount`（0 にする）が
`is_loop_mounted` に書くことである。どちらも `begin_op` と `end_op` の間で書く。
-/
inductive LogCall where
  | beginOp
  | logWrite (dev blockno : Nat)
  | endOp
  | setLoopMounted (v : Bool)
deriving DecidableEq, Repr

/-- 呼び出し一回。 -/
def logCall (imgBlocks : Nat → List Nat) (s : LogSys) : LogCall → Except Stop LogSys
  | .beginOp => beginOp s
  | .logWrite dev blockno => logWrite s dev blockno
  | .endOp => (endOp imgBlocks s).map Prod.fst
  | .setLoopMounted v => .ok { s with is_loop_mounted := v }

end Xv6
