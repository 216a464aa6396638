import Xv6Mount.Log.Header

/-!
# log 層の呼び出しの列

`Xv6Mount/Log/Header.lean` の呼び出しを列にして回す。root disk は `mkfs` が作ったもの
（`sb.logstart = 2`、`sb.nlog = LOGSIZE`）とする。

## `begin_op` の予約と `log_write` の上限

`begin_op` は `log.lh.n + (outstanding + 1) * MAXOPBLOCKS ≤ LOGSIZE` なら操作を通す。
三つの操作が 10 block ずつ予約すると、ちょうど `LOGSIZE = 30` になる。
ところが `log_write` は `log.lh.n ≥ log.size - 1 = 29` で panic する。
header の block が一つ log の領域を使うからである。予約の上限と `log_write` の上限が
一つずれているので、予約どおりの操作が 30 個目の block で panic する
（`log_write_panics_within_budget`）。

## umount と loop_log

`commit` は `is_loop_mounted` が 0 なら `loop_log` を書かないが、最後に
`loop_log.lh.n = 0` とする。ある操作が loop device の block を `log_write` した後、
同時に走る `sys_umount` が `is_loop_mounted = 0` とすると、その block は
どこにも書かれずに header から消える（`umount_drops_loop_log`）。
-/

namespace Xv6

open Infra

/-- `mkfs` の root disk を `initlog` した状態。`sb.logstart = 2`、`sb.nlog = LOGSIZE`。 -/
def mkfsLog : LogSys := initlog ROOTDEV 2 LOGSIZE

/-! ## 予約どおりの操作が panic する -/

/-- 操作をすべて `begin_op` で通し、それぞれの block を順に root disk へ `log_write` する。 -/
def opsCalls (ops : List (List Nat)) : List LogCall :=
  ops.map (fun _ => .beginOp) ++ ops.flatten.map (.logWrite ROOTDEV)

/-- 三つの操作。それぞれ root disk の異なる 10 block を書く。 -/
def threeFullOps : List (List Nat) :=
  [(List.range 10).map (100 + ·), (List.range 10).map (110 + ·), (List.range 10).map (120 + ·)]

/--
**予約どおりの三つの操作が `log_write` で panic する。**

各操作は異なる `MAXOPBLOCKS` 個の block を書き、三つの `begin_op` はどれも通る。
29 個目の `log_write` までは通り、30 個目が "too big a transaction" で止まる。
-/
theorem log_write_panics_within_budget :
    (∀ op ∈ threeFullOps, op.length ≤ MAXOPBLOCKS ∧ op.Nodup) ∧
    ∀ imgBlocks : Nat → List Nat,
      (runList (logCall imgBlocks) mkfsLog (opsCalls threeFullOps).dropLast).map
          (fun s => (s.log.outstanding, s.log.lh.length)) = .ok (3, 29) ∧
      runList (logCall imgBlocks) mkfsLog (opsCalls threeFullOps) =
        .error (.panic "too big a transaction") := by
  refine ⟨by decide, fun imgBlocks => ⟨rfl, rfl⟩⟩

/-! ## umount が loop_log を捨てる -/

/--
三つの操作の交互の実行。

1. `sys_mount` の操作：`is_loop_mounted = 1` として終わる（空の commit）
2. 操作 A が始まり、loop device（`0 | LOOPDEV_MASK`）の block 40 を `log_write` する
3. `sys_umount` の操作 B が始まり、`is_loop_mounted = 0` として終わる（A がまだ走っているので commit しない）

このあと A が `end_op` する。
-/
def lostWriteCalls : List LogCall :=
  [.beginOp, .setLoopMounted true, .endOp,
   .beginOp, .logWrite (0 ||| LOOPDEV_MASK) 40,
   .beginOp, .setLoopMounted false, .endOp]

/--
**umount をはさむと、loop device に `log_write` した block は commit で捨てられる。**

A の `end_op` の時点で `loop_log` は block 40 を持ち、`is_loop_mounted` は 0 である。
A の `end_op` は commit するが、`bwrite` を一つも発行せず、`loop_log` の header を空にする。
-/
theorem umount_drops_loop_log (imgBlocks : Nat → List Nat) :
    (runList (logCall imgBlocks) mkfsLog lostWriteCalls).map
        (fun s => (s.loop_log.lh, s.is_loop_mounted, s.log.outstanding)) = .ok ([40], false, 1) ∧
    ((runList (logCall imgBlocks) mkfsLog lostWriteCalls).bind (endOp imgBlocks)).map
        (fun r => (r.1.loop_log.lh, r.2)) = .ok ([], []) :=
  ⟨rfl, rfl⟩

end Xv6
