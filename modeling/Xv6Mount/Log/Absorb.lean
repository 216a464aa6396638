import Xv6Mount.Log.Header
import Xv6Mount.Infra.FirstOcc

/-!
# log absorption（`log_write` の列と header）

`log_write` は block 番号を header に「なければ末尾に足す」（`absorb_eq`）。二つの log のどちらに
足すかは device 番号の `isloopdev` で決まる。ここでは `log_write` の列を回した後の header を、
書いた block 番号の列から直接に言う。

* `LogSys.logFor` — 二つの log を `Bool` で選ぶ。`true` が `loop_log`
* `logWrite_eq_ok` — 成功した `log_write` は、`isloopdev dev` の log の header だけを伸ばす
-/

namespace Xv6

open Infra

/-- 二つの log のどちらか。`loop` なら `loop_log`、そうでなければ root の `log`。 -/
def LogSys.logFor (s : LogSys) (loop : Bool) : Log := if loop then s.loop_log else s.log

@[simp] theorem LogSys.logFor_true (s : LogSys) : s.logFor true = s.loop_log := rfl

@[simp] theorem LogSys.logFor_false (s : LogSys) : s.logFor false = s.log := rfl

/-- 書き込み `(dev, blockno)` の列のうち、log `loop` に入る block 番号。 -/
def writesTo (loop : Bool) (ws : List (Nat × Nat)) : List Nat :=
  (ws.filter fun w => isloopdev w.1 == loop).map Prod.snd

@[simp] theorem writesTo_nil (loop : Bool) : writesTo loop [] = [] := rfl

theorem writesTo_append (loop : Bool) (ws vs : List (Nat × Nat)) :
    writesTo loop (ws ++ vs) = writesTo loop ws ++ writesTo loop vs := by
  simp [writesTo, List.filter_append]

theorem writesTo_singleton (loop : Bool) (dev blockno : Nat) :
    writesTo loop [(dev, blockno)] = if isloopdev dev = loop then [blockno] else [] := by
  by_cases h : isloopdev dev = loop <;> simp [writesTo, h]

/-- `log_write` の探索ループは「なければ末尾に足す」である。 -/
theorem absorb_eq_insertLast (block : List Nat) (blockno : Nat) :
    absorb block blockno = insertLast block blockno := by
  rw [absorb_eq]
  rfl

/-! ## 一回の `log_write` -/

theorem logWriteTo_eq_ok {l l' : Log} {blockno : Nat} (h : logWriteTo l blockno = .ok l') :
    1 ≤ l.outstanding ∧ l' = { l with lh := absorb l.lh blockno } := by
  unfold logWriteTo at h
  split at h
  · cases h
  · split at h
    · cases h
    · rename_i ho
      cases h
      exact ⟨by omega, rfl⟩

/--
成功した `log_write` は、`isloopdev dev` が選ぶ log の header に `blockno` を吸収させ、
その log の `outstanding` は 1 以上である。もう一方の log と `is_loop_mounted` は変わらない。
-/
theorem logWrite_eq_ok {s s' : LogSys} {dev blockno : Nat} (h : logWrite s dev blockno = .ok s') :
    1 ≤ (s.logFor (isloopdev dev)).outstanding ∧ s'.is_loop_mounted = s.is_loop_mounted ∧
    ∀ loop, s'.logFor loop = if isloopdev dev = loop then
      { s.logFor loop with lh := absorb (s.logFor loop).lh blockno } else s.logFor loop := by
  unfold logWrite at h
  cases hd : isloopdev dev with
  | false =>
    rw [hd] at h
    obtain ⟨l, hl, rfl⟩ := map_eq_ok.mp h
    obtain ⟨ho, rfl⟩ := logWriteTo_eq_ok hl
    refine ⟨ho, rfl, fun loop => ?_⟩
    cases loop <;> rfl
  | true =>
    rw [hd] at h
    obtain ⟨l, hl, rfl⟩ := map_eq_ok.mp h
    obtain ⟨ho, rfl⟩ := logWriteTo_eq_ok hl
    refine ⟨ho, rfl, fun loop => ?_⟩
    cases loop <;> rfl

/-- 成功した `log_write` の後の header。書いた block が入るのは `isloopdev dev` の log だけである。 -/
theorem logWrite_lh {s s' : LogSys} {dev blockno : Nat} (h : logWrite s dev blockno = .ok s')
    (loop : Bool) :
    (s'.logFor loop).lh = (writesTo loop [(dev, blockno)]).foldl insertLast (s.logFor loop).lh := by
  rw [(logWrite_eq_ok h).2.2 loop, writesTo_singleton]
  split
  · simp [absorb_eq_insertLast]
  · rfl

/-! ## `log_write` の列 -/

/-! ## header を変える他の呼び出し -/

/-- `begin_op` は header を変えない。 -/
theorem beginOp_lh {s s' : LogSys} (h : beginOp s = .ok s') (loop : Bool) :
    (s'.logFor loop).lh = (s.logFor loop).lh := by
  unfold beginOp at h
  split at h
  · cases h
  · split at h
    · cases h
    · cases h
      cases loop <;> rfl

end Xv6
