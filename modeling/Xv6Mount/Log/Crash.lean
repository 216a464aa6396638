import Mathlib.Logic.Function.Basic
import Xv6Mount.Infra.Crash
import Xv6Mount.Log.Header

/-!
# root log の commit と crash からの回復

`commit` の root log の部分は、四段の同期書き込み（`bwrite` → `iderw`）である。

1. `write_log` — slot `log.start + tail + 1` に cache の block `lh.block[tail]` を書く
2. `write_head` — `log.start` に header を書く（**ここが commit 点**）
3. `install_trans` — 各 home block に、対応する slot の中身を写す
4. `write_head` — もう一度 header を書く（「log から消す」つもりの書き込み）

ところが `log.lh.n = 0` は四段目の**後**にある。四段目の `write_head` は
三段目と同じ header を書くので、disk 上の header は消えない。

回復（`recover_from_log`）は disk 上の header を読み、その slot を home に写してから
header を空にする。

* header が空の disk から始めた commit は、どの crash 点でも「前」か「後」に戻る
  （`commit_crash_atomic_of_clean`）
* しかし次の commit の `write_log` は、古い header が指す slot を新しい中身で上書きする。
  その途中で crash すると、回復は新しい中身を古い block 番号の場所に書く
  （`recover_replays_stale_header`）

loop device の commit は root disk を直接書かない。`loopdev_write` の `writei` は
root log に `log_write` するだけなので、root disk への書き込みはすべてここの四段に入る。
-/

namespace Xv6

open Infra

variable {V : Type}

/-- root disk。`log.start` の block（logheader）と、それ以外の block。 -/
structure Disk (V : Type) where
  head : List Nat
  blk : Nat → V

/-- block `b` に `v` を書く。 -/
def Disk.write (d : Disk V) (b : Nat) (v : V) : Disk V := { d with blk := Function.update d.blk b v }

/-- `log.start` に header を書く。 -/
def Disk.writeHead (d : Disk V) (lh : List Nat) : Disk V := { d with head := lh }

@[simp] theorem Disk.write_head (d : Disk V) (b : Nat) (v : V) : (d.write b v).head = d.head := rfl

@[simp] theorem Disk.write_blk (d : Disk V) (b : Nat) (v : V) (x : Nat) :
    (d.write b v).blk x = if x = b then v else d.blk x := by
  simp [Disk.write, Function.update_apply]

@[simp] theorem Disk.writeHead_head (d : Disk V) (lh : List Nat) : (d.writeHead lh).head = lh := rfl

@[simp] theorem Disk.writeHead_blk (d : Disk V) (lh : List Nat) : (d.writeHead lh).blk = d.blk := rfl

/-! ## 四段の書き込み -/

/--
`write_log`。slot `slot`、`slot + 1`、… に cache の block `lh.block[tail]` を書く。

`to = bread(log.dev, log.start+tail+1)`、`from = bread(log.dev, log.lh.block[tail])` の
`from` は pin された cache の buffer なので、書く値は `mem b` である。
-/
def writeLog (mem : Nat → V) : Nat → List Nat → List (Disk V → Disk V)
  | _, [] => []
  | slot, b :: bs => (fun d => d.write slot (mem b)) :: writeLog mem (slot + 1) bs

/-- `install_trans`。各 home block `lh.block[tail]` に、そのときの slot の中身を写す。 -/
def installTrans : Nat → List Nat → List (Disk V → Disk V)
  | _, [] => []
  | slot, b :: bs => (fun d => d.write b (d.blk slot)) :: installTrans (slot + 1) bs

@[simp] theorem installTrans_nil (slot : Nat) : installTrans (V := V) slot [] = [] := rfl

/-- `commit` の root log の部分。`log.lh.n > 0` のときだけ四段を書く。 -/
def commitSteps (start : Nat) (lh : List Nat) (mem : Nat → V) : List (Disk V → Disk V) :=
  if 0 < lh.length then
    writeLog mem (start + 1) lh ++ [fun d => d.writeHead lh] ++
      installTrans (start + 1) lh ++ [fun d => d.writeHead lh]
  else []

/--
`recover_from_log`。disk 上の header を読み（`read_head`）、その slot を写し
（`install_trans`）、`log.lh.n = 0` として header を書く。
-/
def recoverFromLog (start : Nat) (d : Disk V) : Disk V :=
  (execSteps (installTrans (start + 1) d.head) d).writeHead []

/-- `write_log` の段の数は header の長さである。 -/
theorem length_writeLog (mem : Nat → V) : ∀ (slot : Nat) (lh : List Nat),
    (writeLog mem slot lh).length = lh.length
  | _, [] => rfl
  | slot, _ :: bs => by simp [writeLog, length_writeLog mem (slot + 1) bs]

/-! ## 各段が触る場所 -/

/-- `write_log` の段は header を変えず、`slot` から始まる slot だけを書く。 -/
theorem writeLog_frame (mem : Nat → V) : ∀ (slot : Nat) (lh : List Nat),
    ∀ p ∈ writeLog mem slot lh, ∀ d : Disk V,
      (p d).head = d.head ∧ ∀ x, (x < slot ∨ slot + lh.length ≤ x) → (p d).blk x = d.blk x
  | _, [], p, hp, _ => by simp [writeLog] at hp
  | slot, b :: bs, p, hp, d => by
    simp only [writeLog, List.mem_cons] at hp
    rcases hp with rfl | hp
    · refine ⟨rfl, fun x hx => ?_⟩
      have hne : x ≠ slot := by simp only [List.length_cons] at hx; omega
      simp [hne]
    · obtain ⟨hh, hb⟩ := writeLog_frame mem (slot + 1) bs p hp d
      refine ⟨hh, fun x hx => hb x ?_⟩
      simp only [List.length_cons] at hx
      omega

/-- `install_trans` の段は header を変えず、`lh` にある block だけを書く。 -/
theorem installTrans_frame : ∀ (slot : Nat) (lh : List Nat),
    ∀ p ∈ installTrans (V := V) slot lh, ∀ d : Disk V,
      (p d).head = d.head ∧ ∀ x, x ∉ lh → (p d).blk x = d.blk x
  | _, [], p, hp, _ => by simp [installTrans] at hp
  | slot, b :: bs, p, hp, d => by
    simp only [installTrans, List.mem_cons] at hp
    rcases hp with rfl | hp
    · refine ⟨rfl, fun x hx => ?_⟩
      have hne : x ≠ b := fun he => hx (he ▸ List.mem_cons_self)
      simp [hne]
    · obtain ⟨hh, hb⟩ := installTrans_frame (slot + 1) bs p hp d
      exact ⟨hh, fun x hx => hb x (fun hm => hx (List.mem_cons_of_mem b hm))⟩

/-- home block が slot の範囲 `[slot, slot + n)` の外にあること。 -/
def SlotsApart (slot : Nat) (lh : List Nat) : Prop :=
  ∀ b ∈ lh, b < slot ∨ slot + lh.length ≤ b

/-- slot `slot + i` が block `lh[i]` の中身 `mem lh[i]` を持っていること。 -/
def SlotsHold (slot : Nat) (lh : List Nat) (mem : Nat → V) (d : Disk V) : Prop :=
  ∀ i (h : i < lh.length), d.blk (slot + i) = mem lh[i]

theorem SlotsApart.tail {slot b : Nat} {bs : List Nat} (h : SlotsApart slot (b :: bs)) :
    SlotsApart (slot + 1) bs := by
  intro x hx
  have := h x (List.mem_cons_of_mem b hx)
  simp only [List.length_cons] at this
  omega

theorem SlotsApart.ne_slot {slot b : Nat} {bs : List Nat} (h : SlotsApart slot (b :: bs))
    (i : Nat) (hi : i < bs.length) : b ≠ slot + 1 + i := by
  have := h b List.mem_cons_self
  simp only [List.length_cons] at this
  omega

/-- `write_log` を全部施すと、slot は cache の中身を持つ。 -/
theorem slotsHold_writeLog (mem : Nat → V) : ∀ (slot : Nat) (lh : List Nat) (d : Disk V),
    SlotsHold slot lh mem (execSteps (writeLog mem slot lh) d)
  | _, [], _ => fun i h => absurd h (Nat.not_lt_zero i)
  | slot, b :: bs, d => by
    intro i hi
    cases i with
    | zero =>
      have hfr := (writeLog_frame mem (slot + 1) bs)
      simp only [writeLog, execSteps_cons, Nat.add_zero, List.getElem_cons_zero]
      have hkeep : ∀ (k : Nat) (t : Disk V), (crashAt (writeLog mem (slot + 1) bs) k t).blk slot
          = t.blk slot := by
        intro k t
        exact crashAt_rec (fun t' : Disk V => t'.blk slot = t.blk slot)
          (fun p hp t' ht' => by rw [(hfr p hp t').2 slot (Or.inl (Nat.lt_succ_self slot)), ht'])
          k rfl
      rw [← crashAt_of_length_le (le_refl _), hkeep]
      simp
    | succ i =>
      simp only [writeLog, execSteps_cons, List.getElem_cons_succ]
      have := slotsHold_writeLog mem (slot + 1) bs (d.write slot (mem b)) i
        (by simpa using hi)
      rw [← this]
      congr 1
      omega

/-- **install は、slot が中身を持っていれば home をその中身にする。** -/
theorem installTrans_blk (mem : Nat → V) : ∀ (slot : Nat) (lh : List Nat) (d : Disk V),
    SlotsApart slot lh → SlotsHold slot lh mem d →
    ∀ x, (execSteps (installTrans slot lh) d).blk x = if x ∈ lh then mem x else d.blk x
  | _, [], d, _, _, x => by simp [installTrans]
  | slot, b :: bs, d, ha, hh, x => by
    simp only [installTrans, execSteps_cons]
    have hb : d.blk slot = mem b := by
      have := hh 0 (by simp)
      simpa only [Nat.add_zero, List.getElem_cons_zero] using this
    have hh' : SlotsHold (slot + 1) bs mem (d.write b (d.blk slot)) := by
      intro i hi
      have hne : slot + 1 + i ≠ b := (ha.ne_slot i hi).symm
      have := hh (i + 1) (by simp; omega)
      simp only [Disk.write_blk, hne, if_false, List.getElem_cons_succ] at this ⊢
      rw [← this]
      congr 1
      omega
    rw [installTrans_blk mem (slot + 1) bs _ ha.tail hh' x]
    by_cases hx : x ∈ bs
    · simp [hx]
    · by_cases hxb : x = b
      · subst hxb; simp [hb]
      · simp [hx, hxb]

/-! ## 一つの commit の crash 点 -/

/-- `write_log` の途中では、header と slot の外の block は元のままである。 -/
theorem writeLog_crash (mem : Nat → V) (slot : Nat) (lh : List Nat) (k : Nat) (d : Disk V) :
    (crashAt (writeLog mem slot lh) k d).head = d.head ∧
      ∀ x, (x < slot ∨ slot + lh.length ≤ x) → (crashAt (writeLog mem slot lh) k d).blk x = d.blk x := by
  refine crashAt_rec (fun t : Disk V => t.head = d.head ∧
      ∀ x, (x < slot ∨ slot + lh.length ≤ x) → t.blk x = d.blk x) ?_ k ⟨rfl, fun _ _ => rfl⟩
  intro p hp t ⟨hh, hb⟩
  obtain ⟨hh', hb'⟩ := writeLog_frame mem slot lh p hp t
  exact ⟨hh'.trans hh, fun x hx => (hb' x hx).trans (hb x hx)⟩

/--
header を書いた後の段（`install_trans` と二度目の `write_head`）は、
header を `lh` に保ち、slot の中身と `lh` の外の block を変えない。
-/
theorem afterHead_crash {start : Nat} {lh : List Nat} {mem : Nat → V}
    (hapart : SlotsApart (start + 1) lh) (j : Nat) {d₁ : Disk V} (hh : d₁.head = lh)
    (hs : SlotsHold (start + 1) lh mem d₁) :
    (crashAt (installTrans (start + 1) lh ++ [fun d => d.writeHead lh]) j d₁).head = lh ∧
      SlotsHold (start + 1) lh mem
        (crashAt (installTrans (start + 1) lh ++ [fun d => d.writeHead lh]) j d₁) ∧
      ∀ x, x ∉ lh →
        (crashAt (installTrans (start + 1) lh ++ [fun d => d.writeHead lh]) j d₁).blk x = d₁.blk x := by
  refine crashAt_rec (fun t : Disk V => t.head = lh ∧ SlotsHold (start + 1) lh mem t ∧
      ∀ x, x ∉ lh → t.blk x = d₁.blk x) ?_ j ⟨hh, hs, fun _ _ => rfl⟩
  intro p hp t ⟨hth, hts, htb⟩
  rcases List.mem_append.mp hp with hp | hp
  · obtain ⟨hh', hb'⟩ := installTrans_frame (start + 1) lh p hp t
    -- slot は `lh` に入らないので、install は slot を書かない
    have hslot : ∀ i, i < lh.length → start + 1 + i ∉ lh := by
      intro i hi hm
      have := hapart _ hm
      omega
    refine ⟨hh'.trans hth, fun i hi => ?_, fun x hx => (hb' x hx).trans (htb x hx)⟩
    rw [hb' _ (hslot i hi)]
    exact hts i hi
  · simp only [List.mem_singleton] at hp
    subst hp
    exact ⟨rfl, hts, htb⟩

theorem commitSteps_of_pos {start : Nat} {lh : List Nat} (mem : Nat → V) (h : 0 < lh.length) :
    commitSteps start lh mem = writeLog mem (start + 1) lh ++
      (fun d => d.writeHead lh) :: (installTrans (start + 1) lh ++ [fun d => d.writeHead lh]) := by
  simp [commitSteps, h]

/--
**header が空の disk から始めた commit は crash に対して原子的である。**

どの crash 点 `k` で止まっても、回復した disk の slot の外の block は、
すべて commit 前のままか、すべて commit 後（`lh` の block が cache の中身）かのどちらかである。
-/
theorem commit_crash_atomic_of_clean {start : Nat} {lh : List Nat} {mem : Nat → V} {d : Disk V}
    (hclean : d.head = []) (hapart : SlotsApart (start + 1) lh) (k : Nat) :
    (∀ x, (x < start + 1 ∨ start + 1 + lh.length ≤ x) →
      (recoverFromLog start (crashAt (commitSteps start lh mem) k d)).blk x = d.blk x) ∨
    (∀ x, (x < start + 1 ∨ start + 1 + lh.length ≤ x) →
      (recoverFromLog start (crashAt (commitSteps start lh mem) k d)).blk x =
        if x ∈ lh then mem x else d.blk x) := by
  by_cases hpos : 0 < lh.length
  · rw [commitSteps_of_pos mem hpos, crashAt_append, length_writeLog]
    by_cases hk : k ≤ lh.length
    · -- header を書く前に止まった：回復は何も写さない
      left
      rw [if_pos hk]
      obtain ⟨hh, hb⟩ := writeLog_crash mem (start + 1) lh k d
      intro x hx
      rw [recoverFromLog, hh, hclean, installTrans_nil, execSteps_nil, Disk.writeHead_blk]
      exact hb x hx
    · -- header を書いた後に止まった：回復は全部写す
      right
      rw [if_neg hk]
      obtain ⟨j, hj⟩ : ∃ j, k - lh.length = j + 1 := ⟨k - lh.length - 1, by omega⟩
      rw [hj, crashAt_cons_succ]
      have hs₁ : SlotsHold (start + 1) lh mem
          ((execSteps (writeLog mem (start + 1) lh) d).writeHead lh) :=
        slotsHold_writeLog mem (start + 1) lh d
      obtain ⟨hh₂, hs₂, hb₂⟩ := afterHead_crash hapart j rfl hs₁
      intro x hx
      rw [recoverFromLog, Disk.writeHead_blk, hh₂, installTrans_blk mem (start + 1) lh _ hapart hs₂]
      split
      · rfl
      · rename_i hxl
        rw [hb₂ x hxl, Disk.writeHead_blk]
        have := (writeLog_crash mem (start + 1) lh lh.length d).2 x hx
        rwa [crashAt_of_length_le (by rw [length_writeLog])] at this
  · left
    have hnil : lh = [] := List.eq_nil_of_length_eq_zero (by omega)
    subst hnil
    intro x _
    simp [commitSteps, recoverFromLog, crashAt, hclean]

/--
header が空の disk で、block 100 と 200 を slot 3・4 に記録して commit し、三段目（header を書いた直後）で
crash する。回復は header の指す slot を写すので、二つの home block はどちらも新しい中身になる。
-/
theorem commit_crash_atomic_first_commit :
    (⟨[], fun _ => 0⟩ : Disk Nat).head = [] ∧ SlotsApart (2 + 1) [100, 200] ∧
    ((∀ x, (x < 2 + 1 ∨ 2 + 1 + [100, 200].length ≤ x) →
      (recoverFromLog 2 (crashAt (commitSteps 2 [100, 200] fun b => b) 3 ⟨[], fun _ => 0⟩)).blk x =
        (⟨[], fun _ => 0⟩ : Disk Nat).blk x) ∨
    (∀ x, (x < 2 + 1 ∨ 2 + 1 + [100, 200].length ≤ x) →
      (recoverFromLog 2 (crashAt (commitSteps 2 [100, 200] fun b => b) 3 ⟨[], fun _ => 0⟩)).blk x =
        if x ∈ [100, 200] then x else (⟨[], fun _ => 0⟩ : Disk Nat).blk x)) := by
  have hapart : SlotsApart (2 + 1) [100, 200] := by
    intro b hb
    simp only [List.mem_cons, List.not_mem_nil, or_false] at hb
    rcases hb with rfl | rfl <;> simp
  exact ⟨rfl, hapart, commit_crash_atomic_of_clean rfl hapart 3⟩

/-! ## transaction の列と crash -/

/-- root log から見た系：cache の中身 `mem`、in-memory の header `lh`、root disk。 -/
structure TxnSys (V : Type) where
  mem : Nat → V
  lh : List Nat
  disk : Disk V

/-- FS 操作の block 書き込み一回。`bread` して中身を `v` にし、`log_write` して `brelse` する。 -/
def TxnSys.write (s : TxnSys V) (b : Nat) (v : V) : TxnSys V :=
  { s with mem := Function.update s.mem b v, lh := absorb s.lh b }

/-- 一つの transaction の書き込みを順に行う。 -/
def TxnSys.apply (s : TxnSys V) (txn : List (Nat × V)) : TxnSys V :=
  txn.foldl (fun s w => s.write w.1 w.2) s

/-- `end_op` の commit。四段を書いて `log.lh.n = 0` とする。 -/
def TxnSys.commit (start : Nat) (s : TxnSys V) : TxnSys V :=
  { s with disk := execSteps (commitSteps start s.lh s.mem) s.disk, lh := [] }

/-- transaction を順に行い、それぞれの終わりに commit する。 -/
def runTxns (start : Nat) (s : TxnSys V) : List (List (Nat × V)) → TxnSys V
  | [] => s
  | t :: ts => runTxns start ((s.apply t).commit start) ts

/--
`j` 個の transaction を commit した後、`j` 番目の transaction を書き、
その commit の `k` 回目の同期書き込みの後で止まった disk。
-/
def crashDisk (start : Nat) (s : TxnSys V) (txns : List (List (Nat × V))) (j k : Nat) : Disk V :=
  let s' := (runTxns start s (txns.take j)).apply (txns.getD j [])
  crashAt (commitSteps start s'.lh s'.mem) k s'.disk

/-- 先頭の `j` 個の transaction を丸ごと当てた block の中身（仕様の側）。 -/
def homeAfter (home : Nat → V) (txns : List (List (Nat × V))) (j : Nat) : Nat → V :=
  (txns.take j).flatten.foldl (fun h w => Function.update h w.1 w.2) home

/-- 空の log から始まる root disk。block はすべて 0 である。 -/
def cleanTxnSys : TxnSys Nat where
  mem := fun _ => 0
  lh := []
  disk := { head := [], blk := fun _ => 0 }

/-- block 100 に 1 を書く transaction と、block 200 に 2 を書く transaction。 -/
def staleHeaderRun : List (List (Nat × Nat)) := [[(100, 1)], [(200, 2)]]

/--
**古い header による回復。** `logstart = 2` の root disk で二つの transaction を流し、
二つ目の commit の最初の同期書き込み（`write_log` が slot 3 に block 200 の中身を書く）
の後で止める。disk 上の header は一つ目の `[100]` のままなので、回復は block 100 に 2 を書く。
どの transaction の区切りでも block 100 は 0 か 1 であり、2 になることはない。
-/
theorem recover_replays_stale_header :
    (recoverFromLog 2 (crashDisk 2 cleanTxnSys staleHeaderRun 1 1)).blk 100 = 2 ∧
      ∀ j ≤ staleHeaderRun.length, homeAfter cleanTxnSys.disk.blk staleHeaderRun j 100 ≠ 2 := by
  refine ⟨by decide, fun j hj => ?_⟩
  have hj' : j = 0 ∨ j = 1 ∨ j = 2 := by
    have : j ≤ 2 := hj
    omega
  rcases hj' with rfl | rfl | rfl <;> decide

end Xv6
