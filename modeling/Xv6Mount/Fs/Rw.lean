import Mathlib.Order.Interval.Finset.Nat
import Xv6Mount.Infra.Buffer
import Xv6Mount.Fs.Blocks
import Xv6Mount.Log.Header

/-!
# block の層の `readi`・`writei`（`fs.c` の `bmap`・`readi`・`writei`）

`Xv6Mount/Fs/Balloc.lean` の `readi`・`writei` は file の中身を offset から byte への関数と
みる。ここでは lock した inode の `size` と `addrs`、device の block（buffer cache から見える
中身）、log 層を一つの状態 `RwSys` にまとめ、C の loop をそのまま書く。`bmap` は
`bn` 番目の block を直接 block か間接 block の中の番号から引き、0 なら `balloc` で
割り当てる。`balloc` は bitmap block と 0 で埋めた block を `log_write` し、`writei` は
block ごとに `log_write` し、`size` が伸びれば inode block も `log_write` する。

`writei` は transaction を分けない。log に入る block が `LOGSIZE` の枠を越えると
`log_write` が panic する。`filewrite` は書き込みを小分けにして `writei` を呼ぶ。

* `allocAddr`・`loadIndirect`・`allocEntry` — `bmap` の中の三つの割り当て
* `writeiLoop`・`readiLoop` — block の境目で区切った byte の範囲の loop
* `FileInv` — lock した inode の block の割り当ての整合
-/

namespace Xv6

/-! ## log の空き -/

/-- log `l` は、panic せずに `log_write` をあと `k` 回受けられる：transaction の中で、header に空きがある。 -/
def Log.Room (l : Log) (k : Nat) : Prop :=
  1 ≤ l.outstanding ∧ l.lh.length + k ≤ LOGSIZE ∧ (l.lh.length : Int) + k ≤ l.size - 1

/-- device `dev` の `log_write` が記録する log。 -/
def LogSys.logOf (s : LogSys) (dev : Nat) : Log := if isloopdev dev then s.loop_log else s.log

/-- device `dev` の `log_write` が記録する log を `l` にする。 -/
def LogSys.setLogOf (s : LogSys) (dev : Nat) (l : Log) : LogSys :=
  if isloopdev dev then { s with loop_log := l } else { s with log := l }

@[simp] theorem LogSys.logOf_setLogOf (s : LogSys) (dev : Nat) (l : Log) : (s.setLogOf dev l).logOf dev = l := by
  unfold LogSys.logOf LogSys.setLogOf
  cases isloopdev dev <;> rfl

/-- `log_write` は、device の log に `logWriteTo` した結果を書き戻す。 -/
theorem logWrite_eq (s : LogSys) (dev b : Nat) :
    logWrite s dev b = (logWriteTo (s.logOf dev) b).map (s.setLogOf dev) := by
  unfold logWrite LogSys.logOf LogSys.setLogOf
  cases isloopdev dev <;> rfl

theorem Log.Room.mono {l : Log} {k k' : Nat} (h : l.Room k) (hk : k' ≤ k) : l.Room k' := by
  obtain ⟨ho, hl, hs⟩ := h
  exact ⟨ho, by omega, by omega⟩

/-- 空きがあれば `log_write` は成功し、空きは多くとも一つ減る。 -/
theorem logWriteTo_of_room {l : Log} {k : Nat} (h : l.Room (k + 1)) (b : Nat) :
    ∃ l', logWriteTo l b = .ok l' ∧ l'.Room k := by
  obtain ⟨ho, hl, hs⟩ := h
  have hlen := length_absorb l.lh b
  unfold logWriteTo
  rw [if_neg (by omega), if_neg (by omega)]
  refine ⟨_, rfl, ho, ?_, ?_⟩
  · dsimp only
    split at hlen <;> omega
  · dsimp only
    split at hlen <;> omega

theorem logWrite_of_room {s : LogSys} {dev k : Nat} (h : (s.logOf dev).Room (k + 1)) (b : Nat) :
    ∃ s', logWrite s dev b = .ok s' ∧ (s'.logOf dev).Room k := by
  obtain ⟨l', hl, hr⟩ := logWriteTo_of_room h b
  refine ⟨s.setLogOf dev l', ?_, by rwa [LogSys.logOf_setLogOf]⟩
  rw [logWrite_eq, hl]
  rfl

/-- header が `log.size - 1` に届いた log への `log_write` は panic する。 -/
theorem logWrite_full {s : LogSys} {dev : Nat} (h : ((s.logOf dev).size : Int) - 1 ≤ (s.logOf dev).lh.length)
    (b : Nat) : logWrite s dev b = .error (.panic "too big a transaction") := by
  rw [logWrite_eq, logWriteTo, if_pos (.inr h)]
  rfl

/-- 空きのある log に header にない block を `log_write` すると、header の末尾に足される。 -/
theorem logWrite_new {s : LogSys} {dev : Nat} (hl : (s.logOf dev).lh.length < LOGSIZE)
    (hs : ((s.logOf dev).lh.length : Int) < (s.logOf dev).size - 1) (ho : 1 ≤ (s.logOf dev).outstanding)
    {b : Nat} (hb : b ∉ (s.logOf dev).lh) :
    logWrite s dev b = .ok (s.setLogOf dev { s.logOf dev with lh := (s.logOf dev).lh ++ [b] }) := by
  rw [logWrite_eq, logWriteTo, if_neg (by omega), if_neg (by omega), absorb_eq, if_neg hb]
  rfl

namespace Rw

open Infra

/--
`writei`・`readi` が触る状態。device の block の中身（buffer cache から見える値）、
lock した inode の `size` と `addrs`（`NDIRECT + 1` 個）、log 層である。
-/
structure RwSys where
  block : Nat → Nat → Nat
  size : UInt32
  addrs : List Nat
  logs : LogSys

/-- `((uint*)bp->data)[j] = v`：block の中の 4 byte を little endian で書く。 -/
def setUint (data : Nat → Nat) (j v : Nat) : Nat → Nat := fun i =>
  if i = 4 * j then v % 256
  else if i = 4 * j + 1 then v / 256 % 256
  else if i = 4 * j + 2 then v / 65536 % 256
  else if i = 4 * j + 3 then v / 16777216 % 256
  else data i

/-- `memmove(bp->data + o, src + tot, m)`：block の `o` から `m` byte に `src` の `tot` からを写す。 -/
def copyIn (data : Nat → Nat) (src : List Nat) (tot o m : Nat) : Nat → Nat := fun j =>
  if o ≤ j ∧ j < o + m then src.getD (tot + (j - o)) 0 else data j

/-! ## `bmap` -/

section bmap

variable (sb : Superblock) (dev : Nat)

/--
`balloc(dev)`。空き block を探して bit を立て（`Xv6.balloc`）、bitmap block を `log_write`
し、`bzero` が 0 で埋めた block を `log_write` する。`sb` は root disk から読んだ大域の superblock である。
-/
def balloc (st : RwSys) : Except Stop (RwSys × Nat) := do
  let (block, b) ← Xv6.balloc sb st.block
  let logs ← logWrite st.logs dev (BBLOCK b sb)
  let logs ← logWrite logs dev b
  pure ({ st with block, logs }, b)

/-- `ip->addrs[k] = addr = balloc(ip->dev)`。 -/
def allocAddr (st : RwSys) (k : Nat) : Except Stop (RwSys × Nat) := do
  let (st, addr) ← balloc sb dev st
  pure ({ st with addrs := st.addrs.set k addr }, addr)

/-- 間接 block の番号。なければ割り当てる（"Load indirect block, allocating if necessary"）。 -/
def loadIndirect (st : RwSys) : Except Stop (RwSys × Nat) :=
  if Blocks.indirect st.addrs = 0 then allocAddr sb dev st NDIRECT
  else pure (st, Blocks.indirect st.addrs)

/-- `a[j] = addr = balloc(ip->dev); log_write(bp)`：間接 block `ind` の `j` 番目に割り当てる。 -/
def allocEntry (st : RwSys) (ind j : Nat) : Except Stop (RwSys × Nat) := do
  let (st, addr) ← balloc sb dev st
  let st := { st with block := Function.update st.block ind (setUint (st.block ind) j addr) }
  let logs ← logWrite st.logs dev ind
  pure ({ st with logs }, addr)

/-- `bmap`。inode の `bn` 番目の block の番号を返す。なければ割り当てる。 -/
def bmap (st : RwSys) (bn : Nat) : Except Stop (RwSys × Nat) :=
  if bn < NDIRECT then
    if st.addrs.getD bn 0 = 0 then allocAddr sb dev st bn
    else pure (st, st.addrs.getD bn 0)
  else if bn - NDIRECT < NINDIRECT then do
    let (st, ind) ← loadIndirect sb dev st
    if Blocks.uintAt (st.block ind) (bn - NDIRECT) = 0 then allocEntry sb dev st ind (bn - NDIRECT)
    else pure (st, Blocks.uintAt (st.block ind) (bn - NDIRECT))
  else .error (.panic "bmap: out of range")

end bmap

/-! ## `writei`・`readi`

loop の変数 `tot`・`off` は `uint` だが、`writei`・`readi` の入口の検査の後は `2 ^ 32` に
届かないので `Nat` で持つ。
-/

section rw

variable (sb : Superblock) (dev : Nat)

/-- 一回に写す byte 数 `m = min(n - tot, BSIZE - off%BSIZE)` は正である。 -/
theorem chunk_pos {n tot : Nat} (off : Nat) (h : tot < n) : 0 < min (n - tot) (BSIZE - off % BSIZE) := by
  have : off % BSIZE < BSIZE := Nat.mod_lt _ (by decide)
  omega

/--
`writei` の loop。block `bmap(ip, off/BSIZE)` に `m` byte を写して `log_write` する。
loop を抜けたときの `off` を返す。
-/
def writeiLoop (src : List Nat) (n : Nat) (st : RwSys) (tot off : Nat) : Except Stop (RwSys × Nat) :=
  if h : tot < n then do
    let (st, addr) ← bmap sb dev st (off / BSIZE)
    let m := min (n - tot) (BSIZE - off % BSIZE)
    let data := copyIn (st.block addr) src tot (off % BSIZE) m
    let st := { st with block := Function.update st.block addr data }
    let logs ← logWrite st.logs dev addr
    writeiLoop src n { st with logs } (tot + m) (off + m)
  else pure (st, off)
termination_by n - tot
decreasing_by have := chunk_pos off h; omega

/--
`writei`（`T_DEV` でない inode）。範囲の検査の後 loop で書き、`size` を越えて書いたなら
`ip->size = off` として `iupdate`（inode block の `log_write`）する。
-/
def writei (inum : Nat) (st : RwSys) (src : List Nat) (off n : UInt32) : Except Stop (RwSys × Int) :=
  if off > st.size ∨ off + n < off then .ok (st, -1)
  else if off + n > (MAXFILE * BSIZE).toUInt32 then .ok (st, -1)
  else do
    let (st, off) ← writeiLoop sb dev src n.toNat st 0 off.toNat
    if n > 0 ∧ off > st.size.toNat then
      let logs ← logWrite st.logs dev (IBLOCK inum sb)
      pure ({ st with size := off.toUInt32, logs }, n.toNat)
    else pure (st, n.toNat)

/-- `readi` の loop。block `bmap(ip, off/BSIZE)` から `m` byte を `dst` の後ろに写す。 -/
def readiLoop (n : Nat) (st : RwSys) (tot off : Nat) (dst : List Nat) : Except Stop (RwSys × List Nat) :=
  if h : tot < n then do
    let (st, addr) ← bmap sb dev st (off / BSIZE)
    let m := min (n - tot) (BSIZE - off % BSIZE)
    readiLoop n st (tot + m) (off + m) (dst ++ (List.range m).map fun j => st.block addr (off % BSIZE + j))
  else pure (st, dst)
termination_by n - tot
decreasing_by have := chunk_pos off h; omega

/-- `readi`（`T_DEV` でない inode）。file の末尾を越える分は読まない。読んだ byte の列も返す。 -/
def readi (st : RwSys) (off n : UInt32) : Except Stop (RwSys × Int × List Nat) :=
  if off > st.size ∨ off + n < off then .ok (st, -1, [])
  else
    let n := if off + n > st.size then st.size - off else n
    do
      let (st, dst) ← readiLoop sb dev n.toNat st 0 off.toNat []
      pure (st, n.toNat, dst)

end rw

/-! ## 間接 block の中の番号 -/

/-- `setUint` は、4 byte ごとに区切った位置 `j` のほかは変えない。 -/
theorem setUint_of_div_ne (d : Nat → Nat) {i j : Nat} (v : Nat) (h : i / 4 ≠ j) : setUint d j v i = d i := by
  unfold setUint
  rw [if_neg (by omega), if_neg (by omega), if_neg (by omega), if_neg (by omega)]

/-- 書いた番号は、`uint` に収まれば読み戻せる。 -/
@[simp] theorem uintAt_setUint_self (d : Nat → Nat) (j : Nat) {v : Nat} (hv : v < 2 ^ 32) :
    Blocks.uintAt (setUint d j v) j = v := by
  have h₁ : 4 * j + 1 ≠ 4 * j := by omega
  have h₂ : 4 * j + 2 ≠ 4 * j ∧ 4 * j + 2 ≠ 4 * j + 1 := by omega
  have h₃ : 4 * j + 3 ≠ 4 * j ∧ 4 * j + 3 ≠ 4 * j + 1 ∧ 4 * j + 3 ≠ 4 * j + 2 := by omega
  simp only [Blocks.uintAt, setUint, h₁, h₂, h₃, if_true, if_false]
  omega

theorem uintAt_setUint_of_ne (d : Nat → Nat) {j j' : Nat} (v : Nat) (h : j' ≠ j) :
    Blocks.uintAt (setUint d j v) j' = Blocks.uintAt d j' := by
  unfold Blocks.uintAt
  rw [setUint_of_div_ne d v (by omega), setUint_of_div_ne d v (by omega), setUint_of_div_ne d v (by omega),
    setUint_of_div_ne d v (by omega)]

@[simp] theorem uintAt_zero (j : Nat) : Blocks.uintAt (fun _ => 0) j = 0 := rfl

/-! ## bitmap と `balloc` -/

/-- block `b` は空いていない。`sb.size` 以上の番号は `balloc` が返さないので使用中とみなす。 -/
def Taken (sb : Superblock) (d : Nat → Nat → Nat) (b : Nat) : Prop :=
  sb.size ≤ b ∨ Bitmap.get (d (BBLOCK b sb)) (b % BPB) = true

/-- `sb.size` 未満で bit の立っていない block の数。 -/
def nfree (sb : Superblock) (d : Nat → Nat → Nat) : Nat :=
  ((Finset.range sb.size).filter fun b => Bitmap.get (d (BBLOCK b sb)) (b % BPB) = false).card

theorem taken_iff_get {sb : Superblock} {d : Nat → Nat → Nat} {x : Nat} (hx : x < sb.size) :
    Taken sb d x ↔ Bitmap.get (d (BBLOCK x sb)) (x % BPB) = true := by
  simp [Taken, Nat.not_le.mpr hx]

/-- 先頭 `used` block が使用中の bitmap では、`used` 未満の block は空いていない。 -/
theorem taken_of_usedPrefix {sb : Superblock} {d : Nat → Nat → Nat} {used o : Nat} (hp : UsedPrefix sb d used)
    (ho : o < used) : Taken sb d o := by
  by_cases hs : o < sb.size
  · rw [taken_iff_get hs, hp o hs, decide_eq_true_iff]
    exact ho
  · exact .inl (Nat.le_of_not_lt hs)

/-- 先頭 `used` block が使用中の bitmap では、空き block は残りの `sb.size - used` 個である。 -/
theorem nfree_of_usedPrefix {sb : Superblock} {d : Nat → Nat → Nat} {used : Nat} (hp : UsedPrefix sb d used) :
    nfree sb d = sb.size - used := by
  have hset : ((Finset.range sb.size).filter fun b => Bitmap.get (d (BBLOCK b sb)) (b % BPB) = false) =
      Finset.Ico used sb.size := by
    ext b
    simp only [Finset.mem_filter, Finset.mem_range, Finset.mem_Ico]
    constructor
    · rintro ⟨hb, hg⟩
      rw [hp b hb, decide_eq_false_iff_not] at hg
      omega
    · rintro ⟨hu, hb⟩
      rw [hp b hb, decide_eq_false_iff_not]
      exact ⟨hb, by omega⟩
  rw [nfree, hset, Nat.card_Ico]

/-- 同じ bitmap block の同じ bit を持つ block は同じである。 -/
theorem eq_of_BBLOCK_eq {sb : Superblock} {x b : Nat} (h : BBLOCK x sb = BBLOCK b sb) (hm : x % BPB = b % BPB) :
    x = b := by
  have hdiv : x / BPB = b / BPB := by
    unfold BBLOCK at h
    omega
  rw [← Nat.div_add_mod x BPB, ← Nat.div_add_mod b BPB, hdiv, hm]

/-- `balloc` が空き block `b` を割り当てて、block の中身を `d` から `d'` にしたこと。 -/
structure Allocated (sb : Superblock) (d d' : Nat → Nat → Nat) (b : Nat) : Prop where
  lt_size : b < sb.size
  not_taken : ¬ Taken sb d b
  zeroed : d' b = fun _ => 0
  frame : ∀ x, x ≠ b → x ≠ BBLOCK b sb → d' x = d x
  taken_iff : ∀ x < sb.size, Taken sb d' x ↔ Taken sb d x ∨ x = b
  nfree_eq : nfree sb d' + 1 = nfree sb d

/-- 空き block があり、bitmap block がどれも使用中なら、`balloc` は空き block を一つ割り当てる。 -/
theorem balloc_spec {sb : Superblock} {d : Nat → Nat → Nat} (hbm : ∀ x < sb.size, Taken sb d (BBLOCK x sb))
    (hfree : 0 < nfree sb d) : ∃ d' b, Xv6.balloc sb d = .ok (d', b) ∧ Allocated sb d d' b := by
  obtain ⟨b, hb⟩ : ∃ b, (List.range sb.size).find? (fun b => !Bitmap.get (d (BBLOCK b sb)) (b % BPB)) = some b := by
    cases h : (List.range sb.size).find? (fun b => !Bitmap.get (d (BBLOCK b sb)) (b % BPB)) with
    | none =>
      obtain ⟨x, hx⟩ := Finset.card_pos.mp hfree
      rw [Finset.mem_filter, Finset.mem_range] at hx
      have := List.find?_eq_none.mp h x (List.mem_range.mpr hx.1)
      simp [hx.2] at this
    | some b => exact ⟨b, rfl⟩
  have hlt : b < sb.size := List.mem_range.mp (List.mem_of_find?_eq_some hb)
  have hget : Bitmap.get (d (BBLOCK b sb)) (b % BPB) = false := by simpa using List.find?_some hb
  have hnt : ¬ Taken sb d b := by
    rw [taken_iff_get hlt, hget]
    exact Bool.false_ne_true
  -- bitmap block は使用中なので、割り当てた block ではない
  have hbb : ∀ x < sb.size, BBLOCK x sb ≠ b := fun x hx h => hnt (h ▸ hbm x hx)
  refine ⟨_, b, by rw [Xv6.balloc, hb], ?_⟩
  have htaken : ∀ x < sb.size, Taken sb (Function.update (Function.update d (BBLOCK b sb)
      (Bitmap.set (d (BBLOCK b sb)) (b % BPB))) b fun _ => 0) x ↔ Taken sb d x ∨ x = b := by
    intro x hx
    rw [taken_iff_get hx, taken_iff_get hx, Function.update_of_ne (hbb x hx)]
    by_cases he : BBLOCK x sb = BBLOCK b sb
    · rw [he, Function.update_self, Bitmap.get_set, Bool.or_eq_true, decide_eq_true_iff]
      constructor
      · rintro (h | h)
        · exact .inl h
        · exact .inr (eq_of_BBLOCK_eq he h.symm)
      · rintro (h | rfl)
        · exact .inl h
        · exact .inr rfl
    · rw [Function.update_of_ne he]
      have hxb : x ≠ b := fun h => he (h ▸ rfl)
      simp [hxb]
  refine ⟨hlt, hnt, Function.update_self _ _ _, fun x hx hxb => ?_, htaken, ?_⟩
  · rw [Function.update_of_ne hx, Function.update_of_ne hxb]
  · -- 空き block の集合から `b` が抜ける
    have hset : ((Finset.range sb.size).filter fun x => Bitmap.get ((Function.update (Function.update d
        (BBLOCK b sb) (Bitmap.set (d (BBLOCK b sb)) (b % BPB))) b fun _ => 0) (BBLOCK x sb)) (x % BPB) = false) =
        ((Finset.range sb.size).filter fun x => Bitmap.get (d (BBLOCK x sb)) (x % BPB) = false).erase b := by
      ext x
      simp only [Finset.mem_filter, Finset.mem_range, Finset.mem_erase]
      constructor
      · rintro ⟨hx, hg⟩
        have h := htaken x hx
        rw [taken_iff_get hx, taken_iff_get hx, hg] at h
        simp only [Bool.false_eq_true, false_iff, not_or, Bool.not_eq_true] at h
        exact ⟨h.2, hx, h.1⟩
      · rintro ⟨hxb, hx, hg⟩
        have h := htaken x hx
        rw [taken_iff_get hx, taken_iff_get hx, hg] at h
        simp only [Bool.false_eq_true, false_or, hxb, iff_false] at h
        exact ⟨hx, by simpa using h⟩
    have hmem : b ∈ (Finset.range sb.size).filter fun x => Bitmap.get (d (BBLOCK x sb)) (x % BPB) = false := by
      simp [hlt, hget]
    unfold nfree
    rw [hset, Finset.card_erase_of_mem hmem]
    have := Finset.card_pos.mpr ⟨b, hmem⟩
    omega

/-! ## file の block の割り当て -/

/-- 割り当てをせずに `bmap` が返す番号。間接 block がなければ、間接の側は 0 である。 -/
def addrOf (st : RwSys) (bn : Nat) : Nat :=
  if bn < NDIRECT then st.addrs.getD bn 0
  else if Blocks.indirect st.addrs = 0 then 0
  else Blocks.uintAt (st.block (Blocks.indirect st.addrs)) (bn - NDIRECT)

/-- file の `i` byte 目。 -/
def content (st : RwSys) (i : Nat) : Nat := st.block (addrOf st (i / BSIZE)) (i % BSIZE)

/-- file が持つ block：`addrOf` が返す 0 でない番号と、間接 block。 -/
def Owned (st : RwSys) (o : Nat) : Prop :=
  o ≠ 0 ∧ ((∃ bn < MAXFILE, addrOf st bn = o) ∨ o = Blocks.indirect st.addrs)

/--
lock した inode の block の割り当ての整合。block 0、bitmap block、file が持つ block は使用中で、
file が持つ block は bitmap block ではなく、`bn` ごとに違い、間接 block とも違う。
block 番号は間接 block の `uint` に収まる。
-/
structure FileInv (sb : Superblock) (st : RwSys) : Prop where
  sb_size_le : sb.size ≤ 2 ^ 32
  addrs_length : st.addrs.length = NDIRECT + 1
  size_le : st.size.toNat ≤ MAXFILE * BSIZE
  zero_taken : Taken sb st.block 0
  bitmap_taken : ∀ x < sb.size, Taken sb st.block (BBLOCK x sb)
  owned_taken : ∀ o, Owned st o → Taken sb st.block o
  owned_ne_bitmap : ∀ o, Owned st o → ∀ x < sb.size, o ≠ BBLOCK x sb
  addr_inj : ∀ bn < MAXFILE, ∀ bn' < MAXFILE, addrOf st bn ≠ 0 → addrOf st bn = addrOf st bn' → bn = bn'
  addr_ne_indirect : ∀ bn < MAXFILE, addrOf st bn ≠ 0 → addrOf st bn ≠ Blocks.indirect st.addrs

/-- `st'` は、`st` で割り当て済みの block の番号と中身をそのまま持つ。 -/
def Extends (st st' : RwSys) : Prop :=
  ∀ bn < MAXFILE, addrOf st bn ≠ 0 →
    addrOf st' bn = addrOf st bn ∧ st'.block (addrOf st bn) = st.block (addrOf st bn)

theorem Extends.refl (st : RwSys) : Extends st st := fun _ _ _ => ⟨rfl, rfl⟩

theorem Extends.trans {st₁ st₂ st₃ : RwSys} (h₁ : Extends st₁ st₂) (h₂ : Extends st₂ st₃) :
    Extends st₁ st₃ := by
  intro bn hbn hz
  obtain ⟨ha₁, hb₁⟩ := h₁ bn hbn hz
  obtain ⟨ha₂, hb₂⟩ := h₂ bn hbn (ha₁ ▸ hz)
  rw [ha₁] at ha₂ hb₂
  exact ⟨ha₂, hb₂.trans hb₁⟩

theorem addrOf_of_lt {st : RwSys} {x : Nat} (hx : x < NDIRECT) : addrOf st x = st.addrs.getD x 0 := by
  rw [addrOf, if_pos hx]

theorem addrOf_of_indirect_eq_zero {st : RwSys} {x : Nat} (hx : NDIRECT ≤ x) (h0 : Blocks.indirect st.addrs = 0) :
    addrOf st x = 0 := by
  rw [addrOf, if_neg (Nat.not_lt.mpr hx), if_pos h0]

theorem addrOf_of_le {st : RwSys} {x : Nat} (hx : NDIRECT ≤ x) (h0 : Blocks.indirect st.addrs ≠ 0) :
    addrOf st x = Blocks.uintAt (st.block (Blocks.indirect st.addrs)) (x - NDIRECT) := by
  rw [addrOf, if_neg (Nat.not_lt.mpr hx), if_neg h0]

section inv

variable {sb : Superblock} {st : RwSys}

theorem Owned.of_addrOf {bn : Nat} (hbn : bn < MAXFILE) (h : addrOf st bn ≠ 0) : Owned st (addrOf st bn) :=
  ⟨h, .inl ⟨bn, hbn, rfl⟩⟩

theorem Owned.indirect (h : Blocks.indirect st.addrs ≠ 0) : Owned st (Blocks.indirect st.addrs) := ⟨h, .inr rfl⟩

/-- 空いていた block は、file が持つ block でも 0 でも bitmap block でもない。 -/
theorem FileInv.ne_of_owned (hinv : FileInv sb st) {b o : Nat} (hb : ¬ Taken sb st.block b) (ho : Owned st o) :
    o ≠ b :=
  fun h => hb (h ▸ hinv.owned_taken o ho)

theorem FileInv.ne_zero (hinv : FileInv sb st) {b : Nat} (hb : ¬ Taken sb st.block b) : b ≠ 0 :=
  fun h => hb (h ▸ hinv.zero_taken)

theorem FileInv.ne_bitmap (hinv : FileInv sb st) {b : Nat} (hb : ¬ Taken sb st.block b) {x : Nat}
    (hx : x < sb.size) : b ≠ BBLOCK x sb :=
  fun h => hb (h ▸ hinv.bitmap_taken x hx)

/-- `balloc` は file が持つ block の中身を変えない。 -/
theorem FileInv.owned_frame (hinv : FileInv sb st) {d' : Nat → Nat → Nat} {b o : Nat}
    (ha : Allocated sb st.block d' b) (ho : Owned st o) : d' o = st.block o :=
  ha.frame o (hinv.ne_of_owned ha.not_taken ho) (hinv.owned_ne_bitmap o ho b ha.lt_size)

theorem Allocated.taken_iff' {d d' : Nat → Nat → Nat} {b : Nat} (ha : Allocated sb d d' b) (o : Nat) :
    Taken sb d' o ↔ Taken sb d o ∨ o = b := by
  by_cases ho : o < sb.size
  · exact ha.taken_iff o ho
  · have hne : o ≠ b := fun h => ho (h ▸ ha.lt_size)
    simp only [Taken, Nat.le_of_not_lt ho, true_or, hne, or_false]

/-- bitmap block でない block を書いても、どの block の bit も変わらない。 -/
theorem taken_update_of_ne_bitmap {d : Nat → Nat → Nat} {a : Nat} (v : Nat → Nat)
    (ha : ∀ x < sb.size, a ≠ BBLOCK x sb) (o : Nat) : Taken sb (Function.update d a v) o ↔ Taken sb d o := by
  by_cases ho : o < sb.size
  · rw [taken_iff_get ho, taken_iff_get ho, Function.update_of_ne (ha o ho).symm]
  · simp only [Taken, Nat.le_of_not_lt ho, true_or]

theorem nfree_update_of_ne_bitmap {d : Nat → Nat → Nat} {a : Nat} (v : Nat → Nat)
    (ha : ∀ x < sb.size, a ≠ BBLOCK x sb) : nfree sb (Function.update d a v) = nfree sb d := by
  unfold nfree
  congr 1
  refine Finset.filter_congr fun x hx => ?_
  rw [Function.update_of_ne (ha x (Finset.mem_range.mp hx)).symm]

/--
割り当ての一段の後の整合。`b` は空いていた block で、bit は `b` の分だけ増える。`addrOf` は
`bn` の番号が 0 から `b` になるほかは変わらず、間接 block は変わらないか、0 から `b` になる
（そのときは `addrOf` は変わらない）。
-/
theorem FileInv.fresh (hinv : FileInv sb st) {st' : RwSys} {b : Nat} (bn : Nat) (hbt : ¬ Taken sb st.block b)
    (hlen : st'.addrs.length = st.addrs.length) (hsize : st'.size = st.size)
    (htaken : ∀ o, Taken sb st'.block o ↔ Taken sb st.block o ∨ o = b)
    (haddr : ∀ x < MAXFILE, addrOf st' x = addrOf st x ∨ (x = bn ∧ addrOf st x = 0 ∧ addrOf st' x = b))
    (hind : Blocks.indirect st'.addrs = Blocks.indirect st.addrs ∨
      (Blocks.indirect st.addrs = 0 ∧ Blocks.indirect st'.addrs = b ∧ ∀ x < MAXFILE, addrOf st' x = addrOf st x)) :
    FileInv sb st' := by
  have hb0 : b ≠ 0 := hinv.ne_zero hbt
  -- 新しい状態で持つ block は、前から持つ block か `b` である
  have hown : ∀ o, Owned st' o → Owned st o ∨ o = b := by
    rintro o ⟨ho, ⟨x, hx, rfl⟩ | rfl⟩
    · rcases haddr x hx with h | ⟨-, -, h⟩
      · rw [h] at ho ⊢
        exact .inl (Owned.of_addrOf hx ho)
      · exact .inr h
    · rcases hind with h | ⟨-, h, -⟩
      · exact .inl ⟨ho, .inr h⟩
      · exact .inr h
  refine ⟨hinv.sb_size_le, hlen ▸ hinv.addrs_length, hsize ▸ hinv.size_le,
    (htaken 0).mpr (.inl hinv.zero_taken), fun x hx => (htaken _).mpr (.inl (hinv.bitmap_taken x hx)),
    ?_, ?_, ?_, ?_⟩
  · intro o ho
    rcases hown o ho with h | rfl
    · exact (htaken o).mpr (.inl (hinv.owned_taken o h))
    · exact (htaken o).mpr (.inr rfl)
  · intro o ho x hx
    rcases hown o ho with h | rfl
    · exact hinv.owned_ne_bitmap o h x hx
    · exact hinv.ne_bitmap hbt hx
  · -- `b` になった番号は一つだけで、前からの番号とは違う
    intro x hx x' hx' hz heq
    rcases haddr x hx with h | ⟨rfl, -, h⟩ <;> rcases haddr x' hx' with h' | ⟨rfl, -, h'⟩
    · rw [h, h'] at heq
      rw [h] at hz
      exact hinv.addr_inj x hx x' hx' hz heq
    · rw [h, h'] at heq
      rw [h] at hz
      exact absurd heq (hinv.ne_of_owned hbt (Owned.of_addrOf hx hz))
    · rw [h, h'] at heq
      exact absurd heq.symm (hinv.ne_of_owned hbt (Owned.of_addrOf hx' (heq ▸ hb0)))
    · rfl
  · intro x hx hz
    rcases haddr x hx with h | ⟨rfl, hx0, h⟩ <;> rcases hind with hi | ⟨-, hi, hsame⟩
    · rw [h, hi]
      rw [h] at hz
      exact hinv.addr_ne_indirect x hx hz
    · rw [h, hi]
      rw [h] at hz
      exact hinv.ne_of_owned hbt (Owned.of_addrOf hx hz)
    · rw [h, hi]
      by_cases h0 : Blocks.indirect st.addrs = 0
      · rw [h0]
        exact hb0
      · exact (hinv.ne_of_owned hbt (Owned.indirect h0)).symm
    · -- 間接 block を割り当てた段では、番号は変わらない
      rw [hsame _ hx, hx0] at h
      exact absurd h.symm hb0

/-- 間接 block でない block を書いても、`addrOf` は変わらない。 -/
theorem addrOf_update_of_ne_indirect {a : Nat} (v : Nat → Nat) (h : a ≠ Blocks.indirect st.addrs) (x : Nat) :
    addrOf { st with block := Function.update st.block a v } x = addrOf st x := by
  by_cases hx : x < NDIRECT
  · rw [addrOf_of_lt hx, addrOf_of_lt hx]
  · simp only [addrOf, if_neg hx]
    split_ifs
    · rfl
    · exact congrArg (Blocks.uintAt · _) (Function.update_of_ne (Ne.symm h) v st.block)

/-- 番号と bit が変わらず、`size` が `MAXFILE` block に収まれば、整合も変わらない。 -/
theorem FileInv.of_same (hinv : FileInv sb st) {st' : RwSys} (haddrs : st'.addrs = st.addrs)
    (hsize : st'.size.toNat ≤ MAXFILE * BSIZE) (haddr : ∀ x, addrOf st' x = addrOf st x)
    (htaken : ∀ o, Taken sb st'.block o ↔ Taken sb st.block o) : FileInv sb st' := by
  have hown : ∀ o, Owned st' o ↔ Owned st o := by
    intro o
    simp only [Owned, haddr, haddrs]
  refine ⟨hinv.sb_size_le, haddrs ▸ hinv.addrs_length, hsize, (htaken 0).mpr hinv.zero_taken,
    fun x hx => (htaken _).mpr (hinv.bitmap_taken x hx), fun o ho => (htaken o).mpr (hinv.owned_taken o ((hown o).mp ho)),
    fun o ho => hinv.owned_ne_bitmap o ((hown o).mp ho), ?_, ?_⟩
  · intro x hx x' hx' hz heq
    rw [haddr, haddr] at heq
    rw [haddr] at hz
    exact hinv.addr_inj x hx x' hx' hz heq
  · intro x hx hz
    rw [haddr, haddrs]
    rw [haddr] at hz
    exact hinv.addr_ne_indirect x hx hz

/-- 整合は log 層によらない。 -/
theorem FileInv.setLogs (hinv : FileInv sb st) (logs : LogSys) : FileInv sb { st with logs } :=
  hinv.of_same rfl hinv.size_le (fun _ => rfl) (fun _ => Iff.rfl)

/-- file の中身の block を書いても、整合は変わらない。 -/
theorem FileInv.write_data (hinv : FileInv sb st) {bn : Nat} (hbn : bn < MAXFILE) (ha : addrOf st bn ≠ 0)
    (v : Nat → Nat) : FileInv sb { st with block := Function.update st.block (addrOf st bn) v } :=
  hinv.of_same rfl hinv.size_le (addrOf_update_of_ne_indirect v (hinv.addr_ne_indirect bn hbn ha))
    (taken_update_of_ne_bitmap v (hinv.owned_ne_bitmap _ (Owned.of_addrOf hbn ha)))

end inv

/-! ## `bmap` の一段 -/

/--
`bmap` の中の一段で状態が `st` から `st'` に進んだこと。整合は保たれ、割り当て済みの block は
そのままで、割り当ては多くとも `a` 回、log にはあと `k` 回の `log_write` の空きが残る。
-/
structure Grows (sb : Superblock) (dev : Nat) (st st' : RwSys) (a k : Nat) : Prop where
  inv : FileInv sb st'
  ext : Extends st st'
  size_eq : st'.size = st.size
  nfree_le : nfree sb st.block ≤ nfree sb st'.block + a
  room : (st'.logs.logOf dev).Room k

section grows

variable {sb : Superblock} {dev : Nat} {st : RwSys}

theorem Grows.refl (hinv : FileInv sb st) {k : Nat} (hroom : (st.logs.logOf dev).Room k) :
    Grows sb dev st st 0 k :=
  ⟨hinv, Extends.refl st, rfl, Nat.le_refl _, hroom⟩

theorem Grows.trans {st₂ st₃ : RwSys} {a₁ a₂ k₁ k₂ : Nat} (h₁ : Grows sb dev st st₂ a₁ k₁)
    (h₂ : Grows sb dev st₂ st₃ a₂ k₂) : Grows sb dev st st₃ (a₁ + a₂) k₂ :=
  ⟨h₂.inv, h₁.ext.trans h₂.ext, h₂.size_eq.trans h₁.size_eq, by have := h₁.nfree_le; have := h₂.nfree_le; omega,
    h₂.room⟩

theorem Grows.mono {st' : RwSys} {a a' k k' : Nat} (h : Grows sb dev st st' a k) (ha : a ≤ a') (hk : k' ≤ k) :
    Grows sb dev st st' a' k' :=
  ⟨h.inv, h.ext, h.size_eq, by have := h.nfree_le; omega, h.room.mono hk⟩

/-- 空き block があり log に二つ空きがあれば、`balloc` は block を割り当て、bitmap block と新しい block を `log_write` する。 -/
theorem balloc_ok {k : Nat} (hinv : FileInv sb st) (hfree : 0 < nfree sb st.block)
    (hroom : (st.logs.logOf dev).Room (k + 2)) :
    ∃ d' b logs, balloc sb dev st = .ok ({ st with block := d', logs }, b) ∧ Allocated sb st.block d' b ∧
      (logs.logOf dev).Room k := by
  obtain ⟨d', b, hb, ha⟩ := balloc_spec hinv.bitmap_taken hfree
  obtain ⟨s₁, h₁, r₁⟩ := logWrite_of_room hroom (BBLOCK b sb)
  obtain ⟨s₂, h₂, r₂⟩ := logWrite_of_room r₁ b
  refine ⟨d', b, s₂, ?_, ha, r₂⟩
  simp only [balloc, hb, h₁, h₂, ok_bind]
  rfl

/-- 直接 block `bn` が 0 なら、`allocAddr` が割り当てた block が `bn` 番目になる。 -/
theorem allocAddr_direct {k bn : Nat} (hinv : FileInv sb st) (hbn : bn < NDIRECT) (hz : addrOf st bn = 0)
    (hfree : 0 < nfree sb st.block) (hroom : (st.logs.logOf dev).Room (k + 2)) :
    ∃ st', allocAddr sb dev st bn = .ok (st', addrOf st' bn) ∧ addrOf st' bn ≠ 0 ∧ Grows sb dev st st' 1 k := by
  obtain ⟨d', b, logs, hb, ha, hr⟩ := balloc_ok hinv hfree hroom
  have hlt : bn < st.addrs.length := by
    rw [hinv.addrs_length]
    omega
  have hbt := ha.not_taken
  let st' : RwSys := { st with block := d', logs, addrs := st.addrs.set bn b }
  have hind : Blocks.indirect st'.addrs = Blocks.indirect st.addrs := by
    simp only [st', Blocks.indirect, getD_set_of_lt hlt, if_neg (Nat.ne_of_lt hbn)]
  -- `bn` のほかの番号は変わらない
  have haddr : ∀ x, addrOf st' x = if x = bn then b else addrOf st x := by
    intro x
    by_cases hxd : x < NDIRECT
    · rw [addrOf_of_lt hxd, addrOf_of_lt hxd]
      simp only [st', getD_set_of_lt hlt, eq_comm (a := bn)]
    · have hxb : x ≠ bn := fun h => hxd (h ▸ hbn)
      rw [if_neg hxb]
      by_cases h0 : Blocks.indirect st.addrs = 0
      · rw [addrOf_of_indirect_eq_zero (Nat.le_of_not_lt hxd) (hind.trans h0),
          addrOf_of_indirect_eq_zero (Nat.le_of_not_lt hxd) h0]
      · rw [addrOf_of_le (Nat.le_of_not_lt hxd) (hind ▸ h0), addrOf_of_le (Nat.le_of_not_lt hxd) h0, hind]
        exact congrArg (Blocks.uintAt · _) (hinv.owned_frame ha (Owned.indirect h0))
  have hb' : addrOf st' bn = b := by rw [haddr, if_pos rfl]
  refine ⟨st', ?_, hb' ▸ hinv.ne_zero hbt, ?_, ?_, rfl, ?_, hr⟩
  · simp only [allocAddr, hb, ok_bind, hb']
    rfl
  · refine hinv.fresh bn hbt (by simp [st']) rfl (ha.taken_iff' ·) (fun x _ => ?_) (.inl hind)
    rw [haddr]
    by_cases hx : x = bn
    · subst hx
      exact .inr ⟨rfl, hz, if_pos rfl⟩
    · exact .inl (if_neg hx)
  · intro x hx hx0
    have hxb : x ≠ bn := fun h => hx0 (h ▸ hz)
    exact ⟨by rw [haddr, if_neg hxb], hinv.owned_frame ha (Owned.of_addrOf hx hx0)⟩
  · show nfree sb st.block ≤ nfree sb d' + 1
    have := ha.nfree_eq
    omega

/-- 間接 block がなければ割り当てる。割り当てた間接 block は 0 で埋まるので、`addrOf` は変わらない。 -/
theorem loadIndirect_spec {k : Nat} (hinv : FileInv sb st) (hfree : 0 < nfree sb st.block)
    (hroom : (st.logs.logOf dev).Room (k + 2)) :
    ∃ st', loadIndirect sb dev st = .ok (st', Blocks.indirect st'.addrs) ∧ Blocks.indirect st'.addrs ≠ 0 ∧
      (∀ x, addrOf st' x = addrOf st x) ∧ Grows sb dev st st' 1 k := by
  unfold loadIndirect
  by_cases h0 : Blocks.indirect st.addrs = 0
  · rw [if_pos h0]
    obtain ⟨d', b, logs, hb, ha, hr⟩ := balloc_ok hinv hfree hroom
    have hlt : NDIRECT < st.addrs.length := by
      rw [hinv.addrs_length]
      omega
    have hbt := ha.not_taken
    have hb0 : b ≠ 0 := hinv.ne_zero hbt
    let st' : RwSys := { st with block := d', logs, addrs := st.addrs.set NDIRECT b }
    have hind : Blocks.indirect st'.addrs = b := by
      simp only [st', Blocks.indirect, getD_set_of_lt hlt, if_true]
    have haddr : ∀ x, addrOf st' x = addrOf st x := by
      intro x
      by_cases hxd : x < NDIRECT
      · rw [addrOf_of_lt hxd, addrOf_of_lt hxd]
        simp only [st', getD_set_of_lt hlt, if_neg (Nat.ne_of_gt hxd)]
      · rw [addrOf_of_le (Nat.le_of_not_lt hxd) (hind ▸ hb0),
          addrOf_of_indirect_eq_zero (Nat.le_of_not_lt hxd) h0, hind]
        show Blocks.uintAt (d' b) _ = 0
        rw [ha.zeroed, uintAt_zero]
    refine ⟨st', ?_, hind ▸ hb0, haddr, ?_, ?_, rfl, ?_, hr⟩
    · simp only [allocAddr, hb, ok_bind, hind]
      rfl
    · exact hinv.fresh 0 hbt (by simp [st']) rfl (ha.taken_iff' ·) (fun x _ => .inl (haddr x))
        (.inr ⟨h0, hind, fun x _ => haddr x⟩)
    · intro x hx hx0
      exact ⟨haddr x, hinv.owned_frame ha (Owned.of_addrOf hx hx0)⟩
    · show nfree sb st.block ≤ nfree sb d' + 1
      have := ha.nfree_eq
      omega
  · rw [if_neg h0]
    exact ⟨st, rfl, h0, fun _ => rfl, (Grows.refl hinv (hroom.mono (by omega))).mono (by omega) le_rfl⟩

/-- 間接 block の `bn - NDIRECT` 番目が 0 なら、`allocEntry` が割り当てた block がそこに書かれる。 -/
theorem allocEntry_spec {k bn : Nat} (hinv : FileInv sb st) (hne : Blocks.indirect st.addrs ≠ 0)
    (hle : NDIRECT ≤ bn) (hz : addrOf st bn = 0) (hfree : 0 < nfree sb st.block)
    (hroom : (st.logs.logOf dev).Room (k + 3)) :
    ∃ st', allocEntry sb dev st (Blocks.indirect st.addrs) (bn - NDIRECT) = .ok (st', addrOf st' bn) ∧
      addrOf st' bn ≠ 0 ∧ Grows sb dev st st' 1 k := by
  obtain ⟨d', b, logs, hb, ha, hr⟩ := balloc_ok hinv hfree hroom
  obtain ⟨logs', hl, hr'⟩ := logWrite_of_room hr (Blocks.indirect st.addrs)
  have hbt := ha.not_taken
  have hframe : d' (Blocks.indirect st.addrs) = st.block (Blocks.indirect st.addrs) :=
    hinv.owned_frame ha (Owned.indirect hne)
  have hbits : ∀ x < sb.size, Blocks.indirect st.addrs ≠ BBLOCK x sb :=
    hinv.owned_ne_bitmap _ (Owned.indirect hne)
  have hb32 : b < 2 ^ 32 := Nat.lt_of_lt_of_le ha.lt_size hinv.sb_size_le
  let st' : RwSys := { st with block := (Function.update d' (Blocks.indirect st.addrs)
      (setUint (d' (Blocks.indirect st.addrs)) (bn - NDIRECT) b)), logs := logs' }
  -- 間接 block の `bn - NDIRECT` 番目のほかは変わらない
  have haddr : ∀ x, addrOf st' x = if x = bn then b else addrOf st x := by
    intro x
    by_cases hxd : x < NDIRECT
    · rw [if_neg (show x ≠ bn by omega), addrOf_of_lt hxd, addrOf_of_lt hxd]
    · rw [addrOf_of_le (Nat.le_of_not_lt hxd) (show Blocks.indirect st'.addrs ≠ 0 from hne)]
      simp only [st', Function.update_self]
      by_cases hxb : x = bn
      · subst hxb
        rw [if_pos rfl, uintAt_setUint_self _ _ hb32]
      · rw [if_neg hxb, uintAt_setUint_of_ne _ _ (by omega), hframe, addrOf_of_le (Nat.le_of_not_lt hxd) hne]
  have hb' : addrOf st' bn = b := by rw [haddr, if_pos rfl]
  refine ⟨st', ?_, hb' ▸ hinv.ne_zero hbt, ?_, ?_, rfl, ?_, hr'⟩
  · simp only [allocEntry, hb, ok_bind, hl, hb']
    rfl
  · refine hinv.fresh bn hbt rfl rfl (fun o => ?_) (fun x _ => ?_) (.inl rfl)
    · rw [← ha.taken_iff' o]
      exact taken_update_of_ne_bitmap _ hbits o
    · rw [haddr]
      by_cases hx : x = bn
      · subst hx
        exact .inr ⟨rfl, hz, if_pos rfl⟩
      · exact .inl (if_neg hx)
  · intro x hx hx0
    have hxb : x ≠ bn := fun h => hx0 (h ▸ hz)
    refine ⟨by rw [haddr, if_neg hxb], ?_⟩
    show Function.update d' _ _ (addrOf st x) = _
    rw [Function.update_of_ne (hinv.addr_ne_indirect x hx hx0), hinv.owned_frame ha (Owned.of_addrOf hx hx0)]
  · show nfree sb st.block ≤ nfree sb (Function.update d' _ _) + 1
    rw [nfree_update_of_ne_bitmap _ hbits]
    have := ha.nfree_eq
    omega

/-- 割り当て済みの block では、`bmap` は状態を変えずにその番号を返す。 -/
theorem bmap_of_mapped {bn : Nat} (hbn : bn < MAXFILE) (h : addrOf st bn ≠ 0) :
    bmap sb dev st bn = .ok (st, addrOf st bn) := by
  unfold bmap
  by_cases hd : bn < NDIRECT
  · rw [addrOf_of_lt hd] at h ⊢
    rw [if_pos hd, if_neg h]
    rfl
  · have hi : bn - NDIRECT < NINDIRECT := by
      unfold MAXFILE at hbn
      omega
    have h0 : Blocks.indirect st.addrs ≠ 0 := fun h0 => h (addrOf_of_indirect_eq_zero (Nat.le_of_not_lt hd) h0)
    rw [addrOf_of_le (Nat.le_of_not_lt hd) h0] at h ⊢
    rw [if_neg hd, if_pos hi, loadIndirect, if_neg h0, pure_eq_ok, ok_bind]
    dsimp only
    rw [if_neg h]
    rfl

/--
**`bmap` の仕様。** 整合した inode の `MAXFILE` 未満の番号について、空き block が二つと log の空きが
五つあれば、`bmap` は 0 でない block を返し、それが以後の `addrOf` になる。割り当ては多くとも二回
（間接 block と中身の block）で、`log_write` は多くとも五回（`balloc` 二回分と間接 block）である。
-/
theorem bmap_spec {k bn : Nat} (hinv : FileInv sb st) (hbn : bn < MAXFILE) (hfree : 2 ≤ nfree sb st.block)
    (hroom : (st.logs.logOf dev).Room (k + 5)) :
    ∃ st', bmap sb dev st bn = .ok (st', addrOf st' bn) ∧ addrOf st' bn ≠ 0 ∧ Grows sb dev st st' 2 k := by
  by_cases hz : addrOf st bn = 0
  · unfold bmap
    by_cases hd : bn < NDIRECT
    · rw [if_pos hd, if_pos (by rwa [addrOf_of_lt hd] at hz)]
      obtain ⟨st', h, hne, hg⟩ := allocAddr_direct (k := k) hinv hd hz (by omega) (hroom.mono (by omega))
      exact ⟨st', h, hne, hg.mono (by omega) le_rfl⟩
    · have hle := Nat.le_of_not_lt hd
      have hi : bn - NDIRECT < NINDIRECT := by
        unfold MAXFILE at hbn
        omega
      rw [if_neg hd, if_pos hi]
      -- 間接 block を読み（なければ割り当て）、中の番号を割り当てる
      obtain ⟨st₁, h₁, hne₁, haddr₁, hg₁⟩ := loadIndirect_spec (k := k + 3) hinv (by omega) hroom
      have hz₁ : addrOf st₁ bn = 0 := by rw [haddr₁, hz]
      rw [h₁, ok_bind]
      dsimp only
      rw [if_pos (by rwa [addrOf_of_le hle hne₁] at hz₁)]
      obtain ⟨st₂, h₂, hne₂, hg₂⟩ := allocEntry_spec hg₁.inv hne₁ hle hz₁
        (by have := hg₁.nfree_le; omega) hg₁.room
      exact ⟨st₂, h₂, hne₂, hg₁.trans hg₂⟩
  · exact ⟨st, bmap_of_mapped hbn hz, hz, (Grows.refl hinv (hroom.mono (by omega))).mono (by omega) le_rfl⟩

end grows

end Rw

end Xv6
