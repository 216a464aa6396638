import Mathlib.Data.List.Find
import Xv6Mount.Infra.Bitmap
import Xv6Mount.Infra.Trace
import Xv6Mount.Param

/-!
# 空き block の bitmap（`fs.c` の `balloc`、`mkfs.c`、`loopdev.c`）

mkfs は image の先頭に boot block・superblock・log・inode block・bitmap block を置き、
最後に `balloc(used)` で先頭 `used` block を使用中にした bitmap block を書く
（`mkfsSuperblock`、`mkfsBalloc`）。

kernel の `balloc` は bitmap を先頭からたどって最初の空き block を取る。たどる範囲は
global な `sb` の `size` で、`sb` は `iinit(ROOTDEV)` が root disk から読んだものしかない。
mkfs は loop device の image を 100 block で作り、root disk を `FSSIZE = 1000` block で作る。
両者の log・inode block・bitmap block の位置は同じなので、loop device の bitmap は正しく
読まれるが、空き block を 100 より先まで探してしまう。

空き block が先頭から詰まっている bitmap（`UsedPrefix`）では、`balloc` を続けて呼ぶと
`used, used + 1, …` が順に返る（`ballocRun_of_usedPrefix`）。loop device の image では
block 100 と、その先の `MAXFILE = 140` も返る。block 100 を `loopdev_read` すると
`readi` は image の末尾から 0 byte しか読めず、block 140 の `loopdev_write` では
`writei` が -1 を返して書き込みが捨てられる（`loop_balloc_leaves_image`）。
-/

namespace Xv6

open Infra

/-- block の大きさ。 -/
def BSIZE : Nat := 512

/-- bitmap block 一つが受け持つ block の数。 -/
def BPB : Nat := BSIZE * 8

/-- block 一つに入る `struct dinode`（64 byte）の数。 -/
def IPB : Nat := BSIZE / 64

/-- 直接参照の block の数。 -/
def NDIRECT : Nat := 12

/-- 間接 block に入る block 番号の数。 -/
def NINDIRECT : Nat := BSIZE / 4

/-- file の block 数の上限。 -/
def MAXFILE : Nat := NDIRECT + NINDIRECT

/-- root disk の block 数。 -/
def FSSIZE : Nat := 1000

/-- mkfs が作る inode の数。 -/
def NINODES : Nat := 200

/-- `struct superblock`。 -/
structure Superblock where
  size : Nat
  nblocks : Nat
  ninodes : Nat
  nlog : Nat
  logstart : Nat
  inodestart : Nat
  bmapstart : Nat
deriving DecidableEq, Repr

/-- block `b` の bit を持つ bitmap block。 -/
def BBLOCK (b : Nat) (sb : Superblock) : Nat := b / BPB + sb.bmapstart

/-- inode `i` を持つ block。 -/
def IBLOCK (i : Nat) (sb : Superblock) : Nat := i / IPB + sb.inodestart

/-- mkfs の `main` が書く superblock。loop device の image なら 100 block、そうでなければ `FSSIZE`。 -/
def mkfsSuperblock (is_loopdev_image : Bool) : Superblock :=
  let fsize := if is_loopdev_image then 100 else FSSIZE
  let nbitmap := fsize / (BSIZE * 8) + 1
  let ninodeblocks := NINODES / IPB + 1
  let nlog := LOGSIZE
  let nmeta := 2 + nlog + ninodeblocks + nbitmap
  { size := fsize, nblocks := fsize - nmeta, ninodes := NINODES, nlog := nlog, logstart := 2,
    inodestart := 2 + nlog, bmapstart := 2 + nlog + ninodeblocks }

/-- mkfs の `balloc(used)`：先頭 `used` block の bit を立てた bitmap block。 -/
def mkfsBalloc (used : Nat) : Nat → Nat := Bitmap.ofPrefix used

/-! ## kernel の `balloc` -/

/--
`balloc`。`sb.size` 未満で bit の立っていない最初の block を取り、bit を立てて 0 で埋める。
device の中身は block 番号から byte の列への関数である。
-/
def balloc (sb : Superblock) (d : Nat → Nat → Nat) : Except Stop ((Nat → Nat → Nat) × Nat) :=
  -- 二重の loop（`b` は `BPB` ずつ、`bi` はその中）は `sb.size` 未満の block を小さい順にたどる。
  -- block `b + bi` の bit は bitmap block `BBLOCK(b, sb)` の bit `bi = (b + bi) % BPB` である
  match (List.range sb.size).find? (fun b => !Bitmap.get (d (BBLOCK b sb)) (b % BPB)) with
  | some b =>
    let d := Function.update d (BBLOCK b sb) (Bitmap.set (d (BBLOCK b sb)) (b % BPB))
    -- `bzero(dev, b + bi)`
    .ok (Function.update d b fun _ => 0, b)
  | none => .error (.panic "balloc: out of blocks")

/-- `balloc` を `k` 回続けて呼ぶ。返った block 番号を順に並べる。 -/
def ballocRun (sb : Superblock) : Nat → (Nat → Nat → Nat) → Except Stop ((Nat → Nat → Nat) × List Nat)
  | 0, d => .ok (d, [])
  | k + 1, d => do
    let (d, b) ← balloc sb d
    let (d, bs) ← ballocRun sb k d
    pure (d, b :: bs)

/-- `sb.size` 未満では、bit が立っているのは先頭 `n` block だけである。 -/
def UsedPrefix (sb : Superblock) (d : Nat → Nat → Nat) (n : Nat) : Prop :=
  ∀ b < sb.size, Bitmap.get (d (BBLOCK b sb)) (b % BPB) = decide (b < n)

/-- `n` 以上で最初の番号は `n` である。 -/
theorem find?_range_le {m n : Nat} (h : n < m) : (List.range m).find? (fun b => decide (n ≤ b)) = some n := by
  induction m with
  | zero => omega
  | succ m ih =>
    rw [List.range_succ, List.find?_append]
    by_cases hm : n < m
    · rw [ih hm]
      rfl
    · have hnm : n = m := by omega
      subst hnm
      have hnone : (List.range n).find? (fun b => decide (n ≤ b)) = none := by
        rw [List.find?_eq_none]
        intro b hb
        simpa using List.mem_range.mp hb
      simp [hnone]

/--
**一回の `balloc`。** 先頭 `n` block が使用中なら、`balloc` は block `n` を返し、使用中の block は
先頭 `n + 1` 個になる。bitmap block は `n` より前にあるとする。
-/
theorem balloc_of_usedPrefix {sb : Superblock} {d : Nat → Nat → Nat} {n : Nat} (hp : UsedPrefix sb d n)
    (hn : n < sb.size) (hbm : ∀ b < sb.size, BBLOCK b sb < n) :
    ∃ d', balloc sb d = .ok (d', n) ∧ UsedPrefix sb d' (n + 1) := by
  have hfind : (List.range sb.size).find? (fun b => !Bitmap.get (d (BBLOCK b sb)) (b % BPB)) = some n := by
    rw [← find?_range_le hn]
    refine List.find?_congr fun b hb => ?_
    rw [hp b (List.mem_range.mp hb)]
    by_cases hbn : b < n
    · simp [hbn, Nat.not_le.mpr hbn]
    · simp [hbn, Nat.not_lt.mp hbn]
  refine ⟨_, by rw [balloc, hfind], fun b hb => ?_⟩
  have hb0 : BBLOCK b sb ≠ n := Nat.ne_of_lt (hbm b hb)
  simp only [Function.update_of_ne hb0]
  by_cases hbb : BBLOCK b sb = BBLOCK n sb
  · -- 同じ bitmap block の中では、`b % BPB = n % BPB` は `b = n` と同じ
    have hdiv : b / BPB = n / BPB := by
      unfold BBLOCK at hbb
      omega
    have hmod : (n % BPB = b % BPB) ↔ n = b := by
      constructor
      · intro h
        rw [← Nat.div_add_mod b BPB, ← Nat.div_add_mod n BPB, hdiv, h]
      · intro h
        rw [h]
    rw [hbb, Function.update_self, Bitmap.get_set, ← hbb, hp b hb]
    by_cases hnb : n = b
    · subst hnb
      simp
    · have : ¬ n % BPB = b % BPB := fun h => hnb (hmod.mp h)
      simp [this]
      omega
  · rw [Function.update_of_ne hbb, hp b hb]
    have hnb : b ≠ n := fun h => hbb (h ▸ rfl)
    simp only [decide_eq_decide]
    omega

/--
**続けて呼んだ `balloc`。** 先頭 `n` block が使用中で、bitmap block が `n` より前にあれば、
`balloc` を `k` 回呼ぶと `n, n + 1, …, n + k - 1` が順に返る。
-/
theorem ballocRun_of_usedPrefix {sb : Superblock} (k : Nat) {n : Nat} {d : Nat → Nat → Nat}
    (hp : UsedPrefix sb d n) (hk : n + k ≤ sb.size) (hbm : ∀ b < sb.size, BBLOCK b sb < n) :
    ∃ d', ballocRun sb k d = .ok (d', List.range' n k) ∧ UsedPrefix sb d' (n + k) := by
  -- 帰納法は呼ぶ回数について。一回ごとに `balloc_of_usedPrefix` で使用中の先頭が一つ延びる
  induction k generalizing n d with
  | zero => exact ⟨d, rfl, hp⟩
  | succ k ih =>
    obtain ⟨d₁, h₁, hp₁⟩ := balloc_of_usedPrefix hp (by omega) hbm
    obtain ⟨d₂, h₂, hp₂⟩ := ih hp₁ (by omega) fun b hb => Nat.lt_succ_of_lt (hbm b hb)
    refine ⟨d₂, ?_, ?_⟩
    · simp only [ballocRun, h₁, ok_bind, h₂, List.range'_succ]
      rfl
    · rw [show n + (k + 1) = n + 1 + k by omega]
      exact hp₂

/-! ## loop device の image -/

/-- root disk の superblock では、どの block の bit も loop device の image の bitmap block にある。 -/
theorem BBLOCK_root_sb {b : Nat} (hb : b < (mkfsSuperblock false).size) :
    BBLOCK b (mkfsSuperblock false) = (mkfsSuperblock true).bmapstart := by
  have hb' : b < BPB := Nat.lt_of_lt_of_le hb (by decide)
  rw [BBLOCK, Nat.div_eq_of_lt hb', Nat.zero_add]
  rfl

/-- root disk の superblock で読んでも、mkfs が書いた image は先頭 `used` block が使用中に見える。 -/
theorem usedPrefix_loop_image {d : Nat → Nat → Nat} {used : Nat}
    (hbm : d (mkfsSuperblock true).bmapstart = mkfsBalloc used) :
    UsedPrefix (mkfsSuperblock false) d used := by
  intro b hb
  have hb' : b < BPB := Nat.lt_of_lt_of_le hb (by decide)
  rw [BBLOCK_root_sb hb, Nat.mod_eq_of_lt hb', hbm, mkfsBalloc, Bitmap.get_ofPrefix]

/-! ## `readi`・`writei` と `loop device` の転送 -/

/--
regular file の `readi`。file の中身は offset から byte への関数 `data` とする。
返す値と、`dst` に写す byte の列。
-/
def readi (size : UInt32) (data : Nat → Nat) (off n : UInt32) : Int × List Nat :=
  if off > size ∨ off + n < off then (-1, [])
  else
    -- file の末尾を越える分は読まない
    let n := if off + n > size then size - off else n
    (n.toNat, (List.range n.toNat).map fun i => data (off.toNat + i))

/-- regular file の `writei`。返す値と、書いた後の `size` と中身。 -/
def writei (size : UInt32) (data : Nat → Nat) (src : List Nat) (off n : UInt32) :
    Int × UInt32 × (Nat → Nat) :=
  if off > size ∨ off + n < off then (-1, size, data)
  else if off + n > (MAXFILE * BSIZE).toUInt32 then (-1, size, data)
  else
    let data' := fun i => if off.toNat ≤ i ∧ i < off.toNat + n.toNat then src.getD (i - off.toNat) 0 else data i
    (n.toNat, (if n > 0 ∧ off + n > size then off + n else size), data')

/--
`loopdev_read`。backing file の block `blockno` を buffer `buf` に読む。`readi` が返した値は
表示するだけなので、読めなかった部分には buffer の前の中身が残る。
-/
def loopdev_read (size : UInt32) (data : Nat → Nat) (blockno : UInt32) (buf : List Nat) : Int × List Nat :=
  let (res, bytes) := readi size data (blockno * BSIZE.toUInt32) BSIZE.toUInt32
  (res, bytes ++ buf.drop bytes.length)

/-- `loopdev_write`。buffer を backing file の block `blockno` に書く。`writei` の結果は見ない。 -/
def loopdev_write (size : UInt32) (data : Nat → Nat) (blockno : UInt32) (buf : List Nat) :
    Int × UInt32 × (Nat → Nat) :=
  writei size data buf (blockno * BSIZE.toUInt32) BSIZE.toUInt32

/-- file の末尾から読むと 0 byte で、何も写さない。 -/
theorem readi_at_size {size off n : UInt32} (h : off = size) (hov : off.toNat + n.toNat < 2 ^ 32) (data : Nat → Nat) :
    readi size data off n = (0, []) := by
  subst h
  have hno : ¬ off + n < off := by
    rw [UInt32.lt_iff_toNat_lt, UInt32.toNat_add]
    omega
  simp [readi, hno]
  -- `off + n > size` なら読む長さは `size - off = 0`、そうでなければ `n` 自体が 0
  split
  · rfl
  · rename_i hlt
    rw [UInt32.lt_iff_toNat_lt, UInt32.toNat_add] at hlt
    omega

/-- `MAXFILE` block を越えて書こうとすると `writei` は -1 を返し、`size` も中身も変わらない。 -/
theorem writei_past_maxfile {off n : UInt32} (hmax : MAXFILE * BSIZE < off.toNat + n.toNat)
    (hov : off.toNat + n.toNat < 2 ^ 32) (size : UInt32) (data : Nat → Nat) (src : List Nat) :
    writei size data src off n = (-1, size, data) := by
  have hgt : off + n > (MAXFILE * BSIZE).toUInt32 := by
    have hmaxfile : (MAXFILE * BSIZE).toUInt32.toNat = MAXFILE * BSIZE := rfl
    rw [gt_iff_lt, UInt32.lt_iff_toNat_lt, UInt32.toNat_add, hmaxfile]
    omega
  unfold writei
  rw [if_pos hgt, ite_self]

/-- block `blockno` の先頭の offset。`blockno * BSIZE` は `uint` の掛け算である。 -/
theorem blockOffset_toNat {blockno : UInt32} (hov : blockno.toNat * BSIZE < 2 ^ 32) :
    (blockno * BSIZE.toUInt32).toNat = blockno.toNat * BSIZE := by
  have hB : BSIZE.toUInt32.toNat = BSIZE := rfl
  rw [UInt32.toNat_mul, hB]
  exact Nat.mod_eq_of_lt hov

/-- image の末尾の block を `loopdev_read` すると 0 byte しか読めず、buffer は前の中身のままである。 -/
theorem loopdev_read_at_end {size blockno : UInt32} (h : size.toNat = blockno.toNat * BSIZE)
    (hov : blockno.toNat * BSIZE + BSIZE < 2 ^ 32) (data : Nat → Nat) (buf : List Nat) :
    loopdev_read size data blockno buf = (0, buf) := by
  have hoff : (blockno * BSIZE.toUInt32).toNat = blockno.toNat * BSIZE := blockOffset_toNat (by omega)
  have hread : readi size data (blockno * BSIZE.toUInt32) BSIZE.toUInt32 = (0, []) := by
    refine readi_at_size (UInt32.toNat_inj.mp (by rw [hoff, h])) ?_ data
    rw [hoff]
    exact hov
  simp [loopdev_read, hread]

/-- `MAXFILE` 番目から先の block を `loopdev_write` しても、backing file は変わらない。 -/
theorem loopdev_write_past_maxfile {blockno : UInt32} (hmax : MAXFILE ≤ blockno.toNat)
    (hov : blockno.toNat * BSIZE + BSIZE < 2 ^ 32) (size : UInt32) (data : Nat → Nat) (buf : List Nat) :
    loopdev_write size data blockno buf = (-1, size, data) := by
  have hoff : (blockno * BSIZE.toUInt32).toNat = blockno.toNat * BSIZE := blockOffset_toNat (by omega)
  have hB : BSIZE.toUInt32.toNat = BSIZE := rfl
  have hpast : MAXFILE * BSIZE < (blockno * BSIZE.toUInt32).toNat + BSIZE.toUInt32.toNat := by
    rw [hoff, hB]
    have := Nat.mul_le_mul_right BSIZE hmax
    have hpos : 0 < BSIZE := by decide
    omega
  unfold loopdev_write
  rw [writei_past_maxfile hpast (by rw [hoff, hB]; exact hov)]

/--
loop device の image を mkfs が書いた直後から、空き block を順に `balloc` すると、
block `used, …, MAXFILE` が返る。その中には image の外の block 100 と `MAXFILE` がある。
block 100 の `loopdev_read` は 0 byte しか読まず buffer の中身が残り、`MAXFILE` 番の block の
`loopdev_write` は backing file の `size` によらず捨てられる。
-/
theorem loop_balloc_leaves_image {d : Nat → Nat → Nat} {used : Nat}
    (hmeta : (mkfsSuperblock true).bmapstart < used) (hused : used ≤ (mkfsSuperblock true).size)
    (hbm : d (mkfsSuperblock true).bmapstart = mkfsBalloc used) :
    ∃ d', ballocRun (mkfsSuperblock false) (MAXFILE + 1 - used) d =
        .ok (d', List.range' used (MAXFILE + 1 - used)) ∧
      (mkfsSuperblock true).size ∈ List.range' used (MAXFILE + 1 - used) ∧
      MAXFILE ∈ List.range' used (MAXFILE + 1 - used) ∧
      (∀ data buf, loopdev_read ((mkfsSuperblock true).size * BSIZE).toUInt32 data
        (mkfsSuperblock true).size.toUInt32 buf = (0, buf)) ∧
      (∀ size data buf, loopdev_write size data MAXFILE.toUInt32 buf = (-1, size, data)) := by
  have hMAX : MAXFILE = 140 := rfl
  have hsize : (mkfsSuperblock true).size = 100 := rfl
  have hroot : (mkfsSuperblock false).size = 1000 := rfl
  -- 一回目から `MAXFILE` 番まで、root disk の superblock では空き block がなくならない
  obtain ⟨d', hrun, -⟩ := ballocRun_of_usedPrefix (MAXFILE + 1 - used) (usedPrefix_loop_image hbm)
    (by omega) fun b hb => by rw [BBLOCK_root_sb hb]; exact hmeta
  refine ⟨d', hrun, ?_, ?_, fun data buf => ?_, fun size data buf => ?_⟩
  · rw [List.mem_range']
    exact ⟨(mkfsSuperblock true).size - used, by omega, by omega⟩
  · rw [List.mem_range']
    exact ⟨MAXFILE - used, by omega, by omega⟩
  · exact loopdev_read_at_end (by decide) (by decide) data buf
  · exact loopdev_write_past_maxfile (by decide) (by decide) size data buf

/-- `l.img`（`mkfs 1 l.img README`）は 65 block が使用中で書かれる。 -/
theorem l_img_balloc_leaves_image :
    (mkfsSuperblock true).bmapstart < 65 ∧ 65 ≤ (mkfsSuperblock true).size ∧
    ∃ d', ballocRun (mkfsSuperblock false) (MAXFILE + 1 - 65)
          (Function.update (fun _ _ => 0) (mkfsSuperblock true).bmapstart (mkfsBalloc 65)) =
        .ok (d', List.range' 65 (MAXFILE + 1 - 65)) ∧
      (mkfsSuperblock true).size ∈ List.range' 65 (MAXFILE + 1 - 65) ∧
      MAXFILE ∈ List.range' 65 (MAXFILE + 1 - 65) ∧
      (∀ data buf, loopdev_read ((mkfsSuperblock true).size * BSIZE).toUInt32 data
        (mkfsSuperblock true).size.toUInt32 buf = (0, buf)) ∧
      (∀ size data buf, loopdev_write size data MAXFILE.toUInt32 buf = (-1, size, data)) :=
  ⟨by decide, by decide, loop_balloc_leaves_image (by decide) (by decide) (Function.update_self _ _ _)⟩

end Xv6
