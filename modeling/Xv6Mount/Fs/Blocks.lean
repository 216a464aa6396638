import Mathlib.Algebra.Order.BigOperators.Group.Finset
import Xv6Mount.Infra.Count
import Xv6Mount.Fs.Balloc
import Xv6Mount.Fs.Inode

/-!
# inode の中身の block と bitmap（`fs.c` の `bfree`・`itrunc`・`iupdate`・`iput`）

`Xv6Mount/Fs/Inode.lean` の icache は参照の数だけを見る。ここでは root disk の inode の
slot に `size` と `addrs`（直接 block `NDIRECT` 個と間接 block 一つ）を持たせ、bitmap と
並べる。disk は dinode の表と、残りの block の byte の表に分ける。inode block は metadata
なので、`balloc` が返すことも file の中身として書かれることもない。

block の割り当ての整合（`BlocksConsistent`）は、bitmap の bit が立つのが metadata の
block か、割り当て済みの inode にちょうど一度持たれる block だけ、ということである。

この fork の `iput` は、最後の参照を放した slot の欄（`type`・`nlink`・`size`・`addrs`）を
消すが、`valid` は残す。参照を返した後もその slot を使い続けるもの（`sys_umount` が
`getlloopdevi(0)` で放してしまった cwd）があると、`idup` した後の `ilock` は disk から
読み直さない。続く `iput` は `nlink = 0` と読んで inode を解放するが、`itrunc` が見る
`addrs` は 0 なので block は一つも `bfree` されず、dinode だけが空になる。bit の立った
block が持ち主を失う（`stale_cwd_leaks_blocks`）。

* `iput_of_linked` — link のある inode の `iput` は参照を減らすだけである
* `iput_of_cleared` — 欄を消した slot の最後の `iput` は、block に触れずに dinode を空にする
* `refCount_frame` — 一つの dinode を書き換えたときの参照の数
-/

namespace Xv6

namespace Blocks

open Infra Finset

/-- `struct dinode` のうち block の層が読む欄。`addrs` は `NDIRECT + 1` 個の block 番号。 -/
structure Dinode where
  type : Nat
  nlink : Nat
  size : Nat
  addrs : List Nat
deriving DecidableEq, Repr

/-- in-memory の `struct inode` のうち block の層が読む欄。参照の数 `ref` は C と同じく符号つき。 -/
structure Inode where
  inum : Nat
  ref : Int
  valid : Bool
  type : Nat
  nlink : Nat
  size : Nat
  addrs : List Nat
deriving DecidableEq, Repr

/-- slot の欄を dinode の形にしたもの。`iupdate` はこれを書く。 -/
def Inode.dinode (i : Inode) : Dinode := ⟨i.type, i.nlink, i.size, i.addrs⟩

/-- root disk と、その inode の icache。dinode は inode block に並ぶ表で、ほかの block は byte の列である。 -/
structure Fs where
  icache : Nat → Inode
  dinode : Nat → Dinode
  block : Nat → Nat → Nat

/-- slot `ip` を `f` で書き換える。 -/
def Fs.modify (fs : Fs) (ip : Nat) (f : Inode → Inode) : Fs :=
  { fs with icache := Function.update fs.icache ip (f (fs.icache ip)) }

/-- 0 を並べた `addrs`。 -/
def zeroAddrs : List Nat := List.replicate (NDIRECT + 1) 0

/-- `((uint*)bp->data)[j]`：little endian の 4 byte。 -/
def uintAt (data : Nat → Nat) (j : Nat) : Nat :=
  data (4 * j) + 256 * data (4 * j + 1) + 65536 * data (4 * j + 2) + 16777216 * data (4 * j + 3)

/-- 直接 block の番号 `addrs[0..NDIRECT)`。 -/
def direct (addrs : List Nat) : List Nat := (List.range NDIRECT).map (addrs.getD · 0)

/-- 間接 block の番号 `addrs[NDIRECT]`。 -/
def indirect (addrs : List Nat) : Nat := addrs.getD NDIRECT 0

/-- 間接 block の中の `NINDIRECT` 個の番号。 -/
def entries (data : Nat → Nat) : List Nat := (List.range NINDIRECT).map (uintAt data)

/-! ## `fs.c` の関数 -/

/-- `bfree`。bit が立っていなければ panic する。 -/
def bfree (sb : Superblock) (d : Nat → Nat → Nat) (b : Nat) : Except Stop (Nat → Nat → Nat) :=
  if Bitmap.get (d (BBLOCK b sb)) (b % BPB) = false then .error (.panic "freeing free block")
  else .ok (Function.update d (BBLOCK b sb) (Bitmap.clear (d (BBLOCK b sb)) (b % BPB)))

/-- `itrunc` の loop：0 でない番号を前から順に `bfree` する。 -/
def bfreeEach (sb : Superblock) : (Nat → Nat → Nat) → List Nat → Except Stop (Nat → Nat → Nat)
  | d, [] => .ok d
  | d, a :: as => do
    let d ← if a = 0 then pure d else bfree sb d a
    bfreeEach sb d as

/-- `iupdate`。slot の欄を dinode に書く。 -/
def iupdate (fs : Fs) (ip : Nat) : Fs :=
  { fs with dinode := Function.update fs.dinode (fs.icache ip).inum (fs.icache ip).dinode }

/--
`itrunc`。直接 block、間接 block の中の番号、間接 block の順に `bfree` し、`addrs` と
`size` を 0 にして `iupdate` する。
-/
def itrunc (sb : Superblock) (fs : Fs) (ip : Nat) : Except Stop Fs := do
  let i := fs.icache ip
  let d ← bfreeEach sb fs.block (direct i.addrs)
  let d ← if indirect i.addrs = 0 then pure d else do
    -- 間接 block は bitmap の block ではないので、中の番号は `bfree` の間も変わらない
    let d ← bfreeEach sb d (entries (d (indirect i.addrs)))
    bfree sb d (indirect i.addrs)
  pure (iupdate ({ fs with block := d }.modify ip fun i => { i with addrs := zeroAddrs, size := 0 }) ip)

/-- `idup`。 -/
def idup (fs : Fs) (ip : Nat) : Fs :=
  fs.modify ip fun i => { i with ref := i.ref + 1 }

/-- `ilock` のうち block の層に関わるところ：参照がなければ panic し、有効でなければ dinode を読み込む。 -/
def ilock (fs : Fs) (ip : Nat) : Except Stop Fs :=
  let i := fs.icache ip
  if i.ref < 1 then .error (.panic "ilock")
  else if i.valid then .ok fs
  else
    let d := fs.dinode i.inum
    if d.type = 0 then .error (.panic "ilock: no type")
    else .ok (fs.modify ip fun i =>
      { i with type := d.type, nlink := d.nlink, size := d.size, addrs := d.addrs, valid := true })

/-- `iput` の後半：参照を一つ減らす。0 になった slot は欄を消すが、`valid` は残す。 -/
def iputDrop (i : Inode) : Inode :=
  if i.ref - 1 = 0 then { i with ref := 0, type := 0, nlink := 0, size := 0, addrs := zeroAddrs }
  else { i with ref := i.ref - 1 }

/--
`iput`。有効で `nlink = 0` の inode の最後の参照なら、中身を捨て（`itrunc`）、`type = 0` を
書いて slot を無効にする。それから参照を一つ減らす。
-/
def iput (sb : Superblock) (fs : Fs) (ip : Nat) : Except Stop Fs := do
  let i := fs.icache ip
  let fs ← if i.valid && i.nlink == 0 && i.ref == 1 then do
      let fs ← itrunc sb fs ip
      let fs := iupdate (fs.modify ip fun i => { i with type := 0 }) ip
      pure (fs.modify ip fun i => { i with valid := false })
    else pure fs
  pure (fs.modify ip iputDrop)

/-! ## block の持ち主 -/

/-- dinode が持つ block：0 でない直接 block、間接 block、その中の 0 でない番号。 -/
def Dinode.blocks (block : Nat → Nat → Nat) (x : Dinode) : List Nat :=
  (direct x.addrs).filter (· ≠ 0) ++
    if indirect x.addrs = 0 then []
    else indirect x.addrs :: (entries (block (indirect x.addrs))).filter (· ≠ 0)

/-- dinode が block `b` を持つ回数。割り当てられていない dinode は何も持たない。 -/
def holds (block : Nat → Nat → Nat) (b : Nat) (x : Dinode) : Nat :=
  if x.type = 0 then 0 else (x.blocks block).count b

/-- block `b` への参照の数：割り当て済みの inode の直接 block・間接 block・その中の番号として。 -/
def refCount (sb : Superblock) (fs : Fs) (b : Nat) : Nat :=
  ∑ x ∈ range sb.ninodes, holds fs.block b (fs.dinode x)

/--
block の割り当ての整合。`sb.size` 未満のどの block も、bitmap の bit が立つのは metadata
（boot block・superblock・log・inode block・bitmap block、`sb.size - sb.nblocks` 個）のときか、
割り当て済みの inode にちょうど一度持たれるときだけである。
-/
def BlocksConsistent (sb : Superblock) (fs : Fs) : Prop :=
  ∀ b < sb.size, Bitmap.get (fs.block (BBLOCK b sb)) (b % BPB) = true ↔
    b < sb.size - sb.nblocks ∨ refCount sb fs b = 1

/-! ## 各関数の形 -/

section Spec

variable (fs : Fs) (ip : Nat) (f : Inode → Inode)

@[simp] theorem Fs.modify_icache_self : (fs.modify ip f).icache ip = f (fs.icache ip) := by
  simp [Fs.modify]

@[simp] theorem Fs.modify_dinode : (fs.modify ip f).dinode = fs.dinode := rfl

@[simp] theorem Fs.modify_block : (fs.modify ip f).block = fs.block := rfl

@[simp] theorem iupdate_icache : (iupdate fs ip).icache = fs.icache := rfl

@[simp] theorem iupdate_block : (iupdate fs ip).block = fs.block := rfl

@[simp] theorem iupdate_dinode :
    (iupdate fs ip).dinode = Function.update fs.dinode (fs.icache ip).inum (fs.icache ip).dinode := rfl

end Spec

/-- 0 だけの列の `bfreeEach` は何もしない。 -/
theorem bfreeEach_zeros (sb : Superblock) (d : Nat → Nat → Nat) :
    ∀ l : List Nat, (∀ a ∈ l, a = 0) → bfreeEach sb d l = .ok d
  | [], _ => rfl
  | a :: as, h => by
    rw [bfreeEach, h a List.mem_cons_self, if_pos rfl, pure_eq_ok, ok_bind]
    exact bfreeEach_zeros sb d as fun x hx => h x (List.mem_cons_of_mem a hx)

theorem getD_zeroAddrs (k : Nat) : zeroAddrs.getD k 0 = 0 := by
  rw [zeroAddrs, List.getD_eq_getElem?_getD, List.getElem?_replicate]
  split <;> rfl

theorem direct_zeroAddrs : ∀ a ∈ direct zeroAddrs, a = 0 := by
  intro a ha
  simp only [direct, List.mem_map, List.mem_range] at ha
  obtain ⟨k, -, rfl⟩ := ha
  exact getD_zeroAddrs k

theorem indirect_zeroAddrs : indirect zeroAddrs = 0 := getD_zeroAddrs NDIRECT

/-- `addrs` が 0 の slot の `itrunc` は block に触れず、`size` を 0 にして書くだけである。 -/
theorem itrunc_of_zeroAddrs (sb : Superblock) {fs : Fs} {ip : Nat} (h : (fs.icache ip).addrs = zeroAddrs) :
    itrunc sb fs ip = .ok (iupdate (fs.modify ip fun i => { i with addrs := zeroAddrs, size := 0 }) ip) := by
  unfold itrunc
  dsimp only
  rw [h, bfreeEach_zeros sb fs.block _ direct_zeroAddrs, ok_bind, indirect_zeroAddrs, if_pos rfl,
    pure_eq_ok, ok_bind]
  rfl

/-- **link のある inode の `iput`** は解放の道に入らず、参照を減らすだけである。 -/
theorem iput_of_linked (sb : Superblock) {fs : Fs} {ip : Nat} (h : (fs.icache ip).nlink ≠ 0) :
    iput sb fs ip = .ok (fs.modify ip iputDrop) := by
  unfold iput
  dsimp only
  have hguard : ((fs.icache ip).valid && (fs.icache ip).nlink == 0 && (fs.icache ip).ref == 1) = false := by
    simp [h]
  rw [hguard, if_neg Bool.false_ne_true, pure_eq_ok, ok_bind, pure_eq_ok]

/--
**欄を消された slot の最後の `iput`。** 有効のまま残った slot（`nlink = 0`、`addrs` が 0）に
参照が一つだけあると、`iput` は inode を解放する。block はどれも `bfree` されず、dinode は
`type`・`size`・`addrs` が 0 の空の dinode になる。
-/
theorem iput_of_cleared (sb : Superblock) {fs : Fs} {ip : Nat} (hv : (fs.icache ip).valid = true)
    (hn : (fs.icache ip).nlink = 0) (hr : (fs.icache ip).ref = 1) (ha : (fs.icache ip).addrs = zeroAddrs) :
    ∃ fs', iput sb fs ip = .ok fs' ∧ fs'.block = fs.block ∧
      fs'.dinode = Function.update fs.dinode (fs.icache ip).inum ⟨0, 0, 0, zeroAddrs⟩ := by
  unfold iput
  dsimp only
  have hguard : ((fs.icache ip).valid && (fs.icache ip).nlink == 0 && (fs.icache ip).ref == 1) = true := by
    simp [hv, hn, hr]
  rw [hguard, if_pos rfl, itrunc_of_zeroAddrs sb ha, ok_bind, pure_eq_ok, ok_bind, pure_eq_ok]
  refine ⟨_, rfl, rfl, ?_⟩
  -- 二度の `iupdate` は同じ inode に書き、後の書き込みが残る
  funext x
  by_cases hx : x = (fs.icache ip).inum
  · subst hx
    simp [Fs.modify, Inode.dinode, hn]
  · simp [Fs.modify, hx]

/-! ## 参照の数 -/

/-- 割り当てられていない dinode は何も持たない。 -/
@[simp] theorem holds_free (block : Nat → Nat → Nat) (b size : Nat) (addrs : List Nat) (nlink : Nat) :
    holds block b ⟨0, nlink, size, addrs⟩ = 0 := rfl

/-- 一つの inode `x` の持つ数は、全体の参照の数を超えない。 -/
theorem holds_le_refCount {sb : Superblock} (fs : Fs) (b : Nat) {x : Nat} (hx : x < sb.ninodes) :
    holds fs.block b (fs.dinode x) ≤ refCount sb fs b :=
  single_le_sum (f := fun y => holds fs.block b (fs.dinode y)) (fun _ _ => Nat.zero_le _) (mem_range.2 hx)

/-- **一つの dinode を書き換えたときの参照の数。** block の中身と、`x` 以外の dinode は変わらないとする。 -/
theorem refCount_frame {sb : Superblock} {fs fs' : Fs} (b : Nat) {x : Nat} (hx : x < sb.ninodes)
    (hblock : fs'.block = fs.block) (hframe : ∀ y, y ≠ x → fs'.dinode y = fs.dinode y) :
    refCount sb fs' b + holds fs.block b (fs.dinode x) = refCount sb fs b + holds fs.block b (fs'.dinode x) := by
  unfold refCount
  rw [hblock]
  exact sum_frame (range sb.ninodes) (holds fs.block b) (mem_range.2 hx) hframe

/-! ## 欄を消された cwd からの解放 -/

/--
**持ち主を失う block。** 整合した状態で、slot `ip` が割り当て済みの inode を持つ有効な slot で、
その欄が disk の dinode と同じで、参照が一つだけあるとする。その inode が持つ、metadata で
ない使用中の block `b` を考える。`sys_umount` の余分な `iput`（cwd の参照を放す）、`namex` の
`idup(cwd)` と `ilock`、失敗した探索の `iunlockput` が続くと、`b` の bit は立ったまま、
`b` を持つ割り当て済みの inode はなくなる。整合はもう成り立たない。
-/
theorem stale_cwd_leaks_blocks {sb : Superblock} {fs : Fs} {ip b : Nat} (hc : BlocksConsistent sb fs)
    (hv : (fs.icache ip).valid = true) (hr : (fs.icache ip).ref = 1)
    (hcopy : (fs.icache ip).dinode = fs.dinode (fs.icache ip).inum)
    (ht : (fs.icache ip).type ≠ 0) (hn : (fs.icache ip).nlink ≠ 0) (hin : (fs.icache ip).inum < sb.ninodes)
    (hb : b ∈ (fs.dinode (fs.icache ip).inum).blocks fs.block) (hbs : b < sb.size)
    (hbm : sb.size - sb.nblocks ≤ b) (hbit : Bitmap.get (fs.block (BBLOCK b sb)) (b % BPB) = true) :
    ∃ fs', (do
        let fs ← iput sb fs ip
        let fs ← ilock (idup fs ip) ip
        iput sb fs ip) = .ok fs' ∧
      Bitmap.get (fs'.block (BBLOCK b sb)) (b % BPB) = true ∧ refCount sb fs' b = 0 ∧
      ¬ BlocksConsistent sb fs' := by
  set x := (fs.icache ip).inum with hxdef
  -- 整合から、`b` への参照はちょうど一つで、それは `x` のものである
  have hrc : refCount sb fs b = 1 := ((hc b hbs).1 hbit).resolve_left (by omega)
  have htx : (fs.dinode x).type ≠ 0 := by
    rw [← hcopy]
    exact ht
  have hhold : holds fs.block b (fs.dinode x) = 1 := by
    have hpos : 0 < holds fs.block b (fs.dinode x) := by
      rw [holds, if_neg htx]
      exact List.count_pos_iff.2 hb
    have hle := holds_le_refCount fs b hin
    omega
  -- 一度目の `iput`：link があるので欄を消すだけ
  set fs₁ := fs.modify ip iputDrop with hfs₁
  have h₁ : iput sb fs ip = .ok fs₁ := iput_of_linked sb hn
  have hi₁ : fs₁.icache ip = { fs.icache ip with ref := 0, type := 0, nlink := 0, size := 0, addrs := zeroAddrs } := by
    simp [hfs₁, iputDrop, hr]
  -- `idup` と `ilock`：有効な slot なので disk から読み直さない
  set fs₂ := idup fs₁ ip with hfs₂
  have hi₂ : fs₂.icache ip = { fs.icache ip with ref := 1, type := 0, nlink := 0, size := 0, addrs := zeroAddrs } := by
    simp [hfs₂, idup, hi₁]
  have h₂ : ilock fs₂ ip = .ok fs₂ := by
    simp [ilock, hi₂, hv]
  -- 二度目の `iput`：`nlink = 0` と読んで解放するが、`addrs` は 0
  have hv₂ : (fs₂.icache ip).valid = true := by rw [hi₂]; exact hv
  have hn₂ : (fs₂.icache ip).nlink = 0 := by rw [hi₂]
  have hr₂ : (fs₂.icache ip).ref = 1 := by rw [hi₂]
  have ha₂ : (fs₂.icache ip).addrs = zeroAddrs := by rw [hi₂]
  obtain ⟨fs₃, h₃, hblock, hdinode⟩ := iput_of_cleared sb hv₂ hn₂ hr₂ ha₂
  have hx₂ : (fs₂.icache ip).inum = x := by rw [hi₂]
  have hd₂ : fs₂.dinode = fs.dinode := rfl
  have hb₂ : fs₂.block = fs.block := rfl
  rw [hx₂, hd₂] at hdinode
  rw [hb₂] at hblock
  have hframe := refCount_frame b hin hblock fun y hy => by
    rw [hdinode, Function.update_of_ne hy]
  rw [hdinode, Function.update_self, holds_free, hhold, hrc] at hframe
  have hrc₃ : refCount sb fs₃ b = 0 := by omega
  have hbit₃ : Bitmap.get (fs₃.block (BBLOCK b sb)) (b % BPB) = true := by
    rw [hblock]
    exact hbit
  refine ⟨fs₃, ?_, hbit₃, hrc₃, fun hc₃ => ?_⟩
  · rw [h₁, ok_bind, h₂, ok_bind]
    exact h₃
  · rcases (hc₃ b hbs).1 hbit₃ with hm | h1
    · omega
    · omega

/--
例の root disk：8 block のうち metadata が 5 block（boot・superblock・log・inode・bitmap）、
inode は 5 個。root directory（inode 1）が block 6 を、directory `/d`（inode 4）が block 5 を持ち、
bitmap は block 0〜6 に bit を立てる。slot 2 は cwd の `/d` で、参照は一つである。
-/
def sampleSb : Superblock := ⟨8, 3, 5, 1, 2, 3, 4⟩

def sampleFs : Fs where
  icache i := if i = 2 then ⟨4, 1, true, T_DIR, 1, 32, 5 :: List.replicate NDIRECT 0⟩
    else ⟨0, 0, false, 0, 0, 0, zeroAddrs⟩
  dinode x :=
    if x = 1 then ⟨T_DIR, 2, 48, 6 :: List.replicate NDIRECT 0⟩
    else if x = 4 then ⟨T_DIR, 1, 32, 5 :: List.replicate NDIRECT 0⟩
    else ⟨0, 0, 0, zeroAddrs⟩
  block b := if b = 4 then fun k => if k = 0 then 127 else 0 else fun _ => 0

/-- 例の disk では、`/d` の block 5 が持ち主を失う。 -/
theorem stale_cwd_leaks_sample_block :
    BlocksConsistent sampleSb sampleFs ∧
    ∃ fs', (do
        let fs ← iput sampleSb sampleFs 2
        let fs ← ilock (idup fs 2) 2
        iput sampleSb fs 2) = .ok fs' ∧
      Bitmap.get (fs'.block (BBLOCK 5 sampleSb)) (5 % BPB) = true ∧ refCount sampleSb fs' 5 = 0 ∧
      ¬ BlocksConsistent sampleSb fs' := by
  have hc : BlocksConsistent sampleSb sampleFs := by
    unfold BlocksConsistent
    decide
  exact ⟨hc, stale_cwd_leaks_blocks hc rfl rfl rfl (by decide) (by decide) (by decide) (by decide)
    (by decide) (by decide) (by decide)⟩

end Blocks

end Xv6
