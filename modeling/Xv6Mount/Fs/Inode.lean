import Mathlib.Algebra.Group.Pi.Basic
import Mathlib.Tactic.Abel
import Xv6Mount.Infra.Trace
import Xv6Mount.Param

/-!
# inode と icache（`fs.c`）

icache は `NINODE` 個の slot を持ち、slot の番号が `struct inode *` にあたる。
null pointer は `Option` の `none` で表す。sleep-lock は `locked` で持つ。system call は
一つずつ走るので、ロックを持っているのは今の呼び出しである。ロック済みの inode を
`ilock`・`iput` すると自分の解放を待つことになり、呼び出しは戻らない（`.hang`）。

disk の上の inode は volume ごとの表 `Vol → Nat → Dinode` で持つ。root disk の
volume は `.dev ROOTDEV` である。loop device（`isloopdev`）の block は `loopdev_read` が
backing file から読むので、その volume は `getlloopdevi` が返す slot の `(dev, inum)` で
決まる。

* `iget` / `idup` — 参照を一つ増やす
* `ilock` — 有効でなければ disk から読み込む。参照は変えない
* `iput` — 参照を一つ減らす。最後の参照で `nlink = 0` なら disk の inode を解放する
-/

namespace Xv6

open Infra

/-- `stat.h` の inode の種類。 -/
def T_DIR : Nat := 1
def T_FILE : Nat := 2
def T_DEV : Nat := 3

/-- `struct dirent`。`inum = 0` は空き entry である。 -/
structure Dirent where
  inum : Nat
  name : List Char
deriving DecidableEq, Repr

/-- `struct dinode` のうち、このモデルが読む欄。directory の中身は dirent の列で持つ。 -/
structure Dinode where
  type : Nat
  nlink : Nat
  dirents : List Dirent
deriving DecidableEq, Repr

/-- inode の表を持つ volume。physical な device か、loop device の背後の file。 -/
inductive Vol where
  | dev (n : Nat)
  | image (dev inum : Nat)
deriving DecidableEq, Repr

/-- in-memory の `struct inode`。`ref` は C と同じく符号つきである。`locked` は sleep-lock。 -/
structure Inode where
  dev : Nat
  inum : Nat
  ref : Int
  locked : Bool
  valid : Bool
  type : Nat
  nlink : Nat
deriving DecidableEq, Repr

/-- `struct loopdev`。`ip` は backing file の slot。 -/
structure Loopdev where
  used : Bool
  ip : Option Nat
deriving DecidableEq, Repr

/-- icache・disk・`gloopdev` の表。 -/
structure Fs where
  icache : Nat → Inode
  disk : Vol → Nat → Dinode
  loopdevtable : Nat → Loopdev

/-! ## slot の書き換え -/

/-- slot `i` の inode を `f` で書き換える。 -/
def Fs.modify (fs : Fs) (i : Nat) (f : Inode → Inode) : Fs :=
  { fs with icache := Function.update fs.icache i (f (fs.icache i)) }

section modify

variable (fs : Fs) (i : Nat) (f : Inode → Inode)

@[simp] theorem Fs.modify_icache_self : (fs.modify i f).icache i = f (fs.icache i) := by
  simp [Fs.modify]

@[simp] theorem Fs.modify_icache_of_ne {j : Nat} (h : j ≠ i) :
    (fs.modify i f).icache j = fs.icache j := by
  simp [Fs.modify, h]

@[simp] theorem Fs.modify_disk : (fs.modify i f).disk = fs.disk := rfl

@[simp] theorem Fs.modify_loopdevtable : (fs.modify i f).loopdevtable = fs.loopdevtable := rfl

end modify

/-! ## loop device の volume -/

/-- `devno & ~LOOPDEV_MASK`（32 bit の `uint`）。 -/
def loopdevnoOf (devno : Nat) : Nat := devno &&& (0xFFFFFFFF ^^^ LOOPDEV_MASK)

/-- `getlloopdevi`。loop device の slot が持つ backing file の inode。 -/
def getlloopdevi (loopdevtable : Nat → Loopdev) (devno : Nat) : Except Stop (Option Nat) :=
  if NLOOPDEV ≤ loopdevnoOf devno then .error (.panic "[getloopdevi] invalid loop device number")
  else .ok (loopdevtable (loopdevnoOf devno)).ip

/--
device `dev` の inode を置く volume。loop device なら `loopdev_read` が `getlloopdevi` の
inode を `ilock` して読むので、null か参照のない slot では "ilock" で panic する。
-/
def Fs.volOf (fs : Fs) (dev : Nat) : Except Stop Vol :=
  if isloopdev dev then do
    let some ip ← getlloopdevi fs.loopdevtable dev | .error (.panic "ilock")
    let b := fs.icache ip
    if b.ref < 1 then .error (.panic "ilock")
    else if b.locked then .error .hang
    else pure (.image b.dev b.inum)
  else pure (.dev dev)

/-- device `dev` の inode `inum` を disk から読む。 -/
def Fs.readDinode (fs : Fs) (dev inum : Nat) : Except Stop Dinode := do
  let v ← fs.volOf dev
  pure (fs.disk v inum)

/-- device `dev` の inode `inum` を disk に書く（`iupdate`）。 -/
def Fs.writeDinode (fs : Fs) (dev inum : Nat) (d : Dinode) : Except Stop Fs := do
  let v ← fs.volOf dev
  pure { fs with disk := Function.update fs.disk v (Function.update (fs.disk v) inum d) }

theorem Fs.writeDinode_ok {fs fs' : Fs} {dev inum : Nat} {d : Dinode}
    (h : fs.writeDinode dev inum d = .ok fs') :
    fs'.icache = fs.icache ∧ fs'.loopdevtable = fs.loopdevtable := by
  unfold Fs.writeDinode at h
  cases hv : fs.volOf dev with
  | error e => simp [hv] at h
  | ok v =>
    simp only [hv, bind, Except.bind, pure, Except.pure, Except.ok.injEq] at h
    subst h
    exact ⟨rfl, rfl⟩

/-! ## 参照を増やす -/

/-- `iget` の一つ目の探索：同じ inode を持ち参照のある slot。 -/
def cachedSlot (fs : Fs) (dev inum : Nat) : Option Nat :=
  (List.range NINODE).find? fun i =>
    decide (0 < (fs.icache i).ref) && (fs.icache i).dev == dev && (fs.icache i).inum == inum

/-- `iget` の二つ目の探索：参照のない最初の slot。 -/
def emptySlot (fs : Fs) : Option Nat :=
  (List.range NINODE).find? fun i => (fs.icache i).ref == 0

/-- `iget`。返す slot は参照を一つ増やす。ロックせず、disk からも読まない。 -/
def iget (fs : Fs) (dev inum : Nat) : Except Stop (Fs × Nat) :=
  match cachedSlot fs dev inum with
  | some i => .ok (fs.modify i fun ip => { ip with ref := ip.ref + 1 }, i)
  | none =>
    match emptySlot fs with
    | some i =>
      .ok (fs.modify i fun ip => { ip with dev := dev, inum := inum, ref := 1, valid := false }, i)
    | none => .error (.panic "iget: no inodes")

/-- `idup`。 -/
def idup (fs : Fs) (ip : Nat) : Fs :=
  fs.modify ip fun i => { i with ref := i.ref + 1 }

/-! ## ロックと参照を減らす -/

/-- `ilock`。ロックを取り、有効でなければ disk の inode を読み込む。 -/
def ilock (fs : Fs) (ip : Nat) : Except Stop Fs :=
  let i := fs.icache ip
  if i.ref < 1 then .error (.panic "ilock")
  else if i.locked then .error .hang
  else
    let fs := fs.modify ip fun i => { i with locked := true }
    if i.valid then .ok fs
    else do
      let d ← fs.readDinode i.dev i.inum
      if d.type = 0 then .error (.panic "ilock: no type")
      else .ok (fs.modify ip fun i => { i with type := d.type, nlink := d.nlink, valid := true })

/-- `iunlock`。ロックを持っていなければ panic する。 -/
def iunlock (fs : Fs) (ip : Nat) : Except Stop Fs :=
  if !(fs.icache ip).locked || (fs.icache ip).ref < 1 then .error (.panic "iunlock")
  else .ok (fs.modify ip fun i => { i with locked := false })

/-- `iput` の前半：有効で `nlink = 0` の inode の最後の参照なら、中身を捨てて（`itrunc`）
`type = 0` を disk に書き（`iupdate`）、slot を無効にする。 -/
def iputFree (fs : Fs) (ip : Nat) : Except Stop Fs :=
  let i := fs.icache ip
  if i.valid && i.nlink == 0 && i.ref == 1 then do
    let fs ← fs.writeDinode i.dev i.inum ⟨0, 0, []⟩
    pure (fs.modify ip fun i => { i with type := 0, valid := false })
  else pure fs

/-- `iput` の後半：参照を一つ減らす。0 になった slot は欄を消す。 -/
def iputDrop (fs : Fs) (ip : Nat) : Fs :=
  fs.modify ip fun i =>
    if i.ref - 1 = 0 then { i with ref := 0, type := 0, nlink := 0 } else { i with ref := i.ref - 1 }

/-- `iput`。はじめにロックを取り、解放の後で放す。 -/
def iput (fs : Fs) (ip : Nat) : Except Stop Fs :=
  if (fs.icache ip).locked then .error .hang
  else do
    let fs ← iputFree fs ip
    pure (iputDrop fs ip)

/-- `iunlockput`。 -/
def iunlockput (fs : Fs) (ip : Nat) : Except Stop Fs := do
  let fs ← iunlock fs ip
  iput fs ip

/-! ## 各操作が変えるもの

icache のうち、参照の数 `Fs.refs` と各 slot の inode `Fs.keys` を見る。ロックと読み込みは
どちらも変えない。参照は `iget` と `idup` が一つ増やし、`iput` が一つ減らす。
増減は `Pi.single` で書くので、呼び出しの列の増減は `abel` で足し合わせられる。
`(dev, inum)` は `iget` が空き slot に入れるときにしか変わらない。どの操作も
`loopdevtable` を変えない。
-/

/-- 各 slot の参照の数。 -/
def Fs.refs (fs : Fs) (j : Nat) : Int := (fs.icache j).ref

/-- 各 slot が持つ inode の `(dev, inum)`。 -/
def Fs.keys (fs : Fs) (j : Nat) : Nat × Nat := ((fs.icache j).dev, (fs.icache j).inum)

section spec

variable {fs fs' : Fs} {dev inum ip r : Nat}

theorem Fs.refs_modify (fs : Fs) (i : Nat) (f : Inode → Inode) :
    (fs.modify i f).refs = Function.update fs.refs i (f (fs.icache i)).ref := by
  funext j
  by_cases hj : j = i
  · subst hj; simp [Fs.refs]
  · simp [Fs.refs, hj]

theorem Fs.keys_modify (fs : Fs) (i : Nat) (f : Inode → Inode) :
    (fs.modify i f).keys = Function.update fs.keys i ((f (fs.icache i)).dev, (f (fs.icache i)).inum) := by
  funext j
  by_cases hj : j = i
  · subst hj; simp [Fs.keys]
  · simp [Fs.keys, hj]

/-- 参照を `c` だけ変える書き換え。 -/
theorem Fs.refs_modify_add (fs : Fs) (i : Nat) (f : Inode → Inode) (c : Int)
    (h : (f (fs.icache i)).ref = (fs.icache i).ref + c) :
    (fs.modify i f).refs = fs.refs + Pi.single i c := by
  funext j
  by_cases hj : j = i
  · subst hj; simp [Fs.refs, h]
  · simp [Fs.refs, hj]

/-- 参照を変えない書き換え。 -/
theorem Fs.refs_modify_of {i : Nat} {f : Inode → Inode} (h : ∀ x, (f x).ref = x.ref) :
    (fs.modify i f).refs = fs.refs := by
  rw [Fs.refs_modify, h, Function.update_eq_self_iff]
  rfl

/-- `(dev, inum)` を変えない書き換え。 -/
theorem Fs.keys_modify_of {i : Nat} {f : Inode → Inode} (h : ∀ x, (f x).dev = x.dev ∧ (f x).inum = x.inum) :
    (fs.modify i f).keys = fs.keys := by
  rw [Fs.keys_modify, (h _).1, (h _).2, Function.update_eq_self_iff]
  rfl

theorem Fs.dev_of_keys {fs : Fs} {x : Nat} {loc : Nat × Nat} (h : fs.keys x = loc) :
    (fs.icache x).dev = loc.1 :=
  congrArg Prod.fst h

theorem cachedSlot_spec (h : cachedSlot fs dev inum = some r) :
    r < NINODE ∧ 0 < (fs.icache r).ref ∧ (fs.icache r).dev = dev ∧ (fs.icache r).inum = inum := by
  have hr := List.mem_range.mp (List.mem_of_find?_eq_some h)
  have hp := List.find?_some h
  simp only [Bool.and_eq_true, decide_eq_true_eq, beq_iff_eq] at hp
  exact ⟨hr, hp.1.1, hp.1.2, hp.2⟩

theorem emptySlot_spec (h : emptySlot fs = some r) : r < NINODE ∧ (fs.icache r).ref = 0 := by
  have hr := List.mem_range.mp (List.mem_of_find?_eq_some h)
  have hp := List.find?_some h
  simp only [beq_iff_eq] at hp
  exact ⟨hr, hp⟩

/-- `iget` の成功は二通り：参照のある同じ inode の slot か、参照のない slot の再利用。 -/
theorem iget_cases (h : iget fs dev inum = .ok (fs', r)) :
    (cachedSlot fs dev inum = some r ∧ fs' = fs.modify r fun ip => { ip with ref := ip.ref + 1 }) ∨
    (cachedSlot fs dev inum = none ∧ emptySlot fs = some r ∧
      fs' = fs.modify r fun ip => { ip with dev := dev, inum := inum, ref := 1, valid := false }) := by
  unfold iget at h
  split at h
  · rename_i i hi
    cases h
    exact .inl ⟨hi, rfl⟩
  · rename_i hc
    split at h
    · rename_i i hi
      cases h
      exact .inr ⟨hc, hi, rfl⟩
    · cases h

/-- `iget` が返す slot は求めた inode を持ち、参照がちょうど一つ増える。 -/
theorem iget_spec (h : iget fs dev inum = .ok (fs', r)) :
    r < NINODE ∧ fs'.refs = fs.refs + Pi.single r 1 ∧
      fs'.keys = Function.update fs.keys r (dev, inum) ∧
      fs'.disk = fs.disk ∧ fs'.loopdevtable = fs.loopdevtable := by
  rcases iget_cases h with ⟨hc, rfl⟩ | ⟨-, he, rfl⟩
  · obtain ⟨hr, -, hd, hi⟩ := cachedSlot_spec hc
    refine ⟨hr, Fs.refs_modify_add _ _ _ _ rfl, ?_, rfl, rfl⟩
    -- 同じ inode を持つ slot なので、`(dev, inum)` はもとのまま
    rw [Fs.keys_modify]
    simp only [hd, hi]
  · obtain ⟨hr, h0⟩ := emptySlot_spec he
    refine ⟨hr, Fs.refs_modify_add _ _ _ _ (by simp [h0]), Fs.keys_modify _ _ _, rfl, rfl⟩

/-- `iget` の後、返した slot の参照は正である。 -/
theorem iget_ref_pos (h : iget fs dev inum = .ok (fs', r)) : 0 < (fs'.icache r).ref := by
  rcases iget_cases h with ⟨hc, rfl⟩ | ⟨-, -, rfl⟩
  · have := (cachedSlot_spec hc).2.1
    simp only [Fs.modify_icache_self]
    omega
  · simp

theorem idup_refs : (idup fs ip).refs = fs.refs + Pi.single ip 1 :=
  Fs.refs_modify_add _ _ _ _ rfl

theorem idup_keys : (idup fs ip).keys = fs.keys := Fs.keys_modify_of fun _ => ⟨rfl, rfl⟩

@[simp] theorem idup_disk : (idup fs ip).disk = fs.disk := rfl

@[simp] theorem idup_loopdevtable : (idup fs ip).loopdevtable = fs.loopdevtable := rfl

/-- `iunlock` はロックを持つ inode のロックを放すだけである。 -/
theorem iunlock_cases (h : iunlock fs ip = .ok fs') :
    (fs.icache ip).locked = true ∧ 1 ≤ (fs.icache ip).ref ∧
      fs' = fs.modify ip fun i => { i with locked := false } := by
  unfold iunlock at h
  split at h
  · cases h
  · rename_i hl
    simp only [Bool.or_eq_true, Bool.not_eq_eq_eq_not, Bool.not_true, decide_eq_true_eq, not_or,
      Bool.not_eq_false] at hl
    cases h
    exact ⟨hl.1, by omega, rfl⟩

theorem iunlock_spec (h : iunlock fs ip = .ok fs') :
    fs'.refs = fs.refs ∧ fs'.keys = fs.keys ∧ fs'.disk = fs.disk ∧ fs'.loopdevtable = fs.loopdevtable := by
  obtain ⟨-, -, rfl⟩ := iunlock_cases h
  exact ⟨Fs.refs_modify_of fun _ => rfl, Fs.keys_modify_of fun _ => ⟨rfl, rfl⟩, rfl, rfl⟩

/-- `ilock` はロックを取り、有効でなければ disk の inode を読み込む。 -/
theorem ilock_cases (h : ilock fs ip = .ok fs') :
    1 ≤ (fs.icache ip).ref ∧ (fs.icache ip).locked = false ∧
    (((fs.icache ip).valid = true ∧ fs' = fs.modify ip fun i => { i with locked := true }) ∨
     ((fs.icache ip).valid = false ∧
      ∃ d, (fs.modify ip fun i => { i with locked := true }).readDinode (fs.icache ip).dev
          (fs.icache ip).inum = .ok d ∧
        d.type ≠ 0 ∧ fs' = (fs.modify ip fun i => { i with locked := true }).modify ip
          fun i => { i with type := d.type, nlink := d.nlink, valid := true })) := by
  unfold ilock at h
  dsimp only at h
  split at h
  · cases h
  · rename_i hr
    split at h
    · cases h
    · rename_i hl
      refine ⟨by omega, by simpa using hl, ?_⟩
      split at h
      · rename_i hv
        cases h
        exact .inl ⟨hv, rfl⟩
      · rename_i hv
        obtain ⟨d, hd, h⟩ := bind_eq_ok.mp h
        split at h
        · cases h
        · rename_i ht
          cases h
          exact .inr ⟨by simpa using hv, d, hd, ht, rfl⟩

/-- `ilock` は参照も `(dev, inum)` も変えない。 -/
theorem ilock_spec (h : ilock fs ip = .ok fs') :
    fs'.refs = fs.refs ∧ fs'.keys = fs.keys ∧ fs'.disk = fs.disk ∧ fs'.loopdevtable = fs.loopdevtable := by
  obtain ⟨-, -, ⟨-, rfl⟩ | ⟨-, d, -, -, rfl⟩⟩ := ilock_cases h
  · exact ⟨Fs.refs_modify_of fun _ => rfl, Fs.keys_modify_of fun _ => ⟨rfl, rfl⟩, rfl, rfl⟩
  · refine ⟨?_, ?_, rfl, rfl⟩
    · rw [Fs.refs_modify, Fs.refs_modify]
      simp [Fs.refs]
    · rw [Fs.keys_modify, Fs.keys_modify]
      simp [Fs.keys]

theorem iputFree_spec (h : iputFree fs ip = .ok fs') :
    fs'.refs = fs.refs ∧ fs'.keys = fs.keys ∧ fs'.loopdevtable = fs.loopdevtable := by
  unfold iputFree at h
  dsimp only at h
  split at h
  · obtain ⟨fs₁, h₁, h⟩ := bind_eq_ok.mp h
    obtain ⟨hic, hlt⟩ := Fs.writeDinode_ok h₁
    cases h
    refine ⟨?_, ?_, hlt⟩
    -- `writeDinode` は icache に触れないので、書き換えたのは slot `ip` の `type` と `valid` だけ
    · funext j
      by_cases hj : j = ip
      · subst hj; simp [Fs.refs, hic]
      · simp [Fs.refs, hj, hic]
    · funext j
      by_cases hj : j = ip
      · subst hj; simp [Fs.keys, hic]
      · simp [Fs.keys, hj, hic]
  · cases h
    exact ⟨rfl, rfl, rfl⟩

theorem iputDrop_refs (fs : Fs) (ip : Nat) : (iputDrop fs ip).refs = fs.refs - Pi.single ip 1 := by
  have h : (iputDrop fs ip).refs = fs.refs + Pi.single ip (-1) := by
    apply Fs.refs_modify_add
    -- 0 になったときに書く `ref := 0` も、一つ減らした値である
    split <;> (dsimp only; omega)
  rw [h]
  funext j
  by_cases hj : j = ip
  · subst hj; simp [sub_eq_add_neg]
  · simp [hj]

theorem iputDrop_keys (fs : Fs) (ip : Nat) : (iputDrop fs ip).keys = fs.keys := by
  rw [iputDrop, Fs.keys_modify_of]
  intro x
  split <;> exact ⟨rfl, rfl⟩

/-- `iput` は参照をちょうど一つ減らし、どの slot の `(dev, inum)` も変えない。 -/
theorem iput_spec (h : iput fs ip = .ok fs') :
    fs'.refs = fs.refs - Pi.single ip 1 ∧ fs'.keys = fs.keys ∧
      fs'.loopdevtable = fs.loopdevtable := by
  unfold iput at h
  split at h
  · cases h
  · obtain ⟨fs₁, hf, h⟩ := bind_eq_ok.mp h
    cases h
    obtain ⟨hr, hk, hlt⟩ := iputFree_spec hf
    refine ⟨?_, by rw [iputDrop_keys, hk], hlt⟩
    rw [iputDrop_refs, hr]

/-- `iunlockput` は `iput` と同じく参照を一つ減らす。 -/
theorem iunlockput_spec (h : iunlockput fs ip = .ok fs') :
    fs'.refs = fs.refs - Pi.single ip 1 ∧ fs'.keys = fs.keys ∧
      fs'.loopdevtable = fs.loopdevtable := by
  obtain ⟨fs₁, h₁, h₂⟩ := bind_eq_ok.mp h
  obtain ⟨hr, hk, -, hlt⟩ := iunlock_spec h₁
  obtain ⟨hr', hk', hlt'⟩ := iput_spec h₂
  exact ⟨by rw [hr', hr], by rw [hk', hk], by rw [hlt', hlt]⟩

end spec

end Xv6
