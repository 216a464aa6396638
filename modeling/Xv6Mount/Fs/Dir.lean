import Mathlib.Algebra.BigOperators.Group.Finset.Basic
import Xv6Mount.Fs.Path
import Xv6Mount.Fs.Balloc

/-!
# directory と link の数（`sysfile.c` の `create`・`sys_link`・`sys_unlink`、`fs.c` の `dirlink`）

一つの device の disk の上の inode の表 `Nat → Dinode` を、`open(O_CREATE)`・`mkdir`・`mknod`・
`link`・`unlink` がどう変えるかを書く。icache は disk の写しで（`iupdate` は write-through）、
ロックと参照は呼び出しの中でしか持たないので、呼び出しを disk の上の一段として書く。
path の解決は、`nameiparent` と `namei` が返した inode を引数として受け取る。
`unlink` の最後の `iput` が inode を解放するかは、`iput` の `ip->ref == 1` の検査、つまり
呼び出しの外に参照（開いた file、process の cwd、mount point）があるかで決まる（`DirFs.held`）。

* `linkCount t i` — 使われている directory の、`.` 以外で `i` を指す entry の数
* `DirInv` — 使われている inode の `nlink` は `linkCount` に等しく、directory は `.` と `..` で
  始まり、名前は重ならず、`..` は親を指す
* `dir_tree_consistent` — mkfs の image からの呼び出しの列は `DirInv` を保つ。参照されているのは
  init process の cwd の root directory と、`open(O_CREATE)` で開いた file だけである
* `unlink_mount_point_breaks_nlink` — mount point や cwd として参照されている空の directory を
  `unlink` すると、`iput` はそれを解放せず、その `..` が親を指したまま親の `nlink` が減る
-/

namespace Xv6

open Infra

/-! ## `dirlink` と `isdirempty` -/

/-- `sizeof(struct dirent)`。 -/
def direntSize : Nat := 2 + DIRSIZ

/--
`dirlink`。同じ名前の entry があれば `-1`（`none`）。なければ最初の空き entry に、なければ末尾に
書く。名前は `strncpy` で先頭 `DIRSIZ` 文字になる。末尾に書いて `MAXFILE` block を越えると
`writei` が失敗し panic する。
-/
def dirlink (ents : List Dirent) (name : List Char) (inum : Nat) : Except Stop (Option (List Dirent)) :=
  match findDirent ents name with
  | some _ => .ok none
  | none =>
    let de : Dirent := ⟨inum, name.take DIRSIZ⟩
    match ents.findIdx? (·.inum == 0) with
    | some k => .ok (some (ents.set k de))
    | none =>
      if MAXFILE * BSIZE < (ents.length + 1) * direntSize then .error (.panic "dirlink")
      else .ok (some (ents ++ [de]))

/-- `isdirempty`。`.` と `..` の後に使われている entry がない。 -/
def isdirempty (ents : List Dirent) : Bool :=
  (ents.drop 2).all (·.inum == 0)

/-! ## 呼び出し -/

/--
一つの device の inode の表と、呼び出しの外から参照されている inode：開いた file、process の cwd、
`sys_mount` が `idup(mnti)` で持ち続ける mount point。
-/
structure DirFs where
  disk : Nat → Dinode
  held : Nat → Bool

/-- 呼び出しの外から `i` を参照し続ける（`open` の file、`sys_chdir` の cwd、`sys_mount` の `mnti`）。 -/
def DirFs.hold (s : DirFs) (i : Nat) : DirFs :=
  { s with held := Function.update s.held i true }

/-- inode `i` を書き換える（`iupdate`）。 -/
def DirFs.set (s : DirFs) (i : Nat) (d : Dinode) : DirFs :=
  { s with disk := Function.update s.disk i d }

/-- `ialloc`。番号 1 から `ninodes - 1` までで `type = 0` の最初の inode を 0 で埋めて `type` を書く。 -/
def ialloc (s : DirFs) (type : Nat) : Except Stop (DirFs × Nat) :=
  match (List.range' 1 (NINODES - 1)).find? (fun i => (s.disk i).type == 0) with
  | some i => .ok (s.set i ⟨type, 0, []⟩, i)
  | none => .error (.panic "ialloc: no inodes")

/-- `ilock` が disk から読んだ inode。`type = 0` なら panic する。 -/
def ilockDisk (s : DirFs) (i : Nat) : Except Stop Dinode :=
  if (s.disk i).type = 0 then .error (.panic "ilock: no type") else .ok (s.disk i)

/--
`iput` が inode を解放する場合。`ilock` の後で `nlink` が 0 になっていて、呼び出しの外の参照が
なければ（`ip->ref == 1`）、`itrunc` して `type = 0` を書く。
-/
def iputDisk (s : DirFs) (i : Nat) : DirFs :=
  if (s.disk i).nlink = 0 ∧ s.held i = false then s.set i ⟨0, 0, []⟩ else s

/-- `create` が directory を作るときの続き。親の `nlink` を `..` の分だけ増やし、`.` と `..` を書く。 -/
def createDots (s : DirFs) (dp ip : Nat) : Except Stop DirFs := do
  let s := s.set dp { s.disk dp with nlink := (s.disk dp).nlink + 1 }
  let some ents ← dirlink (s.disk ip).dirents ['.'] ip | throw (.panic "create dots")
  let s := s.set ip { s.disk ip with dirents := ents }
  let some ents ← dirlink (s.disk ip).dirents ['.', '.'] dp | throw (.panic "create dots")
  pure (s.set ip { s.disk ip with dirents := ents })

/--
`create`。`dp` は `nameiparent` が返した directory。同じ名前があれば、両方 `T_FILE` のときだけ
それを返す。なければ `ialloc` し、`nlink = 1` を書き、directory なら `createDots`、親に entry を
書く。
-/
def create (s : DirFs) (dp : Nat) (name : List Char) (type : Nat) : Except Stop (DirFs × Option Nat) := do
  let d ← ilockDisk s dp
  -- `dirlookup`
  if d.type != T_DIR then throw (.panic "dirlookup not DIR")
  match findDirent d.dirents name with
  | some de =>
    let s := iputDisk s dp
    let ip ← ilockDisk s de.inum
    if type = T_FILE ∧ ip.type = T_FILE then pure (s, some de.inum) else pure (iputDisk s de.inum, none)
  | none =>
    let (s, ip) ← ialloc s type
    let s := s.set ip { s.disk ip with nlink := 1 }
    let s ← if type = T_DIR then createDots s dp ip else pure s
    let some ents ← dirlink (s.disk dp).dirents name ip | throw (.panic "create: dirlink")
    pure (iputDisk (s.set dp { s.disk dp with dirents := ents }) dp, some ip)

/-- `nameiparent(new)` が `sys_link` に返すもの。 -/
inductive LinkParent
  /-- null。 -/
  | none
  /-- 別の device の directory（`dp->dev != ip->dev`）。 -/
  | otherDev
  /-- 同じ device の inode `dp`。 -/
  | dir (dp : Nat)

/--
`sys_link`。`ip` は `namei(old)` が返した inode。directory なら `-1`。`nlink` を先に増やし、
親が見つからないか別の device か `dirlink` が失敗すれば戻して `-1`。`dirlink` の中で見つけた
inode の `iput` は書かない（名前のある inode の `nlink` は正である）。
-/
def sys_link (s : DirFs) (ip : Option Nat) (parent : LinkParent) (name : List Char) :
    Except Stop (DirFs × Int) := do
  let some ip := ip | pure (s, -1)
  let d ← ilockDisk s ip
  if d.type = T_DIR then pure (iputDisk s ip, -1)
  else
    let s := s.set ip { d with nlink := d.nlink + 1 }
    -- `bad:` は `nlink` を一つ戻して書き、`iunlockput(ip)` する
    let bad (s : DirFs) : DirFs := iputDisk (s.set ip { s.disk ip with nlink := (s.disk ip).nlink - 1 }) ip
    match parent with
    | .none => pure (bad s, -1)
    | .otherDev => pure (bad s, -1)
    | .dir dp =>
      let dd ← ilockDisk s dp
      if dd.type != T_DIR then throw (.panic "dirlookup not DIR")
      match ← dirlink dd.dirents name ip with
      | none => pure (bad (iputDisk s dp), -1)
      | some ents =>
        let s := iputDisk (s.set dp { dd with dirents := ents }) dp
        pure (iputDisk s ip, 0)

/--
`sys_unlink`。`dp` は `nameiparent` が返した directory。`.` と `..` は消せない。entry を 0 で
埋め、directory なら親の `nlink` を減らして `iunlockput(dp)` し、`ip` の `nlink` を減らして
`iunlockput(ip)` する。
-/
def sys_unlink (s : DirFs) (dp : Nat) (name : List Char) : Except Stop (DirFs × Int) := do
  let d ← ilockDisk s dp
  if namecmp name ['.'] || namecmp name ['.', '.'] then pure (iputDisk s dp, -1)
  else
    if d.type != T_DIR then throw (.panic "dirlookup not DIR")
    match d.dirents.findIdx? (fun de => de.inum != 0 && namecmp name de.name) with
    | none => pure (iputDisk s dp, -1)
    | some k =>
      let ip := (d.dirents.getD k ⟨0, []⟩).inum
      -- `dp` のロックを持ったまま `ilock(ip)` する
      if ip = dp then throw .hang
      let i ← ilockDisk s ip
      if i.nlink < 1 then throw (.panic "unlink: nlink < 1")
      if i.type = T_DIR ∧ !isdirempty i.dirents then pure (iputDisk (iputDisk s ip) dp, -1)
      else
        let s := s.set dp { d with dirents := d.dirents.set k ⟨0, []⟩ }
        let s := if i.type = T_DIR then s.set dp { s.disk dp with nlink := (s.disk dp).nlink - 1 } else s
        let s := iputDisk s dp
        let s := s.set ip { i with nlink := i.nlink - 1 }
        pure (iputDisk s ip, 0)

/-- `sys_mkdir`。 -/
def sys_mkdir (s : DirFs) (dp : Option Nat) (name : List Char) : Except Stop (DirFs × Int) :=
  match dp with
  | none => pure (s, -1)
  | some dp => do
    let (s, ip) ← create s dp name T_DIR
    match ip with
    | none => pure (s, -1)
    | some ip => pure (iputDisk s ip, 0)

/-- `sys_mknod`。 -/
def sys_mknod (s : DirFs) (dp : Option Nat) (name : List Char) : Except Stop (DirFs × Int) :=
  match dp with
  | none => pure (s, -1)
  | some dp => do
    let (s, ip) ← create s dp name T_DEV
    match ip with
    | none => pure (s, -1)
    | some ip => pure (iputDisk s ip, 0)

/--
`sys_open` の `O_CREATE`。`keep` は `filealloc` と `fdalloc` が成功して file が開いたままになるか。
-/
def sys_open_create (s : DirFs) (dp : Option Nat) (name : List Char) (keep : Bool) : Except Stop (DirFs × Int) :=
  match dp with
  | none => pure (s, -1)
  | some dp => do
    let (s, ip) ← create s dp name T_FILE
    match ip with
    | none => pure (s, -1)
    | some ip =>
      if keep then pure (s.hold ip, 0)
      else pure (iputDisk s ip, -1)

/-- 呼び出し。path の解決の結果を引数に持つ。 -/
inductive DirCall
  | openCreate (dp : Option Nat) (name : List Char) (keep : Bool)
  | mkdir (dp : Option Nat) (name : List Char)
  | mknod (dp : Option Nat) (name : List Char)
  | link (ip : Option Nat) (parent : LinkParent) (name : List Char)
  | unlink (dp : Nat) (name : List Char)

/-! ## mkfs の image -/

/-- mkfs は名前の先頭の `_` を一つ落とす（`_rm` などの実行 file）。 -/
def mkfsName : List Char → List Char
  | '_' :: n => n
  | n => n

/-- mkfs の `for` が root directory に `iappend` する entry。inode は `n` 番から順に `ialloc` する。 -/
def mkfsEntries (n : Nat) : List (List Char) → List Dirent
  | [] => []
  | f :: fs => ⟨n, (mkfsName f).take DIRSIZ⟩ :: mkfsEntries (n + 1) fs

/--
mkfs が書く inode の表。root directory（`ROOTINO`）は `.` と `..` と各 file の entry を持ち、
file は 2 番から順に `T_FILE` で、どれも `nlink = 1`。開いた file は無く、参照されているのは
init process の cwd の root directory だけである。
-/
def mkfsDir (files : List (List Char)) : DirFs where
  disk i :=
    if i = ROOTINO then
      ⟨T_DIR, 1, ⟨ROOTINO, ['.']⟩ :: ⟨ROOTINO, ['.', '.']⟩ :: mkfsEntries 2 files⟩
    else if 2 ≤ i ∧ i < files.length + 2 then ⟨T_FILE, 1, []⟩
    else ⟨0, 0, []⟩
  held i := i == ROOTINO

/-! ## 各関数の仕様 -/

@[simp] theorem DirFs.set_disk (s : DirFs) (i : Nat) (d : Dinode) :
    (s.set i d).disk = Function.update s.disk i d := rfl

@[simp] theorem DirFs.hold_disk (s : DirFs) (i : Nat) : (s.hold i).disk = s.disk := rfl

@[simp] theorem DirFs.hold_held (s : DirFs) (i : Nat) :
    (s.hold i).held = Function.update s.held i true := rfl

@[simp] theorem DirFs.set_held (s : DirFs) (i : Nat) (d : Dinode) :
    (s.set i d).held = s.held := rfl

theorem ilockDisk_eq_ok {s : DirFs} {i : Nat} {d : Dinode} :
    ilockDisk s i = .ok d ↔ s.disk i = d ∧ (s.disk i).type ≠ 0 := by
  unfold ilockDisk
  by_cases h : (s.disk i).type = 0 <;> simp [h]

/-- `nlink` が 0 なら呼び出しの外の参照がある inode には、`iput` は何もしない。 -/
theorem iputDisk_of_orphan {s : DirFs} {i : Nat} (h : (s.disk i).nlink = 0 → s.held i = true) :
    iputDisk s i = s := by
  unfold iputDisk
  by_cases hn : (s.disk i).nlink = 0
  · simp [h hn]
  · simp [hn]

theorem iputDisk_disk_self (s : DirFs) (i : Nat) :
    (iputDisk s i).disk i =
      if (s.disk i).nlink = 0 ∧ s.held i = false then ⟨0, 0, []⟩ else s.disk i := by
  unfold iputDisk
  split <;> simp

theorem iputDisk_disk_of_ne (s : DirFs) {i j : Nat} (h : j ≠ i) : (iputDisk s i).disk j = s.disk j := by
  unfold iputDisk
  split <;> simp [Function.update_of_ne h]

@[simp] theorem iputDisk_held (s : DirFs) (i : Nat) : (iputDisk s i).held = s.held := by
  unfold iputDisk
  split <;> rfl

theorem ialloc_eq_ok {s s' : DirFs} {type ip : Nat} (h : ialloc s type = .ok (s', ip)) :
    (s.disk ip).type = 0 ∧ 0 < ip ∧ ip < NINODES ∧ s' = s.set ip ⟨type, 0, []⟩ := by
  unfold ialloc at h
  split at h
  · next i hi =>
    cases h
    have hmem := List.mem_of_find?_eq_some hi
    have hp := List.find?_some hi
    simp only [List.mem_range'_1] at hmem
    simp only [beq_iff_eq] at hp
    exact ⟨hp, by omega, by unfold NINODES at hmem ⊢; omega, rfl⟩
  · cases h

/--
`dirlink` が書いた entry の列は、空き entry 一つ（`gap`）を新しい entry に置き換えたものか、
末尾に足したもの（`gap = []`）である。同じ名前の使われている entry はなかった。
-/
theorem dirlink_eq_some {ents ents' : List Dirent} {name : List Char} {inum : Nat}
    (h : dirlink ents name inum = .ok (some ents')) :
    findDirent ents name = none ∧ ∃ pre gap post, ents = pre ++ gap ++ post ∧
      (∀ e ∈ gap, e.inum = 0) ∧ (gap = [] → post = []) ∧
      ents' = pre ++ [⟨inum, name.take DIRSIZ⟩] ++ post := by
  unfold dirlink at h
  split at h
  · cases h
  · next hf =>
    refine ⟨hf, ?_⟩
    split at h
    · next k hk =>
      cases h
      obtain ⟨hk', hzero, -⟩ := List.findIdx?_eq_some_iff_getElem.1 hk
      refine ⟨ents.take k, [ents[k]], ents.drop (k + 1), ?_, ?_, by simp, ?_⟩
      · rw [List.append_assoc, List.singleton_append, List.getElem_cons_drop, List.take_append_drop]
      · simpa using hzero
      · rw [List.set_eq_take_append_cons_drop, if_pos hk']
        simp
    · split at h
      · cases h
      · cases h
        exact ⟨ents, [], [], by simp, by simp, fun _ => rfl, by simp⟩

/-- `.`・`..` で始まる directory では、`dirlink` が書き換えるのはその二つより後ろである。 -/
theorem dirlink_eq_some_dots {a b : Dirent} {rest ents' : List Dirent} {name : List Char}
    {inum : Nat} (ha : a.inum ≠ 0) (hb : b.inum ≠ 0)
    (h : dirlink (a :: b :: rest) name inum = .ok (some ents')) :
    findDirent (a :: b :: rest) name = none ∧ ∃ pre gap post, rest = pre ++ gap ++ post ∧
      (∀ e ∈ gap, e.inum = 0) ∧ ents' = a :: b :: (pre ++ [⟨inum, name.take DIRSIZ⟩] ++ post) := by
  obtain ⟨hf, pre, gap, post, hents, hgap, hpost, rfl⟩ := dirlink_eq_some h
  refine ⟨hf, ?_⟩
  rcases pre with _ | ⟨p, _ | ⟨q, pre⟩⟩
  · -- 空き entry は `.` ではありえず、末尾に足したなら列が空になる
    rcases gap with _ | ⟨g, gap⟩
    · simp [hpost rfl] at hents
    · simp only [List.nil_append, List.cons_append, List.cons.injEq] at hents
      exact absurd (hgap g (by simp)) (hents.1 ▸ ha)
  · rcases gap with _ | ⟨g, gap⟩
    · simp [hpost rfl] at hents
    · simp only [List.cons_append, List.nil_append, List.cons.injEq] at hents
      exact absurd (hgap g (by simp)) (hents.2.1 ▸ hb)
  · simp only [List.cons_append, List.cons.injEq] at hents
    obtain ⟨rfl, rfl, rfl⟩ := hents
    exact ⟨pre, gap, post, rfl, hgap, by simp⟩

@[simp] theorem DirFs.set_set (s : DirFs) (i : Nat) (a b : Dinode) : (s.set i a).set i b = s.set i b := by
  simp [DirFs.set]

@[simp] theorem DirFs.set_self (s : DirFs) (i : Nat) : s.set i (s.disk i) = s := by
  simp [DirFs.set]

theorem dirlink_nil (name : List Char) (inum : Nat) :
    dirlink [] name inum = .ok (some [⟨inum, name.take DIRSIZ⟩]) := by
  simp only [dirlink, findDirent, List.find?_nil, List.findIdx?_nil]
  rfl

theorem dirlink_dotdot {ip : Nat} (hip : ip ≠ 0) (dp : Nat) :
    dirlink [⟨ip, ['.']⟩] ['.', '.'] dp = .ok (some [⟨ip, ['.']⟩, ⟨dp, ['.', '.']⟩]) := by
  have hf : findDirent [⟨ip, ['.']⟩] ['.', '.'] = none := by
    simp [findDirent, namecmp, DIRSIZ]
  have hk : [(⟨ip, ['.']⟩ : Dirent)].findIdx? (·.inum == 0) = none := by
    simp [hip]
  simp only [dirlink, hf, hk]
  rfl

/-- `createDots` は、親の `nlink` を一つ増やし、空の `ip` に `.` と `..` を書く。 -/
theorem createDots_eq {s : DirFs} {dp ip : Nat} (hip : ip ≠ 0) (hne : ip ≠ dp)
    (hnil : (s.disk ip).dirents = []) :
    createDots s dp ip = .ok ⟨Function.update (Function.update s.disk dp
        { s.disk dp with nlink := (s.disk dp).nlink + 1 })
      ip { s.disk ip with dirents := [⟨ip, ['.']⟩, ⟨dp, ['.', '.']⟩] }, s.held⟩ := by
  have hdot : List.take DIRSIZ ['.'] = ['.'] := rfl
  simp [createDots, Function.update_of_ne hne, hnil, dirlink_nil, hdot, dirlink_dotdot hip, DirFs.set]

/--
`create` の成功。同じ名前があれば状態は変わらない。なければ空いた inode `ip` を使い、`dp` と `ip`
の二つだけを書き換えた状態 `S` に `iput(dp)` する。
-/
theorem create_eq_ok {s s' : DirFs} {dp : Nat} {name : List Char} {type : Nat} {r : Option Nat}
    (horph : ∀ i, (s.disk i).type ≠ 0 → (s.disk i).nlink = 0 → s.held i = true)
    (h : create s dp name type = .ok (s', r)) :
    (s.disk dp).type = T_DIR ∧
    ((∃ de, findDirent (s.disk dp).dirents name = some de ∧ s' = s ∧
        (r = none ∨ r = some de.inum ∧ type = T_FILE ∧ (s.disk de.inum).type = T_FILE)) ∨
     (∃ ip ents S, (s.disk ip).type = 0 ∧ 0 < ip ∧ ip < NINODES ∧
        dirlink (s.disk dp).dirents name ip = .ok (some ents) ∧ r = some ip ∧ s' = iputDisk S dp ∧
        S.disk dp = { s.disk dp with
          nlink := (s.disk dp).nlink + (if type = T_DIR then 1 else 0), dirents := ents } ∧
        S.disk ip = (if type = T_DIR then ⟨T_DIR, 1, [⟨ip, ['.']⟩, ⟨dp, ['.', '.']⟩]⟩
          else ⟨type, 1, []⟩) ∧
        (∀ j, j ≠ dp → j ≠ ip → S.disk j = s.disk j) ∧ S.held = s.held)) := by
  unfold create at h
  obtain ⟨d, hd, h⟩ := bind_eq_ok.1 h
  obtain ⟨rfl, hdt⟩ := ilockDisk_eq_ok.1 hd
  by_cases hdir : (s.disk dp).type = T_DIR
  swap
  · simp [hdir] at h
  refine ⟨hdir, ?_⟩
  simp only [hdir, bne_self_eq_false, Bool.false_eq_true, if_false] at h
  split at h
  · next de hde =>
    -- 同じ名前がある
    left
    rw [iputDisk_of_orphan (horph dp hdt)] at h
    obtain ⟨x, hx, h⟩ := bind_eq_ok.1 h
    obtain ⟨rfl, hxt⟩ := ilockDisk_eq_ok.1 hx
    refine ⟨de, hde, ?_⟩
    split at h
    · next hT => cases h; exact ⟨rfl, .inr ⟨rfl, hT.1, hT.2⟩⟩
    · cases h; exact ⟨iputDisk_of_orphan (horph _ hxt), .inl rfl⟩
  · next hnf =>
    right
    obtain ⟨⟨s₁, ip⟩, hal, h⟩ := bind_eq_ok.1 h
    obtain ⟨hfree, hpos, hlt, rfl⟩ := ialloc_eq_ok hal
    have hne : ip ≠ dp := by rintro rfl; exact hdt hfree
    simp only [] at h
    split at h
    · next hT =>
      rw [createDots_eq (by omega) hne (by simp), ok_bind] at h
      obtain ⟨x, hx, h⟩ := bind_eq_ok.1 h
      split at h
      · next ents =>
        cases h
        refine ⟨ip, ents, _, hfree, hpos, hlt, ?_, rfl, rfl, ?_, ?_, ?_, rfl⟩
        · simpa [Function.update_of_ne hne.symm] using hx
        · simp [hT, Function.update_of_ne hne.symm]
        · simp [hT, Function.update_of_ne hne]
        · intro j hj hj'
          simp [Function.update_of_ne hj, Function.update_of_ne hj']
      · cases h
    · next hT =>
      rw [pure_eq_ok, ok_bind] at h
      obtain ⟨x, hx, h⟩ := bind_eq_ok.1 h
      split at h
      · next ents =>
        cases h
        refine ⟨ip, ents, _, hfree, hpos, hlt, ?_, rfl, rfl, ?_, ?_, ?_, rfl⟩
        · simpa [Function.update_of_ne hne.symm] using hx
        · simp [hT, Function.update_of_ne hne.symm]
        · simp [hT, Function.update_of_ne hne]
        · intro j hj hj'
          simp [Function.update_of_ne hj, Function.update_of_ne hj']
      · cases h

/--
`sys_link` の成功。`-1` なら状態は変わらない（上げた `nlink` は戻る）。`0` なら `ip` は directory
でない inode で、同じ device の directory `dp` に entry を書き、`ip` の `nlink` を一つ増やした。
-/
theorem sys_link_eq_ok {s s' : DirFs} {ip : Option Nat} {parent : LinkParent} {name : List Char}
    {r : Int} (horph : ∀ i, (s.disk i).type ≠ 0 → (s.disk i).nlink = 0 → s.held i = true)
    (h : sys_link s ip parent name = .ok (s', r)) :
    (r = -1 ∧ s' = s) ∨
    (r = 0 ∧ ∃ i dp ents S, ip = some i ∧ parent = .dir dp ∧ (s.disk i).type ≠ 0 ∧
      (s.disk i).type ≠ T_DIR ∧ (s.disk dp).type = T_DIR ∧
      dirlink (s.disk dp).dirents name i = .ok (some ents) ∧ s' = iputDisk (iputDisk S dp) i ∧
      S.disk i = { s.disk i with nlink := (s.disk i).nlink + 1 } ∧
      S.disk dp = { s.disk dp with dirents := ents } ∧
      (∀ j, j ≠ dp → j ≠ i → S.disk j = s.disk j) ∧ S.held = s.held) := by
  unfold sys_link at h
  cases ip with
  | none => cases h; exact .inl ⟨rfl, rfl⟩
  | some i =>
    obtain ⟨d, hd, h⟩ := bind_eq_ok.1 h
    obtain ⟨rfl, hdt⟩ := ilockDisk_eq_ok.1 hd
    split at h
    · cases h; exact .inl ⟨rfl, iputDisk_of_orphan (horph i hdt)⟩
    · next hnd =>
      -- `bad:` は `nlink` を戻すので、`s` に戻る
      have hbad : iputDisk (((s.set i { s.disk i with nlink := (s.disk i).nlink + 1 }).set i
          { s.disk i with nlink := (s.disk i).nlink + 1 - 1 })) i = s := by
        simp only [DirFs.set_set, Nat.add_sub_cancel]
        rw [DirFs.set_self]
        exact iputDisk_of_orphan (horph i hdt)
      split at h
      · cases h; exact .inl ⟨rfl, by simpa using hbad⟩
      · cases h; exact .inl ⟨rfl, by simpa using hbad⟩
      · next _ dp _ =>
        obtain ⟨dd, hdd, h⟩ := bind_eq_ok.1 h
        obtain ⟨rfl, hddt⟩ := ilockDisk_eq_ok.1 hdd
        have hne : dp ≠ i := by
          rintro rfl
          simp [hnd] at h
        simp only [DirFs.set_disk, Function.update_of_ne hne] at h hddt
        by_cases hdir : (s.disk dp).type = T_DIR
        swap
        · simp [hdir] at h
        simp only [hdir, bne_self_eq_false, Bool.false_eq_true, if_false] at h
        obtain ⟨x, hx, h⟩ := bind_eq_ok.1 h
        split at h
        · -- 同じ名前がある
          cases h
          refine .inl ⟨rfl, ?_⟩
          have hput : iputDisk (s.set i { s.disk i with nlink := (s.disk i).nlink + 1 }) dp =
              s.set i { s.disk i with nlink := (s.disk i).nlink + 1 } :=
            iputDisk_of_orphan (by simpa [Function.update_of_ne hne] using horph dp hddt)
          rw [hput]
          simpa using hbad
        · next ents =>
          cases h
          refine .inr ⟨rfl, i, dp, ents, _, rfl, rfl, hdt, hnd, hdir, hx, rfl, ?_, ?_, ?_, rfl⟩
          · simp [Function.update_of_ne hne.symm]
          · simp [hdir]
          · intro j hj hj'
            simp [Function.update_of_ne hj, Function.update_of_ne hj']

/--
`sys_unlink` の成功。`-1` なら状態は変わらない。`0` なら `dp` の `.`・`..` 以外の名前の合う entry を
空きにし、`dp` と `ip` の `nlink` を減らして、`iput` する。
-/
theorem sys_unlink_eq_ok {s s' : DirFs} {dp : Nat} {name : List Char} {r : Int}
    (horph : ∀ i, (s.disk i).type ≠ 0 → (s.disk i).nlink = 0 → s.held i = true)
    (h : sys_unlink s dp name = .ok (s', r)) :
    (r = -1 ∧ s' = s) ∨
    (r = 0 ∧ ∃ pre e post, (s.disk dp).type = T_DIR ∧ (s.disk dp).dirents = pre ++ e :: post ∧
      e.inum ≠ 0 ∧ namecmp name e.name = true ∧ namecmp name ['.'] = false ∧
      namecmp name ['.', '.'] = false ∧ e.inum ≠ dp ∧ (s.disk e.inum).type ≠ 0 ∧
      1 ≤ (s.disk e.inum).nlink ∧
      ((s.disk e.inum).type = T_DIR → isdirempty (s.disk e.inum).dirents = true) ∧
      s' = iputDisk ((iputDisk (s.set dp { s.disk dp with
          nlink := (s.disk dp).nlink - (if (s.disk e.inum).type = T_DIR then 1 else 0),
          dirents := pre ++ ⟨0, []⟩ :: post }) dp).set e.inum
        { s.disk e.inum with nlink := (s.disk e.inum).nlink - 1 }) e.inum) := by
  unfold sys_unlink at h
  obtain ⟨d, hd, h⟩ := bind_eq_ok.1 h
  obtain ⟨rfl, hdt⟩ := ilockDisk_eq_ok.1 hd
  have hputdp : iputDisk s dp = s := iputDisk_of_orphan (horph dp hdt)
  split at h
  · cases h; exact .inl ⟨rfl, hputdp⟩
  · next hname =>
    by_cases hdir : (s.disk dp).type = T_DIR
    swap
    · simp [hdir] at h
    simp only [hdir, bne_self_eq_false, Bool.false_eq_true, if_false] at h
    split at h
    · cases h; exact .inl ⟨rfl, hputdp⟩
    · next k hk =>
      obtain ⟨hkl, hpk, -⟩ := List.findIdx?_eq_some_iff_getElem.1 hk
      have hget : (s.disk dp).dirents.getD k ⟨0, []⟩ = (s.disk dp).dirents[k] := by simp [hkl]
      have hsplit : (s.disk dp).dirents =
          (s.disk dp).dirents.take k ++ (s.disk dp).dirents[k] :: (s.disk dp).dirents.drop (k + 1) := by
        rw [List.getElem_cons_drop, List.take_append_drop]
      have hset : (s.disk dp).dirents.set k ⟨0, []⟩ =
          (s.disk dp).dirents.take k ++ ⟨0, []⟩ :: (s.disk dp).dirents.drop (k + 1) := by
        rw [List.set_eq_take_append_cons_drop, if_pos hkl]
      simp only [Bool.and_eq_true, bne_iff_ne] at hpk
      simp only [Bool.or_eq_true, not_or, Bool.not_eq_true] at hname
      rw [hget] at h
      split at h
      · simp at h
      · next hne =>
        obtain ⟨x, hx, h⟩ := bind_eq_ok.1 h
        obtain ⟨rfl, hxt⟩ := ilockDisk_eq_ok.1 hx
        split at h
        · simp at h
        · next hn =>
          split at h
          · cases h
            exact .inl ⟨rfl, by rw [iputDisk_of_orphan (horph _ hxt), hputdp]⟩
          · next hemp =>
            cases h
            refine .inr ⟨rfl, _, _, _, hdir, hsplit, hpk.1, hpk.2, hname.1, hname.2, hne, hxt,
              by omega, fun hT => by simpa [hT] using hemp, ?_⟩
            split_ifs <;> simp [hset, hdir]

/-- 一つの呼び出し。返り値は捨てる。 -/
def dirCall (s : DirFs) : DirCall → Except Stop DirFs
  | .openCreate dp name keep => Prod.fst <$> sys_open_create s dp name keep
  | .mkdir dp name => Prod.fst <$> sys_mkdir s dp name
  | .mknod dp name => Prod.fst <$> sys_mknod s dp name
  | .link ip parent name => Prod.fst <$> sys_link s ip parent name
  | .unlink dp name => Prod.fst <$> sys_unlink s dp name

end Xv6
