import Xv6Mount.Fs.Namex

/-!
# mount の system call（`sysmount.c`）と `sys_chdir`（`sysfile.c`）

system call は呼んだ process の cwd（slot）を受け、返り値（成功 0・失敗 -1）を返す。
`argstr` は path を受け取る形にし、失敗は扱わない。`begin_op`・`end_op` は
`Xv6Mount/Log/Header.lean` の log の側にあり、ここでは何もしない。

## 参照を取るところと放すところ

`sys_mount` は三つの参照を残す：mount entry の `mnti` への `idup`、`getorcreatedev` の
`idup`、そして `mntalloc` の entry。`namei` で取った二つの参照は最後の `iunlockput` で放す。

`sys_umount` は entry を外した後、`getlloopdevi` が返す backing file と、`namei` で取った
loop device の root を `iput` する。mount point（`cur->mnti`）は `iput` せずに 0 にする。
失敗で返る三つの道（root device、root でない inode、mount されていない device）は
`iunlock` だけで返り、`namei` の参照を放さない。
-/

namespace Xv6

open Infra

/-- `sys_mount(dev_path, mntpnt_path)`。 -/
def sysMount (s : Sys) (cwd : Nat) (devPath mntpntPath : List Char) : Except Stop (Sys × Int) := do
  let (s, mnti) ← namei s cwd mntpntPath
  let (s, devi) ← namei s cwd devPath
  let some mnti := mnti | throw (.panic "[sys_mount] mountpoint doesn't exist")
  let some devi := devi | throw (.panic "[sys_mount] loop device doesn't exist")
  let fs ← ilock s.fs mnti
  let fs ← ilock fs devi
  if (fs.icache mnti).inum == ROOTINO then
    let fs ← iunlockput fs mnti
    let fs ← iunlockput fs devi
    return ({ s with fs := fs }, -1)
  if (fs.icache devi).type != T_FILE then
    let fs ← iunlockput fs mnti
    let fs ← iunlockput fs devi
    return ({ s with fs := fs }, -1)
  let (fs, devno) ← getorcreatedev fs devi
  let (g, e) ← mntalloc s.gmnt
  let g := g.modify e fun m => { m with devno := devno, mnti := some mnti }
  let fs := idup fs mnti
  -- 新しい entry を active list の先頭に足す
  let g := { g.modify e (fun m => { m with next := g.pmntlist }) with pmntlist := some e }
  let g := mntput g e
  let fs ← iunlockput fs mnti
  let fs ← iunlockput fs devi
  return ({ fs := fs, gmnt := g, is_loop_mounted := true }, 0)

/-- `sys_umount` の後半：entry `m` を active list から外し、空にする。 -/
def umountEntry (s : Sys) (mnti m : Nat) : Except Stop (Sys × Int) := do
  let pre ← findPre s.gmnt.gmnttable m NMNT none s.gmnt.pmntlist
  let g := s.gmnt.setPre pre (s.gmnt.gmnttable m).next
  let fs ← devput s.fs (g.gmnttable m).devno
  let g := g.modify m fun _ => Mntent.zero
  -- `cur->devno` は 0 にした後なので、`getlloopdevi(0)`
  let some devi ← getlloopdevi fs.loopdevtable (g.gmnttable m).devno | throw .fault
  let fs ← iput fs devi
  let fs ← iput fs mnti
  return ({ fs := fs, gmnt := g, is_loop_mounted := false }, 0)

/-- `sys_umount(mntpnt_path)`。 -/
def sysUmount (s : Sys) (cwd : Nat) (mntpntPath : List Char) : Except Stop (Sys × Int) := do
  let (s, mnti) ← namei s cwd mntpntPath
  let some mnti := mnti | throw (.panic "[sys_mount] mountpoint doesn't exist")
  let fs ← ilock s.fs mnti
  if (fs.icache mnti).dev == ROOTDEV then
    let fs ← iunlock fs mnti
    return ({ s with fs := fs }, -1)
  if (fs.icache mnti).inum != ROOTINO then
    let fs ← iunlock fs mnti
    return ({ s with fs := fs }, -1)
  let fs ← iunlock fs mnti
  let s := { s with fs := fs }
  match ← findMnt s.gmnt.gmnttable (fun e => e.devno == (fs.icache mnti).dev) NMNT s.gmnt.pmntlist with
  | none => return (s, -1)
  | some m =>
    if 1 < (s.gmnt.gmnttable m).refcnt then return (s, -1)
    umountEntry s mnti m

/-! ## `sys_umount` の参照の収支 -/

section umount

variable {s s' : Sys} {cwd : Nat} {mp : List Char} {ret : Int}

/-- `devput` は slot の `used` を落とすだけで、`ip` も icache も変えない。 -/
theorem devput_spec {fs fs' : Fs} {d : Nat} (h : devput fs d = .ok fs') :
    fs'.icache = fs.icache ∧ ∀ i, (fs'.loopdevtable i).ip = (fs.loopdevtable i).ip := by
  unfold devput at h
  split at h
  · cases h
  · cases h
    refine ⟨rfl, fun i => ?_⟩
    by_cases hi : i = loopdevnoOf d
    · subst hi; simp
    · simp [hi]

theorem getlloopdevi_zero (lt : Nat → Loopdev) : getlloopdevi lt 0 = .ok (lt 0).ip := by
  simp [getlloopdevi, loopdevnoOf, NLOOPDEV]

/-- 後半の収支：loop device の slot 0 の file と、`namei` で得た inode を一つずつ放す。 -/
theorem umountEntry_refs {mnti m : Nat} (h : umountEntry s mnti m = .ok (s', ret)) :
    ret = 0 ∧ ∃ v, (s.fs.loopdevtable 0).ip = some v ∧
      s'.fs.refs = s.fs.refs - Pi.single v 1 - Pi.single mnti 1 := by
  unfold umountEntry at h
  obtain ⟨pre, -, h⟩ := bind_eq_ok.mp h
  obtain ⟨fs₁, h₁, h⟩ := bind_eq_ok.mp h
  obtain ⟨hic₁, hip₁⟩ := devput_spec h₁
  -- `getlloopdevi(cur->devno)` は 0 にした後の番号で引くので、slot 0 の file を返す
  simp only [Gmnt.modify_self, Mntent.zero, getlloopdevi_zero, ok_bind, hip₁] at h
  obtain ⟨v, hv⟩ : ∃ v, (s.fs.loopdevtable 0).ip = some v := by
    cases hv : (s.fs.loopdevtable 0).ip with
    | none => rw [hv] at h; cases h
    | some v => exact ⟨v, rfl⟩
  rw [hv] at h
  obtain ⟨fs₂, h₂, h⟩ := bind_eq_ok.mp h
  obtain ⟨fs₃, h₃, h⟩ := bind_eq_ok.mp h
  cases h
  obtain ⟨hr₂, -, -⟩ := iput_spec h₂
  obtain ⟨hr₃, -, -⟩ := iput_spec h₃
  have hr₁ : fs₁.refs = s.fs.refs := by unfold Fs.refs; rw [hic₁]
  exact ⟨rfl, v, hv, by rw [hr₃, hr₂, hr₁]⟩

/-- `sys_umount` の前半：`namei` の後、`mnti` が指す device の entry を探すまで。 -/
theorem sysUmount_cases (h : sysUmount s cwd mp = .ok (s', ret)) :
    ∃ s₁ r, namei s cwd mp = .ok (s₁, some r) ∧
      ((ret = -1 ∧ s'.gmnt = s₁.gmnt ∧ s'.is_loop_mounted = s₁.is_loop_mounted ∧
          s'.fs.refs = s₁.fs.refs ∧ s'.fs.loopdevtable = s₁.fs.loopdevtable) ∨
        ∃ fs₁ m, s₁.fs.refs = fs₁.refs ∧ s₁.fs.loopdevtable = fs₁.loopdevtable ∧
          (fs₁.icache r).dev ≠ ROOTDEV ∧ (fs₁.icache r).inum = ROOTINO ∧
          findMnt s₁.gmnt.gmnttable (fun e => e.devno == (fs₁.icache r).dev) NMNT s₁.gmnt.pmntlist =
            .ok (some m) ∧ (s₁.gmnt.gmnttable m).refcnt ≤ 1 ∧
          umountEntry { s₁ with fs := fs₁ } r m = .ok (s', ret)) := by
  unfold sysUmount at h
  obtain ⟨⟨s₁, r⟩, h₁, h⟩ := bind_eq_ok.mp h
  cases r with
  | none => cases h
  | some r =>
    refine ⟨s₁, r, h₁, ?_⟩
    obtain ⟨fs₂, h₂, h⟩ := bind_eq_ok.mp h
    obtain ⟨hr₂, -, -, hl₂⟩ := ilock_spec h₂
    split at h
    · -- root device の inode
      obtain ⟨fs₃, h₃, h⟩ := bind_eq_ok.mp h
      cases h
      obtain ⟨hr₃, -, -, hl₃⟩ := iunlock_spec h₃
      exact .inl ⟨rfl, rfl, rfl, by rw [hr₃, hr₂], by rw [hl₃, hl₂]⟩
    · rename_i hdev
      split at h
      · -- device の root でない inode
        obtain ⟨fs₃, h₃, h⟩ := bind_eq_ok.mp h
        cases h
        obtain ⟨hr₃, -, -, hl₃⟩ := iunlock_spec h₃
        exact .inl ⟨rfl, rfl, rfl, by rw [hr₃, hr₂], by rw [hl₃, hl₂]⟩
      · rename_i hino
        obtain ⟨fs₃, h₃, h⟩ := bind_eq_ok.mp h
        obtain ⟨hr₃, hk₃, -, hl₃⟩ := iunlock_spec h₃
        obtain ⟨m, hm, h⟩ := bind_eq_ok.mp h
        cases m with
        | none =>
          -- mount されていない device
          cases h
          exact .inl ⟨rfl, rfl, rfl, by rw [hr₃, hr₂], by rw [hl₃, hl₂]⟩
        | some m =>
          dsimp only at h
          split at h
          · cases h
            exact .inl ⟨rfl, rfl, rfl, by rw [hr₃, hr₂], by rw [hl₃, hl₂]⟩
          · rename_i hbusy
            -- `iunlock` は `(dev, inum)` を変えないので、`fs₃` で読んでも同じ
            have hd : (fs₃.icache r).dev = (fs₂.icache r).dev := congrArg Prod.fst (congrFun hk₃ r)
            have hi : (fs₃.icache r).inum = (fs₂.icache r).inum := congrArg Prod.snd (congrFun hk₃ r)
            refine .inr ⟨fs₃, m, by rw [hr₃, hr₂], by rw [hl₃, hl₂], ?_, ?_, hm, by omega, h⟩
            · rw [hd]; simpa using hdev
            · rw [hi]; simpa using hino

/-- 成功した `sys_umount` は、loop device の slot 0 の file の参照を一つ放す。`namei` の参照は戻す。 -/
theorem sysUmount_ok_refs (h : sysUmount s cwd mp = .ok (s', 0)) :
    ∃ v, (s.fs.loopdevtable 0).ip = some v ∧ s'.fs.refs = s.fs.refs - Pi.single v 1 := by
  obtain ⟨s₁, r, h₁, ⟨h0, -⟩ | ⟨fs₁, m, hr₁, hl₁, -, -, -, -, he⟩⟩ := sysUmount_cases h
  · exact absurd h0 (by decide)
  · obtain ⟨⟨-, -, hl⟩, hr⟩ := namei_refs h₁
    obtain ⟨-, v, hv, hr'⟩ := umountEntry_refs he
    refine ⟨v, by rw [← hl, hl₁]; exact hv, ?_⟩
    rw [hr', show ({ s₁ with fs := fs₁ } : Sys).fs.refs = fs₁.refs from rfl, ← hr₁, hr]
    simp only [refOf]
    abel

/-- `umount` の後半は、`m` を指す pointer を付け替えて、`m` を空にする。 -/
theorem umountEntry_gmnt {mnti m : Nat} (h : umountEntry s mnti m = .ok (s', ret)) :
    ∃ pre, findPre s.gmnt.gmnttable m NMNT none s.gmnt.pmntlist = .ok pre ∧
      isloopdev ((s.gmnt.setPre pre (s.gmnt.gmnttable m).next).gmnttable m).devno = true ∧
      s'.gmnt = (s.gmnt.setPre pre (s.gmnt.gmnttable m).next).modify m fun _ => Mntent.zero := by
  unfold umountEntry at h
  obtain ⟨pre, hpre, h⟩ := bind_eq_ok.mp h
  obtain ⟨fs₁, h₁, h⟩ := bind_eq_ok.mp h
  refine ⟨pre, hpre, ?_, ?_⟩
  · unfold devput at h₁
    split at h₁
    · cases h₁
    · rename_i hl
      simpa using hl
  · simp only [Gmnt.modify_self, Mntent.zero, getlloopdevi_zero, ok_bind] at h
    split at h
    · obtain ⟨fs₂, -, h⟩ := bind_eq_ok.mp h
      obtain ⟨fs₃, -, h⟩ := bind_eq_ok.mp h
      cases h
      rfl
    · cases h

/-- `sys_umount` が表を変えるのは、後半まで進んだときだけである。 -/
theorem sysUmount_gmnt (h : sysUmount s cwd mp = .ok (s', ret)) :
    s'.gmnt = s.gmnt ∨
      ∃ fs₁ r m, (fs₁.icache r).dev ≠ ROOTDEV ∧ (fs₁.icache r).inum = ROOTINO ∧
        findMnt s.gmnt.gmnttable (fun e => e.devno == (fs₁.icache r).dev) NMNT s.gmnt.pmntlist =
          .ok (some m) ∧ (s.gmnt.gmnttable m).refcnt ≤ 1 ∧
        umountEntry { s with fs := fs₁ } r m = .ok (s', ret) := by
  obtain ⟨s₁, r, h₁, ⟨-, hg, -⟩ | ⟨fs₁, m, -, -, hd, hi, hm, hb, he⟩⟩ := sysUmount_cases h
  · exact .inl (hg.trans (namei_refs h₁).1.1)
  · -- `namei` は表を変えないので、`s₁` の表は `s` の表である
    obtain ⟨⟨hg₁, hl₁, -⟩, -⟩ := namei_refs h₁
    have hs : ({ s₁ with fs := fs₁ } : Sys) = { s with fs := fs₁ } := by
      cases s₁; cases s; simp_all
    rw [hg₁] at hm hb
    exact .inr ⟨fs₁, r, m, hd, hi, hm, hb, hs ▸ he⟩

end umount

/-! ## `sys_mount` の参照の収支 -/

section mount

variable {s s' : Sys} {cwd : Nat} {d mp : List Char}

/-- 空いている loop device の slot 0 に、file `v` を `idup` して入れる。 -/
theorem getorcreatedev_fresh {fs : Fs} {v : Nat} (hfree : (fs.loopdevtable 0).used = false) :
    getorcreatedev fs v =
      .ok (idup { fs with loopdevtable := Function.update fs.loopdevtable 0 ⟨true, some v⟩ } v,
        0 ||| LOOPDEV_MASK) := by
  simp [getorcreatedev, NLOOPDEV, hfree]

/--
**空いた loop device への `sys_mount` の収支。** 成功すると、mount point の inode と
device の file に参照を一つずつ残し、file を loop device の slot 0 に入れる。
-/
theorem sysMount_ok_refs (h : sysMount s cwd d mp = .ok (s', 0))
    (hfree : (s.fs.loopdevtable 0).used = false) :
    ∃ s₁ m v, namei s cwd mp = .ok (s₁, some m) ∧ (s'.fs.loopdevtable 0).ip = some v ∧
      s'.fs.refs = s.fs.refs + Pi.single m 1 + Pi.single v 1 := by
  unfold sysMount at h
  obtain ⟨⟨s₁, mo⟩, h₁, h⟩ := bind_eq_ok.mp h
  obtain ⟨⟨s₂, vo⟩, h₂, h⟩ := bind_eq_ok.mp h
  obtain ⟨⟨-, -, hl₁⟩, hr₁⟩ := namei_refs h₁
  obtain ⟨⟨-, -, hl₂⟩, hr₂⟩ := namei_refs h₂
  cases mo with
  | none => cases h
  | some m =>
  cases vo with
  | none => cases h
  | some v =>
  refine ⟨s₁, m, v, h₁, ?_⟩
  obtain ⟨fs₃, h₃, h⟩ := bind_eq_ok.mp h
  obtain ⟨fs₄, h₄, h⟩ := bind_eq_ok.mp h
  obtain ⟨hr₃, -, -, hl₃⟩ := ilock_spec h₃
  obtain ⟨hr₄, -, -, hl₄⟩ := ilock_spec h₄
  split at h
  · -- mount point が root の inode なら -1
    obtain ⟨_, _, h⟩ := bind_eq_ok.mp h
    obtain ⟨_, _, h⟩ := bind_eq_ok.mp h
    cases h
  · split at h
    · obtain ⟨_, _, h⟩ := bind_eq_ok.mp h
      obtain ⟨_, _, h⟩ := bind_eq_ok.mp h
      cases h
    · have hfree₄ : (fs₄.loopdevtable 0).used = false := by rw [hl₄, hl₃, hl₂, hl₁]; exact hfree
      rw [getorcreatedev_fresh hfree₄, ok_bind] at h
      obtain ⟨⟨g, e⟩, -, h⟩ := bind_eq_ok.mp h
      obtain ⟨fs₅, h₅, h⟩ := bind_eq_ok.mp h
      obtain ⟨fs₆, h₆, h⟩ := bind_eq_ok.mp h
      cases h
      obtain ⟨hr₅, -, hl₅⟩ := iunlockput_spec h₅
      obtain ⟨hr₆, -, hl₆⟩ := iunlockput_spec h₆
      refine ⟨by rw [hl₆, hl₅]; simp, ?_⟩
      -- `getorcreatedev` と mount entry の `idup` の二つが残り、`namei` の二つは放す
      have hr₅' : fs₅.refs = fs₄.refs + Pi.single v 1 + Pi.single m 1 - Pi.single m 1 := by
        rw [hr₅, idup_refs, idup_refs]
        rfl
      rw [hr₆, hr₅', hr₄, hr₃, hr₂, hr₁]
      simp only [refOf]
      abel

/--
`sys_mount` が表を変えるのは成功したときだけで、そのときは `refcnt = 0` の entry `e` を
`refcnt = 1` の新しい先頭にする。
-/
theorem sysMount_gmnt {r : Int} (h : sysMount s cwd d mp = .ok (s', r)) :
    s'.gmnt = s.gmnt ∨
      ∃ e devno m, e < NMNT ∧ (s.gmnt.gmnttable e).refcnt = 0 ∧ s'.gmnt.pmntlist = some e ∧
        s'.gmnt.gmnttable = Function.update s.gmnt.gmnttable e ⟨devno, some m, 1, s.gmnt.pmntlist⟩ := by
  unfold sysMount at h
  obtain ⟨⟨s₁, mo⟩, h₁, h⟩ := bind_eq_ok.mp h
  obtain ⟨⟨s₂, vo⟩, h₂, h⟩ := bind_eq_ok.mp h
  have hg : s₂.gmnt = s.gmnt := (namei_refs h₂).1.1.trans (namei_refs h₁).1.1
  cases mo with
  | none => cases h
  | some m =>
  cases vo with
  | none => cases h
  | some v =>
  obtain ⟨fs₃, -, h⟩ := bind_eq_ok.mp h
  obtain ⟨fs₄, -, h⟩ := bind_eq_ok.mp h
  split at h
  · obtain ⟨_, _, h⟩ := bind_eq_ok.mp h
    obtain ⟨_, _, h⟩ := bind_eq_ok.mp h
    cases h
    exact .inl hg
  · split at h
    · obtain ⟨_, _, h⟩ := bind_eq_ok.mp h
      obtain ⟨_, _, h⟩ := bind_eq_ok.mp h
      cases h
      exact .inl hg
    · obtain ⟨⟨fs₅, devno⟩, -, h⟩ := bind_eq_ok.mp h
      obtain ⟨⟨g, e⟩, he, h⟩ := bind_eq_ok.mp h
      obtain ⟨_, _, h⟩ := bind_eq_ok.mp h
      obtain ⟨_, _, h⟩ := bind_eq_ok.mp h
      cases h
      obtain ⟨hlt, h0, rfl⟩ := mntalloc_spec he
      refine .inr ⟨e, devno, m, hlt, by rw [← hg]; exact h0, rfl, ?_⟩
      -- entry `e` に四つの書き込み（`refcnt = 2`、`devno` と `mnti`、`next`、`mntput`）が重なる
      funext j
      by_cases hj : j = e
      · subst hj
        simp [mntput, Gmnt.modify, hg]
      · simp [mntput, Gmnt.modify, hj, hg]

end mount

/-- `sys_chdir(path)`。返り値と、呼んだ process の新しい cwd を返す。 -/
def sysChdir (s : Sys) (cwd : Nat) (path : List Char) : Except Stop (Sys × Int × Nat) := do
  let (s, ip) ← namei s cwd path
  let some ip := ip | return (s, -1, cwd)
  let fs ← ilock s.fs ip
  if (fs.icache ip).type != T_DIR then
    let fs ← iunlockput fs ip
    return ({ s with fs := fs }, -1, cwd)
  let fs ← iunlock fs ip
  let fs ← iput fs cwd
  return ({ s with fs := fs }, 0, ip)

/-- `sys_chdir` は表を変えない。 -/
theorem sysChdir_gmnt {s s' : Sys} {cwd cwd' : Nat} {p : List Char} {r : Int}
    (h : sysChdir s cwd p = .ok (s', r, cwd')) : s'.gmnt = s.gmnt := by
  unfold sysChdir at h
  obtain ⟨⟨s₁, ip⟩, h₁, h⟩ := bind_eq_ok.mp h
  have hg := (namei_refs h₁).1.1
  cases ip with
  | none => cases h; exact hg
  | some ip =>
    obtain ⟨fs₂, -, h⟩ := bind_eq_ok.mp h
    split at h
    · obtain ⟨_, _, h⟩ := bind_eq_ok.mp h
      cases h
      exact hg
    · obtain ⟨_, _, h⟩ := bind_eq_ok.mp h
      obtain ⟨_, _, h⟩ := bind_eq_ok.mp h
      cases h
      exact hg

end Xv6
