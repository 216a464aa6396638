import Xv6Mount.Mount.Boot

/-!
# mount と umount が残す参照

icache の参照の数は、その inode を持つもの（process の cwd、開いた file、active な
mount entry の `mnti`、使用中の loop device の `ip`）の数に等しいはずである。
`sys_umount` は二通りでこれを崩す。

* 失敗して -1 を返すどの道も、`namei` で取った参照を放さない。表は何も変わらないので、
  持つものの数は変わらず、参照だけが一つ増える（`umount_failure_leaks_ref`）
* 成功しても、entry の `mnti`（`sys_mount` が `idup` した mount point）を `iput` せずに
  0 にする。mount と umount を往復すると、mount point の参照が一つ多いまま残る
  （`mount_umount_leaks_mntpnt_ref`）
* 成功すると、外した device ではなく loop device の slot 0 の file を `iput` する
  （`cur->devno` を 0 にした後で `getlloopdevi` を引く）。同じ file を二度 mount すると
  `getorcreatedev` は参照を一つしか取らないので、二度目の umount の `iput` は、その間に
  同じ slot に入った別の inode の参照を奪う。それが cwd なら、cwd は参照のない有効な slot
  になり、そこから引いた相対 path の `iput` が cwd の inode を disk で解放する
  （`Fs/Blocks.lean` の `stale_cwd_leaks_blocks`）

失敗は -1 で戻るとは限らない。mount point の path が見つからなければ、`sys_mount` も `sys_umount` も
"[sys_mount] mountpoint doesn't exist" で panic する（`missing_mountpoint_panics`）。
-/

namespace Xv6

open Infra

variable {s s' : Sys} {cwd : Nat} {mp : List Char}

/--
**失敗した `sys_umount` は参照を一つ残す。** -1 を返すとき、mount の表・loop device の表・
`is_loop_mounted` は変わらず、ある slot の参照だけがちょうど一つ増える。
-/
theorem umount_failure_leaks_ref {ret : Int} (h : sysUmount s cwd mp = .ok (s', ret)) (hret : ret ≠ 0) :
    s.SameTables s' ∧ ∃ r, s'.fs.refs = s.fs.refs + Pi.single r 1 := by
  obtain ⟨s₁, r, h₁, ⟨-, hg, hm, hr, hl⟩ | ⟨fs₁, m, -, -, -, -, -, -, he⟩⟩ := sysUmount_cases h
  · -- 失敗の道は `namei` の後で表に触れない
    obtain ⟨⟨hg₁, hm₁, hl₁⟩, hr₁⟩ := namei_refs h₁
    exact ⟨⟨hg.trans hg₁, hm.trans hm₁, hl.trans hl₁⟩, r, by rw [hr, hr₁]; rfl⟩
  · exact absurd (umountEntry_refs he).1 hret

/-- 起動した例で `umount("/")` は -1 を返し、cwd だけが持つ root directory の参照が 2 になる。 -/
theorem umount_root_leaks_at_boot :
    ∃ s', sysUmount sampleBoot 0 "/".toList = .ok (s', -1) ∧ sampleBoot.fs.refs 0 = 1 ∧
      s'.fs.refs 0 = 2 ∧ sampleBoot.SameTables s' ∧ ∃ r, s'.fs.refs = sampleBoot.fs.refs + Pi.single r 1 := by
  obtain ⟨s', h, h2⟩ : ∃ s', sysUmount sampleBoot 0 "/".toList = .ok (s', -1) ∧ s'.fs.refs 0 = 2 :=
    ⟨_, rfl, rfl⟩
  exact ⟨s', h, rfl, h2, umount_failure_leaks_ref h (by decide)⟩

/--
**mount と umount を往復すると、mount point の参照が一つ残る。** loop device が空いた状態から
`sys_mount(d, mp)` と、続く `sys_umount(mp')` がどちらも成功すると、`mp` の inode の参照は
一つ多く、ほかの slot の参照は元に戻る。
-/
theorem mount_umount_leaks_mntpnt_ref {s₁ s₂ : Sys} {cwd' : Nat} {d mp' : List Char}
    (hfree : (s.fs.loopdevtable 0).used = false)
    (hm : sysMount s cwd d mp = .ok (s₁, 0)) (hu : sysUmount s₁ cwd' mp' = .ok (s₂, 0)) :
    ∃ sa m, namei s cwd mp = .ok (sa, some m) ∧ s₂.fs.refs = s.fs.refs + Pi.single m 1 := by
  obtain ⟨sa, m, v, h₁, hv, hr₁⟩ := sysMount_ok_refs hm hfree
  obtain ⟨v', hv', hr₂⟩ := sysUmount_ok_refs hu
  -- umount が放す file は、mount が loop device の slot 0 に入れた file である
  obtain rfl : v' = v := Option.some.inj (hv'.symm.trans hv)
  refine ⟨sa, m, h₁, ?_⟩
  rw [hr₂, hr₁]
  abel

/-- 起動した例で `mount("/l.img", "/mnt")` と `umount("/mnt")` の後、`/mnt` の slot 1 の参照が 1 残る。 -/
theorem mount_umount_mnt_leaks_at_boot :
    ∃ s₁ s₂, (sampleBoot.fs.loopdevtable 0).used = false ∧
      sysMount sampleBoot 0 "/l.img".toList "/mnt".toList = .ok (s₁, 0) ∧
      sysUmount s₁ 0 "/mnt".toList = .ok (s₂, 0) ∧ sampleBoot.fs.refs 1 = 0 ∧ s₂.fs.refs 1 = 1 ∧
      ∃ sa m, namei sampleBoot 0 "/mnt".toList = .ok (sa, some m) ∧
        s₂.fs.refs = sampleBoot.fs.refs + Pi.single m 1 := by
  obtain ⟨s₁, s₂, hm, hu, h1⟩ : ∃ s₁ s₂, sysMount sampleBoot 0 "/l.img".toList "/mnt".toList = .ok (s₁, 0) ∧
      sysUmount s₁ 0 "/mnt".toList = .ok (s₂, 0) ∧ s₂.fs.refs 1 = 1 := ⟨_, _, rfl, rfl, rfl⟩
  exact ⟨s₁, s₂, rfl, hm, hu, rfl, h1, mount_umount_leaks_mntpnt_ref rfl hm hu⟩

/--
**mount point がなければ panic する。** `namei` が mount point の path を見つけないとき、
`sys_umount` は -1 を返さずに panic する。`sys_mount` も、device の path の `namei` が戻れば同じ
panic で止まる。
-/
theorem missing_mountpoint_panics {s₁ : Sys} (h : namei s cwd mp = .ok (s₁, none)) :
    sysUmount s cwd mp = .error (.panic "[sys_mount] mountpoint doesn't exist") ∧
      ∀ d s₂ r, namei s₁ cwd d = .ok (s₂, r) →
        sysMount s cwd d mp = .error (.panic "[sys_mount] mountpoint doesn't exist") := by
  constructor
  · unfold sysUmount
    rw [h]
    rfl
  · intro d s₂ r h₂
    unfold sysMount
    rw [h]
    simp only [ok_bind]
    rw [h₂]
    rfl

/-- 起動した例で、ない path "/nope" を mount point にすると、`sys_mount` も `sys_umount` も panic する。 -/
theorem mount_nope_panics_at_boot :
    ∃ s₁ s₂ r, namei sampleBoot 0 "/nope".toList = .ok (s₁, none) ∧
      namei s₁ 0 "/l.img".toList = .ok (s₂, r) ∧
      (sysUmount sampleBoot 0 "/nope".toList = .error (.panic "[sys_mount] mountpoint doesn't exist") ∧
        ∀ d s₂ r, namei s₁ 0 d = .ok (s₂, r) →
          sysMount sampleBoot 0 d "/nope".toList = .error (.panic "[sys_mount] mountpoint doesn't exist")) := by
  obtain ⟨s₁, s₂, r, h₁, h₂⟩ : ∃ s₁ s₂ r, namei sampleBoot 0 "/nope".toList = .ok (s₁, none) ∧
      namei s₁ 0 "/l.img".toList = .ok (s₂, r) := ⟨_, _, _, rfl, rfl⟩
  exact ⟨s₁, s₂, r, h₁, h₂, missing_mountpoint_panics h₁⟩

end Xv6
