import Xv6Mount.Mount.Syscall

/-!
# 起動した kernel と system call の列

`bootSys disk` は起動直後の状態である。icache と `gloopdev` は 0 で初期化され、
`mountinit` が root の mount entry を作っている。そこから mount に関わる system call
（`MntCall`）を任意の順に、任意の process（cwd）から呼んで到達する状態を `MntReach` とする。

`sampleDisk` は `mkfs` が作る root disk の小さな例である。root directory に
loop image を入れた file `l.img`、空の directory `mnt`、directory `d` とその下の `sub`、
file `README` を置く。`l.img` の中の file system は root directory に file `a` を持つ。
`userinit` は init process の cwd を `namei("/")` で取るので、最初の呼び出しを
`.namei 0 "/"` とすれば cwd は slot 0 になる。
-/

namespace Xv6

open Infra

/-- 0 で初期化された in-memory inode。 -/
def Inode.zero : Inode := ⟨0, 0, 0, false, false, 0, 0⟩

/-- 起動直後の kernel。 -/
def bootSys (disk : Vol → Nat → Dinode) : Sys where
  fs := { icache := fun _ => Inode.zero, disk := disk, loopdevtable := fun _ => ⟨false, none⟩ }
  gmnt := mountinit
  is_loop_mounted := false

/-- mount に関わる system call。どれも呼んだ process の cwd を持つ。`namei` は path の探索。 -/
inductive MntCall where
  | mount (cwd : Nat) (devPath mntpntPath : String)
  | umount (cwd : Nat) (mntpntPath : String)
  | chdir (cwd : Nat) (path : String)
  | namei (cwd : Nat) (path : String)

/-- system call を一つ呼ぶ。返り値は捨てる。 -/
def mntCall (s : Sys) : MntCall → Except Stop Sys
  | .mount cwd d m => (sysMount s cwd d.toList m.toList).map (·.1)
  | .umount cwd m => (sysUmount s cwd m.toList).map (·.1)
  | .chdir cwd p => (sysChdir s cwd p.toList).map (·.1)
  | .namei cwd p => (namei s cwd p.toList).map (·.1)

/-- 起動した kernel から system call を重ねて到達できる状態。 -/
def MntReach : Sys → Prop :=
  Reach (fun s => ∃ disk, s = bootSys disk) (fun s s' => ∃ c, mntCall s c = .ok s')

/-- 起動した kernel から system call の列を回して得た状態は、到達できる。 -/
theorem MntReach.of_runList {disk : Vol → Nat → Dinode} {s : Sys} {cs : List MntCall}
    (h : runList mntCall (bootSys disk) cs = .ok s) : MntReach s :=
  Reach.runList (fun _ c _ hc => ⟨c, hc⟩) cs (.init ⟨disk, rfl⟩) h

/-! ## 例の disk -/

/-- 名前を `List Char` にした dirent。 -/
def Dirent.of (inum : Nat) (name : String) : Dirent := ⟨inum, name.toList⟩

/-- `mkfs` が作る root disk の例と、`l.img` の中の loop image。 -/
def sampleDisk : Vol → Nat → Dinode
  | .dev 1, 1 => ⟨T_DIR, 1, [.of 1 ".", .of 1 "..", .of 2 "l.img", .of 3 "mnt", .of 4 "d", .of 5 "README"]⟩
  | .dev 1, 2 => ⟨T_FILE, 1, []⟩
  | .dev 1, 3 => ⟨T_DIR, 1, [.of 3 ".", .of 1 ".."]⟩
  | .dev 1, 4 => ⟨T_DIR, 1, [.of 4 ".", .of 1 "..", .of 6 "sub"]⟩
  | .dev 1, 5 => ⟨T_FILE, 1, []⟩
  | .dev 1, 6 => ⟨T_DIR, 1, [.of 6 ".", .of 4 ".."]⟩
  | .image 1 2, 1 => ⟨T_DIR, 1, [.of 1 ".", .of 1 "..", .of 2 "a"]⟩
  | .image 1 2, 2 => ⟨T_FILE, 1, []⟩
  | _, _ => ⟨0, 0, []⟩

/-- `userinit` の後の例の kernel。init process の cwd は slot 0 の root directory である。 -/
def sampleBoot : Sys :=
  match namei (bootSys sampleDisk) 0 "/".toList with
  | .ok (s, _) => s
  | .error _ => bootSys sampleDisk

/-- 例の disk の、型のある dinode はどれも link を持つ。 -/
theorem sampleDisk_linked (v : Vol) (n : Nat) (h : (sampleDisk v n).type ≠ 0) :
    1 ≤ (sampleDisk v n).nlink := by
  unfold sampleDisk at h ⊢
  split <;> simp_all

/-! ## 一つ mount した例の状態

`sampleBoot` で `mount("/l.img", "/mnt")` を呼んだ後の表を、列で書き下す。slot 0 は init の cwd の
root directory、slot 1 は mount point の `/mnt`、slot 2 は loop device の背後の `l.img` である。
`gmnt` の entry 1 が loop device の mount で、active list は entry 1、0 の順である。
列の外の slot と entry は 0 である。`mountedSample_reached` は、system call の列で実際に
この表に着くことを示す。
-/

/-- `mount("/l.img", "/mnt")` の後の状態。 -/
def mountedSample : Sys where
  fs :=
    { icache := fun x => [⟨1, 1, 1, false, true, T_DIR, 1⟩, ⟨1, 3, 1, false, true, T_DIR, 1⟩,
        ⟨1, 2, 1, false, true, T_FILE, 1⟩].getD x Inode.zero
      disk := sampleDisk
      loopdevtable := fun x => if x = 0 then ⟨true, some 2⟩ else ⟨false, none⟩ }
  gmnt :=
    { gmnttable := fun i => [⟨0, none, 1, none⟩, ⟨LOOPDEV_MASK, some 1, 1, some 0⟩].getD i Mntent.zero
      pmntlist := some 1
      prootmnt := some 0 }
  is_loop_mounted := true

theorem mountedSample_slot (x : Nat) (h : 3 ≤ x) : mountedSample.fs.icache x = Inode.zero := by
  obtain ⟨y, rfl⟩ : ∃ y, x = y + 3 := ⟨x - 3, by omega⟩
  rfl

theorem mountedSample_entry (i : Nat) (h : 2 ≤ i) : mountedSample.gmnt.gmnttable i = Mntent.zero := by
  obtain ⟨j, rfl⟩ : ∃ j, i = j + 2 := ⟨i - 2, by omega⟩
  rfl

theorem mountedSample_ref {x : Nat} (h : 0 < (mountedSample.fs.icache x).ref) : x < 3 := by
  by_contra hx
  rw [mountedSample_slot x (by omega)] at h
  simp [Inode.zero] at h

set_option maxRecDepth 8000 in
/-- 起動した kernel で `namei("/")` と `mount("/l.img", "/mnt")` を呼ぶと、kernel が使う表は `mountedSample` と同じになる。 -/
theorem mountedSample_reached :
    ∃ s, runList mntCall (bootSys sampleDisk) [.namei 0 "/", .mount 0 "/l.img" "/mnt"] = .ok s ∧
      (∀ x < NINODE, s.fs.icache x = mountedSample.fs.icache x) ∧
      (∀ i < NMNT, s.gmnt.gmnttable i = mountedSample.gmnt.gmnttable i) ∧
      (∀ j < NLOOPDEV, s.fs.loopdevtable j = mountedSample.fs.loopdevtable j) ∧
      s.gmnt.pmntlist = mountedSample.gmnt.pmntlist ∧ s.fs.disk = mountedSample.fs.disk ∧
      s.is_loop_mounted = mountedSample.is_loop_mounted :=
  ⟨_, rfl, by decide, by decide, by decide, rfl, rfl, rfl⟩

end Xv6
