import Mathlib.Data.Nat.Bitwise

/-!
# 定数と device 番号

`param.h`・`fs.h`・`loopdev.h`・`sysmount.h`・`defs.h`・`memlayout.h` の定数のうち、
このモデルが読むものだけを置く。値は source のとおりである。

loop device の device 番号は `LOOPDEV_MASK`（bit 5）を立てた番号である。
`isloopdev` はその bit を見る。root disk の `ROOTDEV = 1` は bit 5 を持たない。
-/

namespace Xv6

/-- 一つの FS system call が書く block の上限。 -/
def MAXOPBLOCKS : Nat := 10

/-- on-disk log の data block の上限。 -/
def LOGSIZE : Nat := MAXOPBLOCKS * 3

/-- buffer cache の buffer の数。 -/
def NBUF : Nat := MAXOPBLOCKS * 3

/-- in-memory inode の数。 -/
def NINODE : Nat := 50

/-- root file system の device 番号。 -/
def ROOTDEV : Nat := 1

/-- root directory の i-number。 -/
def ROOTINO : Nat := 1

/-- directory entry の名前の長さ。 -/
def DIRSIZ : Nat := 14

/-- process の数。 -/
def NPROC : Nat := 64

/-- nsproxy と pid namespace の table の大きさ。 -/
def NNAMESPACE : Nat := 10

/-- pid namespace の入れ子の深さの上限。 -/
def PID_NAMESPACE_MAX_DEPTH : Nat := 4

/-- `unshare` の flag。新しい pid namespace を子に用意する。 -/
def PID_NS : Int := 1

/-- mount entry の数。 -/
def NMNT : Nat := 10

/-- loop device の数。 -/
def NLOOPDEV : Nat := 1

/-- 最初の kernel の仮想 address。user の address 空間はこれより下にある。 -/
def KERNBASE : Nat := 0x80000000

/-- loop device の device 番号に立てる bit。 -/
def LOOPDEV_MASK : Nat := 32

/-- `isloopdev`。device 番号の bit 5 を見る。 -/
def isloopdev (devno : Nat) : Bool := (devno >>> 5) &&& 1 == 1

theorem isloopdev_ROOTDEV : isloopdev ROOTDEV = false := by decide

end Xv6
