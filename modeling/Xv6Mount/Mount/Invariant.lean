import Mathlib.Data.List.Perm.Subperm
import Xv6Mount.Mount.Boot

/-!
# mount の表の不変条件

system call の間で、`gmnt` の active list は次の形をしている（`MntInv`）。

* `pmntlist` からたどると循環せずに null に着き、通る entry はどれも `NMNT` 未満である
* 列に載る entry はちょうど `refcnt > 0` の entry で、その `refcnt` は 1 である
* 列の最後は root の entry `gmnttable[0]` で、その `devno` は 0 である

`sys_mount` は `refcnt == 0` の entry を先頭に足し、`sys_umount` は列の途中の entry を
外して 0 に戻す。`namex` の `mntdup` はその場で `mntput` されるので、呼び出しの後には残らない。

* `MntInv.push` / `MntInv.remove` — 先頭に足す・途中から外す
* `MntInv.mntCall` — どの system call も不変条件を保つ
* `mnt_table_wf` — 起動した kernel から到達できる状態はどれも不変条件を満たす

`MntInv` が述べないこともある。同じ image を二度 mount すると `getorcreatedev` は同じ
device 番号を返すので、二つの active entry が同じ `devno` を持つ（`double_mount_shares_devno`）。
-/

namespace Xv6

open Infra

/-- active list の不変条件。`l` は `pmntlist` からたどった entry の列である。 -/
structure MntInv (g : Gmnt) (l : List Nat) : Prop where
  linked : LinkedFrom g.nxt g.pmntlist l
  bound : ∀ i ∈ l, i < NMNT
  mem_iff : ∀ i, i ∈ l ↔ 0 < (g.gmnttable i).refcnt
  refcnt_one : ∀ i ∈ l, (g.gmnttable i).refcnt = 1
  root_last : l.getLast? = some 0
  root_devno : (g.gmnttable 0).devno = 0

namespace MntInv

variable {g g' : Gmnt} {l : List Nat}

theorem nodup (h : MntInv g l) : l.Nodup := h.linked.nodup

theorem length_le (h : MntInv g l) : l.length ≤ NMNT := by
  have hs : l.Subperm (List.range NMNT) :=
    h.nodup.subperm fun i hi => List.mem_range.mpr (h.bound i hi)
  simpa using hs.length_le

theorem root_mem (h : MntInv g l) : 0 ∈ l := List.mem_of_getLast? h.root_last

/-- active list の探索は、列 `l` の `find?` である。 -/
theorem findMnt_eq (h : MntInv g l) (p : Mntent → Bool) :
    findMnt g.gmnttable p NMNT g.pmntlist = .ok (l.find? fun i => p (g.gmnttable i)) :=
  findMnt_eq_find? h.linked (fun i hi => (h.mem_iff i).mp hi) h.length_le

/-- 探索が返す entry は列に載っている。 -/
theorem mem_of_findMnt (h : MntInv g l) {p : Mntent → Bool} {m : Nat}
    (hm : findMnt g.gmnttable p NMNT g.pmntlist = .ok (some m)) : m ∈ l := by
  rw [h.findMnt_eq p] at hm
  exact List.mem_of_find?_eq_some (Except.ok.inj hm)

/-- `mountinit` の直後、列は root の entry だけである。 -/
theorem mountinit : MntInv Xv6.mountinit [0] where
  linked := .cons (List.not_mem_nil) .nil
  bound := by decide
  mem_iff := by
    intro i
    by_cases hi : i = 0
    · subst hi; simp [Xv6.mountinit]
    · simp [Xv6.mountinit, hi, Mntent.zero]
  refcnt_one := by simp [Xv6.mountinit]
  root_last := rfl
  root_devno := rfl

/-- 表が変わらなければ不変条件も変わらない。 -/
theorem of_gmnt_eq (h : MntInv g l) (he : g' = g) : MntInv g' l := he ▸ h

/--
**先頭に足す（`sys_mount`）。** `refcnt == 0` の entry `e` を `refcnt = 1` にして、
`next` を元の先頭にし、新しい先頭にする。
-/
theorem push (h : MntInv g l) {e devno m : Nat} (he : e < NMNT) (h0 : (g.gmnttable e).refcnt = 0)
    (hp : g'.pmntlist = some e)
    (ht : g'.gmnttable = Function.update g.gmnttable e ⟨devno, some m, 1, g.pmntlist⟩) :
    MntInv g' (e :: l) := by
  have hel : e ∉ l := fun hm => by simpa [h0] using (h.mem_iff e).mp hm
  -- `e` 以外の entry は元のまま
  have hne : ∀ i, i ≠ e → g'.gmnttable i = g.gmnttable i := fun i hi => by
    rw [ht, Function.update_of_ne hi]
  have he0 : e ≠ 0 := fun h' => hel (h' ▸ h.root_mem)
  refine ⟨?_, ?_, ?_, ?_, ?_, ?_⟩
  · rw [hp]
    refine h.linked.push hel (by simp [Gmnt.nxt, ht]) fun x hx => ?_
    simp only [Gmnt.nxt, hne x (fun e' => hel (e' ▸ hx))]
  · intro i hi
    rcases List.mem_cons.mp hi with rfl | hi
    · exact he
    · exact h.bound i hi
  · intro i
    by_cases hi : i = e
    · subst hi; simp [ht]
    · rw [hne i hi, List.mem_cons, ← h.mem_iff i]
      simp [hi]
  · intro i hi
    by_cases hie : i = e
    · subst hie; simp [ht]
    · rw [hne i hie]
      exact h.refcnt_one i ((List.mem_cons.mp hi).resolve_left hie)
  · have hl : l ≠ [] := List.ne_nil_of_mem h.root_mem
    rw [List.getLast?_cons, h.root_last]
    rfl
  · rw [hne 0 (Ne.symm he0)]
    exact h.root_devno

/-- 列の中の `m` の直前の pointer を `m` の `next` に付け替えて `m` を空にすると、`m` を除いた列をたどる。 -/
theorem linked_remove {m : Nat} {pre : Option Nat} {l₁ l₂ : List Nat}
    (h : LinkedFrom g.nxt g.pmntlist (l₁ ++ m :: l₂)) (hm₁ : m ∉ l₁) (hm₂ : m ∉ l₂)
    (hpre : pre = (none :: l₁.map some).getLast?.getD none)
    (hg' : g' = (g.setPre pre (g.gmnttable m).next).modify m fun _ => Mntent.zero) :
    LinkedFrom g'.nxt g'.pmntlist (l₁ ++ l₂) := by
  have hnxt : ∀ x, x ≠ m → pre ≠ some x → g'.nxt x = g.nxt x := fun x hx hp => by
    rw [← Gmnt.setPre_next_of_ne g pre (g.gmnttable m).next x hp, hg']
    simp [Gmnt.nxt, hx]
  rcases List.eq_nil_or_concat' l₁ with rfl | ⟨l₀, p, rfl⟩
  · -- `m` が先頭なら `pmntlist` を付け替える
    simp only [List.map_nil, List.getLast?_singleton, Option.getD_some] at hpre
    subst hpre
    have h' : LinkedFrom g.nxt (g.nxt m) l₂ := by
      generalize g.pmntlist = q at h
      cases h with
      | cons _ h' => exact h'
    have hl : g'.pmntlist = g.nxt m := by rw [hg']; rfl
    rw [hl]
    exact h'.congr fun x hx => hnxt x (fun e => hm₂ (e ▸ hx)) (by simp)
  · -- `m` の直前の entry `p` の `next` を付け替える
    simp only [List.map_append, List.map_cons, List.map_nil, ← List.cons_append,
      List.getLast?_append, List.getLast?_singleton, Option.some_or, Option.getD_some] at hpre
    subst hpre
    rw [List.append_assoc, List.singleton_append] at h ⊢
    have hnd := h.nodup
    have hpm : p ≠ m := fun e => hm₁ (by simp [e])
    have hp : g'.nxt p = g.nxt m := by
      rw [hg']
      simp [Gmnt.nxt, hpm, Gmnt.setPre]
    have hl : g'.pmntlist = g.pmntlist := by rw [hg']; rfl
    rw [hl]
    refine LinkedFrom.unlink_cons l₀ h hp fun x hx => hnxt x ?_ ?_
    · rintro rfl
      exact (List.mem_append.mp hx).elim (fun h' => hm₁ (List.mem_append_left _ h')) hm₂
    · intro e
      cases e
      -- `p` は列の中で一度しか現れない
      have := List.nodup_middle.mp hnd
      simp only [List.nodup_cons, List.mem_append, List.mem_cons, not_or] at this
      exact (List.mem_append.mp hx).elim this.1.1 this.1.2.2

/--
**途中から外す（`sys_umount`）。** root でない entry `m` の直前の pointer を `m` の `next` に
付け替え、`m` を 0 に戻す。列は `l.erase m` になる。
-/
theorem remove (h : MntInv g l) {m : Nat} {pre : Option Nat} (hm : m ∈ l) (hm0 : m ≠ 0)
    (hpre : findPre g.gmnttable m NMNT none g.pmntlist = .ok pre)
    (hg' : g' = (g.setPre pre (g.gmnttable m).next).modify m fun _ => Mntent.zero) :
    MntInv g' (l.erase m) := by
  obtain ⟨l₁, l₂, rfl⟩ := List.append_of_mem hm
  have hnd := h.nodup
  have hm₁ : m ∉ l₁ := fun h' => (List.nodup_middle.mp hnd |> List.nodup_cons.mp).1
    (List.mem_append_left _ h')
  have hm₂ : m ∉ l₂ := fun h' => (List.nodup_middle.mp hnd |> List.nodup_cons.mp).1
    (List.mem_append_right _ h')
  have herase : (l₁ ++ m :: l₂).erase m = l₁ ++ l₂ := by
    rw [List.erase_append_right _ hm₁, List.erase_cons_head]
  rw [herase]
  have hlen : l₁.length < NMNT := by
    have := h.length_le
    simp at this
    omega
  rw [findPre_eq l₁ h.linked hlen] at hpre
  have hpre' := (Except.ok.inj hpre).symm
  -- `m` 以外の entry は、`next` のほかは元のまま
  have hne : ∀ i, i ≠ m → g'.gmnttable i = (g.setPre pre (g.gmnttable m).next).gmnttable i :=
    fun i hi => by rw [hg', Gmnt.modify_of_ne _ _ _ hi]
  have hmem : ∀ i, i ∈ l₁ ++ l₂ ↔ i ≠ m ∧ i ∈ l₁ ++ m :: l₂ := fun i => by
    rw [← herase]
    exact hnd.mem_erase_iff
  refine ⟨?_, ?_, ?_, ?_, ?_, ?_⟩
  · exact linked_remove h.linked hm₁ hm₂ hpre' hg'
  · intro i hi
    exact h.bound i ((hmem i).mp hi).2
  · intro i
    by_cases him : i = m
    · subst him; simp [hg', hm₁, hm₂, Mntent.zero]
    · rw [hne i him, Gmnt.setPre_refcnt, ← h.mem_iff, hmem]
      simp [him]
  · intro i hi
    obtain ⟨him, hi'⟩ := (hmem i).mp hi
    rw [hne i him, Gmnt.setPre_refcnt]
    exact h.refcnt_one i hi'
  · have hl := h.root_last
    rw [List.getLast?_append] at hl ⊢
    rw [List.getLast?_cons] at hl
    cases hl₂ : l₂.getLast? with
    | none =>
      rw [hl₂] at hl
      exact absurd (Option.some.inj hl) hm0
    | some x =>
      rw [hl₂] at hl
      exact hl
  · rw [hne 0 (Ne.symm hm0), Gmnt.setPre_devno]
    exact h.root_devno

/-! ## system call は不変条件を保つ -/

/-- **段の補題。** どの system call の後も、active list は不変条件を満たす。 -/
theorem mntCall {s s' : Sys} {c : MntCall} (h : MntInv s.gmnt l) (hc : mntCall s c = .ok s') :
    ∃ l', MntInv s'.gmnt l' := by
  cases c with
  | mount cwd d mp =>
    obtain ⟨⟨s₁, r⟩, hm, rfl⟩ := map_eq_ok.mp hc
    rcases sysMount_gmnt hm with hg | ⟨e, devno, m, he, h0, hp, ht⟩
    · exact ⟨l, h.of_gmnt_eq hg⟩
    · exact ⟨e :: l, h.push he h0 hp ht⟩
  | umount cwd mp =>
    obtain ⟨⟨s₁, r⟩, hu, rfl⟩ := map_eq_ok.mp hc
    rcases sysUmount_gmnt hu with hg | ⟨fs₁, r, m, -, -, hm, -, he⟩
    · exact ⟨l, h.of_gmnt_eq hg⟩
    · obtain ⟨pre, hpre, hloop, hg⟩ := umountEntry_gmnt he
      -- `devput` が通ったので `m` の `devno` は loop device で、root の entry ではない
      have hm0 : m ≠ 0 := by
        rintro rfl
        rw [Gmnt.setPre_devno] at hloop
        exact absurd (h.root_devno ▸ hloop) (by decide)
      exact ⟨l.erase m, h.remove (h.mem_of_findMnt hm) hm0 hpre hg⟩
  | chdir cwd p =>
    obtain ⟨⟨s₁, r, c⟩, hc', rfl⟩ := map_eq_ok.mp hc
    exact ⟨l, h.of_gmnt_eq (sysChdir_gmnt hc')⟩
  | namei cwd p =>
    obtain ⟨⟨s₁, r⟩, hn, rfl⟩ := map_eq_ok.mp hc
    exact ⟨l, h.of_gmnt_eq (namei_refs hn).1.1⟩

end MntInv

/-- **起動した kernel から到達できる状態では、active list は不変条件を満たす。** -/
theorem mnt_table_wf {s : Sys} (hr : MntReach s) : ∃ l, MntInv s.gmnt l := by
  refine hr.rec_inv (fun s => ∃ l, MntInv s.gmnt l) ?_ ?_
  · rintro _ ⟨disk, rfl⟩
    exact ⟨[0], .mountinit⟩
  · rintro s s' ⟨l, h⟩ ⟨c, hc⟩
    exact h.mntCall hc

/-- 例の disk で `/l.img` を `/mnt` に mount した後も、active list は不変条件を満たす。 -/
theorem mnt_table_wf_after_mount :
    ∃ s, runList mntCall (bootSys sampleDisk) [.namei 0 "/", .mount 0 "/l.img" "/mnt"] = .ok s ∧
      ∃ l, MntInv s.gmnt l := by
  obtain ⟨s, hs⟩ : ∃ s, runList mntCall (bootSys sampleDisk)
      [.namei 0 "/", .mount 0 "/l.img" "/mnt"] = .ok s := ⟨_, rfl⟩
  exact ⟨s, hs, mnt_table_wf (.of_runList hs)⟩

/--
同じ image `/l.img` を `/mnt` と `/d` に mount すると、二つの active entry が同じ device 番号を持つ。
続く `umount("/mnt")` は device 番号で先頭から探すので、後から足した `/d` の entry を外す。
`/mnt` の entry は active のまま残り、loop device の slot は空きになり、`is_loop_mounted` は 0 になる。
-/
theorem double_mount_shares_devno :
    ∃ s s', MntReach s ∧
      (s.gmnt.gmnttable 1).devno = LOOPDEV_MASK ∧ (s.gmnt.gmnttable 2).devno = LOOPDEV_MASK ∧
      0 < (s.gmnt.gmnttable 1).refcnt ∧ 0 < (s.gmnt.gmnttable 2).refcnt ∧
      sysUmount s 0 "/mnt".toList = .ok (s', 0) ∧
      s'.gmnt.gmnttable 1 = s.gmnt.gmnttable 1 ∧ (s'.gmnt.gmnttable 2).refcnt = 0 ∧
      (s'.fs.loopdevtable 0).used = false ∧ s'.is_loop_mounted = false := by
  obtain ⟨s, s', hs, h⟩ : ∃ s s',
      runList mntCall (bootSys sampleDisk)
        [.namei 0 "/", .mount 0 "/l.img" "/mnt", .mount 0 "/l.img" "/d"] = .ok s ∧
      ((s.gmnt.gmnttable 1).devno = LOOPDEV_MASK ∧ (s.gmnt.gmnttable 2).devno = LOOPDEV_MASK ∧
      0 < (s.gmnt.gmnttable 1).refcnt ∧ 0 < (s.gmnt.gmnttable 2).refcnt ∧
      sysUmount s 0 "/mnt".toList = .ok (s', 0) ∧
      s'.gmnt.gmnttable 1 = s.gmnt.gmnttable 1 ∧ (s'.gmnt.gmnttable 2).refcnt = 0 ∧
      (s'.fs.loopdevtable 0).used = false ∧ s'.is_loop_mounted = false) :=
    ⟨_, _, rfl, by decide, by decide, by decide, by decide, rfl, rfl, rfl, rfl, rfl⟩
  exact ⟨s, s', .of_runList hs, h⟩

/-! ## busy test -/

/--
loop device の root を cwd にした process が `umount("/mnt")` を呼ぶと 0 が返る。cwd の slot 3 は
device 32 の inode を持ったまま、loop device の slot は空きになる。その cwd から `chdir("..")` は
`getmntpnt` が 0 を返すので `ilock(0)` で panic する。
-/
theorem umount_succeeds_under_cwd :
    ∃ s₀ s s', MntReach s₀ ∧ sysChdir s₀ 0 "/mnt".toList = .ok (s, 0, 3) ∧
      (s.fs.icache 3).dev = LOOPDEV_MASK ∧ sysUmount s 3 "/mnt".toList = .ok (s', 0) ∧
      0 < s'.fs.refs 3 ∧ (s'.fs.icache 3).dev = LOOPDEV_MASK ∧ (s'.fs.loopdevtable 0).used = false ∧
      sysChdir s' 3 "..".toList = .error (.panic "ilock") := by
  obtain ⟨s₀, s, s', hs, h⟩ : ∃ s₀ s s',
      runList mntCall (bootSys sampleDisk) [.namei 0 "/", .mount 0 "/l.img" "/mnt"] = .ok s₀ ∧
      (sysChdir s₀ 0 "/mnt".toList = .ok (s, 0, 3) ∧
      (s.fs.icache 3).dev = LOOPDEV_MASK ∧ sysUmount s 3 "/mnt".toList = .ok (s', 0) ∧
      0 < s'.fs.refs 3 ∧ (s'.fs.icache 3).dev = LOOPDEV_MASK ∧ (s'.fs.loopdevtable 0).used = false ∧
      sysChdir s' 3 "..".toList = .error (.panic "ilock")) :=
    ⟨_, _, _, rfl, rfl, rfl, rfl, by decide, rfl, rfl, rfl⟩
  exact ⟨s₀, s, s', .of_runList hs, h⟩

end Xv6
