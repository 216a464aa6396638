import Mathlib.Data.List.Find
import Xv6Mount.Mount.Tree
import Xv6Mount.Fs.Coherent
import Xv6Mount.Mount.Invariant

/-!
# namex は mount された木の解決を refine する

system call の間の状態から、icache と `gmnt` を離れた木 `MountTree` を作る。各位置の dinode は
disk から読み、mount の組は active list の entry のうち mount point を持つものである（`mountsOf`）。
`MountTree.resolve` が、path の解決が何をするはずかを述べる。

木が木であるには、一つの device が一か所にしか mount されず、一つの directory には一つしか
mount されないことが要る。`ResolveWF` はそれを仮定する。同じ image を二度 mount すると
この仮定は崩れ、`..` は path が通ってきたのと別の mount point へ上る
（`dotdot_climbs_to_other_mount`）。

* `Walk` — loop の回りの間。icache は disk を正しく映し、今の inode に参照が一つ足されている
* `Held` — 回りの途中で、今の directory をロックして持っている
* `namexStep_sim` — loop の一回りは木の `step` に合う
* `namei_refines_tree` — `namei` が返すなら、結果は木で解決した位置にある
-/

namespace Xv6

open Infra

/-- active list の entry `i` が作る mount の組 `(devno, mount point の位置)`。 -/
def mountOf (g : Gmnt) (fs : Fs) (i : Nat) : Option (Nat × (Nat × Nat)) :=
  (g.gmnttable i).mnti.map fun m => ((g.gmnttable i).devno, fs.keys m)

/-- active list `l` の mount の組。 -/
def mountsOf (g : Gmnt) (fs : Fs) (l : List Nat) : List (Nat × (Nat × Nat)) :=
  l.filterMap (mountOf g fs)

/-- namex の始めの位置。絶対 path なら root、相対 path なら cwd の inode である。 -/
def startOf (fs : Fs) (cwd : Nat) (path : List Char) : Nat × Nat :=
  if path.head? = some '/' then (ROOTDEV, ROOTINO) else fs.keys cwd

/--
path の解決を木で述べられる状態。`l` は active list である。mount point の slot は参照を持ち、
mount された device と mount point の device は読める。mount は device と mount point の間で
一対一である。
-/
structure ResolveWF (s : Sys) (l : List Nat) : Prop where
  mnt : MntInv s.gmnt l
  sound : s.fs.Sound
  mnti_ref : ∀ i ∈ l, ∀ m, (s.gmnt.gmnttable i).mnti = some m → 0 < (s.fs.icache m).ref
  mnti_live : ∀ i ∈ l, ∀ m, (s.gmnt.gmnttable i).mnti = some m → s.fs.live (s.fs.icache m).dev = true
  devno_live : ∀ i ∈ l, s.fs.live (s.gmnt.gmnttable i).devno = true
  devno_nodup : ((mountsOf s.gmnt s.fs l).map Prod.fst).Nodup
  mntpnt_nodup : ((mountsOf s.gmnt s.fs l).map Prod.snd).Nodup

/-- 状態 `s` の mount された木。 -/
def ResolveWF.tree {s : Sys} {l : List Nat} (hw : ResolveWF s l) : MountTree :=
  ⟨s.fs.nodeAt, mountsOf s.gmnt s.fs l, hw.devno_nodup, hw.mntpnt_nodup⟩

/-- 一つ mount した例の状態は、木で述べられる。 -/
theorem mountedSample_resolveWF : ResolveWF mountedSample [1, 0] where
  mnt :=
    { linked := .cons (by decide) (.cons (by decide) .nil)
      bound := by decide
      mem_iff := by
        intro i
        by_cases hi : i < 2
        · exact (by decide : ∀ i < 2, i ∈ [1, 0] ↔ 0 < (mountedSample.gmnt.gmnttable i).refcnt) i hi
        · rw [mountedSample_entry i (by omega)]
          simp [Mntent.zero]
          omega
      refcnt_one := by decide
      root_last := rfl
      root_devno := rfl }
  sound :=
    { unlocked := by
        intro x
        by_cases hx : x < 3
        · exact (by decide : ∀ x < 3, (mountedSample.fs.icache x).locked = false) x hx
        · rw [mountedSample_slot x (by omega)]
          rfl
      bound := fun x h => by
        have := mountedSample_ref h
        unfold NINODE
        omega
      -- 参照のある slot は 0, 1, 2 だけなので、残りは有限の検査である
      keys_inj := fun x y hx hy =>
        (by decide : ∀ x < 3, ∀ y < 3, mountedSample.fs.keys x = mountedSample.fs.keys y → x = y)
          x (mountedSample_ref hx) y (mountedSample_ref hy)
      coherent := fun x hx =>
        (by decide : ∀ x < 3, (mountedSample.fs.icache x).valid = true →
            mountedSample.fs.live (mountedSample.fs.icache x).dev = true →
            (mountedSample.fs.icache x).type = (mountedSample.fs.nodeAt (mountedSample.fs.keys x)).type ∧
            (mountedSample.fs.icache x).type ≠ 0 ∧
            (mountedSample.fs.icache x).nlink = (mountedSample.fs.nodeAt (mountedSample.fs.keys x)).nlink)
          x (mountedSample_ref hx)
      linked := sampleDisk_linked }
  mnti_ref := by decide
  mnti_live := by decide
  devno_live := by decide
  devno_nodup := by decide
  mntpnt_nodup := by decide

/-- namex の loop の回りの間の状態。今の inode `ip` の参照が一つ足されている。 -/
structure Walk (s₀ s : Sys) (ip : Nat) : Prop where
  tracks : Tracks s₀.fs s.fs none
  gmnt : s.gmnt = s₀.gmnt
  refs : s.fs.refs = s₀.fs.refs + Pi.single ip 1
  live : s₀.fs.live (s.fs.icache ip).dev = true

/-- 回りの途中で、directory `ip` をロックして持っている状態。 -/
structure Held (fs₀ fs : Fs) (ip : Nat) : Prop where
  tracks : Tracks fs₀ fs (some ip)
  refs : fs.refs = fs₀.refs + Pi.single ip 1
  live : fs₀.live (fs.icache ip).dev = true
  type : (fs.icache ip).type = (fs₀.nodeAt (fs.keys ip)).type
  nonneg : 0 ≤ (fs₀.icache ip).ref

/-- 一回りの結果が、木で一段進んだ結果 `res` に合う。 -/
def NamexStep.Follows (s₀ : Sys) (res : Option (Nat × Nat)) : NamexStep → Prop
  | .done _ r => r = none ∧ res = none
  | .next s ip => Walk s₀ s ip ∧ res = some (s.fs.keys ip)

/-! ## 参照の数 -/

section refs

variable {fs₀ fs : Fs} {x : Nat}

theorem ref_eq_of_refs {d : Nat → Int} (h : fs.refs = fs₀.refs + d) (x : Nat) :
    (fs.icache x).ref = (fs₀.icache x).ref + d x :=
  congrFun h x

theorem ref_lt_of_refs {d : Nat → Int} (h : fs.refs = fs₀.refs + d) (hd : 0 < d x) :
    (fs₀.icache x).ref < (fs.icache x).ref := by
  rw [ref_eq_of_refs h x]
  omega

theorem single_add_single_pos (x y : Nat) : 0 < (Pi.single x 1 + Pi.single y 1 : Nat → Int) y := by
  rw [Pi.add_apply, Pi.single_eq_same, Pi.single_apply]
  split <;> omega

end refs

/-! ## mount の表の探索は木の探索である -/

section sim

variable {s₀ : Sys} {l : List Nat} (hw : ResolveWF s₀ l)
variable {fs fs' : Fs} {lk : Option Nat} {ip : Nat} {name : List Char}

@[simp] theorem ResolveWF.tree_node : hw.tree.node = s₀.fs.nodeAt := rfl

@[simp] theorem ResolveWF.tree_mounts : hw.tree.mounts = mountsOf s₀.gmnt s₀.fs l := rfl

/-- **`getmntpnt`。** device の entry が持つ mount point は、木の `mountPoint` である。 -/
theorem ResolveWF.getmntpnt_sim {d m : Nat} (h : getmntpnt s₀.gmnt d = .ok (some m)) :
    hw.tree.mountPoint d = some (s₀.fs.keys m) ∧ 0 < (s₀.fs.icache m).ref ∧
      s₀.fs.live (s₀.fs.icache m).dev = true := by
  unfold getmntpnt at h
  rw [hw.mnt.findMnt_eq] at h
  cases hf : l.find? (fun i => (s₀.gmnt.gmnttable i).devno == d) with
  | none => simp [hf] at h
  | some i =>
    simp only [hf, ok_bind, pure_eq_ok, Except.ok.injEq] at h
    have hi := List.mem_of_find?_eq_some hf
    have hd : (s₀.gmnt.gmnttable i).devno = d := by simpa using List.find?_some hf
    refine ⟨MountTree.mountPoint_of_mem _ ?_, hw.mnti_ref i hi m h, hw.mnti_live i hi m h⟩
    rw [ResolveWF.tree_mounts, mountsOf, List.mem_filterMap]
    exact ⟨i, hi, by simp [mountOf, h, hd]⟩

/--
**`mntlookup`。** 参照のある slot `next` を mount point とする entry の `devno` は、その位置に
mount された木の device である。
-/
theorem ResolveWF.mntlookup_sim {next : Nat} {g' : Gmnt} {r : Option Nat} (ht : Tracks s₀.fs fs lk)
    (hpos : 0 < (fs.icache next).ref) (h : mntlookup s₀.gmnt next = .ok (g', r)) :
    hw.tree.mountedAt (fs.keys next) = r.map (fun c => (s₀.gmnt.gmnttable c).devno) ∧
      ∀ c, r = some c → c ∈ l := by
  obtain ⟨hf, -⟩ := mntlookup_cases h
  rw [hw.mnt.findMnt_eq, Except.ok.injEq] at hf
  refine ⟨?_, fun c hc => List.mem_of_find?_eq_some (hf.trans hc)⟩
  -- mount point の slot は参照を持つので、位置が同じなら slot も同じである
  have hp : ∀ i ∈ l, (mountOf s₀.gmnt s₀.fs i).any (·.2 == fs.keys next) =
      ((s₀.gmnt.gmnttable i).mnti == some next) := by
    intro i hi
    unfold mountOf
    cases hm : (s₀.gmnt.gmnttable i).mnti with
    | none => rfl
    | some m =>
      have h₀ := hw.mnti_ref i hi m hm
      have hm' : 0 < (fs.icache m).ref := Int.lt_of_lt_of_le h₀ (ht.ref_le m)
      rw [Option.map_some, Option.any_some, ← ht.keys m h₀]
      by_cases e : m = next
      · subst e
        simp
      · have hk : fs.keys m ≠ fs.keys next := fun hk => e (ht.keys_inj m next hm' hpos hk)
        simp [hk, e]
  rw [MountTree.mountedAt, ResolveWF.tree_mounts, mountsOf, List.find?_filterMap,
    List.find?_congr hp, hf]
  cases r with
  | none => rfl
  | some c =>
    have hc : (s₀.gmnt.gmnttable c).mnti = some next := by simpa using List.find?_some hf
    simp [mountOf, hc]

/-! ## 一回りの部品 -/

/-- loop の始めのロック。 -/
theorem Walk.lock {s : Sys} (hk : Walk s₀ s ip) (h : ilock s.fs ip = .ok fs) :
    Held s₀.fs fs ip ∧ fs.keys = s.fs.keys := by
  obtain ⟨ht, hr, hkeys, hty⟩ := ilock_tracks hk.tracks hk.live h
  obtain ⟨h1, -⟩ := ilock_cases h
  have href := ref_eq_of_refs hk.refs ip
  rw [Pi.single_eq_same] at href
  refine ⟨⟨ht, hr ▸ hk.refs, ?_, hkeys ▸ hty, by omega⟩, hkeys⟩
  rw [Fs.dev_of_keys (congrFun hkeys ip)]
  exact hk.live

/-- **`..` で上る。** mount point をロックして持ち、そこは木の `mountPoint` である。 -/
theorem crossUp_sim {m : Nat} (hh : Held s₀.fs fs ip) (h : crossUp s₀.gmnt fs ip = .ok (fs', m)) :
    Held s₀.fs fs' m ∧ hw.tree.mountPoint (fs.icache ip).dev = some (fs'.keys m) := by
  obtain ⟨hr, -⟩ := crossUp_refs h
  unfold crossUp at h
  obtain ⟨mp, hmp, h⟩ := bind_eq_ok.mp h
  cases mp with
  | none => cases h
  | some mnti =>
    obtain ⟨hpt, hpos, hlive⟩ := hw.getmntpnt_sim hmp
    obtain ⟨fs₂, h₂, h⟩ := bind_eq_ok.mp h
    obtain ⟨fs₃, h₃, h⟩ := bind_eq_ok.mp h
    obtain ⟨fs₄, h₄, h⟩ := bind_eq_ok.mp h
    have hm : mnti = m ∧ fs₄ = fs' := by
      split at h
      · cases h
      · cases h
        exact ⟨rfl, rfl⟩
    obtain ⟨rfl, rfl⟩ := hm
    -- 上る先の参照を取ってから、今の directory を放す
    have ht₁ := idup_tracks hh.tracks (Int.lt_of_lt_of_le hpos (hh.tracks.ref_le mnti))
    obtain ⟨ht₂, -⟩ := iunlock_tracks ht₁ h₂
    obtain ⟨hr₂, hk₂, -, -⟩ := iunlock_spec h₂
    have hr₂' : fs₂.refs = s₀.fs.refs + (Pi.single mnti 1 + Pi.single ip 1) := by
      rw [hr₂, idup_refs, hh.refs]
      abel
    rw [idup_keys] at hk₂
    obtain ⟨ht₃, -, -⟩ := iput_tracks ht₂ (ref_lt_of_refs hr₂' (single_add_single_pos mnti ip))
      (by rw [Fs.dev_of_keys (congrFun hk₂ ip)]; exact hh.live) h₃
    have hk₃ := ht₃.keys mnti hpos
    obtain ⟨ht₄, -, -, hty⟩ := ilock_tracks ht₃ (by rw [Fs.dev_of_keys hk₃]; exact hlive) h₄
    have hk₄ := ht₄.keys mnti hpos
    refine ⟨⟨ht₄, ?_, ?_, ?_, Int.le_of_lt hpos⟩, ?_⟩
    · rw [hr, hh.refs]
      abel
    · rw [Fs.dev_of_keys hk₄]
      exact hlive
    · rw [hty, hk₃, hk₄]
    · rw [hk₄]
      exact hpt

/-- **`..` の段。** loop device の root での `..` なら mount point へ上り、そうでなければ留まる。 -/
theorem climbDotdot_sim {ip' : Nat} (hh : Held s₀.fs fs ip)
    (h : climbDotdot s₀.gmnt fs ip name = .ok (fs', ip')) :
    Held s₀.fs fs' ip' ∧ hw.tree.climb (fs.keys ip) name = some (fs'.keys ip') := by
  unfold climbDotdot at h
  rw [MountTree.climb]
  split at h
  · rename_i hc
    rw [if_pos (by exact hc)]
    exact crossUp_sim hw hh h
  · rename_i hc
    cases h
    rw [if_neg (by exact hc)]
    exact ⟨hh, rfl⟩

/--
**mount point を下る。** 見つけた slot `next` が mount point なら、mount された device の root に
置き換える。その位置は木の `enter` である。
-/
theorem crossDown_sim {next next' : Nat} {g' : Gmnt} (ht : Tracks s₀.fs fs lk)
    (hlt : (s₀.fs.icache next).ref < (fs.icache next).ref) (hpos : 0 < (fs.icache next).ref)
    (hlive : s₀.fs.live (fs.icache next).dev = true)
    (h : crossDown s₀.gmnt fs next = .ok (g', fs', next')) :
    g' = s₀.gmnt ∧ Tracks s₀.fs fs' lk ∧ fs'.refs = fs.refs - Pi.single next 1 + Pi.single next' 1 ∧
      fs'.keys next' = hw.tree.enter (fs.keys next) ∧ s₀.fs.live (fs'.icache next').dev = true ∧
      ∀ y, 0 < (fs.icache y).ref - (Pi.single next 1 : Nat → Int) y → fs'.keys y = fs.keys y := by
  obtain ⟨hg, hr, -⟩ := crossDown_refs h
  unfold crossDown at h
  obtain ⟨⟨g₁, mp⟩, hm, h⟩ := bind_eq_ok.mp h
  obtain ⟨hen, hmem⟩ := hw.mntlookup_sim ht hpos hm
  obtain ⟨-, ⟨rfl, rfl⟩ | ⟨c, rfl, rfl⟩⟩ := mntlookup_cases hm
  · -- mount point ではない
    obtain ⟨-, rfl, rfl⟩ : s₀.gmnt = g' ∧ fs = fs' ∧ next = next' := by simpa using h
    have he : hw.tree.enter (fs.keys next) = fs.keys next := by
      rw [MountTree.enter, hen]
      rfl
    exact ⟨hg, ht, hr, he.symm, hlive, fun _ _ => rfl⟩
  · obtain ⟨fs₁, h₁, h⟩ := bind_eq_ok.mp h
    obtain ⟨⟨fs₂, r⟩, h₂, h⟩ := bind_eq_ok.mp h
    obtain ⟨-, rfl, rfl⟩ : mntput (mntdup s₀.gmnt c) c = g' ∧ fs₂ = fs' ∧ r = next' := by simpa using h
    obtain ⟨ht₁, hr₁, hk₁⟩ := iput_tracks ht hlt hlive h₁
    obtain ⟨ht₂, -, hk₂, hkeep⟩ := iget_tracks ht₁ h₂
    have hdev : ((mntdup s₀.gmnt c).gmnttable c).devno = (s₀.gmnt.gmnttable c).devno := by simp [mntdup]
    have he : hw.tree.enter (fs.keys next) = ((s₀.gmnt.gmnttable c).devno, ROOTINO) := by
      rw [MountTree.enter, hen]
      rfl
    refine ⟨hg, ht₂, hr, by rw [hk₂, hdev, he], ?_, fun y hy => ?_⟩
    · rw [Fs.dev_of_keys hk₂, hdev]
      exact hw.devno_live c (hmem c rfl)
    · rw [hkeep y (by rw [ref_eq_of_refs hr₁ y]; exact hy), hk₁]

/-- **名前を探す段。** 一回りの後半は、木の `lookup` に合う。 -/
theorem descend_sim {s : Sys} {st : NamexStep} (hh : Held s₀.fs fs ip) (hg : s.gmnt = s₀.gmnt)
    (h : descend s fs ip name = .ok st) : st.Follows s₀ (hw.tree.lookup (fs.keys ip) name) := by
  unfold descend at h
  rw [bind_eq_ok] at h
  obtain ⟨⟨fs₁, next⟩, h₁, h⟩ := h
  obtain ⟨hdir, -⟩ := dirlookup_cases h₁
  obtain ⟨ht₁, hcase⟩ := dirlookup_tracks hh.tracks hh.live h₁
  -- 木の上でもこの位置は directory である
  have hnode : (s₀.fs.nodeAt (fs.keys ip)).type = T_DIR := hh.type ▸ hdir
  rcases hcase with ⟨hf, rfl, rfl⟩ | ⟨de, n, hf, rfl, hkn, hpos, hrn, hkeys⟩
  · obtain ⟨fs₂, -, h⟩ := bind_eq_ok.mp h
    rw [pure_eq_ok, Except.ok.injEq] at h
    subst h
    refine ⟨rfl, ?_⟩
    simp [MountTree.lookup, hnode, hf]
  · obtain ⟨⟨g, fs₂, next'⟩, h₂, h⟩ := bind_eq_ok.mp h
    obtain ⟨fs₃, h₃, h⟩ := bind_eq_ok.mp h
    rw [pure_eq_ok, Except.ok.injEq] at h
    subst h
    rw [hg] at h₂
    have hr₁ : fs₁.refs = s₀.fs.refs + (Pi.single ip 1 + Pi.single n 1) := by
      rw [hrn, hh.refs, add_assoc]
    have hlive₁ : s₀.fs.live (fs₁.icache n).dev = true := by
      rw [Fs.dev_of_keys hkn]
      exact hh.live
    obtain ⟨rfl, ht₂, hr₂, hk₂, hlive₂, hkeep⟩ :=
      crossDown_sim hw ht₁ (ref_lt_of_refs hr₁ (single_add_single_pos ip n)) hpos hlive₁ h₂
    -- 今の directory の位置は、下る間も変わらない
    have href := ref_eq_of_refs hr₁ ip
    rw [Pi.add_apply, Pi.single_eq_same] at href
    have hkip : fs₂.keys ip = fs.keys ip := by
      rw [hkeep ip (by rw [href]; have := hh.nonneg; omega),
        hkeys ip (by rw [ref_eq_of_refs hh.refs ip, Pi.single_eq_same]; have := hh.nonneg; omega)]
    have hr₂' : fs₂.refs = s₀.fs.refs + (Pi.single next' 1 + Pi.single ip 1) := by
      rw [hr₂, hr₁]
      abel
    obtain ⟨ht₃, hr₃, hk₃⟩ := iunlockput_tracks ht₂ (ref_lt_of_refs hr₂' (single_add_single_pos next' ip))
      (by rw [Fs.dev_of_keys hkip]; exact hh.live) h₃
    refine ⟨⟨ht₃, rfl, ?_, ?_⟩, ?_⟩
    · rw [hr₃, hr₂']
      abel
    · rw [Fs.dev_of_keys (congrFun hk₃ next')]
      exact hlive₂
    · rw [MountTree.lookup, if_neg (by simp [hnode]), ResolveWF.tree_node, hf, Option.map_some,
        hk₃, hk₂, hkn]
      rfl

/-- **一回り。** namex の loop の一回りは、木で一段進むことに合う。 -/
theorem namexStep_sim {s : Sys} {st : NamexStep} {rest : List Char} (hk : Walk s₀ s ip)
    (h : namexStep false s ip rest name = .ok st) : st.Follows s₀ (hw.tree.step (s.fs.keys ip) name) := by
  unfold namexStep at h
  obtain ⟨fs₁, h₁, h⟩ := bind_eq_ok.mp h
  obtain ⟨hh, hkeys⟩ := hk.lock h₁
  have htype : (fs₁.icache ip).type = (s₀.fs.nodeAt (s.fs.keys ip)).type := by
    rw [hh.type, hkeys]
  unfold MountTree.step
  by_cases hd : (fs₁.icache ip).type = T_DIR
  · -- directory：`..` なら上ってから探す
    rw [if_neg (by simp [hd])] at h
    rw [if_neg (by simp [← htype, hd])]
    simp only [Bool.false_and, Bool.false_eq_true, if_false] at h
    obtain ⟨⟨fs₂, ip₂⟩, h₂, h⟩ := bind_eq_ok.mp h
    rw [hk.gmnt] at h₂
    obtain ⟨hh₂, hc⟩ := climbDotdot_sim hw hh h₂
    rw [← hkeys, hc, Option.bind_some]
    exact descend_sim hw hh₂ hk.gmnt h
  · rw [if_pos (by simpa using hd)] at h
    obtain ⟨fs₂, -, h⟩ := bind_eq_ok.mp h
    cases h
    exact ⟨rfl, if_pos (by simpa [← htype] using hd)⟩

/-- **loop。** 要素の列を一つずつたどった結果は、木の `resolve` である。 -/
theorem namexLoop_sim :
    ∀ {fuel : Nat} {s : Sys} {ip : Nat} {path name : List Char} {s' : Sys} {r : Option Nat}
      {name' : List Char},
    Walk s₀ s ip → namexLoop false fuel s ip path name = .ok (s', r, name') →
    r.map s'.fs.keys = hw.tree.resolve (s.fs.keys ip) (elems path)
  | 0, _, _, _, _, _, _, _, _, h => by cases h
  | fuel + 1, s, ip, path, name, s', r, name', hk, h => by
    unfold namexLoop at h
    split at h
    · -- 要素が残っていない
      rename_i hp
      cases h
      rw [elems_of_none hp]
      rfl
    · rename_i rest nm hp
      obtain ⟨st, hst, h⟩ := bind_eq_ok.mp h
      rw [elems_of_some hp, MountTree.resolve]
      have hf := namexStep_sim hw hk hst
      cases st with
      | done s₁ r₁ =>
        cases h
        obtain ⟨rfl, hn⟩ := hf
        rw [hn]
        rfl
      | next s₁ ip₁ =>
        obtain ⟨hk₁, hn⟩ := hf
        rw [hn, Option.bind_some]
        exact namexLoop_sim hk₁ h

end sim

/-- namex の始め。root を `iget` するか、cwd を `idup` する。 -/
theorem namexStart_sim {s₀ : Sys} {cwd ip : Nat} {path : List Char} {fs : Fs} (hs : s₀.fs.Sound)
    (hcwd : path.head? ≠ some '/' → 0 < (s₀.fs.icache cwd).ref ∧ s₀.fs.live (s₀.fs.icache cwd).dev = true)
    (h : namexStart s₀.fs cwd path = .ok (fs, ip)) :
    Walk s₀ { s₀ with fs := fs } ip ∧ fs.keys ip = startOf s₀.fs cwd path := by
  unfold namexStart at h
  unfold startOf
  split at h
  · rename_i hp
    rw [if_pos hp]
    obtain ⟨ht, hr, hk, -⟩ := iget_tracks (Tracks.init hs) h
    refine ⟨⟨ht, rfl, hr, ?_⟩, hk⟩
    rw [Fs.dev_of_keys hk]
    simp [Fs.live, isloopdev_ROOTDEV]
  · rename_i hp
    rw [if_neg hp]
    cases h
    obtain ⟨hpos, hlive⟩ := hcwd hp
    exact ⟨⟨idup_tracks (Tracks.init hs) hpos, rfl, idup_refs, by simpa [idup] using hlive⟩,
      by rw [idup_keys]⟩

/--
**namei は木の解決を refine する。** mount が一対一の状態で `namei` が返すなら、結果の inode は
木の上で path を要素ごとに解決した位置にあり、解決できなければ null である。結果の inode に
参照を一つ足し（null なら何も足さず）、ほかの参照と mount の表は変えない。
-/
theorem namei_refines_tree {s s' : Sys} {l : List Nat} {cwd : Nat} {path : List Char} {r : Option Nat}
    (hw : ResolveWF s l)
    (hcwd : path.head? ≠ some '/' → 0 < (s.fs.icache cwd).ref ∧ s.fs.live (s.fs.icache cwd).dev = true)
    (h : namei s cwd path = .ok (s', r)) :
    r.map s'.fs.keys = hw.tree.resolve (startOf s.fs cwd path) (elems path) ∧
      s'.gmnt = s.gmnt ∧ s'.fs.refs = s.fs.refs + refOf r := by
  obtain ⟨⟨hg, -, -⟩, hr⟩ := namei_refs h
  refine ⟨?_, hg, hr⟩
  unfold namei at h
  obtain ⟨⟨s₁, r₁, nm⟩, hx, hxr⟩ := map_eq_ok.mp h
  cases hxr
  unfold namex at hx
  obtain ⟨⟨fs₁, ip⟩, h₁, h₂⟩ := bind_eq_ok.mp hx
  obtain ⟨hk, hkey⟩ := namexStart_sim hw.sound hcwd h₁
  rw [← hkey]
  exact namexLoop_sim hw hk h₂

/--
起動した kernel で `namei("/")` と `mount("/l.img", "/mnt")` を呼んだ状態（その表は `mountedSample` のもの）で
`namei("/mnt/..")` を呼ぶと、loop device の root から mount point の親の root directory に戻る。
-/
theorem namei_refines_tree_after_mount :
    (∃ s, runList mntCall (bootSys sampleDisk) [.namei 0 "/", .mount 0 "/l.img" "/mnt"] = .ok s ∧
      (∀ x < NINODE, s.fs.icache x = mountedSample.fs.icache x) ∧
      (∀ i < NMNT, s.gmnt.gmnttable i = mountedSample.gmnt.gmnttable i) ∧
      (∀ j < NLOOPDEV, s.fs.loopdevtable j = mountedSample.fs.loopdevtable j) ∧
      s.gmnt.pmntlist = mountedSample.gmnt.pmntlist ∧ s.fs.disk = mountedSample.fs.disk ∧
      s.is_loop_mounted = mountedSample.is_loop_mounted) ∧
    ∃ s' r, namei mountedSample 0 "/mnt/..".toList = .ok (s', r) ∧
      r.map s'.fs.keys = mountedSample_resolveWF.tree.resolve (ROOTDEV, ROOTINO) (elems "/mnt/..".toList) ∧
      s'.gmnt = mountedSample.gmnt ∧ s'.fs.refs = mountedSample.fs.refs + refOf r ∧
      r.map s'.fs.keys = some (ROOTDEV, ROOTINO) := by
  obtain ⟨s', r, h, hr⟩ : ∃ s' r, namei mountedSample 0 "/mnt/..".toList = .ok (s', r) ∧
      r.map s'.fs.keys = some (ROOTDEV, ROOTINO) := ⟨_, _, rfl, rfl⟩
  obtain ⟨hres, hg, hrefs⟩ := namei_refines_tree mountedSample_resolveWF (by simp) h
  exact ⟨mountedSample_reached, s', r, h, hres, hg, hrefs, hr⟩

set_option maxRecDepth 8000 in
/--
**同じ device の二つ目の mount。** `l.img` を `/mnt` と `/d/sub` に mount する。`/mnt` は root
directory の inode 3 で、その `..` は root directory である。`namei("/mnt")` は loop device の root に
着くが、`namei("/mnt/..")` は `/d`（inode 4）を返す。`getmntpnt` は device 番号で active list の
先頭から探すので、後から足した `/d/sub` の entry を見つけ、その `..` をたどる。
-/
theorem dotdot_climbs_to_other_mount :
    ∃ s s₁ s₂ a b, MntReach s ∧
      namei s 0 "/mnt".toList = .ok (s₁, some a) ∧ s₁.fs.keys a = (LOOPDEV_MASK, ROOTINO) ∧
      findDirent (sampleDisk (.dev ROOTDEV) ROOTINO).dirents "mnt".toList = some (.of 3 "mnt") ∧
      findDirent (sampleDisk (.dev ROOTDEV) 3).dirents dotdot = some (.of ROOTINO "..") ∧
      namei s 0 "/mnt/..".toList = .ok (s₂, some b) ∧ s₂.fs.keys b = (ROOTDEV, 4) := by
  obtain ⟨s, s₁, s₂, a, b, hs, h⟩ : ∃ s s₁ s₂ a b,
      runList mntCall (bootSys sampleDisk)
        [.namei 0 "/", .mount 0 "/l.img" "/mnt", .mount 0 "/l.img" "/d/sub"] = .ok s ∧
      (namei s 0 "/mnt".toList = .ok (s₁, some a) ∧ s₁.fs.keys a = (LOOPDEV_MASK, ROOTINO) ∧
      findDirent (sampleDisk (.dev ROOTDEV) ROOTINO).dirents "mnt".toList = some (.of 3 "mnt") ∧
      findDirent (sampleDisk (.dev ROOTDEV) 3).dirents dotdot = some (.of ROOTINO "..") ∧
      namei s 0 "/mnt/..".toList = .ok (s₂, some b) ∧ s₂.fs.keys b = (ROOTDEV, 4)) :=
    ⟨_, _, _, _, _, rfl, rfl, rfl, rfl, rfl, rfl, rfl⟩
  exact ⟨s, s₁, s₂, a, b, .of_runList hs, h⟩

end Xv6
