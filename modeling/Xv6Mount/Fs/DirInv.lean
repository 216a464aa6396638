import Mathlib.Algebra.Order.BigOperators.Group.Finset
import Mathlib.Algebra.BigOperators.Group.Finset.Piecewise
import Xv6Mount.Infra.Count
import Xv6Mount.Fs.Dir

/-!
# directory の木と link の数

`Fs/Dir.lean` の呼び出しが保つ、inode の表の性質 `DirInv`。

使われている inode の `nlink` は、directory の entry のうち `.` 以外でその inode を指すものの数
`linkCount` に等しい。directory の場合、その数は「`..` がそれを指す directory の数」と
「名前で指す entry の数」の和に分かれる（`DirInv.linkCount_eq`）。名前で指す entry は
root に無く、ほかの directory に一つだけあり（`single`）、それは `..` の指す directory の中にある
（`down`）。だから空の directory を `unlink` すると `nlink` はちょうど 0 になる。

* 表の書き換えは四つしかない。entry を足す（`DirInv.addEntry`）、directory を作る（`DirInv.addDir`）、
  file の entry を消す（`DirInv.removeFile`）、空の directory を消す（`DirInv.removeDir`）。どれも
  二行 `dp`・`ip` しか変えず、ほかの行は `frame_of_row` で元のまま
* 呼び出しはそのどれかか、状態を変えない（`DirInv.dirCall`・`DirInv.run`）
* mkfs の image は `DirInv` を満たす（`DirInv.mkfs`）
* `dir_tree_consistent` — mkfs の image から呼び出しを重ねた状態で、`nlink` は `.` 以外で指す entry の
  数に等しく、directory の `nlink` は 1 と子の directory の数の和である
* `unlink_mount_point_breaks_nlink` — mount point として参照されている directory を `unlink` すると、
  その directory は `nlink` 0 のまま残り、親の `nlink` は数と合わなくなる
-/

namespace Xv6

open Infra Finset

/-! ## 名前 -/

theorem namecmp_comm (a b : List Char) : namecmp a b = namecmp b a := by
  unfold namecmp
  rw [Bool.eq_iff_iff, beq_iff_eq, beq_iff_eq]
  exact eq_comm

@[simp] theorem namecmp_take (a b : List Char) : namecmp (a.take DIRSIZ) b = namecmp a b := by
  unfold namecmp
  rw [List.take_take, Nat.min_self]

theorem namecmp_trans {a b c : List Char} (hab : namecmp a b = true) (hbc : namecmp b c = true) :
    namecmp a c = true := by
  simp only [namecmp, beq_iff_eq] at *
  exact hab.trans hbc

/-- 使われている entry の名前は、`namecmp` で互いに違う。 -/
def NamesDistinct (ents : List Dirent) : Prop :=
  ents.Pairwise fun a b => a.inum ≠ 0 → b.inum ≠ 0 → namecmp a.name b.name = false

/-! ## 数え上げ -/

/-- directory の `..` の entry が指す inode。 -/
def Dinode.dotdot (x : Dinode) : Nat := (x.dirents.getD 1 ⟨0, []⟩).inum

theorem Dinode.dotdot_of_dirents {x : Dinode} {a b : Dirent} {rest : List Dirent}
    (h : x.dirents = a :: b :: rest) : x.dotdot = b.inum := by
  simp [Dinode.dotdot, h]

/-- inode `x` の entry のうち、`.` 以外で `i` を指すものの数。directory でなければ 0。 -/
def dirCount (x : Dinode) (i : Nat) : Nat :=
  if x.type = T_DIR then x.dirents.countP (fun de => de.inum == i && !namecmp de.name ['.']) else 0

/-- 表 `t` の中の、`.` 以外で `i` を指す entry の数。 -/
def linkCount (t : Nat → Dinode) (i : Nat) : Nat := ∑ d ∈ range NINODES, dirCount (t d) i

/-- directory `x` の `.`・`..` より後ろの entry のうち、`i` を指すものの数。 -/
def restCount (x : Dinode) (i : Nat) : Nat :=
  if x.type = T_DIR then (x.dirents.drop 2).countP (·.inum == i) else 0

/-- 表 `t` の中で、`i` を名前で指す entry の数。 -/
def nameCount (t : Nat → Dinode) (i : Nat) : Nat := ∑ d ∈ range NINODES, restCount (t d) i

/-- 二つの行の外で等しい表の `linkCount`。 -/
theorem linkCount_frame {t t' : Nat → Dinode} {a b : Nat} (ha : a < NINODES) (hb : b < NINODES)
    (hab : a ≠ b) (hfr : ∀ j, j ≠ a → j ≠ b → t' j = t j) (i : Nat) :
    linkCount t' i + dirCount (t a) i + dirCount (t b) i =
      linkCount t i + dirCount (t' a) i + dirCount (t' b) i :=
  sum_frame₂ _ (dirCount · i) (mem_range.2 ha) (mem_range.2 hb) hab hfr

/-- 二つの行の外で等しい表の `nameCount`。 -/
theorem nameCount_frame {t t' : Nat → Dinode} {a b : Nat} (ha : a < NINODES) (hb : b < NINODES)
    (hab : a ≠ b) (hfr : ∀ j, j ≠ a → j ≠ b → t' j = t j) (i : Nat) :
    nameCount t' i + restCount (t a) i + restCount (t b) i =
      nameCount t i + restCount (t' a) i + restCount (t' b) i :=
  sum_frame₂ _ (restCount · i) (mem_range.2 ha) (mem_range.2 hb) hab hfr

theorem dirCount_of_ne {x : Dinode} (h : x.type ≠ T_DIR) (i : Nat) : dirCount x i = 0 := by
  simp [dirCount, h]

theorem restCount_of_ne {x : Dinode} (h : x.type ≠ T_DIR) (i : Nat) : restCount x i = 0 := by
  simp [restCount, h]

/--
`.`・`..` の後ろの区間 `A` を `B` に置き換えた directory の `dirCount`。
-/
theorem dirCount_replace {x x' : Dinode} {a b : Dirent} {pre A B post : List Dirent}
    (hx : x.type = T_DIR) (hx' : x'.type = T_DIR)
    (hd : x.dirents = a :: b :: (pre ++ A ++ post)) (hd' : x'.dirents = a :: b :: (pre ++ B ++ post))
    (i : Nat) :
    dirCount x' i + A.countP (fun de => de.inum == i && !namecmp de.name ['.']) =
      dirCount x i + B.countP (fun de => de.inum == i && !namecmp de.name ['.']) := by
  simp only [dirCount, hx, hx', if_true, hd, hd', List.countP_cons]
  have := countP_replace (fun de => de.inum == i && !namecmp de.name ['.']) pre A B post
  omega

/-- `.`・`..` の後ろの区間 `A` を `B` に置き換えた directory の `restCount`。 -/
theorem restCount_replace {x x' : Dinode} {a b : Dirent} {pre A B post : List Dirent}
    (hx : x.type = T_DIR) (hx' : x'.type = T_DIR)
    (hd : x.dirents = a :: b :: (pre ++ A ++ post)) (hd' : x'.dirents = a :: b :: (pre ++ B ++ post))
    (i : Nat) :
    restCount x' i + A.countP (·.inum == i) = restCount x i + B.countP (·.inum == i) := by
  simp only [restCount, hx, hx', if_true, hd, hd', List.drop_succ_cons, List.drop_zero]
  exact countP_replace _ pre A B post

/-- `.`・`..` の後ろでは、`.` 以外で `i` を指す entry と `i` を指す entry は同じである。 -/
theorem dirCount_eq_of_dots {x : Dinode} {d p : Nat} {rest : List Dirent} (hx : x.type = T_DIR)
    (hd : x.dirents = ⟨d, ['.']⟩ :: ⟨p, ['.', '.']⟩ :: rest) (hn : NamesDistinct x.dirents)
    (hd0 : d ≠ 0) {i : Nat} (hi : i ≠ 0) :
    dirCount x i = (if p = i then 1 else 0) + restCount x i := by
  have hdot : ∀ e ∈ rest, e.inum ≠ 0 → namecmp e.name ['.'] = false := by
    intro e he h0
    rw [NamesDistinct, hd, List.pairwise_cons] at hn
    rw [namecmp_comm]
    exact hn.1 e (List.mem_cons_of_mem _ he) hd0 h0
  have hrest : rest.countP (fun de => de.inum == i && !namecmp de.name ['.']) =
      rest.countP (·.inum == i) := by
    refine List.countP_congr fun e he => ?_
    by_cases hei : e.inum = i
    · simp [hei, hdot e he (hei ▸ hi)]
    · simp [hei]
  have hd1 : namecmp ['.'] ['.'] = true := by decide
  have hdd : namecmp ['.', '.'] ['.'] = false := by decide
  simp only [dirCount, restCount, hx, if_true, hd, List.countP_cons, List.drop_succ_cons,
    List.drop_zero, hrest, hd1, hdd]
  by_cases hp : p = i <;> simp [hp, Nat.add_comm]

/-- `findDirent` が見つけなかった名前は、使われている entry のどの名前とも違う。 -/
theorem namecmp_of_findDirent {ents : List Dirent} {name : List Char}
    (hf : findDirent ents name = none) {e : Dirent} (he : e ∈ ents) (h0 : e.inum ≠ 0) :
    namecmp e.name (name.take DIRSIZ) = false := by
  have := List.find?_eq_none.1 hf e he
  rw [namecmp_comm, namecmp_take]
  simpa [h0] using this

/-- 空き entry に、どの使われている名前とも違う名前の entry を書いても、名前は重ならない。 -/
theorem NamesDistinct.insert {a b de : Dirent} {pre gap post : List Dirent}
    (hn : NamesDistinct (a :: b :: (pre ++ gap ++ post)))
    (hde : ∀ e ∈ a :: b :: (pre ++ gap ++ post), e.inum ≠ 0 → namecmp e.name de.name = false) :
    NamesDistinct (a :: b :: (pre ++ [de] ++ post)) := by
  have hl : ∀ l : List Dirent, a :: b :: (pre ++ l ++ post) = (a :: b :: pre) ++ l ++ post := by simp
  unfold NamesDistinct at *
  rw [hl] at hn ⊢
  refine pairwise_replace hn (List.pairwise_singleton _ _) ?_ ?_
  · intro x hx y hy h0 _
    rw [List.mem_singleton.1 hy]
    exact hde x (by rw [hl]; exact List.mem_append_left _ (List.mem_append_left _ hx)) h0
  · intro x hx y hy _ h0
    rw [List.mem_singleton.1 hx, namecmp_comm]
    exact hde y (by rw [hl]; exact List.mem_append_right _ hy) h0

/-- entry を空きにしても、名前は重ならない。 -/
theorem NamesDistinct.clear {a b e : Dirent} {pre post : List Dirent}
    (hn : NamesDistinct (a :: b :: (pre ++ [e] ++ post))) :
    NamesDistinct (a :: b :: (pre ++ [⟨0, []⟩] ++ post)) := by
  have hl : ∀ l : List Dirent, a :: b :: (pre ++ l ++ post) = (a :: b :: pre) ++ l ++ post := by simp
  unfold NamesDistinct at *
  rw [hl] at hn ⊢
  refine pairwise_replace hn (List.pairwise_singleton _ _) ?_ ?_
  · intro x _ y hy _ h0
    exact absurd (by rw [List.mem_singleton.1 hy]) h0
  · intro x hx y _ h0
    exact absurd (by rw [List.mem_singleton.1 hx]) h0

/-! ## 不変条件 -/

/-- 呼び出しが保つ inode の表の性質。 -/
structure DirInv (s : DirFs) : Prop where
  bound : ∀ i, (s.disk i).type ≠ 0 → 0 < i ∧ i < NINODES
  /-- directory は `.`（自分）と `..` で始まる。 -/
  dots : ∀ d, (s.disk d).type = T_DIR →
    ∃ p rest, (s.disk d).dirents = ⟨d, ['.']⟩ :: ⟨p, ['.', '.']⟩ :: rest
  names : ∀ d, (s.disk d).type = T_DIR → NamesDistinct (s.disk d).dirents
  nlink : ∀ i, (s.disk i).type ≠ 0 → (s.disk i).nlink = linkCount s.disk i
  unnamed : ∀ i, 0 < i → (s.disk i).type = 0 → linkCount s.disk i = 0
  root : (s.disk ROOTINO).type = T_DIR ∧ (s.disk ROOTINO).dotdot = ROOTINO
  /-- 名前で指される directory の `..` は、その名前を持つ directory を指す。 -/
  up : ∀ d, (s.disk d).type = T_DIR → ∀ e ∈ (s.disk d).dirents.drop 2,
    (s.disk e.inum).type = T_DIR → (s.disk e.inum).dotdot = d
  /-- root 以外の directory は、`..` の指す directory の中に名前を持つ。 -/
  down : ∀ x, (s.disk x).type = T_DIR → x ≠ ROOTINO →
    (s.disk (s.disk x).dotdot).type = T_DIR ∧
      ∃ e ∈ (s.disk (s.disk x).dotdot).dirents.drop 2, e.inum = x
  /-- directory を名前で指す entry は、root には無く、ほかには一つある。 -/
  single : ∀ x, (s.disk x).type = T_DIR → nameCount s.disk x = if x = ROOTINO then 0 else 1
  selfParent : ∀ x, (s.disk x).type = T_DIR → (s.disk x).dotdot = x → x = ROOTINO
  /-- 参照されているのは root directory（cwd）と `open(O_CREATE)` が開いた `T_FILE` だけである。 -/
  held : ∀ i, s.held i = true → i = ROOTINO ∨ (s.disk i).type = T_FILE
  /-- `nlink` が 0 の inode は、呼び出しの外の参照があって解放されずに残ったものである。 -/
  orphan : ∀ i, (s.disk i).type ≠ 0 → (s.disk i).nlink = 0 → s.held i = true

namespace DirInv

variable {s : DirFs}

theorem iput_eq (hi : DirInv s) {i : Nat} (ht : (s.disk i).type ≠ 0) : iputDisk s i = s :=
  iputDisk_of_orphan (hi.orphan i ht)

theorem ne_zero_of_dir (hi : DirInv s) {d : Nat} (hd : (s.disk d).type = T_DIR) : d ≠ 0 :=
  (hi.bound d (by rw [hd]; decide)).1.ne'

theorem lt_of_dir (hi : DirInv s) {d : Nat} (hd : (s.disk d).type = T_DIR) : d < NINODES :=
  (hi.bound d (by rw [hd]; decide)).2

/-- directory の `..` は directory を指す。 -/
theorem dotdot_dir (hi : DirInv s) {d : Nat} (hd : (s.disk d).type = T_DIR) :
    (s.disk (s.disk d).dotdot).type = T_DIR := by
  by_cases hr : d = ROOTINO
  · subst hr
    rw [hi.root.2]
    exact hi.root.1
  · exact (hi.down d hd hr).1

/-- directory の entry は `.`（自分）と `..`（親）で始まる。 -/
theorem dots' (hi : DirInv s) {d : Nat} (hd : (s.disk d).type = T_DIR) :
    ∃ rest, (s.disk d).dirents = ⟨d, ['.']⟩ :: ⟨(s.disk d).dotdot, ['.', '.']⟩ :: rest := by
  obtain ⟨p, rest, h⟩ := hi.dots d hd
  exact ⟨rest, by rw [Dinode.dotdot_of_dirents h, h]⟩

/-- `.` 以外で `i` を指す entry は、`i` を `..` に持つ directory の分と、名前の分である。 -/
theorem linkCount_eq (hi : DirInv s) {i : Nat} (hi0 : i ≠ 0) :
    linkCount s.disk i =
      (∑ d ∈ range NINODES, if (s.disk d).type = T_DIR ∧ (s.disk d).dotdot = i then 1 else 0) +
        nameCount s.disk i := by
  unfold linkCount nameCount
  rw [← sum_add_distrib]
  refine sum_congr rfl fun d _ => ?_
  by_cases hd : (s.disk d).type = T_DIR
  · obtain ⟨rest, hrest⟩ := hi.dots' hd
    rw [dirCount_eq_of_dots hd hrest (hi.names d hd) (hi.ne_zero_of_dir hd) hi0]
    simp [hd]
  · simp [dirCount_of_ne hd, restCount_of_ne hd, hd]

/-- directory は少なくとも一つの entry に指される（root は自分の `..`、ほかは名前）。 -/
theorem linkCount_pos_of_dir (hi : DirInv s) {x : Nat} (hx : (s.disk x).type = T_DIR) :
    0 < linkCount s.disk x := by
  rw [hi.linkCount_eq (hi.ne_zero_of_dir hx)]
  by_cases hr : x = ROOTINO
  · subst hr
    have hle := single_le_sum (f := fun d => if (s.disk d).type = T_DIR ∧ (s.disk d).dotdot = ROOTINO
      then 1 else 0) (fun _ _ => Nat.zero_le _) (mem_range.2 (hi.lt_of_dir hx))
    simp only [hi.root.1, hi.root.2, and_self, if_true] at hle
    omega
  · rw [hi.single x hx, if_neg hr]
    omega

/-- root でない空の directory は、ちょうど一つの entry（親の中の名前）に指される。 -/
theorem linkCount_of_empty (hi : DirInv s) {x : Nat} (hx : (s.disk x).type = T_DIR)
    (hr : x ≠ ROOTINO) (hemp : isdirempty (s.disk x).dirents = true) : linkCount s.disk x = 1 := by
  rw [hi.linkCount_eq (hi.ne_zero_of_dir hx), hi.single x hx, if_neg hr]
  suffices h : ∀ d ∈ range NINODES,
      (if (s.disk d).type = T_DIR ∧ (s.disk d).dotdot = x then 1 else 0) = 0 by
    rw [sum_eq_zero h]
  intro d _
  rw [if_neg]
  rintro ⟨hd, hdx⟩
  -- `..` が `x` を指す directory `d` は、`x` の中に名前を持つはずだが、`x` は空である
  have hdr : d ≠ ROOTINO := by
    rintro rfl
    exact hr (hdx.symm.trans hi.root.2)
  obtain ⟨-, e, he, hed⟩ := hi.down d hd hdr
  rw [hdx] at he
  have h0 : e.inum = 0 := by
    simpa using List.all_eq_true.1 hemp e he
  exact hi.ne_zero_of_dir hd (hed ▸ h0)

/-- 空いている inode を名前で指す entry は無い。 -/
theorem not_named_of_free (hi : DirInv s) {i : Nat} (hfree : (s.disk i).type = 0) (hpos : 0 < i)
    {d : Nat} (hd : (s.disk d).type = T_DIR) {e : Dirent} (he : e ∈ (s.disk d).dirents.drop 2) :
    e.inum ≠ i := by
  have hz : nameCount s.disk i = 0 := by
    have := hi.linkCount_eq hpos.ne'
    rw [hi.unnamed i hpos hfree] at this
    omega
  have hd0 : restCount (s.disk d) i = 0 :=
    (sum_eq_zero_iff.1 hz) d (mem_range.2 (hi.lt_of_dir hd))
  rw [restCount, if_pos hd, List.countP_eq_zero] at hd0
  intro hei
  exact hd0 e he (by simp [hei])

theorem restCount_pos_of_mem {x : Dinode} (hx : x.type = T_DIR) {e : Dirent}
    (he : e ∈ x.dirents.drop 2) : 0 < restCount x e.inum := by
  rw [restCount, if_pos hx]
  exact List.countP_pos_iff.2 ⟨e, he, by simp⟩

theorem restCount_le_nameCount {t : Nat → Dinode} {d : Nat} (hd : d < NINODES) (i : Nat) :
    restCount (t d) i ≤ nameCount t i :=
  single_le_sum (f := fun d => restCount (t d) i) (fun _ _ => Nat.zero_le _) (mem_range.2 hd)

/-- 名前で指されている inode は使われていて、`nlink` は正である。 -/
theorem named (hi : DirInv s) {d : Nat} (hd : (s.disk d).type = T_DIR) {e : Dirent}
    (he : e ∈ (s.disk d).dirents.drop 2) (h0 : e.inum ≠ 0) :
    (s.disk e.inum).type ≠ 0 ∧ 0 < (s.disk e.inum).nlink := by
  have hr := restCount_pos_of_mem hd he
  have hl : 0 < linkCount s.disk e.inum := by
    have := restCount_le_nameCount (t := s.disk) (hi.lt_of_dir hd) e.inum
    have := hi.linkCount_eq h0
    omega
  have ht : (s.disk e.inum).type ≠ 0 := by
    intro ht
    rw [hi.unnamed _ (Nat.pos_of_ne_zero h0) ht] at hl
    exact absurd hl (by decide)
  exact ⟨ht, by rw [hi.nlink _ ht]; exact hl⟩

/-- root を名前で指す entry は無い。 -/
theorem not_named_root (hi : DirInv s) {d : Nat} (hd : (s.disk d).type = T_DIR) {e : Dirent}
    (he : e ∈ (s.disk d).dirents.drop 2) : e.inum ≠ ROOTINO := by
  intro hr
  have h1 := restCount_pos_of_mem hd he
  have h2 := restCount_le_nameCount (t := s.disk) (hi.lt_of_dir hd) e.inum
  rw [hr] at h1 h2
  rw [hi.single ROOTINO hi.root.1, if_pos rfl] at h2
  omega

/-- 子の directory を持つ directory は、二つ以上の entry に指される（子の `..` と、自分の名前か `..`）。 -/
theorem two_le_linkCount (hi : DirInv s) {d x : Nat} (hd : (s.disk d).type = T_DIR)
    (hx : (s.disk x).type = T_DIR) (hxd : (s.disk x).dotdot = d) (hne : x ≠ d) :
    2 ≤ linkCount s.disk d := by
  rw [hi.linkCount_eq (hi.ne_zero_of_dir hd)]
  set f : Nat → Nat := fun j => if (s.disk j).type = T_DIR ∧ (s.disk j).dotdot = d then 1 else 0
    with hf
  have hfx : f x = 1 := by simp [f, hx, hxd]
  by_cases hr : d = ROOTINO
  · -- root は自分の `..` にも指される
    subst hr
    have hfr : f ROOTINO = 1 := by simp [f, hi.root.1, hi.root.2]
    have hle : f x + f ROOTINO ≤ (range NINODES).sum f := by
      rw [← sum_pair hne]
      refine sum_le_sum_of_subset fun j hj => ?_
      rcases mem_insert.1 hj with rfl | hj
      · exact mem_range.2 (hi.lt_of_dir hx)
      · rw [mem_singleton.1 hj]; exact mem_range.2 (hi.lt_of_dir hd)
    omega
  · have hle : f x ≤ (range NINODES).sum f :=
      single_le_sum (f := f) (fun _ _ => Nat.zero_le _) (mem_range.2 (hi.lt_of_dir hx))
    rw [hi.single d hd, if_neg hr]
    omega

end DirInv

/-- `.`・`..` でない名前の entry は、その二つより後ろにある。 -/
theorem eq_dots_append {a b e : Dirent} {rest pre post : List Dirent}
    (h : a :: b :: rest = pre ++ e :: post) (ha : namecmp a.name ['.'] = true)
    (hb : namecmp b.name ['.', '.'] = true) (hdot : namecmp e.name ['.'] = false)
    (hdotdot : namecmp e.name ['.', '.'] = false) :
    ∃ pre', pre = a :: b :: pre' ∧ rest = pre' ++ [e] ++ post := by
  rcases pre with _ | ⟨x, _ | ⟨y, pre'⟩⟩
  · simp only [List.nil_append, List.cons.injEq] at h
    rw [← h.1, ha] at hdot
    exact absurd hdot (by decide)
  · simp only [List.cons_append, List.nil_append, List.cons.injEq] at h
    rw [← h.2.1, hb] at hdotdot
    exact absurd hdotdot (by decide)
  · simp only [List.cons_append, List.cons.injEq] at h
    obtain ⟨rfl, rfl, rfl⟩ := h
    exact ⟨pre', rfl, by simp⟩

/-! ## 表の三つの書き換え -/

/-- `dirlink` で `.` 以外の名前の entry を一つ書いた directory の `dirCount` と `restCount`。 -/
theorem counts_insert {x x' : Dinode} {a b : Dirent} {pre gap post : List Dirent} {ip : Nat}
    {nm : List Char} (hx : x.type = T_DIR) (hx' : x'.type = T_DIR)
    (hd : x.dirents = a :: b :: (pre ++ gap ++ post))
    (hd' : x'.dirents = a :: b :: (pre ++ [⟨ip, nm⟩] ++ post)) (hgap : ∀ e ∈ gap, e.inum = 0)
    (hdot : namecmp nm ['.'] = false) {j : Nat} (hj : j ≠ 0) :
    dirCount x' j = dirCount x j + (if ip = j then 1 else 0) ∧
      restCount x' j = restCount x j + (if ip = j then 1 else 0) := by
  have hg : ∀ e ∈ gap, (e.inum == j) = false := fun e he => by simp [hgap e he, Ne.symm hj]
  have h1 := dirCount_replace hx hx' hd hd' j
  have h2 := restCount_replace hx hx' hd hd' j
  rw [List.countP_eq_zero.2 (fun e he => by simp [hg e he])] at h1
  rw [List.countP_eq_zero.2 (fun e he => by simp [hg e he])] at h2
  have hde : [(⟨ip, nm⟩ : Dirent)].countP (fun de => de.inum == j && !namecmp de.name ['.']) =
      if ip = j then 1 else 0 := by
    by_cases hij : ip = j <;> simp [hij, hdot]
  have hde' : [(⟨ip, nm⟩ : Dirent)].countP (·.inum == j) = if ip = j then 1 else 0 := by
    by_cases hij : ip = j <;> simp [hij]
  rw [hde] at h1
  rw [hde'] at h2
  omega

/-- `.` 以外の名前の entry を一つ空きにした directory の `dirCount` と `restCount`。 -/
theorem counts_clear {x x' : Dinode} {a b e : Dirent} {pre post : List Dirent}
    (hx : x.type = T_DIR) (hx' : x'.type = T_DIR) (hd : x.dirents = a :: b :: (pre ++ [e] ++ post))
    (hd' : x'.dirents = a :: b :: (pre ++ [⟨0, []⟩] ++ post)) (hdot : namecmp e.name ['.'] = false)
    {j : Nat} (hj : j ≠ 0) :
    dirCount x' j + (if e.inum = j then 1 else 0) = dirCount x j ∧
      restCount x' j + (if e.inum = j then 1 else 0) = restCount x j := by
  have h1 := dirCount_replace hx hx' hd hd' j
  have h2 := restCount_replace hx hx' hd hd' j
  have hz : [(⟨0, []⟩ : Dirent)].countP (·.inum == j) = 0 := by simp [Ne.symm hj]
  have hz' : [(⟨0, []⟩ : Dirent)].countP (fun de => de.inum == j && !namecmp de.name ['.']) = 0 := by
    simp [Ne.symm hj]
  have he : [e].countP (fun de => de.inum == j && !namecmp de.name ['.']) =
      if e.inum = j then 1 else 0 := by
    by_cases hej : e.inum = j <;> simp [hej, hdot]
  have he' : [e].countP (·.inum == j) = if e.inum = j then 1 else 0 := by
    by_cases hej : e.inum = j <;> simp [hej]
  rw [he, hz'] at h1
  rw [he', hz] at h2
  omega

/-- 行 `dp` で `f` の値が変わらず、`dp`・`x` の外で等しい表は、`x` の外のどの行でも `f` の値が等しい。 -/
theorem frame_of_row {β : Type*} (f : Dinode → β) {t t' : Nat → Dinode} {dp x : Nat}
    (hdp : f (t' dp) = f (t dp)) (hfr : ∀ j, j ≠ dp → j ≠ x → t' j = t j) :
    ∀ j, j ≠ x → f (t' j) = f (t j) := by
  intro j hj
  by_cases hjd : j = dp
  · subst hjd
    exact hdp
  · rw [hfr j hjd hj]

section Change

variable {s s' : DirFs} {dp ip : Nat}

/--
directory `dp` への `dirlink` は、`.`・`..` の後ろの空き entry の区間 `gap` に `ip` の entry を書く。
書く名前は `.` でない。
-/
theorem DirInv.dirlink_dots {name : List Char} {ents : List Dirent} (hi : DirInv s)
    (hdp : (s.disk dp).type = T_DIR) (hl : dirlink (s.disk dp).dirents name ip = .ok (some ents)) :
    ∃ pre gap post, (s.disk dp).dirents =
        ⟨dp, ['.']⟩ :: ⟨(s.disk dp).dotdot, ['.', '.']⟩ :: (pre ++ gap ++ post) ∧
      (∀ e ∈ gap, e.inum = 0) ∧
      ents = ⟨dp, ['.']⟩ :: ⟨(s.disk dp).dotdot, ['.', '.']⟩ :: (pre ++ [⟨ip, name.take DIRSIZ⟩] ++ post) ∧
      findDirent (⟨dp, ['.']⟩ :: ⟨(s.disk dp).dotdot, ['.', '.']⟩ :: (pre ++ gap ++ post)) name = none ∧
      namecmp (name.take DIRSIZ) ['.'] = false := by
  have hdp0 := hi.ne_zero_of_dir hdp
  obtain ⟨rest, hrest⟩ := hi.dots' hdp
  rw [hrest] at hl
  obtain ⟨hf, pre, gap, post, rfl, hgap, rfl⟩ := dirlink_eq_some_dots hdp0
    (show (⟨(s.disk dp).dotdot, ['.', '.']⟩ : Dirent).inum ≠ 0 from
      hi.ne_zero_of_dir (hi.dotdot_dir hdp)) hl
  refine ⟨pre, gap, post, hrest, hgap, rfl, hf, ?_⟩
  -- `.` の entry は使われているので、見つからなかった名前は `.` でない
  rw [namecmp_comm]
  exact namecmp_of_findDirent hf (List.mem_cons_self ..) hdp0

/--
directory `dp` に、directory でない inode `ip` を指す entry を `dirlink` で書き、`ip` を `X` に
する（`nlink` は一つ増える）。`create` の file と device、`sys_link` の成功。
-/
theorem DirInv.addEntry {name : List Char} {ents : List Dirent} {X : Dinode} (hi : DirInv s)
    (hdp : (s.disk dp).type = T_DIR) (hl : dirlink (s.disk dp).dirents name ip = .ok (some ents))
    (hip : (s.disk ip).type ≠ T_DIR) (hpos : 0 < ip) (hlt : ip < NINODES)
    (hXt : X.type ≠ 0) (hXd : X.type ≠ T_DIR) (hXn : X.nlink = linkCount s.disk ip + 1)
    (hXo : s.held ip = true → X.type = T_FILE)
    (hdp' : s'.disk dp = { s.disk dp with dirents := ents }) (hip' : s'.disk ip = X)
    (hfr : ∀ j, j ≠ dp → j ≠ ip → s'.disk j = s.disk j) (hop : s'.held = s.held) :
    DirInv s' := by
  have hne : dp ≠ ip := by rintro rfl; exact hip hdp
  obtain ⟨pre, gap, post, hrest, hgap, rfl, hf, hdot⟩ := hi.dirlink_dots hdp hl
  have hdp'' : (s'.disk dp).dirents = ⟨dp, ['.']⟩ :: ⟨(s.disk dp).dotdot, ['.', '.']⟩ ::
      (pre ++ [⟨ip, name.take DIRSIZ⟩] ++ post) := by rw [hdp']
  have hdpt : (s'.disk dp).type = T_DIR := by rw [hdp']; exact hdp
  -- `ip` の外では、type、`nlink` と `..` は変わらない
  have hty : ∀ j, j ≠ ip → (s'.disk j).type = (s.disk j).type := frame_of_row Dinode.type (by rw [hdp']) hfr
  have hnl : ∀ j, j ≠ ip → (s'.disk j).nlink = (s.disk j).nlink := frame_of_row Dinode.nlink (by rw [hdp']) hfr
  have hdir : ∀ j, (s'.disk j).type = T_DIR ↔ (s.disk j).type = T_DIR := by
    intro j
    by_cases hj : j = ip
    · subst hj; rw [hip']; simp [hXd, hip]
    · rw [hty j hj]
  have hnip : ∀ j, (s.disk j).type = T_DIR → j ≠ ip := fun j hj he => hip (he ▸ hj)
  have hdd : ∀ j, j ≠ ip → (s'.disk j).dotdot = (s.disk j).dotdot :=
    frame_of_row Dinode.dotdot (by rw [Dinode.dotdot_of_dirents hdp'', Dinode.dotdot_of_dirents hrest]) hfr
  -- 数は `ip` の分だけ増える
  have hc := fun j (hj : j ≠ 0) => counts_insert hdp hdpt hrest hdp'' hgap hdot hj
  have hlink : ∀ j, j ≠ 0 → linkCount s'.disk j = linkCount s.disk j + (if ip = j then 1 else 0) := by
    intro j hj
    have := linkCount_frame (hi.lt_of_dir hdp) hlt hne hfr j
    rw [dirCount_of_ne hip, hip', dirCount_of_ne hXd, (hc j hj).1] at this
    omega
  have hname : ∀ j, j ≠ 0 → nameCount s'.disk j = nameCount s.disk j + (if ip = j then 1 else 0) := by
    intro j hj
    have := nameCount_frame (hi.lt_of_dir hdp) hlt hne hfr j
    rw [restCount_of_ne hip, hip', restCount_of_ne hXd, (hc j hj).2] at this
    omega
  -- 消えない entry は書いた後にも残る
  have hkeep : ∀ e ∈ ((s.disk dp).dirents.drop 2), e.inum ≠ 0 →
      e ∈ ((s'.disk dp).dirents.drop 2) := by
    intro e he h0
    rw [hrest] at he
    rw [hdp'']
    exact mem_replace_of_not_mem he fun hg => h0 (hgap e hg)
  have hfrom : ∀ e ∈ ((s'.disk dp).dirents.drop 2), e ∈ ((s.disk dp).dirents.drop 2) ∨ e.inum = ip := by
    intro e he
    rw [hdp''] at he
    rw [hrest]
    exact (mem_replace he).imp_right fun h => by rw [List.mem_singleton.1 h]
  refine ⟨?bound, ?dots, ?names, ?nlink, ?unnamed, ?root, ?up, ?down, ?single, ?selfParent,
    ?held, ?orphan⟩
  case bound =>
    intro j hj
    by_cases hji : j = ip
    · exact hji ▸ ⟨hpos, hlt⟩
    · exact hi.bound j (by rwa [← hty j hji])
  case dots =>
    intro d hd
    by_cases hdd' : d = dp
    · subst hdd'; exact ⟨_, _, hdp''⟩
    · have hdi := hnip d ((hdir d).1 hd)
      rw [hfr d hdd' hdi] at hd ⊢
      exact hi.dots d hd
  case names =>
    intro d hd
    by_cases hdd' : d = dp
    · subst hdd'
      rw [hdp'']
      have hn := hi.names d hdp
      rw [hrest] at hn
      exact hn.insert fun e he h0 => namecmp_of_findDirent hf he h0
    · have hdi := hnip d ((hdir d).1 hd)
      rw [hfr d hdd' hdi] at hd ⊢
      exact hi.names d hd
  case nlink =>
    intro j hj
    by_cases hji : j = ip
    · subst hji
      rw [hip', hXn, hlink j hpos.ne', if_pos rfl]
    · have hj' : (s.disk j).type ≠ 0 := by rwa [← hty j hji]
      rw [hlink j (hi.bound j hj').1.ne', if_neg (Ne.symm hji), Nat.add_zero, ← hi.nlink j hj']
      exact hnl j hji
  case unnamed =>
    intro j hj0 hj
    have hji : j ≠ ip := by rintro rfl; rw [hip'] at hj; exact hXt hj
    rw [hlink j hj0.ne', if_neg (Ne.symm hji), hi.unnamed j hj0 (by rwa [← hty j hji])]
  case root =>
    have hri := hnip _ hi.root.1
    exact ⟨by rw [hty _ hri]; exact hi.root.1, by rw [hdd _ hri]; exact hi.root.2⟩
  case up =>
    intro d hd e he hed
    have hdi := hnip d ((hdir d).1 hd)
    have hei := hnip e.inum ((hdir _).1 hed)
    rw [hdd _ hei]
    by_cases hdd' : d = dp
    · subst hdd'
      rcases hfrom e he with he | he
      · exact hi.up d hdp e he ((hdir _).1 hed)
      · exact absurd he hei
    · rw [hfr d hdd' hdi] at he
      exact hi.up d ((hdir d).1 hd) e he ((hdir _).1 hed)
  case down =>
    intro x hx hxr
    have hxi := hnip x ((hdir x).1 hx)
    obtain ⟨hq, e, he, hex⟩ := hi.down x ((hdir x).1 hx) hxr
    rw [hdd x hxi]
    refine ⟨(hdir _).2 hq, ?_⟩
    by_cases hqd : (s.disk x).dotdot = dp
    · rw [hqd] at he ⊢
      exact ⟨e, hkeep e he (hex ▸ hi.ne_zero_of_dir ((hdir x).1 hx)), hex⟩
    · rw [hfr _ hqd (hnip _ hq)]
      exact ⟨e, he, hex⟩
  case single =>
    intro x hx
    have hxi := hnip x ((hdir x).1 hx)
    rw [hname x (hi.ne_zero_of_dir ((hdir x).1 hx)), if_neg (Ne.symm hxi), Nat.add_zero]
    exact hi.single x ((hdir x).1 hx)
  case selfParent =>
    intro x hx hxx
    have hxi := hnip x ((hdir x).1 hx)
    exact hi.selfParent x ((hdir x).1 hx) (by rwa [← hdd x hxi])
  case held =>
    intro j hj
    rw [hop] at hj
    by_cases hji : j = ip
    · subst hji; rw [hip']; exact .inr (hXo hj)
    · rw [hty j hji]; exact hi.held j hj
  case orphan =>
    intro j hj hn
    rw [hop]
    by_cases hji : j = ip
    · subst hji; rw [hip', hXn] at hn; omega
    · have hj' : (s.disk j).type ≠ 0 := by rwa [← hty j hji]
      exact hi.orphan j hj' (by rwa [hnl j hji] at hn)

/--
directory `dp` に、空いていた inode `ip` を新しい directory として書く。`ip` は `.` と
`..`（`dp`）だけを持ち、`dp` の `nlink` は `..` の分だけ増える。`create` の directory。
-/
theorem DirInv.addDir {name : List Char} {ents : List Dirent} (hi : DirInv s)
    (hdp : (s.disk dp).type = T_DIR) (hl : dirlink (s.disk dp).dirents name ip = .ok (some ents))
    (hfree : (s.disk ip).type = 0) (hpos : 0 < ip) (hlt : ip < NINODES)
    (hdp' : s'.disk dp = { s.disk dp with nlink := (s.disk dp).nlink + 1, dirents := ents })
    (hip' : s'.disk ip = ⟨T_DIR, 1, [⟨ip, ['.']⟩, ⟨dp, ['.', '.']⟩]⟩)
    (hfr : ∀ j, j ≠ dp → j ≠ ip → s'.disk j = s.disk j) (hop : s'.held = s.held) :
    DirInv s' := by
  have hne : dp ≠ ip := by rintro rfl; rw [hdp] at hfree; exact absurd hfree (by decide)
  obtain ⟨pre, gap, post, hrest, hgap, rfl, hf, hdot⟩ := hi.dirlink_dots hdp hl
  have hdp'' : (s'.disk dp).dirents = ⟨dp, ['.']⟩ :: ⟨(s.disk dp).dotdot, ['.', '.']⟩ ::
      (pre ++ [⟨ip, name.take DIRSIZ⟩] ++ post) := by rw [hdp']
  have hdpt : (s'.disk dp).type = T_DIR := by rw [hdp']; exact hdp
  have hipt : (s'.disk ip).type = T_DIR := by rw [hip']
  have hty : ∀ j, j ≠ ip → (s'.disk j).type = (s.disk j).type := frame_of_row Dinode.type (by rw [hdp']) hfr
  have hnip : ∀ j, (s.disk j).type ≠ 0 → j ≠ ip := fun j hj he => hj (he ▸ hfree)
  have hdirne : ∀ j, (s.disk j).type = T_DIR → (s.disk j).type ≠ 0 := fun j hj => by
    rw [hj]; decide
  have hdd : ∀ j, j ≠ ip → (s'.disk j).dotdot = (s.disk j).dotdot :=
    frame_of_row Dinode.dotdot (by rw [Dinode.dotdot_of_dirents hdp'', Dinode.dotdot_of_dirents hrest]) hfr
  have hipdd : (s'.disk ip).dotdot = dp := by rw [hip']; rfl
  -- 数は、`dp` の中の名前の分と、`ip` の `..` の分だけ増える
  have hc := fun j (hj : j ≠ 0) => counts_insert hdp hdpt hrest hdp'' hgap hdot hj
  have hipc : ∀ j, j ≠ 0 → dirCount (s'.disk ip) j = (if dp = j then 1 else 0) ∧
      restCount (s'.disk ip) j = 0 := by
    intro j hj
    have hdd' : namecmp ['.', '.'] ['.'] = false := by decide
    have hd1 : namecmp ['.'] ['.'] = true := by decide
    rw [hip']
    by_cases hdj : dp = j <;> simp [dirCount, restCount, T_DIR, hdj, hdd', hd1]
  have hlink : ∀ j, j ≠ 0 → linkCount s'.disk j =
      linkCount s.disk j + (if ip = j then 1 else 0) + (if dp = j then 1 else 0) := by
    intro j hj
    have := linkCount_frame (hi.lt_of_dir hdp) hlt hne hfr j
    have h0 : dirCount (s.disk ip) j = 0 := dirCount_of_ne (by rw [hfree]; decide) j
    rw [h0, (hipc j hj).1, (hc j hj).1] at this
    omega
  have hname : ∀ j, j ≠ 0 → nameCount s'.disk j = nameCount s.disk j + (if ip = j then 1 else 0) := by
    intro j hj
    have := nameCount_frame (hi.lt_of_dir hdp) hlt hne hfr j
    have h0 : restCount (s.disk ip) j = 0 := restCount_of_ne (by rw [hfree]; decide) j
    rw [h0, (hipc j hj).2, (hc j hj).2] at this
    omega
  have hipn : nameCount s.disk ip = 0 := by
    have := hi.linkCount_eq hpos.ne'
    rw [hi.unnamed ip hpos hfree] at this
    omega
  have hkeep : ∀ e ∈ ((s.disk dp).dirents.drop 2), e.inum ≠ 0 →
      e ∈ ((s'.disk dp).dirents.drop 2) := by
    intro e he h0
    rw [hrest] at he
    rw [hdp'']
    exact mem_replace_of_not_mem he fun hg => h0 (hgap e hg)
  have hfrom : ∀ e ∈ ((s'.disk dp).dirents.drop 2), e ∈ ((s.disk dp).dirents.drop 2) ∨ e.inum = ip := by
    intro e he
    rw [hdp''] at he
    rw [hrest]
    exact (mem_replace he).imp_right fun h => by rw [List.mem_singleton.1 h]
  have hnew : ∃ e ∈ ((s'.disk dp).dirents.drop 2), e.inum = ip :=
    ⟨⟨ip, name.take DIRSIZ⟩, by rw [hdp'']; simp, rfl⟩
  refine ⟨?bound, ?dots, ?names, ?nlink, ?unnamed, ?root, ?up, ?down, ?single, ?selfParent,
    ?held, ?orphan⟩
  case bound =>
    intro j hj
    by_cases hji : j = ip
    · exact hji ▸ ⟨hpos, hlt⟩
    · exact hi.bound j (by rwa [← hty j hji])
  case dots =>
    intro d hd
    by_cases hdi : d = ip
    · subst hdi; exact ⟨dp, [], by rw [hip']⟩
    by_cases hdd' : d = dp
    · subst hdd'; exact ⟨_, _, hdp''⟩
    · rw [hfr d hdd' hdi] at hd ⊢
      exact hi.dots d hd
  case names =>
    intro d hd
    by_cases hdi : d = ip
    · subst hdi
      have hdd' : namecmp ['.'] ['.', '.'] = false := by decide
      rw [hip']
      simp [NamesDistinct, hdd']
    by_cases hdd' : d = dp
    · subst hdd'
      rw [hdp'']
      have hn := hi.names d hdp
      rw [hrest] at hn
      exact hn.insert fun e he h0 => namecmp_of_findDirent hf he h0
    · rw [hfr d hdd' hdi] at hd ⊢
      exact hi.names d hd
  case nlink =>
    intro j hj
    by_cases hji : j = ip
    · subst hji
      rw [hip', hlink j hpos.ne', if_pos rfl, if_neg hne, hi.unnamed j hpos hfree]
    have hj' : (s.disk j).type ≠ 0 := by rwa [← hty j hji]
    rw [hlink j (hi.bound j hj').1.ne', if_neg (Ne.symm hji), Nat.add_zero, ← hi.nlink j hj']
    by_cases hjd : j = dp
    · subst hjd; rw [hdp', if_pos rfl]
    · rw [hfr j hjd hji, if_neg (Ne.symm hjd), Nat.add_zero]
  case unnamed =>
    intro j hj0 hj
    have hji : j ≠ ip := by rintro rfl; rw [hipt] at hj; exact absurd hj (by decide)
    have hjd : j ≠ dp := by rintro rfl; rw [hdpt] at hj; exact absurd hj (by decide)
    rw [hlink j hj0.ne', if_neg (Ne.symm hji), if_neg (Ne.symm hjd),
      hi.unnamed j hj0 (by rwa [← hty j hji])]
  case root =>
    have hri := hnip _ (hdirne _ hi.root.1)
    exact ⟨by rw [hty _ hri]; exact hi.root.1, by rw [hdd _ hri]; exact hi.root.2⟩
  case up =>
    intro d hd e he hed
    by_cases hdi : d = ip
    · subst hdi
      rw [hip'] at he
      simp at he
    by_cases hei : e.inum = ip
    · -- 名前で指されている `ip` は、いま書いた entry のもの
      rw [hei, hipdd]
      by_cases hdd' : d = dp
      · exact hdd'.symm
      · rw [hfr d hdd' hdi] at he hd
        exact absurd hei (hi.not_named_of_free hfree hpos hd he)
    rw [hdd _ hei]
    have hed' : (s.disk e.inum).type = T_DIR := by rwa [← hty _ hei]
    by_cases hdd' : d = dp
    · subst hdd'
      rcases hfrom e he with he | he
      · exact hi.up d hdp e he hed'
      · exact absurd he hei
    · rw [hfr d hdd' hdi] at he hd
      exact hi.up d hd e he hed'
  case down =>
    intro x hx hxr
    by_cases hxi : x = ip
    · subst hxi
      rw [hipdd]
      exact ⟨hdpt, hnew⟩
    have hx' : (s.disk x).type = T_DIR := by rwa [← hty x hxi]
    obtain ⟨hq, e, he, hex⟩ := hi.down x hx' hxr
    rw [hdd x hxi]
    have hqi := hnip _ (hdirne _ hq)
    refine ⟨by rw [hty _ hqi]; exact hq, ?_⟩
    by_cases hqd : (s.disk x).dotdot = dp
    · rw [hqd] at he ⊢
      exact ⟨e, hkeep e he (hex ▸ hi.ne_zero_of_dir hx'), hex⟩
    · rw [hfr _ hqd hqi]
      exact ⟨e, he, hex⟩
  case single =>
    intro x hx
    by_cases hxi : x = ip
    · subst hxi
      have hxr : x ≠ ROOTINO := hnip _ (hdirne _ hi.root.1) ∘ Eq.symm
      rw [hname x hpos.ne', if_pos rfl, hipn, if_neg hxr]
    have hx' : (s.disk x).type = T_DIR := by rwa [← hty x hxi]
    rw [hname x (hi.ne_zero_of_dir hx'), if_neg (Ne.symm hxi), Nat.add_zero]
    exact hi.single x hx'
  case selfParent =>
    intro x hx hxx
    by_cases hxi : x = ip
    · subst hxi
      rw [hipdd] at hxx
      exact absurd hxx hne
    have hx' : (s.disk x).type = T_DIR := by rwa [← hty x hxi]
    exact hi.selfParent x hx' (by rwa [← hdd x hxi])
  case held =>
    intro j hj
    rw [hop] at hj
    rcases hi.held j hj with rfl | hjt
    · exact .inl rfl
    · have hji : j ≠ ip := hnip j (by rw [hjt]; decide)
      rw [hty j hji]
      exact .inr hjt
  case orphan =>
    intro j hj hn
    rw [hop]
    by_cases hji : j = ip
    · subst hji; rw [hip'] at hn; simp at hn
    by_cases hjd : j = dp
    · subst hjd; rw [hdp'] at hn; exact absurd hn (by simp)
    · rw [hfr j hjd hji] at hj hn
      exact hi.orphan j hj hn

/--
directory `dp` の `.`・`..` 以外の entry `e` を空きにし、directory でない `e.inum` の `nlink` を
一つ減らす。0 になって開いた参照もなければ、`iput` が解放する。`sys_unlink` の file と device。
-/
theorem DirInv.removeFile {pre post : List Dirent} {e : Dirent} (hi : DirInv s)
    (hdp : (s.disk dp).type = T_DIR) (hents : (s.disk dp).dirents = pre ++ e :: post)
    (he0 : e.inum ≠ 0) (hdot : namecmp e.name ['.'] = false)
    (hdotdot : namecmp e.name ['.', '.'] = false) (hxd : (s.disk e.inum).type ≠ T_DIR)
    (hdp' : s'.disk dp = { s.disk dp with dirents := pre ++ ⟨0, []⟩ :: post })
    (hip' : s'.disk e.inum =
      if (s.disk e.inum).nlink - 1 = 0 ∧ s.held e.inum = false then ⟨0, 0, []⟩
      else { s.disk e.inum with nlink := (s.disk e.inum).nlink - 1 })
    (hfr : ∀ j, j ≠ dp → j ≠ e.inum → s'.disk j = s.disk j) (hop : s'.held = s.held) :
    DirInv s' := by
  have hne : dp ≠ e.inum := by intro h; rw [h] at hdp; exact hxd hdp
  obtain ⟨rest, hrest⟩ := hi.dots' hdp
  obtain ⟨pre', rfl, rfl⟩ := eq_dots_append (hrest.symm.trans hents) rfl rfl hdot hdotdot
  have hrest' : (s.disk dp).dirents = ⟨dp, ['.']⟩ :: ⟨(s.disk dp).dotdot, ['.', '.']⟩ ::
      (pre' ++ [e] ++ post) := by rw [hents]; simp
  have hdp'' : (s'.disk dp).dirents = ⟨dp, ['.']⟩ :: ⟨(s.disk dp).dotdot, ['.', '.']⟩ ::
      (pre' ++ [⟨0, []⟩] ++ post) := by rw [hdp']; simp
  have hdpt : (s'.disk dp).type = T_DIR := by rw [hdp']; exact hdp
  have hemem : e ∈ (s.disk dp).dirents.drop 2 := by rw [hrest']; simp
  obtain ⟨hxt, hxn⟩ := hi.named hdp hemem he0
  -- `e.inum` の新しい値は、解放されたか `nlink` が一つ減ったもの
  have hXd : (s'.disk e.inum).type ≠ T_DIR := by
    rw [hip']; split
    · decide
    · exact hxd
  have hXt : (s'.disk e.inum).type ≠ 0 → (s'.disk e.inum).type = (s.disk e.inum).type ∧
      (s'.disk e.inum).nlink = (s.disk e.inum).nlink - 1 := by
    rw [hip']; split
    · intro h; exact absurd rfl h
    · exact fun _ => ⟨rfl, rfl⟩
  have hX0 : (s'.disk e.inum).type = 0 → (s.disk e.inum).nlink - 1 = 0 := by
    rw [hip']; split
    · next h => exact fun _ => h.1
    · exact fun h => absurd h hxt
  have hXo : s.held e.inum = true → (s'.disk e.inum).type = (s.disk e.inum).type ∧
      (s'.disk e.inum).nlink = (s.disk e.inum).nlink - 1 := by
    intro ho
    rw [hip', if_neg (by simp [ho])]
    exact ⟨rfl, rfl⟩
  have hty : ∀ j, j ≠ e.inum → (s'.disk j).type = (s.disk j).type :=
    frame_of_row Dinode.type (by rw [hdp']) hfr
  have hnl : ∀ j, j ≠ e.inum → (s'.disk j).nlink = (s.disk j).nlink :=
    frame_of_row Dinode.nlink (by rw [hdp']) hfr
  have hdir : ∀ j, (s'.disk j).type = T_DIR → (s.disk j).type = T_DIR ∧ j ≠ e.inum := by
    intro j hj
    have hji : j ≠ e.inum := by rintro rfl; exact hXd hj
    exact ⟨by rwa [← hty j hji], hji⟩
  have hdd : ∀ j, j ≠ e.inum → (s'.disk j).dotdot = (s.disk j).dotdot :=
    frame_of_row Dinode.dotdot (by rw [Dinode.dotdot_of_dirents hdp'', Dinode.dotdot_of_dirents hrest']) hfr
  -- 数は `e.inum` の分だけ減る
  have hc := fun j (hj : j ≠ 0) => counts_clear hdp hdpt hrest' hdp'' hdot hj
  have hlink : ∀ j, j ≠ 0 → linkCount s'.disk j + (if e.inum = j then 1 else 0) = linkCount s.disk j := by
    intro j hj
    have := linkCount_frame (hi.lt_of_dir hdp) (hi.bound e.inum hxt).2 hne hfr j
    rw [dirCount_of_ne hxd, dirCount_of_ne hXd] at this
    have := (hc j hj).1
    omega
  have hname : ∀ j, j ≠ 0 → nameCount s'.disk j + (if e.inum = j then 1 else 0) = nameCount s.disk j := by
    intro j hj
    have := nameCount_frame (hi.lt_of_dir hdp) (hi.bound e.inum hxt).2 hne hfr j
    rw [restCount_of_ne hxd, restCount_of_ne hXd] at this
    have := (hc j hj).2
    omega
  -- 消した entry のほかは、書いた後にも残る
  have hkeep : ∀ e' ∈ ((s.disk dp).dirents.drop 2), e'.inum ≠ e.inum →
      e' ∈ ((s'.disk dp).dirents.drop 2) := by
    intro e' he' hne'
    rw [hrest'] at he'
    rw [hdp'']
    exact mem_replace_of_not_mem he' fun h => hne' (by rw [List.mem_singleton.1 h])
  have hfrom : ∀ e' ∈ ((s'.disk dp).dirents.drop 2), e' ∈ ((s.disk dp).dirents.drop 2) ∨ e'.inum = 0 := by
    intro e' he'
    rw [hdp''] at he'
    rw [hrest']
    exact (mem_replace he').imp_right fun h => by rw [List.mem_singleton.1 h]
  have hzero : (s'.disk 0).type ≠ T_DIR := by
    rw [hfr 0 (Ne.symm (hi.ne_zero_of_dir hdp)) (Ne.symm he0)]
    intro h
    exact absurd (hi.ne_zero_of_dir h) (by decide)
  refine ⟨?bound, ?dots, ?names, ?nlink, ?unnamed, ?root, ?up, ?down, ?single, ?selfParent,
    ?held, ?orphan⟩
  case bound =>
    intro j hj
    by_cases hji : j = e.inum
    · subst hji; exact hi.bound _ hxt
    · exact hi.bound j (by rwa [← hty j hji])
  case dots =>
    intro d hd
    obtain ⟨hd', hdi⟩ := hdir d hd
    by_cases hdd' : d = dp
    · subst hdd'; exact ⟨_, _, hdp''⟩
    · rw [hfr d hdd' hdi]
      exact hi.dots d hd'
  case names =>
    intro d hd
    obtain ⟨hd', hdi⟩ := hdir d hd
    by_cases hdd' : d = dp
    · subst hdd'
      rw [hdp'']
      have hn := hi.names d hdp
      rw [hrest'] at hn
      exact hn.clear
    · rw [hfr d hdd' hdi]
      exact hi.names d hd'
  case nlink =>
    intro j hj
    by_cases hji : j = e.inum
    · subst hji
      have h := hlink e.inum he0
      rw [if_pos rfl, ← hi.nlink _ hxt] at h
      rw [(hXt hj).2]
      omega
    have hj' : (s.disk j).type ≠ 0 := by rwa [← hty j hji]
    have h := hlink j (hi.bound j hj').1.ne'
    rw [if_neg (Ne.symm hji), Nat.add_zero] at h
    rw [h, ← hi.nlink j hj']
    exact hnl j hji
  case unnamed =>
    intro j hj0 hj
    have h := hlink j hj0.ne'
    by_cases hji : j = e.inum
    · subst hji
      rw [if_pos rfl, ← hi.nlink _ hxt] at h
      have := hX0 hj
      omega
    · have hj' : (s.disk j).type = 0 := by rwa [← hty j hji]
      rw [if_neg (Ne.symm hji), Nat.add_zero, hi.unnamed j hj0 hj'] at h
      exact h
  case root =>
    have hri : ROOTINO ≠ e.inum := fun h => hxd (h ▸ hi.root.1)
    exact ⟨by rw [hty _ hri]; exact hi.root.1, by rw [hdd _ hri]; exact hi.root.2⟩
  case up =>
    intro d hd e' he' hed
    obtain ⟨hd', hdi⟩ := hdir d hd
    obtain ⟨hed', hei⟩ := hdir _ hed
    rw [hdd _ hei]
    by_cases hdd' : d = dp
    · subst hdd'
      rcases hfrom e' he' with he' | he'
      · exact hi.up d hdp e' he' hed'
      · rw [he'] at hed; exact absurd hed hzero
    · rw [hfr d hdd' hdi] at he'
      exact hi.up d hd' e' he' hed'
  case down =>
    intro x hx hxr
    obtain ⟨hx', hxi⟩ := hdir x hx
    obtain ⟨hq, e', he', hex⟩ := hi.down x hx' hxr
    rw [hdd x hxi]
    have hqi : (s.disk x).dotdot ≠ e.inum := fun h => hxd (h ▸ hq)
    refine ⟨by rw [hty _ hqi]; exact hq, ?_⟩
    by_cases hqd : (s.disk x).dotdot = dp
    · rw [hqd] at he' ⊢
      exact ⟨e', hkeep e' he' (hex ▸ hxi), hex⟩
    · rw [hfr _ hqd hqi]
      exact ⟨e', he', hex⟩
  case single =>
    intro x hx
    obtain ⟨hx', hxi⟩ := hdir x hx
    have h := hname x (hi.ne_zero_of_dir hx')
    rw [if_neg (Ne.symm hxi), Nat.add_zero] at h
    rw [h]
    exact hi.single x hx'
  case selfParent =>
    intro x hx hxx
    obtain ⟨hx', hxi⟩ := hdir x hx
    exact hi.selfParent x hx' (by rwa [← hdd x hxi])
  case held =>
    intro j hj
    rw [hop] at hj
    by_cases hji : j = e.inum
    · subst hji; rw [(hXo hj).1]; exact hi.held _ hj
    · rw [hty j hji]; exact hi.held j hj
  case orphan =>
    intro j hj hn
    rw [hop]
    by_cases hji : j = e.inum
    · subst hji
      by_cases hfree : (s.disk e.inum).nlink - 1 = 0 ∧ s.held e.inum = false
      · rw [hip', if_pos hfree] at hj
        exact absurd rfl hj
      · rw [hip', if_neg hfree] at hn
        by_contra ho
        exact hfree ⟨hn, by simpa using ho⟩
    have hj' : (s.disk j).type ≠ 0 := by rwa [← hty j hji]
    exact hi.orphan j hj' (by rwa [hnl j hji] at hn)

/--
directory `dp` の `.`・`..` 以外の entry `e` が指す空の directory を消す。`e` を空きにし、`dp` の
`nlink` を `..` の分だけ減らし、`e.inum` の `nlink` を減らして `iput` が解放する。
`sys_unlink` の directory。
-/
theorem DirInv.removeDir {pre post : List Dirent} {e : Dirent} (hi : DirInv s)
    (hdp : (s.disk dp).type = T_DIR) (hents : (s.disk dp).dirents = pre ++ e :: post)
    (he0 : e.inum ≠ 0) (hdot : namecmp e.name ['.'] = false)
    (hdotdot : namecmp e.name ['.', '.'] = false) (hne : e.inum ≠ dp)
    (hxd : (s.disk e.inum).type = T_DIR) (hemp : isdirempty (s.disk e.inum).dirents = true)
    (hdp' : s'.disk dp = { s.disk dp with
      nlink := (s.disk dp).nlink - 1, dirents := pre ++ ⟨0, []⟩ :: post })
    (hip' : s'.disk e.inum =
      if (s.disk e.inum).nlink - 1 = 0 ∧ s.held e.inum = false then ⟨0, 0, []⟩
      else { s.disk e.inum with nlink := (s.disk e.inum).nlink - 1 })
    (hfr : ∀ j, j ≠ dp → j ≠ e.inum → s'.disk j = s.disk j) (hop : s'.held = s.held) :
    DirInv s' := by
  obtain ⟨rest, hrest⟩ := hi.dots' hdp
  obtain ⟨pre', rfl, rfl⟩ := eq_dots_append (hrest.symm.trans hents) rfl rfl hdot hdotdot
  have hrest' : (s.disk dp).dirents = ⟨dp, ['.']⟩ :: ⟨(s.disk dp).dotdot, ['.', '.']⟩ ::
      (pre' ++ [e] ++ post) := by rw [hents]; simp
  have hdp'' : (s'.disk dp).dirents = ⟨dp, ['.']⟩ :: ⟨(s.disk dp).dotdot, ['.', '.']⟩ ::
      (pre' ++ [⟨0, []⟩] ++ post) := by rw [hdp']; simp
  have hdpt : (s'.disk dp).type = T_DIR := by rw [hdp']; exact hdp
  have hemem : e ∈ (s.disk dp).dirents.drop 2 := by rw [hrest']; simp
  have hxt : (s.disk e.inum).type ≠ 0 := by rw [hxd]; decide
  -- `e.inum` は root でない空の directory で、`..` は `dp`、`nlink` は 1。だから解放される
  have hxr : e.inum ≠ ROOTINO := hi.not_named_root hdp hemem
  have hxdd : (s.disk e.inum).dotdot = dp := hi.up dp hdp e hemem hxd
  have hxl : linkCount s.disk e.inum = 1 := hi.linkCount_of_empty hxd hxr hemp
  have hxo : s.held e.inum = false := by
    cases h : s.held e.inum
    · rfl
    · rcases hi.held _ h with hr | ht
      · exact absurd hr hxr
      · rw [hxd] at ht
        exact absurd ht (by decide)
  rw [hi.nlink _ hxt, hxl, hxo, if_pos ⟨rfl, rfl⟩] at hip'
  have hempty : ∀ e' ∈ (s.disk e.inum).dirents.drop 2, e'.inum = 0 := fun e' he' => by
    simpa using List.all_eq_true.1 hemp e' he'
  have hxc : ∀ j, j ≠ 0 → dirCount (s.disk e.inum) j = (if dp = j then 1 else 0) ∧
      restCount (s.disk e.inum) j = 0 := by
    intro j hj
    have hr0 : restCount (s.disk e.inum) j = 0 := by
      rw [restCount, if_pos hxd, List.countP_eq_zero]
      intro e' he'
      simp [hempty e' he', Ne.symm hj]
    obtain ⟨xrest, hxrest⟩ := hi.dots' hxd
    rw [dirCount_eq_of_dots hxd hxrest (hi.names _ hxd) he0 hj, hr0, hxdd]
    exact ⟨by simp, rfl⟩
  have hX : ∀ j, dirCount (s'.disk e.inum) j = 0 ∧ restCount (s'.disk e.inum) j = 0 := by
    intro j
    rw [hip']
    exact ⟨rfl, rfl⟩
  have hty : ∀ j, j ≠ e.inum → (s'.disk j).type = (s.disk j).type :=
    frame_of_row Dinode.type (by rw [hdp']) hfr
  have hdir : ∀ j, (s'.disk j).type = T_DIR → (s.disk j).type = T_DIR ∧ j ≠ e.inum := by
    intro j hj
    have hji : j ≠ e.inum := by
      rintro rfl
      rw [hip'] at hj
      exact absurd hj (by decide)
    exact ⟨by rwa [← hty j hji], hji⟩
  have hdd : ∀ j, j ≠ e.inum → (s'.disk j).dotdot = (s.disk j).dotdot :=
    frame_of_row Dinode.dotdot (by rw [Dinode.dotdot_of_dirents hdp'', Dinode.dotdot_of_dirents hrest']) hfr
  -- 数は、`dp` の中の名前と、`e.inum` の `..` の分だけ減る
  have hc := fun j (hj : j ≠ 0) => counts_clear hdp hdpt hrest' hdp'' hdot hj
  have hlink : ∀ j, j ≠ 0 → linkCount s'.disk j + (if e.inum = j then 1 else 0) +
      (if dp = j then 1 else 0) = linkCount s.disk j := by
    intro j hj
    have := linkCount_frame (hi.lt_of_dir hdp) (hi.lt_of_dir hxd) (Ne.symm hne) hfr j
    rw [(hxc j hj).1, (hX j).1] at this
    have := (hc j hj).1
    omega
  have hname : ∀ j, j ≠ 0 → nameCount s'.disk j + (if e.inum = j then 1 else 0) =
      nameCount s.disk j := by
    intro j hj
    have := nameCount_frame (hi.lt_of_dir hdp) (hi.lt_of_dir hxd) (Ne.symm hne) hfr j
    rw [(hxc j hj).2, (hX j).2] at this
    have := (hc j hj).2
    omega
  have hkeep : ∀ e' ∈ ((s.disk dp).dirents.drop 2), e'.inum ≠ e.inum →
      e' ∈ ((s'.disk dp).dirents.drop 2) := by
    intro e' he' hne'
    rw [hrest'] at he'
    rw [hdp'']
    exact mem_replace_of_not_mem he' fun h => hne' (by rw [List.mem_singleton.1 h])
  have hfrom : ∀ e' ∈ ((s'.disk dp).dirents.drop 2), e' ∈ ((s.disk dp).dirents.drop 2) ∨ e'.inum = 0 := by
    intro e' he'
    rw [hdp''] at he'
    rw [hrest']
    exact (mem_replace he').imp_right fun h => by rw [List.mem_singleton.1 h]
  have hzero : (s'.disk 0).type ≠ T_DIR := by
    rw [hfr 0 (Ne.symm (hi.ne_zero_of_dir hdp)) (Ne.symm he0)]
    intro h
    exact absurd (hi.ne_zero_of_dir h) (by decide)
  have htwo := hi.two_le_linkCount hdp hxd hxdd hne
  refine ⟨?bound, ?dots, ?names, ?nlink, ?unnamed, ?root, ?up, ?down, ?single, ?selfParent,
    ?held, ?orphan⟩
  case bound =>
    intro j hj
    by_cases hji : j = e.inum
    · subst hji; exact hi.bound _ hxt
    · exact hi.bound j (by rwa [← hty j hji])
  case dots =>
    intro d hd
    obtain ⟨hd', hdi⟩ := hdir d hd
    by_cases hdd' : d = dp
    · subst hdd'; exact ⟨_, _, hdp''⟩
    · rw [hfr d hdd' hdi]
      exact hi.dots d hd'
  case names =>
    intro d hd
    obtain ⟨hd', hdi⟩ := hdir d hd
    by_cases hdd' : d = dp
    · subst hdd'
      rw [hdp'']
      have hn := hi.names d hdp
      rw [hrest'] at hn
      exact hn.clear
    · rw [hfr d hdd' hdi]
      exact hi.names d hd'
  case nlink =>
    intro j hj
    have hji : j ≠ e.inum := by rintro rfl; rw [hip'] at hj; exact hj rfl
    have hj' : (s.disk j).type ≠ 0 := by rwa [← hty j hji]
    have h := hlink j (hi.bound j hj').1.ne'
    rw [if_neg (Ne.symm hji), Nat.add_zero] at h
    by_cases hjd : j = dp
    · subst hjd
      rw [if_pos rfl, ← hi.nlink j hj'] at h
      rw [hdp']
      dsimp only
      omega
    · rw [if_neg (Ne.symm hjd), Nat.add_zero] at h
      rw [h, ← hi.nlink j hj', hfr j hjd hji]
  case unnamed =>
    intro j hj0 hj
    have h := hlink j hj0.ne'
    by_cases hji : j = e.inum
    · subst hji
      rw [if_pos rfl, if_neg (Ne.symm hne), hxl] at h
      omega
    · have hjd : j ≠ dp := by rintro rfl; rw [hdpt] at hj; exact absurd hj (by decide)
      have hj' : (s.disk j).type = 0 := by rwa [← hty j hji]
      rw [if_neg (Ne.symm hji), if_neg (Ne.symm hjd), hi.unnamed j hj0 hj'] at h
      omega
  case root =>
    exact ⟨by rw [hty _ (Ne.symm hxr)]; exact hi.root.1,
      by rw [hdd _ (Ne.symm hxr)]; exact hi.root.2⟩
  case up =>
    intro d hd e' he' hed
    obtain ⟨hd', hdi⟩ := hdir d hd
    obtain ⟨hed', hei⟩ := hdir _ hed
    rw [hdd _ hei]
    by_cases hdd' : d = dp
    · subst hdd'
      rcases hfrom e' he' with he' | he'
      · exact hi.up d hdp e' he' hed'
      · rw [he'] at hed; exact absurd hed hzero
    · rw [hfr d hdd' hdi] at he'
      exact hi.up d hd' e' he' hed'
  case down =>
    intro x hx hxr'
    obtain ⟨hx', hxi⟩ := hdir x hx
    obtain ⟨hq, e', he', hex⟩ := hi.down x hx' hxr'
    rw [hdd x hxi]
    have hqi : (s.disk x).dotdot ≠ e.inum := by
      -- 空の directory の中に名前を持つ directory は無い
      intro h
      rw [h] at he'
      exact hi.ne_zero_of_dir hx' (hex ▸ hempty e' he')
    refine ⟨by rw [hty _ hqi]; exact hq, ?_⟩
    by_cases hqd : (s.disk x).dotdot = dp
    · rw [hqd] at he' ⊢
      exact ⟨e', hkeep e' he' (hex ▸ hxi), hex⟩
    · rw [hfr _ hqd hqi]
      exact ⟨e', he', hex⟩
  case single =>
    intro x hx
    obtain ⟨hx', hxi⟩ := hdir x hx
    have h := hname x (hi.ne_zero_of_dir hx')
    rw [if_neg (Ne.symm hxi), Nat.add_zero] at h
    rw [h]
    exact hi.single x hx'
  case selfParent =>
    intro x hx hxx
    obtain ⟨hx', hxi⟩ := hdir x hx
    exact hi.selfParent x hx' (by rwa [← hdd x hxi])
  case held =>
    intro j hj
    rw [hop] at hj
    rcases hi.held j hj with rfl | hjt
    · exact .inl rfl
    · have hji : j ≠ e.inum := by rintro rfl; rw [hxd] at hjt; exact absurd hjt (by decide)
      rw [hty j hji]
      exact .inr hjt
  case orphan =>
    intro j hj hn
    rw [hop]
    have hji : j ≠ e.inum := by rintro rfl; rw [hip'] at hj; exact hj rfl
    by_cases hjd : j = dp
    · -- `dp` には、消した子の `..` のほかにも entry が残る
      subst hjd
      rw [hdp'] at hn
      have := hi.nlink j (by rw [hdp]; decide)
      simp only at hn
      omega
    · rw [hfr j hjd hji] at hj hn
      exact hi.orphan j hj hn

end Change

/-! ## 呼び出し -/

section Calls

variable {s s' : DirFs}

/-- `create` は `DirInv` を保ち、返す inode は求めた type を持つ。 -/
theorem DirInv.create {dp : Nat} {name : List Char} {type : Nat} {r : Option Nat} (hi : DirInv s)
    (htype : type = T_FILE ∨ type = T_DIR ∨ type = T_DEV) (h : create s dp name type = .ok (s', r)) :
    DirInv s' ∧ ∀ ip, r = some ip → (s'.disk ip).type = type := by
  have ht0 : type ≠ 0 := by rcases htype with rfl | rfl | rfl <;> decide
  obtain ⟨hdp, ⟨de, -, rfl, hr⟩ | ⟨ip, ents, S, hfree, hpos, hlt, hl, rfl, rfl, hSdp, hSip, hSfr,
    hSop⟩⟩ := create_eq_ok hi.orphan h
  · -- 同じ名前の `T_FILE` を開く
    refine ⟨hi, fun ip hip => ?_⟩
    rcases hr with rfl | ⟨rfl, hT, hT'⟩
    · cases hip
    · cases hip
      rw [hT', hT]
  · have hS : DirInv S := by
      by_cases hT : type = T_DIR
      · rw [if_pos hT] at hSdp hSip
        exact hi.addDir hdp hl hfree hpos hlt hSdp hSip hSfr hSop
      · rw [if_neg hT] at hSdp hSip
        refine hi.addEntry hdp hl (by rw [hfree]; decide) hpos hlt (X := ⟨type, 1, []⟩) ht0 hT
          (by rw [hi.unnamed ip hpos hfree]) (fun ho => ?_) (by rw [hSdp]; simp) hSip hSfr hSop
        rcases hi.held ip ho with rfl | ht
        · rw [hi.root.1] at hfree
          exact absurd hfree (by decide)
        · rw [hfree] at ht
          exact absurd ht (by decide)
    have hSt : (S.disk dp).type ≠ 0 := by rw [hSdp, hdp]; decide
    refine ⟨by rw [hS.iput_eq hSt]; exact hS, fun ip' hip' => ?_⟩
    cases hip'
    rw [hS.iput_eq hSt, hSip]
    split <;> simp_all

/--
`sys_link` は `DirInv` を保つ。成功すれば、directory でない inode を同じ device の directory に
書いて `nlink` を一つ増やしている。失敗すれば状態は変わらない。
-/
theorem DirInv.sys_link {ip : Option Nat} {parent : LinkParent} {name : List Char} {r : Int}
    (hi : DirInv s) (h : sys_link s ip parent name = .ok (s', r)) :
    DirInv s' ∧ ((r = 0 ∧ ∃ i dp, ip = some i ∧ parent = .dir dp ∧ (s.disk i).type ≠ T_DIR ∧
      (s.disk dp).type = T_DIR ∧ (s'.disk i).nlink = (s.disk i).nlink + 1) ∨ (r = -1 ∧ s' = s)) := by
  obtain ⟨hr, rfl⟩ | ⟨hr, i, dp, ents, S, rfl, rfl, hit, hid, hdp, hl, rfl, hSi, hSdp, hSfr, hSop⟩ :=
    sys_link_eq_ok hi.orphan h
  · exact ⟨hi, .inr ⟨hr, rfl⟩⟩
  · have hS : DirInv S :=
      hi.addEntry hdp hl hid (hi.bound i hit).1 (hi.bound i hit).2
        (X := { s.disk i with nlink := (s.disk i).nlink + 1 }) hit hid
        (by rw [hi.nlink i hit]) (fun ho => (hi.held i ho).resolve_left fun hr => hid (hr ▸ hi.root.1))
        hSdp hSi hSfr hSop
    rw [hS.iput_eq (by rw [hSdp, hdp]; decide), hS.iput_eq (by rw [hSi]; exact hit)]
    exact ⟨hS, .inl ⟨hr, i, dp, rfl, rfl, hid, hdp, by rw [hSi]⟩⟩

/-- `sys_unlink` は `DirInv` を保つ。 -/
theorem DirInv.sys_unlink {dp : Nat} {name : List Char} {r : Int} (hi : DirInv s)
    (h : sys_unlink s dp name = .ok (s', r)) : DirInv s' := by
  obtain ⟨-, rfl⟩ | ⟨-, pre, e, post, hdp, hents, he0, hmatch, hn1, hn2, hne, hxt, -, hemp, rfl⟩ :=
    sys_unlink_eq_ok hi.orphan h
  · exact hi
  -- `name` に合う entry の名前も `.`・`..` ではない
  have hdot : namecmp e.name ['.'] = false := by
    cases hc : namecmp e.name ['.']
    · rfl
    · rw [namecmp_trans hmatch hc] at hn1; exact absurd hn1 (by decide)
  have hdotdot : namecmp e.name ['.', '.'] = false := by
    cases hc : namecmp e.name ['.', '.']
    · rfl
    · rw [namecmp_trans hmatch hc] at hn2; exact absurd hn2 (by decide)
  have hemem : e ∈ (s.disk dp).dirents.drop 2 := by
    obtain ⟨rest, hrest⟩ := hi.dots' hdp
    obtain ⟨pre', rfl, rfl⟩ := eq_dots_append (hrest.symm.trans hents) rfl rfl hdot hdotdot
    rw [hrest]
    simp
  -- `iput(dp)` は何もしない：`dp` には `e` のほかにも entry が残る
  have hpos : 0 < (s.disk dp).nlink - (if (s.disk e.inum).type = T_DIR then 1 else 0) := by
    rw [hi.nlink dp (by rw [hdp]; decide)]
    by_cases hxd : (s.disk e.inum).type = T_DIR
    · rw [if_pos hxd]
      have := hi.two_le_linkCount hdp hxd (hi.up dp hdp e hemem hxd) hne
      omega
    · rw [if_neg hxd]
      have := hi.linkCount_pos_of_dir hdp
      omega
  -- `dp` と `e.inum` の書き換えた後の行
  set D : Dinode := { s.disk dp with
    nlink := (s.disk dp).nlink - (if (s.disk e.inum).type = T_DIR then 1 else 0),
    dirents := pre ++ ⟨0, []⟩ :: post } with hD
  set Y : Dinode := { s.disk e.inum with nlink := (s.disk e.inum).nlink - 1 } with hY
  have hput : iputDisk (s.set dp D) dp = s.set dp D := by
    refine iputDisk_of_orphan fun h0 => ?_
    simp only [DirFs.set_disk, Function.update_self, hD] at h0
    omega
  rw [hput]
  -- 最後の `iput(ip)` が解放するかどうかを、点ごとに書く
  have hip' : (iputDisk ((s.set dp D).set e.inum Y) e.inum).disk e.inum =
      if (s.disk e.inum).nlink - 1 = 0 ∧ s.held e.inum = false then ⟨0, 0, []⟩ else Y := by
    rw [iputDisk_disk_self]
    simp [hY]
  have hdp' : (iputDisk ((s.set dp D).set e.inum Y) e.inum).disk dp = D := by
    rw [iputDisk_disk_of_ne _ (Ne.symm hne)]
    simp [Function.update_of_ne (Ne.symm hne)]
  have hfr : ∀ j, j ≠ dp → j ≠ e.inum → (iputDisk ((s.set dp D).set e.inum Y) e.inum).disk j = s.disk j := by
    intro j hjd hji
    rw [iputDisk_disk_of_ne _ hji]
    simp [Function.update_of_ne hjd, Function.update_of_ne hji]
  by_cases hxd : (s.disk e.inum).type = T_DIR
  · have hD' : D = { s.disk dp with nlink := (s.disk dp).nlink - 1, dirents := pre ++ ⟨0, []⟩ :: post } := by
      rw [hD, if_pos hxd]
    exact hi.removeDir hdp hents he0 hdot hdotdot hne hxd (hemp hxd) (hdp'.trans hD') hip' hfr (by simp)
  · have hD' : D = { s.disk dp with dirents := pre ++ ⟨0, []⟩ :: post } := by
      rw [hD, if_neg hxd, Nat.sub_zero]
    exact hi.removeFile hdp hents he0 hdot hdotdot hxd (hdp'.trans hD') hip' hfr (by simp)

/-- 開いた `T_FILE` を `held` に加えても `DirInv` は保たれる。 -/
theorem DirInv.open {ip : Nat} (hi : DirInv s) (ht : (s.disk ip).type = T_FILE) :
    DirInv (s.hold ip) := by
  refine { hi with held := fun j hj => ?_, orphan := fun j hj hn => ?_ }
  · by_cases hji : j = ip
    · subst hji; exact .inr ht
    · simp only [DirFs.hold_held, Function.update_of_ne hji] at hj
      exact hi.held j hj
  · by_cases hji : j = ip
    · subst hji; simp
    · simp only [DirFs.hold_held, Function.update_of_ne hji]
      exact hi.orphan j hj hn

/-- **一つの呼び出しは `DirInv` を保つ。** -/
theorem DirInv.dirCall (hi : DirInv s) {c : DirCall} (h : dirCall s c = .ok s') : DirInv s' := by
  cases c with
  | openCreate dp name keep =>
    obtain ⟨⟨s₁, r⟩, h₁, rfl⟩ := map_eq_ok.1 h
    cases dp with
    | none => cases h₁; exact hi
    | some dp =>
      obtain ⟨⟨s₂, ip⟩, hc, h₁⟩ := bind_eq_ok.1 h₁
      dsimp only at h₁
      obtain ⟨hi₂, hty⟩ := hi.create (.inl rfl) hc
      cases ip with
      | none => cases h₁; exact hi₂
      | some ip =>
        have ht := hty ip rfl
        cases keep
        · -- file を開けなければ `iunlockput(ip)`
          simp only [Bool.false_eq_true, if_false] at h₁
          cases h₁
          rw [hi₂.iput_eq (by rw [ht]; decide)]
          exact hi₂
        · simp only [if_true] at h₁
          cases h₁
          exact hi₂.open ht
  | mkdir dp name =>
    obtain ⟨⟨s₁, r⟩, h₁, rfl⟩ := map_eq_ok.1 h
    cases dp with
    | none => cases h₁; exact hi
    | some dp =>
      obtain ⟨⟨s₂, ip⟩, hc, h₁⟩ := bind_eq_ok.1 h₁
      dsimp only at h₁
      obtain ⟨hi₂, hty⟩ := hi.create (.inr (.inl rfl)) hc
      cases ip with
      | none => cases h₁; exact hi₂
      | some ip => cases h₁; rw [hi₂.iput_eq (by rw [hty ip rfl]; decide)]; exact hi₂
  | mknod dp name =>
    obtain ⟨⟨s₁, r⟩, h₁, rfl⟩ := map_eq_ok.1 h
    cases dp with
    | none => cases h₁; exact hi
    | some dp =>
      obtain ⟨⟨s₂, ip⟩, hc, h₁⟩ := bind_eq_ok.1 h₁
      dsimp only at h₁
      obtain ⟨hi₂, hty⟩ := hi.create (.inr (.inr rfl)) hc
      cases ip with
      | none => cases h₁; exact hi₂
      | some ip => cases h₁; rw [hi₂.iput_eq (by rw [hty ip rfl]; decide)]; exact hi₂
  | link ip parent name =>
    obtain ⟨⟨s₁, r⟩, h₁, rfl⟩ := map_eq_ok.1 h
    exact (hi.sys_link h₁).1
  | unlink dp name =>
    obtain ⟨⟨s₁, r⟩, h₁, rfl⟩ := map_eq_ok.1 h
    exact hi.sys_unlink h₁

/-- **呼び出しの列は `DirInv` を保つ。** -/
theorem DirInv.run (hi : DirInv s) {calls : List DirCall}
    (h : runList Xv6.dirCall s calls = .ok s') :
    DirInv s' := by
  induction calls generalizing s with
  | nil => cases h; exact hi
  | cons c cs ih =>
    cases hc : Xv6.dirCall s c with
    | ok s₁ =>
      rw [runList_cons_ok hc] at h
      exact ih (hi.dirCall hc) h
    | error e =>
      rw [runList_cons_error hc] at h
      cases h

end Calls

/-! ## mkfs の image -/

theorem mkfsEntries_inum {n : Nat} {fs : List (List Char)} {e : Dirent}
    (he : e ∈ mkfsEntries n fs) : n ≤ e.inum ∧ e.inum < n + fs.length := by
  induction fs generalizing n with
  | nil => simp [mkfsEntries] at he
  | cons f fs ih =>
    simp only [mkfsEntries, List.mem_cons] at he
    rcases he with rfl | he
    · simp
    · have := ih he
      simp only [List.length_cons]
      omega

theorem mkfsEntries_countP (n : Nat) (fs : List (List Char)) (i : Nat) :
    (mkfsEntries n fs).countP (·.inum == i) = if n ≤ i ∧ i < n + fs.length then 1 else 0 := by
  induction fs generalizing n with
  | nil => simp [mkfsEntries]
  | cons f fs ih =>
    rw [mkfsEntries, List.countP_cons, ih, List.length_cons]
    by_cases h : n = i
    · subst h; simp
    · have h' : (n + 1 ≤ i ∧ i < n + 1 + fs.length) ↔ (n ≤ i ∧ i < n + (fs.length + 1)) := by omega
      simp only [beq_iff_eq, h, if_false, Nat.add_zero, h']

theorem mkfsEntries_names (n : Nat) (fs : List (List Char)) :
    (mkfsEntries n fs).map (·.name) = fs.map fun f => (mkfsName f).take DIRSIZ := by
  induction fs generalizing n with
  | nil => rfl
  | cons f fs ih => simp [mkfsEntries, ih]

/-- mkfs の root directory の名前は、引数の名前が重ならず `.`・`..` でなければ、重ならない。 -/
theorem mkfs_names {files : List (List Char)}
    (hnodup : (files.map fun f => (mkfsName f).take DIRSIZ).Nodup)
    (hdots : ∀ f ∈ files, namecmp (mkfsName f) ['.'] = false ∧
      namecmp (mkfsName f) ['.', '.'] = false) :
    NamesDistinct (⟨ROOTINO, ['.']⟩ :: ⟨ROOTINO, ['.', '.']⟩ :: mkfsEntries 2 files) := by
  -- entry の名前は、引数の名前を `DIRSIZ` 文字に切ったもの
  have hmem : ∀ e ∈ mkfsEntries 2 files, ∃ f ∈ files, e.name = (mkfsName f).take DIRSIZ := by
    intro e he
    have : e.name ∈ files.map fun f => (mkfsName f).take DIRSIZ := by
      rw [← mkfsEntries_names 2]
      exact List.mem_map_of_mem he
    obtain ⟨f, hf, hfe⟩ := List.mem_map.1 this
    exact ⟨f, hf, hfe.symm⟩
  have hdot : ∀ e ∈ mkfsEntries 2 files, namecmp ['.'] e.name = false ∧
      namecmp ['.', '.'] e.name = false := by
    intro e he
    obtain ⟨f, hf, hfe⟩ := hmem e he
    rw [hfe, namecmp_comm, namecmp_take, namecmp_comm ['.', '.'], namecmp_take]
    exact hdots f hf
  have hpw : (mkfsEntries 2 files).Pairwise fun a b => a.name ≠ b.name := by
    have := hnodup
    rw [← mkfsEntries_names 2, List.Nodup, List.pairwise_map] at this
    exact this
  unfold NamesDistinct
  refine List.pairwise_cons.2 ⟨?_, List.pairwise_cons.2 ⟨?_, ?_⟩⟩
  · intro e he _ _
    rcases List.mem_cons.1 he with rfl | he
    · decide
    · exact (hdot e he).1
  · intro e he _ _
    exact (hdot e he).2
  · refine hpw.imp_of_mem fun {a b} ha hb hne _ _ => ?_
    obtain ⟨f, -, hfa⟩ := hmem a ha
    obtain ⟨g, -, hgb⟩ := hmem b hb
    rw [hfa, hgb] at hne ⊢
    rw [namecmp_take, namecmp_comm, namecmp_take]
    simp only [namecmp, beq_eq_false_iff_ne]
    exact fun h => hne h.symm

/-- **mkfs の image は `DirInv` を満たす。** 引数の名前が重ならず、`.`・`..` でなく、inode が足りるとき。 -/
theorem DirInv.mkfs {files : List (List Char)} (hlen : files.length + 2 ≤ NINODES)
    (hnodup : (files.map fun f => (mkfsName f).take DIRSIZ).Nodup)
    (hdots : ∀ f ∈ files, namecmp (mkfsName f) ['.'] = false ∧
      namecmp (mkfsName f) ['.', '.'] = false) :
    DirInv (mkfsDir files) := by
  have hroot : (mkfsDir files).disk ROOTINO =
      ⟨T_DIR, 1, ⟨ROOTINO, ['.']⟩ :: ⟨ROOTINO, ['.', '.']⟩ :: mkfsEntries 2 files⟩ := by
    simp [mkfsDir]
  have hother : ∀ d, d ≠ ROOTINO → (mkfsDir files).disk d =
      if 2 ≤ d ∧ d < files.length + 2 then ⟨T_FILE, 1, []⟩ else ⟨0, 0, []⟩ := fun d hd => by
    simp [mkfsDir, hd]
  have hdir : ∀ d, ((mkfsDir files).disk d).type = T_DIR → d = ROOTINO := by
    intro d hd
    by_contra hne
    rw [hother d hne] at hd
    split at hd <;> exact absurd hd (by decide)
  have hrootd : ((mkfsDir files).disk ROOTINO).type = T_DIR := by rw [hroot]
  have hnames := mkfs_names hnodup hdots
  -- root だけが directory なので、数は root の entry の数である
  have hlink : ∀ i, i ≠ 0 → linkCount (mkfsDir files).disk i =
      (if ROOTINO = i then 1 else 0) + (if 2 ≤ i ∧ i < 2 + files.length then 1 else 0) := by
    intro i hi
    unfold linkCount
    rw [sum_eq_single ROOTINO (fun d _ hd => dirCount_of_ne (fun h => hd (hdir d h)) i)
      (fun h => absurd (mem_range.2 (by decide)) h)]
    rw [dirCount_eq_of_dots hrootd (by rw [hroot]) (by rw [hroot]; exact hnames) (by decide) hi]
    rw [restCount, if_pos hrootd, hroot]
    simp only [List.drop_succ_cons, List.drop_zero, mkfsEntries_countP]
  have hname : ∀ i, nameCount (mkfsDir files).disk i =
      if 2 ≤ i ∧ i < 2 + files.length then 1 else 0 := by
    intro i
    unfold nameCount
    rw [sum_eq_single ROOTINO (fun d _ hd => restCount_of_ne (fun h => hd (hdir d h)) i)
      (fun h => absurd (mem_range.2 (by decide)) h)]
    rw [restCount, if_pos hrootd, hroot]
    simp only [List.drop_succ_cons, List.drop_zero, mkfsEntries_countP]
  refine ⟨?bound, ?dots, ?names, ?nlink, ?unnamed, ?root, ?up, ?down, ?single, ?selfParent,
    ?held, ?orphan⟩
  case bound =>
    intro i hi
    by_cases hr : i = ROOTINO
    · subst hr; decide
    · rw [hother i hr] at hi
      by_cases h : 2 ≤ i ∧ i < files.length + 2
      · exact ⟨by omega, by omega⟩
      · rw [if_neg h] at hi
        exact absurd rfl hi
  case dots =>
    intro d hd
    obtain rfl := hdir d hd
    exact ⟨_, _, by rw [hroot]⟩
  case names =>
    intro d hd
    obtain rfl := hdir d hd
    rw [hroot]
    exact hnames
  case nlink =>
    intro i hi
    by_cases hr : i = ROOTINO
    · subst hr
      rw [hlink _ (by decide), hroot]
      simp [ROOTINO]
    · rw [hother i hr] at hi ⊢
      by_cases h : 2 ≤ i ∧ i < files.length + 2
      · have h' : 2 ≤ i ∧ i < 2 + files.length := by omega
        rw [hlink i (by omega), if_neg (Ne.symm hr), if_pos h', if_pos h]
      · rw [if_neg h] at hi
        exact absurd rfl hi
  case unnamed =>
    intro i hi hfree
    have hr : i ≠ ROOTINO := by rintro rfl; rw [hrootd] at hfree; exact absurd hfree (by decide)
    rw [hother i hr] at hfree
    split at hfree
    · exact absurd hfree (by decide)
    · next h =>
      rw [hlink i hi.ne', if_neg (Ne.symm hr), if_neg (by omega)]
  case root => exact ⟨hrootd, by rw [hroot]; rfl⟩
  case up =>
    intro d hd e he hed
    obtain rfl := hdir d hd
    rw [hroot] at he
    simp only [List.drop_succ_cons, List.drop_zero] at he
    have h1 := mkfsEntries_inum he
    have h2 := hdir _ hed
    unfold ROOTINO at h2
    omega
  case down =>
    intro x hx hxr
    exact absurd (hdir x hx) hxr
  case single =>
    intro x hx
    obtain rfl := hdir x hx
    rw [hname, if_pos rfl, if_neg (by unfold ROOTINO; omega)]
  case selfParent =>
    intro x hx _
    exact hdir x hx
  case held =>
    intro i hi
    exact .inl (by simpa [mkfsDir] using hi)
  case orphan =>
    intro i hi hn
    by_cases hr : i = ROOTINO
    · subst hr; rw [hroot] at hn; simp at hn
    · rw [hother i hr] at hi hn
      by_cases h : 2 ≤ i ∧ i < files.length + 2
      · rw [if_pos h] at hn; simp at hn
      · rw [if_neg h] at hi; exact absurd rfl hi

/-! ## directory の木 -/

namespace DirInv

variable {s : DirFs}

/-- directory は使われていて、`nlink` は正である。 -/
theorem dir_nlink_pos (hi : DirInv s) {d : Nat} (hd : (s.disk d).type = T_DIR) :
    (s.disk d).type ≠ 0 ∧ 0 < (s.disk d).nlink := by
  have ht : (s.disk d).type ≠ 0 := by rw [hd]; decide
  exact ⟨ht, by rw [hi.nlink d ht]; exact hi.linkCount_pos_of_dir hd⟩

/-- 使われている entry（`.`・`..` も）の指す inode は使われていて、`nlink` は正である。 -/
theorem live_entry (hi : DirInv s) {d : Nat} (hd : (s.disk d).type = T_DIR) {e : Dirent}
    (he : e ∈ (s.disk d).dirents) (h0 : e.inum ≠ 0) :
    (s.disk e.inum).type ≠ 0 ∧ 0 < (s.disk e.inum).nlink := by
  obtain ⟨rest, hrest⟩ := hi.dots' hd
  have he' := he
  rw [hrest] at he'
  rcases List.mem_cons.1 he' with rfl | he'
  · exact hi.dir_nlink_pos hd
  rcases List.mem_cons.1 he' with rfl | he'
  · exact hi.dir_nlink_pos (hi.dotdot_dir hd)
  · exact hi.named hd (by rw [hrest]; exact he') h0

/-- root でない directory の `..` が `d` を指すことと、`d` の中に名前を持つことは同じである。 -/
theorem dotdot_eq_iff (hi : DirInv s) {d y : Nat} (hd : (s.disk d).type = T_DIR)
    (hy : (s.disk y).type = T_DIR) (hyr : y ≠ ROOTINO) :
    (s.disk y).dotdot = d ↔ ∃ e ∈ (s.disk d).dirents.drop 2, e.inum = y := by
  constructor
  · rintro rfl
    exact (hi.down y hy hyr).2
  · rintro ⟨e, he, rfl⟩
    exact hi.up d hd e he hy

/-- directory の `nlink` は、1 と、`..` でそれを指す子の directory の数の和である。 -/
theorem nlink_dir (hi : DirInv s) {d : Nat} (hd : (s.disk d).type = T_DIR) :
    (s.disk d).nlink = 1 + ((range NINODES).filter fun y =>
      (s.disk y).type = T_DIR ∧ y ≠ d ∧ (s.disk y).dotdot = d).card := by
  rw [hi.nlink d (by rw [hd]; decide), hi.linkCount_eq (hi.ne_zero_of_dir hd), card_filter]
  -- `d` 自身の `..` の分を分ける
  have hsplit : ∀ y, (if (s.disk y).type = T_DIR ∧ (s.disk y).dotdot = d then 1 else 0) =
      (if (s.disk y).type = T_DIR ∧ y ≠ d ∧ (s.disk y).dotdot = d then 1 else 0) +
        (if y = d ∧ (s.disk d).dotdot = d then 1 else 0) := by
    intro y
    by_cases hy : y = d
    · subst hy; simp [hd]
    · simp [hy]
  rw [sum_congr rfl fun y _ => hsplit y, sum_add_distrib]
  have hself : (∑ y ∈ range NINODES, if y = d ∧ (s.disk d).dotdot = d then 1 else 0) +
      nameCount s.disk d = 1 := by
    by_cases hr : d = ROOTINO
    · subst hr
      rw [hi.single _ hd, if_pos rfl]
      simp [hi.root.2, mem_range.2 (hi.lt_of_dir hd)]
    · have hne : (s.disk d).dotdot ≠ d := fun h => hr (hi.selfParent d hd h)
      rw [hi.single _ hd, if_neg hr]
      simp [hne]
  omega

end DirInv

/--
mkfs の image から `open(O_CREATE)`・`mkdir`・`mknod`・`link`・`unlink` をどう並べて呼んでも
（成功しても失敗しても）、

* 使われている inode の `nlink` は、`.` 以外でそれを指す entry の数に等しい
* directory の `nlink` は、1 と子の directory（`..` がそれを指す directory）の数の和で、
  子の directory はちょうどそれが名前で指す directory である
* directory の使われている entry の名前は `namecmp` で重ならない
* 使われている entry の指す inode は使われていて、`nlink` は正である
* `link` は、成功すれば directory でない inode を同じ device の directory に書き、
  失敗すれば何も変えない（上げた `nlink` は戻っている）
-/
theorem dir_tree_consistent (files : List (List Char)) (hlen : files.length + 2 ≤ NINODES)
    (hnodup : (files.map fun f => (mkfsName f).take DIRSIZ).Nodup)
    (hdots : ∀ f ∈ files, namecmp (mkfsName f) ['.'] = false ∧
      namecmp (mkfsName f) ['.', '.'] = false)
    (calls : List DirCall) (s : DirFs) (hrun : runList dirCall (mkfsDir files) calls = .ok s) :
    (∀ i, (s.disk i).type ≠ 0 → (s.disk i).nlink = linkCount s.disk i) ∧
    (∀ d, (s.disk d).type = T_DIR → (s.disk d).nlink = 1 + ((range NINODES).filter fun y =>
      (s.disk y).type = T_DIR ∧ y ≠ d ∧ (s.disk y).dotdot = d).card) ∧
    (∀ d y, (s.disk d).type = T_DIR → (s.disk y).type = T_DIR → y ≠ ROOTINO →
      ((s.disk y).dotdot = d ↔ ∃ e ∈ (s.disk d).dirents.drop 2, e.inum = y)) ∧
    (∀ d, (s.disk d).type = T_DIR → NamesDistinct (s.disk d).dirents) ∧
    (∀ d, (s.disk d).type = T_DIR → ∀ e ∈ (s.disk d).dirents, e.inum ≠ 0 →
      (s.disk e.inum).type ≠ 0 ∧ 0 < (s.disk e.inum).nlink) ∧
    (∀ ip parent name s' r, sys_link s ip parent name = .ok (s', r) →
      (r = 0 ∧ ∃ i dp, ip = some i ∧ parent = .dir dp ∧ (s.disk i).type ≠ T_DIR ∧
        (s.disk dp).type = T_DIR ∧ (s'.disk i).nlink = (s.disk i).nlink + 1) ∨
      (r = -1 ∧ s' = s)) := by
  have hi := (DirInv.mkfs hlen hnodup hdots).run hrun
  exact ⟨hi.nlink, fun d hd => hi.nlink_dir hd, fun d y hd hy hyr => hi.dotdot_eq_iff hd hy hyr,
    hi.names, fun d hd e he h0 => hi.live_entry hd he h0,
    fun ip parent name s' r h => (hi.sys_link h).2⟩

/-- Makefile が `fs.img` に書く file（`README`、`UPROGS`、`l.img`）。 -/
def fsImgFiles : List (List Char) :=
  ["README", "_cat", "_echo", "_forktest", "_grep", "_init", "_kill", "_ln", "_ls", "_mkdir",
    "_mount", "_rm", "_sh", "_stressfs", "_umount", "_usertests", "_pid_namespace_test", "_wc",
    "_zombie", "l.img"].map String.toList

/--
`fs.img` の上で、root に `mkdir("d")` し、`d` に file `f` を `open(O_CREATE)` して開いたままにし、
root に `link("d/f", "g")` してから `g` と `d/f` を `unlink` し、空になった `d` も `unlink` する。
`f` は開いたままなので `nlink = 0` で残る。inode は `d` が 22 番、`f` が 23 番である。
-/
theorem dir_tree_consistent_after_calls :
    ∃ s, runList dirCall (mkfsDir fsImgFiles) [.mkdir (some ROOTINO) "d".toList,
        .openCreate (some 22) "f".toList true, .link (some 23) (.dir ROOTINO) "g".toList,
        .unlink ROOTINO "g".toList, .unlink 22 "f".toList, .unlink ROOTINO "d".toList] = .ok s ∧
      (s.disk 23).type = T_FILE ∧ (s.disk 23).nlink = 0 ∧ (s.disk 22).type = 0 ∧
    (∀ i, (s.disk i).type ≠ 0 → (s.disk i).nlink = linkCount s.disk i) ∧
    (∀ d, (s.disk d).type = T_DIR → (s.disk d).nlink = 1 + ((range NINODES).filter fun y =>
      (s.disk y).type = T_DIR ∧ y ≠ d ∧ (s.disk y).dotdot = d).card) ∧
    (∀ d y, (s.disk d).type = T_DIR → (s.disk y).type = T_DIR → y ≠ ROOTINO →
      ((s.disk y).dotdot = d ↔ ∃ e ∈ (s.disk d).dirents.drop 2, e.inum = y)) ∧
    (∀ d, (s.disk d).type = T_DIR → NamesDistinct (s.disk d).dirents) ∧
    (∀ d, (s.disk d).type = T_DIR → ∀ e ∈ (s.disk d).dirents, e.inum ≠ 0 →
      (s.disk e.inum).type ≠ 0 ∧ 0 < (s.disk e.inum).nlink) ∧
    (∀ ip parent name s' r, sys_link s ip parent name = .ok (s', r) →
      (r = 0 ∧ ∃ i dp, ip = some i ∧ parent = .dir dp ∧ (s.disk i).type ≠ T_DIR ∧
        (s.disk dp).type = T_DIR ∧ (s'.disk i).nlink = (s.disk i).nlink + 1) ∨
      (r = -1 ∧ s' = s)) := by
  obtain ⟨s, hrun, hf, hn, hd⟩ : ∃ s, runList dirCall (mkfsDir fsImgFiles) [.mkdir (some ROOTINO) "d".toList,
        .openCreate (some 22) "f".toList true, .link (some 23) (.dir ROOTINO) "g".toList,
        .unlink ROOTINO "g".toList, .unlink 22 "f".toList, .unlink ROOTINO "d".toList] = .ok s ∧
      (s.disk 23).type = T_FILE ∧ (s.disk 23).nlink = 0 ∧ (s.disk 22).type = 0 :=
    ⟨_, rfl, rfl, rfl, rfl⟩
  exact ⟨s, hrun, hf, hn, hd, dir_tree_consistent fsImgFiles (by decide) (by decide) (by decide) _ s hrun⟩

/-- 表の二つの行 `a`・`b` の entry は、どちらも `linkCount` に数えられる。 -/
theorem dirCount_add_le_linkCount {t : Nat → Dinode} {a b : Nat} (ha : a < NINODES) (hb : b < NINODES)
    (hab : a ≠ b) (i : Nat) : dirCount (t a) i + dirCount (t b) i ≤ linkCount t i := by
  unfold linkCount
  rw [← sum_pair (f := fun d => dirCount (t d) i) hab]
  refine sum_le_sum_of_subset fun j hj => ?_
  rcases mem_insert.1 hj with rfl | hj
  · exact mem_range.2 ha
  · rw [mem_singleton.1 hj]
    exact mem_range.2 hb

/--
`fs.img` の root に `mkdir("mnt")` し（inode 22）、`mount("l.img", "/mnt")` が `idup(mnti)` で
`/mnt` を持ったまま、`unlink("/mnt")` を呼ぶ。`sys_unlink` は mount point かどうかを見ず、`/mnt` は
空なので entry を消して root の `nlink` を 1 に戻す。最後の `iput` は `ref` が 2 なので `/mnt` を
解放せず、`nlink = 0` の `/mnt` の `..` は root を指したまま残る。root を指す entry は自分の `..` と
`/mnt` の `..` の二つになり、root の `nlink` と食い違う。呼ぶ前の状態は `DirInv` を満たしている。
-/
theorem unlink_mount_point_breaks_nlink :
    ∃ s s', runList dirCall (mkfsDir fsImgFiles) [.mkdir (some ROOTINO) "mnt".toList] = .ok s ∧ DirInv s ∧
      findDirent (s.disk ROOTINO).dirents "mnt".toList = some ⟨22, "mnt".toList⟩ ∧
      sys_unlink (s.hold 22) ROOTINO "mnt".toList = .ok (s', 0) ∧
      (s'.disk 22).type = T_DIR ∧ (s'.disk 22).nlink = 0 ∧ (s'.disk 22).dotdot = ROOTINO ∧
      (s'.disk ROOTINO).nlink = 1 ∧ (s'.disk ROOTINO).nlink ≠ linkCount s'.disk ROOTINO := by
  obtain ⟨s, s', hrun, hf, hu, ht, hn, hdd, hr, h₁, h₂⟩ : ∃ s s',
      runList dirCall (mkfsDir fsImgFiles) [.mkdir (some ROOTINO) "mnt".toList] = .ok s ∧
      findDirent (s.disk ROOTINO).dirents "mnt".toList = some ⟨22, "mnt".toList⟩ ∧
      sys_unlink (s.hold 22) ROOTINO "mnt".toList = .ok (s', 0) ∧
      (s'.disk 22).type = T_DIR ∧ (s'.disk 22).nlink = 0 ∧ (s'.disk 22).dotdot = ROOTINO ∧
      (s'.disk ROOTINO).nlink = 1 ∧ dirCount (s'.disk ROOTINO) ROOTINO = 1 ∧ dirCount (s'.disk 22) ROOTINO = 1 :=
    ⟨_, _, rfl, rfl, rfl, rfl, rfl, rfl, rfl, rfl, rfl⟩
  have hi : DirInv s := (DirInv.mkfs (by decide) (by decide) (by decide)).run hrun
  refine ⟨s, s', hrun, hi, hf, hu, ht, hn, hdd, hr, fun he => ?_⟩
  -- root の `..` と `/mnt` の `..` の二つが root を指す
  have hle := dirCount_add_le_linkCount (t := s'.disk) (show ROOTINO < NINODES by decide)
    (show 22 < NINODES by decide) (by decide) ROOTINO
  omega

end Xv6
