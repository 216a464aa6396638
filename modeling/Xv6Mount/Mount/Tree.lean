import Mathlib.Data.List.TakeWhile
import Xv6Mount.Fs.Namex

/-!
# mount された木の上の path の解決

icache を離れて、path の解決が何をするはずかを書く。inode は位置 `(dev, inum)` で指す。
木 `MountTree` は各位置の dinode と、mount の組 `(devno, mount point)` の列を持つ。
一つの device は一か所にしか mount されず、一つの directory には一つしか mount されない
（`devno_nodup`・`mntpnt_nodup`）。このとき mount は device と mount point の間の部分的な
一対一対応であり、`..` の意味が決まる。

path は `skipelem` で要素の列 `elems` に切る。要素ごとに `MountTree.step` で一段進む。

* 今の位置が loop device の root で要素が `..` なら、その device の mount point で `..` を探す
* 見つけた位置に device が mount されていれば、その device の root へ移る
-/

namespace Xv6

/-- path の要素の列。`skipelem` を path がなくなるまで繰り返す。 -/
def elems (path : List Char) : List (List Char) :=
  match _h : skipelem path with
  | none => []
  | some (rest, name) => name :: elems rest
termination_by path.length
decreasing_by exact skipelem_length_lt _h

theorem elems_of_none {path : List Char} (h : skipelem path = none) : elems path = [] := by
  rw [elems]
  split <;> simp_all

theorem elems_of_some {path rest name : List Char} (h : skipelem path = some (rest, name)) :
    elems path = name :: elems rest := by
  rw [elems]
  split <;> simp_all

/-! ## path の要素

path の要素は、`/` を含まない極大な連なりである。`path.splitOn '/'` から空の断片を除いたもの
（`components`）と書く。`skipelem` は先頭の `/` の連なりを飛ばして次の連なりを切り出し、
後ろの `/` の連なりも飛ばす。`components` の側では、`/` を一つ飛ばしても要素は変わらず
（`components_cons_slash`）、先頭の連なりの後ろで切れる（`components_of_ne_slash`）。
この二つから、`skipelem` の一回が要素を一つ取ることが出る（`components_skipelem`）。
-/

/-- path の要素。`/` で切った断片のうち空でないもの。 -/
def components (path : List Char) : List (List Char) :=
  (path.splitOn '/').filter fun c => !c.isEmpty

/-- `path = skipelem(path, name)` の一回。0 が返った後は 0 のままである。 -/
def skipelemStep (o : Option (List Char)) : Option (List Char) :=
  o.bind fun path => (skipelem path).map Prod.fst

@[simp] theorem components_nil : components [] = [] := rfl

theorem components_cons_slash (l : List Char) : components ('/' :: l) = components l := by
  simp [components, List.splitOn_cons_eq_if_modifyHead]

theorem components_dropWhile (l : List Char) : components (l.dropWhile (· == '/')) = components l := by
  induction l with
  | nil => rfl
  | cons c l ih =>
    by_cases hc : c = '/'
    · subst hc
      rw [List.dropWhile_cons_of_pos (by simp), ih, components_cons_slash]
    · rw [List.dropWhile_cons_of_neg (by simpa using hc)]

/-- 先頭が `/` でない path の要素は、先頭の連なりと、その後ろの要素である。 -/
theorem components_of_ne_slash {c : Char} {l : List Char} (hc : c ≠ '/') :
    components (c :: l) =
      (c :: l).takeWhile (· != '/') :: components ((c :: l).dropWhile (· != '/')) := by
  have hsr := (List.takeWhile_append_dropWhile (p := (· != '/')) (l := c :: l)).symm
  have hs : '/' ∉ (c :: l).takeWhile (· != '/') := fun h => by
    simpa using List.mem_takeWhile_imp h
  have hne : ((c :: l).takeWhile (· != '/')).isEmpty = false := by
    simp [hc]
  obtain ⟨s, hs_eq⟩ : ∃ s, (c :: l).takeWhile (· != '/') = s := ⟨_, rfl⟩
  rw [hs_eq] at hsr hs hne ⊢
  cases hr : (c :: l).dropWhile (· != '/') with
  | nil =>
    rw [hr, List.append_nil] at hsr
    rw [hsr, components, List.splitOn_eq_singleton hs]
    simp [hne]
  | cons d r =>
    -- 連なりの直後の文字は `/` である
    have hd : d = '/' := by
      have := List.head_dropWhile_not (· != '/') (l := c :: l) (by simp [hr])
      simpa [hr] using this
    subst hd
    rw [hr] at hsr
    rw [hsr, components_cons_slash, components, List.splitOn_append_cons_self_of_not_mem hs]
    simp [hne, components]

/-- `skipelem` が要素を返さないのは、path に要素がないときである。 -/
theorem skipelem_eq_none_iff {path : List Char} : skipelem path = none ↔ components path = [] := by
  rw [← components_dropWhile]
  unfold skipelem
  dsimp only
  cases hp : path.dropWhile (· == '/') with
  | nil => simp
  | cons c l =>
    have hc : c ≠ '/' := by
      have := List.head_dropWhile_not (· == '/') (l := path) (by simp [hp])
      simpa [hp] using this
    simp [components_of_ne_slash hc]

/-- `skipelem` は先頭の要素を切り出し、返す path の要素は残りの要素である。 -/
theorem components_skipelem {path rest name : List Char} (h : skipelem path = some (rest, name)) :
    ∃ c, components path = c :: components rest ∧ name = c.take DIRSIZ ∧ rest.head? ≠ some '/' ∧
      ∀ buf, skipelemBuf path buf = (some rest, copyName buf c) := by
  rw [← components_dropWhile]
  unfold skipelem at h
  unfold skipelemBuf
  dsimp only at h ⊢
  cases hp : path.dropWhile (· == '/') with
  | nil => simp [hp] at h
  | cons c l =>
    have hc : c ≠ '/' := by
      have := List.head_dropWhile_not (· == '/') (l := path) (by simp [hp])
      simpa [hp] using this
    simp only [hp, reduceCtorEq, if_false, Option.some.injEq, Prod.mk.injEq] at h
    obtain ⟨rfl, rfl⟩ := h
    refine ⟨(c :: l).takeWhile (· != '/'), ?_, rfl, ?_, fun buf => by simp⟩
    · rw [components_of_ne_slash hc, components_dropWhile]
    · -- `/` の連なりを飛ばした後の先頭は `/` でない
      cases hr : ((c :: l).dropWhile (· != '/')).dropWhile (· == '/') with
      | nil => simp
      | cons d r =>
        have := List.head_dropWhile_not (· == '/') (l := (c :: l).dropWhile (· != '/')) (by simp [hr])
        simpa [hr] using this

/-- **`elems` は path の要素を順に、先頭 `DIRSIZ` 文字にして並べる。** -/
theorem elems_eq_components (path : List Char) : elems path = (components path).map (·.take DIRSIZ) := by
  induction path using elems.induct with
  | case1 path h =>
    rw [elems_of_none h, skipelem_eq_none_iff.mp h, List.map_nil]
  | case2 path rest name h ih =>
    obtain ⟨c, hc, rfl, -, -⟩ := components_skipelem h
    rw [elems_of_some h, ih, hc, List.map_cons]

/-- `skipelem` を繰り返すと、要素の数だけ path を返し、その次に 0 を返す。 -/
theorem skipelemStep_iterate (k : Nat) (path : List Char) :
    (skipelemStep^[k] (some path)).isSome ↔ k ≤ (components path).length := by
  induction k generalizing path with
  | zero => simp
  | succ k ih =>
    rw [Function.iterate_succ_apply]
    cases h : skipelem path with
    | none =>
      -- 0 が返った後は 0 のまま
      have hnone : ∀ j, skipelemStep^[j] none = none := fun j => by
        induction j with
        | zero => rfl
        | succ j ihj => rw [Function.iterate_succ_apply]; exact ihj
      simp [skipelemStep, h, hnone, skipelem_eq_none_iff.mp h]
    | some p =>
      obtain ⟨rest, name⟩ := p
      obtain ⟨c, hc, -⟩ := components_skipelem h
      simp [skipelemStep, h, ih rest, hc]

/-- path に要素がないのは、`/` しかないときである。 -/
theorem components_eq_nil_iff {path : List Char} : components path = [] ↔ ∀ c ∈ path, c = '/' := by
  rw [← components_dropWhile]
  cases hp : path.dropWhile (· == '/') with
  | nil => simpa using List.dropWhile_eq_nil_iff.mp hp
  | cons c l =>
    have hc : c ≠ '/' := by
      have := List.head_dropWhile_not (· == '/') (l := path) (by simp [hp])
      simpa [hp] using this
    rw [components_of_ne_slash hc]
    simp only [reduceCtorEq, false_iff, not_forall]
    -- `c` は `/` を飛ばした後に残った文字なので、path の文字である
    have hmem : c ∈ path := (List.dropWhile_suffix (· == '/')).subset (by simp [hp])
    exact ⟨c, hmem, hc⟩

/--
**`skipelem` は path を要素に切る。**

繰り返すと要素の数だけ path を返して 0 で止まり、`elems` は要素を順に先頭 `DIRSIZ` 文字にして
並べる。0 を返すのは `/` しか残っていないときで、返す path の先頭は `/` でない。名前の buffer の
先頭 `min(len, DIRSIZ)` 文字は要素の先頭で、`DIRSIZ` より短ければその直後が NUL である。
先頭 `DIRSIZ` 文字が同じ名前は、`dirlookup` で同じ entry を引く。
-/
theorem skipelem_splits_path (path : List Char) :
    (∀ k, (skipelemStep^[k] (some path)).isSome ↔ k ≤ (components path).length) ∧
    elems path = (components path).map (·.take DIRSIZ) ∧
    (skipelem path = none ↔ ∀ c ∈ path, c = '/') ∧
    (∀ rest name, skipelem path = some (rest, name) → rest.head? ≠ some '/') ∧
    (∀ c cs name, components path = c :: cs → name.length = DIRSIZ →
      ∃ rest, components rest = cs ∧ skipelemBuf path name = (some rest, copyName name c) ∧
        (copyName name c).length = DIRSIZ ∧
        (copyName name c).take (min c.length DIRSIZ) = c.take DIRSIZ ∧
        (c.length < DIRSIZ → (copyName name c)[c.length]? = some '\x00')) ∧
    ∀ (fs : Fs) (dp : Nat) (a b : List Char), a.take DIRSIZ = b.take DIRSIZ →
      dirlookup fs dp a = dirlookup fs dp b := by
  refine ⟨fun k => skipelemStep_iterate k path, elems_eq_components path,
    skipelem_eq_none_iff.trans components_eq_nil_iff, fun rest name h => ?_, ?_,
    fun fs dp a b h => dirlookup_congr_take h⟩
  · obtain ⟨-, -, -, hhead, -⟩ := components_skipelem h
    exact hhead
  · intro c cs name hc hn
    -- 要素があるので `skipelem` は要素を返す
    obtain ⟨⟨rest, nm⟩, h⟩ : ∃ p, skipelem path = some p :=
      Option.ne_none_iff_exists'.mp fun h => by simp [skipelem_eq_none_iff.mp h] at hc
    obtain ⟨c', hc', -, -, hbuf⟩ := components_skipelem h
    rw [hc, List.cons.injEq] at hc'
    obtain ⟨rfl, rfl⟩ := hc'
    exact ⟨rest, rfl, hbuf name, length_copyName hn, take_copyName, getElem?_copyName hn⟩

-- `fs.c` の注釈の例
example : skipelem "a/bb/c".toList = some ("bb/c".toList, "a".toList) := by decide
example : skipelem "///a//bb".toList = some ("bb".toList, "a".toList) := by decide
example : skipelem "a".toList = some ([], "a".toList) := by decide
example : skipelem [] = none ∧ skipelem "////".toList = none := by decide

-- `usertests` の `fourteen`：15 文字の要素は 14 文字の要素と同じ名前になる
example : elems "123456789012345/123456789012345/123456789012345".toList =
    elems "12345678901234/12345678901234/12345678901234".toList := by
  rw [elems_eq_components, elems_eq_components]
  decide
example : elems "123456789012345/12345678901234".toList = elems "12345678901234/123456789012345".toList := by
  rw [elems_eq_components, elems_eq_components]
  decide

/-- mount された木。`mounts` は `(devno, mount point)` の列である。 -/
structure MountTree where
  node : Nat × Nat → Dinode
  mounts : List (Nat × (Nat × Nat))
  devno_nodup : (mounts.map Prod.fst).Nodup
  mntpnt_nodup : (mounts.map Prod.snd).Nodup

namespace MountTree

variable (T : MountTree)

/-- device `d` の mount point。 -/
def mountPoint (d : Nat) : Option (Nat × Nat) := (T.mounts.find? (·.1 == d)).map (·.2)

/-- 位置 `loc` に mount された device。 -/
def mountedAt (loc : Nat × Nat) : Option Nat := (T.mounts.find? (·.2 == loc)).map (·.1)

/-- 列の中の組は、その device の mount point を与える。 -/
theorem mountPoint_of_mem {d : Nat} {loc : Nat × Nat} (h : (d, loc) ∈ T.mounts) :
    T.mountPoint d = some loc := by
  unfold mountPoint
  obtain ⟨x, hx, hp⟩ : ∃ x, T.mounts.find? (·.1 == d) = some x ∧ x.1 = d := by
    cases hf : T.mounts.find? (·.1 == d) with
    | none => exact absurd (List.find?_eq_none.mp hf _ h) (by simp)
    | some x => exact ⟨x, rfl, by simpa using List.find?_some hf⟩
  rw [hx]
  -- `devno` は重ならないので、見つかった組は `(d, loc)` である
  have hmem := List.mem_of_find?_eq_some hx
  have := List.inj_on_of_nodup_map T.devno_nodup hmem h (by simpa using hp)
  simp [this]

/-! ## 一段ずつの解決

namex の loop の一回りに合わせて、一段を三つに分ける。`..` で mount point へ上る `climb`、
directory の中で名前を探す `lookup`、見つけた位置が mount point なら下る `enter` である。
-/

/-- loop device の root での `..` は、その device の mount point から探す。 -/
def climb (cur : Nat × Nat) (name : List Char) : Option (Nat × Nat) :=
  if isloopdev cur.1 && cur.2 == ROOTINO && namecmp name dotdot then T.mountPoint cur.1 else some cur

/-- 位置 `loc` に device が mount されていれば、その root へ下る。 -/
def enter (loc : Nat × Nat) : Nat × Nat :=
  match T.mountedAt loc with
  | some d => (d, ROOTINO)
  | none => loc

/-- directory `base` の中で `name` を探す。 -/
def lookup (base : Nat × Nat) (name : List Char) : Option (Nat × Nat) :=
  if (T.node base).type != T_DIR then none
  else (findDirent (T.node base).dirents name).map fun de => T.enter (base.1, de.inum)

/-- directory `cur` から要素 `name` を一段進む。directory でなければ進めない。 -/
def step (cur : Nat × Nat) (name : List Char) : Option (Nat × Nat) :=
  if (T.node cur).type != T_DIR then none else (T.climb cur name).bind (T.lookup · name)

/-- 要素の列をたどる。 -/
def resolve : Nat × Nat → List (List Char) → Option (Nat × Nat)
  | cur, [] => some cur
  | cur, name :: rest => (T.step cur name).bind (resolve · rest)

end MountTree

end Xv6
