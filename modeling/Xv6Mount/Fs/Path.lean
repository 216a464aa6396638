import Xv6Mount.Fs.Inode

/-!
# path の要素と directory の探索（`fs.c`）

C の文字列は NUL で終わる文字の列である。ここでは NUL を含まない `List Char` で表す。

* `skipelem` — path から先頭の要素を切り出す。名前は先頭 `DIRSIZ` 文字まで
* `skipelemBuf` — 同じ関数を、名前の buffer `char name[DIRSIZ]` に書くところまで
* `namecmp` — `strncmp(s, t, DIRSIZ) == 0`
* `dirlookup` — directory の中で名前の合う最初の entry を探し、その inode を `iget` する
-/

namespace Xv6

open Infra

/--
`skipelem`。先頭の `/` を飛ばして要素を一つ切り出し、その後の `/` も飛ばす。
要素がなければ `none`。`len >= DIRSIZ` なら名前は先頭 `DIRSIZ` 文字で、NUL を置かない。
-/
def skipelem (path : List Char) : Option (List Char × List Char) :=
  let p := path.dropWhile (· == '/')
  if p = [] then none
  else some ((p.dropWhile (· != '/')).dropWhile (· == '/'), (p.takeWhile (· != '/')).take DIRSIZ)

/-- `namecmp(s, t) == 0`。`strncmp` は先頭 `DIRSIZ` 文字まで、NUL で止まって比べる。 -/
def namecmp (s t : List Char) : Bool := s.take DIRSIZ == t.take DIRSIZ

/-- `dirlookup` の探索：使用中で名前の合う最初の entry。 -/
def findDirent (ents : List Dirent) (name : List Char) : Option Dirent :=
  ents.find? fun de => de.inum != 0 && namecmp name de.name

/-- `dirlookup`。directory `dp` の中の `name` の inode を `iget` して返す。なければ null。 -/
def dirlookup (fs : Fs) (dp : Nat) (name : List Char) : Except Stop (Fs × Option Nat) := do
  let d := fs.icache dp
  if d.type != T_DIR then throw (.panic "dirlookup not DIR")
  let di ← fs.readDinode d.dev d.inum
  match findDirent di.dirents name with
  | some de =>
    let (fs, ip) ← iget fs d.dev de.inum
    pure (fs, some ip)
  | none => pure (fs, none)

/-! ## `skipelem` は path を縮める -/

theorem length_dropWhile_le (p : Char → Bool) (l : List Char) : (l.dropWhile p).length ≤ l.length :=
  (List.dropWhile_suffix p).length_le

/-- 要素を切り出した残りは、元の path より短い。namex の loop はこれで止まる。 -/
theorem skipelem_length_lt {path rest name : List Char} (h : skipelem path = some (rest, name)) :
    rest.length < path.length := by
  unfold skipelem at h
  dsimp only at h
  split at h
  · cases h
  · rename_i hp
    cases h
    obtain ⟨c, cs, hcs⟩ := List.exists_cons_of_ne_nil hp
    -- 先頭の `/` を飛ばした後の一文字目は `/` でないので、要素は少なくとも一文字ある
    have hc : (c != '/') = true := by
      have := List.head_dropWhile_not (· == '/') (l := path) hp
      simp only [hcs, List.head_cons] at this
      simpa using this
    have h₁ : (path.dropWhile (· == '/')).dropWhile (· != '/') = cs.dropWhile (· != '/') := by
      rw [hcs]
      exact List.dropWhile_cons_of_pos (p := (· != '/')) hc
    have h₂ := length_dropWhile_le (· == '/') path
    have h₃ := length_dropWhile_le (· != '/') cs
    have h₄ := length_dropWhile_le (· == '/') (cs.dropWhile (· != '/'))
    rw [hcs, List.length_cons] at h₂
    rw [h₁]
    omega

/-! ## 名前の buffer

C の `skipelem` は要素を呼び出し元の `char name[DIRSIZ]` に書く。`len >= DIRSIZ` なら
先頭 `DIRSIZ` 文字を写して NUL を置かず、そうでなければ `len` 文字を写して `name[len] = 0`
とする。その後ろの byte は前のままである。`namecmp` の `strncmp` はこの buffer を NUL か
`DIRSIZ` 文字まで読むので、読まれるのは要素の先頭 `DIRSIZ` 文字である。
-/

/-- `skipelem` が `name` に書くこと。 -/
def copyName (name s : List Char) : List Char :=
  if DIRSIZ ≤ s.length then s.take DIRSIZ ++ name.drop DIRSIZ
  else (s ++ name.drop s.length).set s.length '\x00'

/-- `skipelem(path, name)`。返す path と、書いた後の名前の buffer。要素がなければ buffer は変わらない。 -/
def skipelemBuf (path name : List Char) : Option (List Char) × List Char :=
  let p := path.dropWhile (· == '/')
  if p = [] then (none, name)
  else (some ((p.dropWhile (· != '/')).dropWhile (· == '/')), copyName name (p.takeWhile (· != '/')))

section copyName

variable {name s : List Char}

theorem length_copyName (hn : name.length = DIRSIZ) : (copyName name s).length = DIRSIZ := by
  unfold copyName
  split
  · simp [hn]
    omega
  · simp [hn]
    omega

/-- buffer の先頭 `min(len, DIRSIZ)` byte は要素の先頭である。 -/
theorem take_copyName :
    (copyName name s).take (min s.length DIRSIZ) = s.take DIRSIZ := by
  unfold copyName
  split
  · rename_i h
    rw [Nat.min_eq_right h, List.take_append_of_le_length (by simp [h]), List.take_take, Nat.min_self]
  · rename_i h
    have hlt : s.length < DIRSIZ := Nat.lt_of_not_le h
    rw [Nat.min_eq_left hlt.le, List.take_set, List.take_append_of_le_length le_rfl,
      List.take_length, List.take_of_length_le hlt.le, List.set_eq_of_length_le le_rfl]

/-- 要素が `DIRSIZ` より短ければ、その直後に NUL を置く。 -/
theorem getElem?_copyName (hn : name.length = DIRSIZ) (hs : s.length < DIRSIZ) :
    (copyName name s)[s.length]? = some '\x00' := by
  unfold copyName
  rw [if_neg (Nat.not_le.mpr hs), List.getElem?_set_self]
  simp [hn]
  omega

end copyName

/-! ## `dirlookup` の結果 -/

section dirlookup

variable {fs fs' : Fs} {dp : Nat} {name : List Char} {r : Nat}

/-- 見つからなければ状態は変わらない。見つかれば、その inode を `iget` した状態である。 -/
theorem dirlookup_cases {res : Option Nat} (h : dirlookup fs dp name = .ok (fs', res)) :
    (fs.icache dp).type = T_DIR ∧ ∃ di, fs.readDinode (fs.icache dp).dev (fs.icache dp).inum = .ok di ∧
      ((findDirent di.dirents name = none ∧ res = none ∧ fs' = fs) ∨
       (∃ de r, findDirent di.dirents name = some de ∧ res = some r ∧
          iget fs (fs.icache dp).dev de.inum = .ok (fs', r))) := by
  unfold dirlookup at h
  dsimp only at h
  split at h
  · cases h
  · rename_i ht
    refine ⟨by simpa using ht, ?_⟩
    obtain ⟨di, hdi, h⟩ := bind_eq_ok.mp h
    refine ⟨di, hdi, ?_⟩
    split at h
    · rename_i de hde
      obtain ⟨⟨fs₁, r⟩, hg, h⟩ := bind_eq_ok.mp h
      cases h
      exact .inr ⟨de, r, hde, rfl, hg⟩
    · rename_i hde
      cases h
      exact .inl ⟨hde, rfl, rfl⟩

/-- 先頭 `DIRSIZ` 文字が同じ名前は、同じ entry を引く。 -/
theorem dirlookup_congr_take {a b : List Char} (h : a.take DIRSIZ = b.take DIRSIZ) :
    dirlookup fs dp a = dirlookup fs dp b := by
  simp only [dirlookup, findDirent, namecmp, h]

end dirlookup

end Xv6
