import Xv6Mount.Mount.Table

/-!
# path の解決（`namex`）

`namex` は path の要素を `skipelem` で一つずつ切り出し、directory を一段ずつ下りる。
一段の間に、mount をまたぐ処理が二つ入る。

* 今の inode が loop device の root で要素が `..` なら、その device の mount point
  （`getmntpnt`）へ移ってから `..` を探す
* 見つけた inode が mount point（`mntlookup`）なら、mount された device の root に置き換える

loop の一回りを `namexStep` とし、loop を `namexLoop` とする。C の loop は path が
縮むので必ず終わる。`namexLoop` は fuel で回し、`namex` は `path.length + 1` を渡す。
それで足りることは `namexLoop_fuel` で示す。
-/

namespace Xv6

open Infra

/-- namex の loop の一回りの結果：次の要素へ進むか、`namex` が返るか。 -/
inductive NamexStep where
  | next (s : Sys) (ip : Nat)
  | done (s : Sys) (r : Option Nat)

/-- 要素 `..` の文字列。 -/
def dotdot : List Char := ['.', '.']

/--
`..` で loop device の root から mount point へ移る。`getmntpnt` が null を返すと
`idup(0)` の後の `ilock(0)` が "ilock" で panic する。
-/
def crossUp (g : Gmnt) (fs : Fs) (ip : Nat) : Except Stop (Fs × Nat) := do
  let some mnti ← getmntpnt g (fs.icache ip).dev | throw (.panic "ilock")
  let fs := idup fs mnti
  let fs ← iunlock fs ip
  let fs ← iput fs ip
  let fs ← ilock fs mnti
  if (fs.icache mnti).type != T_DIR then throw (.panic "dirlookup not DIR")
  pure (fs, mnti)

/-- 見つけた inode `next` が mount point なら、mount された device の root に置き換える。 -/
def crossDown (g : Gmnt) (fs : Fs) (next : Nat) : Except Stop (Gmnt × Fs × Nat) := do
  let (g, nextmp) ← mntlookup g next
  match nextmp with
  | some m =>
    let fs ← iput fs next
    let (fs, next) ← iget fs (g.gmnttable m).devno ROOTINO
    pure (mntput g m, fs, next)
  | none => pure (g, fs, next)

/-- 今の inode が loop device の root で要素が `..` なら、mount point へ移る。 -/
def climbDotdot (g : Gmnt) (fs : Fs) (ip : Nat) (name : List Char) : Except Stop (Fs × Nat) :=
  if isloopdev (fs.icache ip).dev && (fs.icache ip).inum == ROOTINO && namecmp name dotdot then
    crossUp g fs ip
  else .ok (fs, ip)

/-- 一回りの後半：`name` を探し、mount point なら下って、今の inode を放す。 -/
def descend (s : Sys) (fs : Fs) (ip : Nat) (name : List Char) : Except Stop NamexStep := do
  let (fs, next) ← dirlookup fs ip name
  let some next := next | do
    let fs ← iunlockput fs ip
    return .done { s with fs := fs } none
  let (g, fs, next) ← crossDown s.gmnt fs next
  let fs ← iunlockput fs ip
  return .next { s with fs := fs, gmnt := g } next

/-- namex の loop の一回り。`path` は要素を切り出した残り、`name` はその要素。 -/
def namexStep (nameiparent : Bool) (s : Sys) (ip : Nat) (path name : List Char) :
    Except Stop NamexStep := do
  let fs ← ilock s.fs ip
  if (fs.icache ip).type != T_DIR then
    let fs ← iunlockput fs ip
    return .done { s with fs := fs } none
  if nameiparent && path.isEmpty then
    let fs ← iunlock fs ip
    return .done { s with fs := fs } (some ip)
  let (fs, ip) ← climbDotdot s.gmnt fs ip name
  descend s fs ip name

/-- namex の loop。要素がなくなれば今の inode を返す（`nameiparent` なら `iput` して null）。 -/
def namexLoop (nameiparent : Bool) : Nat → Sys → Nat → List Char → List Char →
    Except Stop (Sys × Option Nat × List Char)
  | 0, _, _, _, _ => .error .hang
  | fuel + 1, s, ip, path, name =>
    match skipelem path with
    | none =>
      if nameiparent then do
        let fs ← iput s.fs ip
        pure ({ s with fs := fs }, none, name)
      else pure (s, some ip, name)
    | some (rest, name) => do
      match ← namexStep nameiparent s ip rest name with
      | .done s r => pure (s, r, name)
      | .next s ip => namexLoop nameiparent fuel s ip rest name

/-- namex の始めの inode。絶対 path なら root の inode を `iget`、相対 path なら cwd を `idup` する。 -/
def namexStart (fs : Fs) (cwd : Nat) (path : List Char) : Except Stop (Fs × Nat) :=
  if path.head? = some '/' then iget fs ROOTDEV ROOTINO else .ok (idup fs cwd, cwd)

/--
`namex`。絶対 path は root の inode から、相対 path は呼んだ process の cwd から始める。
結果の inode と、`nameiparent` のときの最後の要素を返す。
-/
def namex (s : Sys) (cwd : Nat) (path : List Char) (nameiparent : Bool) :
    Except Stop (Sys × Option Nat × List Char) := do
  let (fs, ip) ← namexStart s.fs cwd path
  namexLoop nameiparent (path.length + 1) { s with fs := fs } ip path []

/-- `namei`。 -/
def namei (s : Sys) (cwd : Nat) (path : List Char) : Except Stop (Sys × Option Nat) :=
  (namex s cwd path false).map fun r => (r.1, r.2.1)

/-- `nameiparent`。親の directory と最後の要素を返す。 -/
def nameiparent (s : Sys) (cwd : Nat) (path : List Char) : Except Stop (Sys × Option Nat × List Char) :=
  namex s cwd path true

/-! ## 参照の収支

namex は始めに一つの参照を取り、一段ごとにそれを次の inode へ移す。返るときは、結果の
inode に一つ残すか、失敗なら放す。mount の表は `mntlookup` の `mntdup` を `mntput` で
戻すので変わらない。どれも状態に何の仮定も置かずに成り立つ。
-/

/-- 結果の inode が持つ一つの参照。null なら何もない。 -/
def refOf : Option Nat → Nat → Int
  | some ip => Pi.single ip 1
  | none => 0

section refs

variable {fs fs' : Fs} {g g' : Gmnt}

theorem dirlookup_refs {dp : Nat} {name : List Char} {r : Option Nat}
    (h : dirlookup fs dp name = .ok (fs', r)) :
    fs'.refs = fs.refs + refOf r ∧ fs'.loopdevtable = fs.loopdevtable := by
  obtain ⟨-, di, -, ⟨-, rfl, rfl⟩ | ⟨de, r, -, rfl, hg⟩⟩ := dirlookup_cases h
  · exact ⟨by simp [refOf], rfl⟩
  · obtain ⟨-, hr, -, -, hlt⟩ := iget_spec hg
    exact ⟨hr, hlt⟩

/-- `..` で上る段は、参照を今の inode から mount point へ移す。 -/
theorem crossUp_refs {ip m : Nat} (h : crossUp g fs ip = .ok (fs', m)) :
    fs'.refs = fs.refs + Pi.single m 1 - Pi.single ip 1 ∧ fs'.loopdevtable = fs.loopdevtable := by
  unfold crossUp at h
  obtain ⟨mp, -, h⟩ := bind_eq_ok.mp h
  cases mp with
  | none => cases h
  | some mnti =>
    obtain ⟨fs₁, h₁, h⟩ := bind_eq_ok.mp h
    obtain ⟨fs₂, h₂, h⟩ := bind_eq_ok.mp h
    obtain ⟨fs₃, h₃, h⟩ := bind_eq_ok.mp h
    obtain ⟨hr₁, -, -, hl₁⟩ := iunlock_spec h₁
    obtain ⟨hr₂, -, hl₂⟩ := iput_spec h₂
    obtain ⟨hr₃, -, -, hl₃⟩ := ilock_spec h₃
    split at h
    · cases h
    · cases h
      refine ⟨?_, by rw [hl₃, hl₂, hl₁, idup_loopdevtable]⟩
      rw [hr₃, hr₂, hr₁, idup_refs]

/-- mount point を下る段は、参照を mount point から mount された device の root へ移す。 -/
theorem crossDown_refs {next next' : Nat} (h : crossDown g fs next = .ok (g', fs', next')) :
    g' = g ∧ fs'.refs = fs.refs - Pi.single next 1 + Pi.single next' 1 ∧
      fs'.loopdevtable = fs.loopdevtable := by
  unfold crossDown at h
  obtain ⟨⟨g₁, mp⟩, hm, h⟩ := bind_eq_ok.mp h
  obtain ⟨-, ⟨rfl, hg⟩ | ⟨m, rfl, hg⟩⟩ := mntlookup_cases hm <;> rw [hg] at h
  · obtain ⟨rfl, rfl, rfl⟩ : g = g' ∧ fs = fs' ∧ next = next' := by simpa using h
    exact ⟨rfl, by abel, rfl⟩
  · obtain ⟨fs₁, h₁, h⟩ := bind_eq_ok.mp h
    obtain ⟨⟨fs₂, r⟩, h₂, h⟩ := bind_eq_ok.mp h
    cases h
    obtain ⟨hr₁, -, hl₁⟩ := iput_spec h₁
    obtain ⟨-, hr₂, -, -, hl₂⟩ := iget_spec h₂
    exact ⟨mntput_mntdup g m, by rw [hr₂, hr₁], by rw [hl₂, hl₁]⟩

/-- `..` の段は、参照を今の inode から移った先へ移す。移らなければ何もしない。 -/
theorem climbDotdot_refs {ip ip' : Nat} {name : List Char} (h : climbDotdot g fs ip name = .ok (fs', ip')) :
    fs'.refs = fs.refs - Pi.single ip 1 + Pi.single ip' 1 ∧ fs'.loopdevtable = fs.loopdevtable := by
  unfold climbDotdot at h
  split at h
  · obtain ⟨hr, hl⟩ := crossUp_refs h
    exact ⟨by rw [hr]; abel, hl⟩
  · cases h
    exact ⟨by abel, rfl⟩

/-- 一回りの結果の状態。 -/
def NamexStep.state : NamexStep → Sys
  | .next s _ => s
  | .done s _ => s

/-- 一回りの後で namex が参照を持つ inode。 -/
def NamexStep.held : NamexStep → Option Nat
  | .next _ ip => some ip
  | .done _ r => r

/-- namex が変えない表：mount の表、`is_loop_mounted`、loop device の表。 -/
def Sys.SameTables (s s' : Sys) : Prop :=
  s'.gmnt = s.gmnt ∧ s'.is_loop_mounted = s.is_loop_mounted ∧ s'.fs.loopdevtable = s.fs.loopdevtable

theorem Sys.SameTables.trans {s₁ s₂ s₃ : Sys} (h₁ : s₁.SameTables s₂) (h₂ : s₂.SameTables s₃) :
    s₁.SameTables s₃ :=
  ⟨h₂.1.trans h₁.1, h₂.2.1.trans h₁.2.1, h₂.2.2.trans h₁.2.2⟩

variable {s : Sys} {ip : Nat} {name : List Char} {st : NamexStep}

theorem descend_refs (h : descend s fs ip name = .ok st) :
    st.state.gmnt = s.gmnt ∧ st.state.is_loop_mounted = s.is_loop_mounted ∧
      st.state.fs.loopdevtable = fs.loopdevtable ∧
      st.state.fs.refs = fs.refs - Pi.single ip 1 + refOf st.held := by
  unfold descend at h
  obtain ⟨⟨fs₁, next⟩, h₁, h⟩ := bind_eq_ok.mp h
  obtain ⟨hr₁, hl₁⟩ := dirlookup_refs h₁
  cases next with
  | none =>
    -- 名前が見つからない：今の inode を放して null を返す
    obtain ⟨fs₂, h₂, h⟩ := bind_eq_ok.mp h
    cases h
    obtain ⟨hr₂, -, hl₂⟩ := iunlockput_spec h₂
    refine ⟨rfl, rfl, by rw [NamexStep.state, hl₂, hl₁], ?_⟩
    rw [NamexStep.state, NamexStep.held, hr₂, hr₁]
    simp [refOf]
  | some next =>
    obtain ⟨⟨g, fs₂, next'⟩, h₂, h⟩ := bind_eq_ok.mp h
    obtain ⟨fs₃, h₃, h⟩ := bind_eq_ok.mp h
    cases h
    obtain ⟨rfl, hr₂, hl₂⟩ := crossDown_refs h₂
    obtain ⟨hr₃, -, hl₃⟩ := iunlockput_spec h₃
    refine ⟨rfl, rfl, by rw [NamexStep.state, hl₃, hl₂, hl₁], ?_⟩
    rw [NamexStep.state, NamexStep.held, hr₃, hr₂, hr₁]
    simp only [refOf]
    abel

/-- **一回りの収支。** 今の inode の参照を放し、一回りの後に持つ inode に一つ残す。 -/
theorem namexStep_refs {np : Bool} {path : List Char} (h : namexStep np s ip path name = .ok st) :
    s.SameTables st.state ∧ st.state.fs.refs = s.fs.refs - Pi.single ip 1 + refOf st.held := by
  unfold namexStep at h
  obtain ⟨fs₁, h₁, h⟩ := bind_eq_ok.mp h
  obtain ⟨hr₁, -, -, hl₁⟩ := ilock_spec h₁
  split at h
  · -- directory でない
    obtain ⟨fs₂, h₂, h⟩ := bind_eq_ok.mp h
    cases h
    obtain ⟨hr₂, -, hl₂⟩ := iunlockput_spec h₂
    refine ⟨⟨rfl, rfl, by rw [NamexStep.state, hl₂, hl₁]⟩, ?_⟩
    rw [NamexStep.state, NamexStep.held, hr₂, hr₁]
    simp [refOf]
  · split at h
    · -- `nameiparent` で最後の要素の手前に来た
      obtain ⟨fs₂, h₂, h⟩ := bind_eq_ok.mp h
      cases h
      obtain ⟨hr₂, -, -, hl₂⟩ := iunlock_spec h₂
      refine ⟨⟨rfl, rfl, by rw [NamexStep.state, hl₂, hl₁]⟩, ?_⟩
      rw [NamexStep.state, NamexStep.held, hr₂, hr₁]
      simp [refOf]
    · obtain ⟨⟨fs₂, ip₂⟩, h₂, h⟩ := bind_eq_ok.mp h
      obtain ⟨hr₂, hl₂⟩ := climbDotdot_refs h₂
      obtain ⟨hg, hm, hl, hr⟩ := descend_refs h
      refine ⟨⟨hg, hm, by rw [hl, hl₂, hl₁]⟩, ?_⟩
      rw [hr, hr₂, hr₁]
      abel

/-- **loop の収支。** loop に入るときの inode の参照を放し、結果の inode に一つ残す。 -/
theorem namexLoop_refs {np : Bool} :
    ∀ {fuel : Nat} {s : Sys} {ip : Nat} {path name : List Char} {s' : Sys} {r : Option Nat}
      {name' : List Char},
    namexLoop np fuel s ip path name = .ok (s', r, name') →
    s.SameTables s' ∧ s'.fs.refs = s.fs.refs - Pi.single ip 1 + refOf r
  | 0, _, _, _, _, _, _, _, h => by cases h
  | fuel + 1, s, ip, path, name, s', r, name', h => by
    unfold namexLoop at h
    split at h
    · -- 要素が残っていない
      split at h
      · obtain ⟨fs₁, h₁, h⟩ := bind_eq_ok.mp h
        cases h
        obtain ⟨hr₁, -, hl₁⟩ := iput_spec h₁
        exact ⟨⟨rfl, rfl, hl₁⟩, by rw [hr₁]; simp [refOf]⟩
      · cases h
        exact ⟨⟨rfl, rfl, rfl⟩, by simp only [refOf]; abel⟩
    · rename_i rest nm _
      obtain ⟨st, hst, h⟩ := bind_eq_ok.mp h
      obtain ⟨hs, hr⟩ := namexStep_refs hst
      cases st with
      | done s₁ r₁ =>
        cases h
        exact ⟨hs, hr⟩
      | next s₁ ip₁ =>
        -- 次の inode から、残りの path で loop を回す
        obtain ⟨hs', hr'⟩ := namexLoop_refs h
        refine ⟨hs.trans hs', ?_⟩
        rw [hr', show s₁ = (NamexStep.next s₁ ip₁).state from rfl, hr]
        simp only [NamexStep.held, refOf]
        abel

/--
**namex の参照の収支。** 成功して返るとき、結果の inode に参照を一つ足し（null なら何も足さず）、
ほかの slot の参照、mount の表、`is_loop_mounted`、loop device の表は変えない。
-/
theorem namex_refs {s s' : Sys} {cwd : Nat} {path name : List Char} {np : Bool} {r : Option Nat}
    (h : namex s cwd path np = .ok (s', r, name)) :
    s.SameTables s' ∧ s'.fs.refs = s.fs.refs + refOf r := by
  unfold namex at h
  obtain ⟨⟨fs₁, ip⟩, h₁, h⟩ := bind_eq_ok.mp h
  obtain ⟨hs, hr⟩ := namexLoop_refs h
  -- 始めの inode の参照は、root なら `iget`、cwd なら `idup` で取る
  have h₀ : fs₁.refs = s.fs.refs + Pi.single ip 1 ∧ fs₁.loopdevtable = s.fs.loopdevtable := by
    unfold namexStart at h₁
    split at h₁
    · obtain ⟨-, hr₁, -, -, hl₁⟩ := iget_spec h₁
      exact ⟨hr₁, hl₁⟩
    · cases h₁
      exact ⟨idup_refs, rfl⟩
  refine ⟨(show s.SameTables { s with fs := fs₁ } from ⟨rfl, rfl, h₀.2⟩).trans hs, ?_⟩
  rw [hr]
  simp only [h₀.1]
  abel

/-- `namei` の収支。 -/
theorem namei_refs {s s' : Sys} {cwd : Nat} {path : List Char} {r : Option Nat}
    (h : namei s cwd path = .ok (s', r)) : s.SameTables s' ∧ s'.fs.refs = s.fs.refs + refOf r := by
  unfold namei at h
  cases hx : namex s cwd path false with
  | error e => rw [hx] at h; cases h
  | ok x =>
    rw [hx] at h
    cases h
    exact namex_refs hx

end refs

/-! ## fuel は足りる -/

/-- path の長さより多い fuel なら、fuel をいくら足しても結果は同じである。 -/
theorem namexLoop_fuel (np : Bool) :
    ∀ (fuel fuel' : Nat) (s : Sys) (ip : Nat) (path name : List Char),
    path.length < fuel → path.length < fuel' →
    namexLoop np fuel s ip path name = namexLoop np fuel' s ip path name
  | 0, _, _, _, _, _, h, _ => absurd h (Nat.not_lt_zero _)
  | _ + 1, 0, _, _, _, _, _, h => absurd h (Nat.not_lt_zero _)
  | fuel + 1, fuel' + 1, s, ip, path, name, h, h' => by
    simp only [namexLoop]
    cases hp : skipelem path with
    | none => rfl
    | some rn =>
      obtain ⟨rest, name'⟩ := rn
      -- 一回りで path は縮むので、残りの fuel でも足りる
      have hr := skipelem_length_lt hp
      dsimp only
      congr 1
      funext st
      cases st with
      | done s r => rfl
      | next s ip => exact namexLoop_fuel np fuel fuel' s ip rest name' (by omega) (by omega)

end Xv6
